/-! The 128-bit variant of the hash XXH3 under seed 0 and its standard secret. Messages are hashed
in one of seven ways by their length: none, up to 3, 8, 16, 128 and 240 bytes, and beyond that in
stripes of 64 bytes, sixteen to a block. -/
namespace RecordRelay.Hash.Xxh3

/-- The standard secret. -/
def secret : Array UInt8 := #[
  0xb8, 0xfe, 0x6c, 0x39, 0x23, 0xa4, 0x4b, 0xbe, 0x7c, 0x01, 0x81, 0x2c,
  0xf7, 0x21, 0xad, 0x1c, 0xde, 0xd4, 0x6d, 0xe9, 0x83, 0x90, 0x97, 0xdb,
  0x72, 0x40, 0xa4, 0xa4, 0xb7, 0xb3, 0x67, 0x1f, 0xcb, 0x79, 0xe6, 0x4e,
  0xcc, 0xc0, 0xe5, 0x78, 0x82, 0x5a, 0xd0, 0x7d, 0xcc, 0xff, 0x72, 0x21,
  0xb8, 0x08, 0x46, 0x74, 0xf7, 0x43, 0x24, 0x8e, 0xe0, 0x35, 0x90, 0xe6,
  0x81, 0x3a, 0x26, 0x4c, 0x3c, 0x28, 0x52, 0xbb, 0x91, 0xc3, 0x00, 0xcb,
  0x88, 0xd0, 0x65, 0x8b, 0x1b, 0x53, 0x2e, 0xa3, 0x71, 0x64, 0x48, 0x97,
  0xa2, 0x0d, 0xf9, 0x4e, 0x38, 0x19, 0xef, 0x46, 0xa9, 0xde, 0xac, 0xd8,
  0xa8, 0xfa, 0x76, 0x3f, 0xe3, 0x9c, 0x34, 0x3f, 0xf9, 0xdc, 0xbb, 0xc7,
  0xc7, 0x0b, 0x4f, 0x1d, 0x8a, 0x51, 0xe0, 0x4b, 0xcd, 0xb4, 0x59, 0x31,
  0xc8, 0x9f, 0x7e, 0xc9, 0xd9, 0x78, 0x73, 0x64, 0xea, 0xc5, 0xac, 0x83,
  0x34, 0xd3, 0xeb, 0xc3, 0xc5, 0x81, 0xa0, 0xff, 0xfa, 0x13, 0x63, 0xeb,
  0x17, 0x0d, 0xdd, 0x51, 0xb7, 0xf0, 0xda, 0x49, 0xd3, 0x16, 0x55, 0x26,
  0x29, 0xd4, 0x68, 0x9e, 0x2b, 0x16, 0xbe, 0x58, 0x7d, 0x47, 0xa1, 0xfc,
  0x8f, 0xf8, 0xb8, 0xd1, 0x7a, 0xd0, 0x31, 0xce, 0x45, 0xcb, 0x3a, 0x8f,
  0x95, 0x16, 0x04, 0x28, 0xaf, 0xd7, 0xfb, 0xca, 0xbb, 0x4b, 0x40, 0x7e]

/-- The word of four bytes at a position, the least significant first; bytes past the end are 0. -/
def word32 (data : Array UInt8) (i : Nat) : UInt32 :=
  let byte (k : Nat) : UInt32 := (data.getD (i + k) 0).toUInt32
  byte 0 ||| byte 1 <<< 8 ||| byte 2 <<< 16 ||| byte 3 <<< 24

/-- The word of eight bytes at a position, the least significant first. -/
def word64 (data : Array UInt8) (i : Nat) : UInt64 :=
  (word32 data i).toUInt64 ||| (word32 data (i + 4)).toUInt64 <<< 32

/-- The first of the three 32-bit primes of the hash. -/
def prime32A : UInt64 := 0x9E3779B1

def prime32B : UInt64 := 0x85EBCA77

def prime32C : UInt64 := 0xC2B2AE3D

/-- The first of the five 64-bit primes of the hash. -/
def prime64A : UInt64 := 0x9E3779B185EBCA87

def prime64B : UInt64 := 0xC2B2AE3D27D4EB4F

def prime64C : UInt64 := 0x165667B19E3779F9

def prime64D : UInt64 := 0x85EBCA77C2B2AE63

def prime64E : UInt64 := 0x27D4EB2F165667C5

structure Wide where
  low : UInt64
  high : UInt64

def product (a b : UInt64) : Wide :=
  let p := a.toNat * b.toNat
  ⟨UInt64.ofNat p, UInt64.ofNat (p / 0x10000000000000000)⟩

/-- The two halves of a product, combined by exclusive or. -/
def foldedProduct (a b : UInt64) : UInt64 :=
  let p := product a b
  p.low ^^^ p.high

/-- Exclusive or with the value shifted right. -/
def xorShift (value count : UInt64) : UInt64 := value ^^^ value >>> count

def avalanche (h : UInt64) : UInt64 := xorShift (xorShift h 37 * 0x165667919E3779F9) 32

def shortAvalanche (h : UInt64) : UInt64 :=
  xorShift (xorShift (xorShift h 33 * prime64B) 29 * prime64C) 32

/-- The bytes of a 32-bit word in the other order. -/
def swap32 (w : UInt32) : UInt32 :=
  w <<< 24 ||| (w &&& (0xff00 : UInt32)) <<< 8 ||| ((w >>> 8) &&& (0xff00 : UInt32)) ||| w >>> 24

def swap64 (w : UInt64) : UInt64 :=
  (swap32 w.toUInt32).toUInt64 <<< 32 ||| (swap32 (w >>> 32).toUInt32).toUInt64

def hashNone : Wide :=
  ⟨shortAvalanche (word64 secret 64 ^^^ word64 secret 72),
   shortAvalanche (word64 secret 80 ^^^ word64 secret 88)⟩

def hashTo3 (data : Array UInt8) : Wide :=
  let byte (i : Nat) : UInt32 := (data.getD i 0).toUInt32
  let low := byte 0 <<< 16 ||| byte (data.size / 2) <<< 24 ||| byte (data.size - 1)
    ||| UInt32.ofNat data.size <<< 8
  let swapped := swap32 low
  let high := swapped <<< 13 ||| swapped >>> 19
  ⟨shortAvalanche (low.toUInt64 ^^^ (word32 secret 0 ^^^ word32 secret 4).toUInt64),
   shortAvalanche (high.toUInt64 ^^^ (word32 secret 8 ^^^ word32 secret 12).toUInt64)⟩

def hashTo8 (data : Array UInt8) : Wide :=
  let input := (word32 data 0).toUInt64 ||| (word32 data (data.size - 4)).toUInt64 <<< 32
  let keyed := input ^^^ (word64 secret 16 ^^^ word64 secret 24)
  let m := product keyed (prime64A + UInt64.ofNat (4 * data.size))
  let high := m.high + (m.low <<< 1)
  let low := xorShift (m.low ^^^ high >>> 3) 35 * 0x9FB21C651E98DF25
  ⟨xorShift low 28, avalanche high⟩

def hashTo16 (data : Array UInt8) : Wide :=
  let first := word64 data 0
  let last := word64 data (data.size - 8)
  let m := product (first ^^^ last ^^^ (word64 secret 32 ^^^ word64 secret 40)) prime64A
  let low := m.low + (UInt64.ofNat (data.size - 1) <<< 54)
  let last := last ^^^ (word64 secret 48 ^^^ word64 secret 56)
  let high := m.high + last + (last &&& (0xffffffff : UInt64)) * (prime32B - 1)
  let h := product (low ^^^ swap64 high) prime64B
  ⟨avalanche h.low, avalanche (h.high + high * prime64B)⟩

/-- Sixteen bytes of input under sixteen bytes of the secret. -/
def mix16 (data : Array UInt8) (i key : Nat) : UInt64 :=
  foldedProduct (word64 data i ^^^ word64 secret key)
    (word64 data (i + 8) ^^^ word64 secret (key + 8))

/-- Two runs of sixteen bytes mixed into the accumulators under 32 bytes of the secret. -/
def mix32 (data : Array UInt8) (acc : Wide) (i j key : Nat) : Wide :=
  ⟨(acc.low + mix16 data i key) ^^^ (word64 data j + word64 data (j + 8)),
   (acc.high + mix16 data j (key + 16)) ^^^ (word64 data i + word64 data (i + 8))⟩

def finishMiddle (size : Nat) (acc : Wide) : Wide :=
  ⟨avalanche (acc.low + acc.high),
   0 - avalanche (acc.low * prime64A + acc.high * prime64D + UInt64.ofNat size * prime64B)⟩

/-- The hash of a message of 17 to 128 bytes, mixed from the middle outwards. -/
def hashTo128 (data : Array UInt8) : Wide :=
  let size := data.size
  let rounds := (List.range ((size - 1) / 32 + 1)).reverse
  finishMiddle size <| rounds.foldl
    (fun acc r => mix32 data acc (16 * r) (size - 16 * (r + 1)) (32 * r))
    ⟨UInt64.ofNat size * prime64A, 0⟩

def hashTo240 (data : Array UInt8) : Wide :=
  let size := data.size
  let early := (List.range 4).foldl
    (fun acc r => mix32 data acc (32 * r) (32 * r + 16) (32 * r))
    ⟨UInt64.ofNat size * prime64A, 0⟩
  let late := (List.range (size / 32 - 4)).foldl
    (fun acc r => mix32 data acc (32 * (r + 4)) (32 * (r + 4) + 16) (3 + 32 * r))
    ⟨avalanche early.low, avalanche early.high⟩
  finishMiddle size (mix32 data late (size - 16) (size - 32) 103)

/-- One stripe of 64 bytes added to the eight lanes. -/
def addStripe (data : Array UInt8) (i key : Nat) (lanes : List UInt64) : List UInt64 :=
  let value (k : Nat) := word64 data (i + 8 * k)
  lanes.mapIdx fun k lane =>
    let keyed := value k ^^^ word64 secret (key + 8 * k)
    let partner := value (if k % 2 = 0 then k + 1 else k - 1)
    lane + partner + (keyed &&& (0xffffffff : UInt64)) * (keyed >>> 32)

/-- The scrambling of the lanes between blocks. -/
def scramble (lanes : List UInt64) : List UInt64 :=
  lanes.mapIdx fun k lane => (xorShift lane 47 ^^^ word64 secret (128 + 8 * k)) * prime32A

/-- The lanes folded to one word, under the secret from `key` on. -/
def mergeLanes (key : Nat) (start : UInt64) (lanes : List UInt64) : UInt64 :=
  let lane (k : Nat) := lanes.getD k 0 ^^^ word64 secret (key + 8 * k)
  avalanche <| (List.range 4).foldl
    (fun sum k => sum + foldedProduct (lane (2 * k)) (lane (2 * k + 1))) start

def hashLong (data : Array UInt8) : Wide :=
  let size := data.size
  let blocks := (size - 1) / 1024
  let stripes (start count : Nat) (lanes : List UInt64) :=
    (List.range count).foldl (fun lanes s => addStripe data (start + 64 * s) (8 * s) lanes) lanes
  let lanes := (List.range blocks).foldl (fun lanes b => scramble (stripes (1024 * b) 16 lanes))
    [prime32C, prime64A, prime64B, prime64C, prime64D, prime32B, prime64E, prime32A]
  let lanes := stripes (1024 * blocks) ((size - 1 - 1024 * blocks) / 64) lanes
  let lanes := addStripe data (size - 64) 121 lanes
  ⟨mergeLanes 11 (UInt64.ofNat size * prime64A) lanes,
   mergeLanes 117 (~~~(UInt64.ofNat size * prime64B)) lanes⟩

def words (data : Array UInt8) : Wide :=
  if data.size = 0 then hashNone
  else if data.size ≤ 3 then hashTo3 data
  else if data.size ≤ 8 then hashTo8 data
  else if data.size ≤ 16 then hashTo16 data
  else if data.size ≤ 128 then hashTo128 data
  else if data.size ≤ 240 then hashTo240 data
  else hashLong data

def hash (data : Array UInt8) : BitVec 128 :=
  let h := words data
  BitVec.ofNat 128 (h.high.toNat * 0x10000000000000000 + h.low.toNat)

end RecordRelay.Hash.Xxh3
