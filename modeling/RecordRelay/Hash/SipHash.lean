import RecordRelay.Text.Utf8

/-! The keyed hash SipHash with one compression round and three finalisation rounds, under the zero
key. A message is taken in words of eight bytes, the least significant byte first; the last word
holds the bytes left over and, in its top byte, the length of the message modulo 256. -/
namespace RecordRelay.Hash.SipHash
open RecordRelay.Text (ofLittleEndian)

structure State where
  v0 : UInt64
  v1 : UInt64
  v2 : UInt64
  v3 : UInt64

/-- A word turned left by `count` bits, for `count` from 1 to 63. -/
def rotateLeft (word count : UInt64) : UInt64 := word <<< count ||| word >>> (64 - count)

def State.round (s : State) : State :=
  let a0 := s.v0 + s.v1
  let a1 := rotateLeft s.v1 13 ^^^ a0
  let a2 := s.v2 + s.v3
  let a3 := rotateLeft s.v3 16 ^^^ a2
  let b0 := rotateLeft a0 32 + a3
  let b2 := a2 + a1
  ⟨b0, rotateLeft a1 17 ^^^ b2, rotateLeft b2 32, rotateLeft a3 21 ^^^ b0⟩

def State.start : State :=
  ⟨0x736f6d6570736575, 0x646f72616e646f6d, 0x6c7967656e657261, 0x7465646279746573⟩

/-- Absorbs one word of the message. -/
def State.absorb (s : State) (word : UInt64) : State :=
  let s := ({ s with v3 := s.v3 ^^^ word } : State).round
  { s with v0 := s.v0 ^^^ word }

/-- Absorbs a message whose total length is `length`, ending with the word that names it. -/
def State.absorbAll (length : Nat) : State → List UInt8 → State
  | s, b0 :: b1 :: b2 :: b3 :: b4 :: b5 :: b6 :: b7 :: rest =>
    let word := UInt64.ofNat (ofLittleEndian [b0, b1, b2, b3, b4, b5, b6, b7])
    (s.absorb word).absorbAll length rest
  | s, rest => s.absorb (UInt64.ofNat (length % 256 * 0x100000000000000 + ofLittleEndian rest))

/-- The finalisation rounds and the word they leave. -/
def State.finish (s : State) : UInt64 :=
  let s := ({ s with v2 := s.v2 ^^^ 0xff } : State).round.round.round
  s.v0 ^^^ s.v1 ^^^ s.v2 ^^^ s.v3

def hash (message : List UInt8) : UInt64 :=
  (State.start.absorbAll message.length message).finish

end RecordRelay.Hash.SipHash
