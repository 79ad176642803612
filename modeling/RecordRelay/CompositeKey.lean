import RecordRelay.Text.Utf8

/-! A record is routed by the values of several fields together, some of which may be missing. A
composite key has one byte form: a missing value is the byte 0, a present one is the byte 1, the
length of the value in four bytes and the value. A key without any present value is empty, so all
such keys belong to one peer. -/
namespace RecordRelay

/-- The values of the identification keys of a record, in the order of the keys. -/
abbrev CompositeKey := List (Option String)

namespace CompositeKey

def encodeValue : Option String → List UInt8
  | some value =>
    let content := Text.bytes value
    1 :: (Text.littleEndian 4 content.length ++ content)
  | none => [0]

def encode (key : CompositeKey) : List UInt8 :=
  if key.all Option.isNone then [] else key.flatMap encodeValue

end CompositeKey

end RecordRelay
