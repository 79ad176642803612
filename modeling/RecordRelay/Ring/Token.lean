import RecordRelay.Text.Hexadecimal

/-! A token is a position on the ring. The ring has 2^64 positions and runs from the last one back
to position zero. -/
namespace RecordRelay

structure Token where
  position : UInt64
  deriving DecidableEq, Repr, Inhabited

namespace Token

def ringSize : Nat := UInt64.size

def zero : Token := ⟨0⟩

def max : Token := ⟨0xffffffffffffffff⟩

/-- Tokens are ordered by position. -/
instance : LT Token := ⟨fun a b => a.position < b.position⟩

instance (a b : Token) : Decidable (a < b) :=
  inferInstanceAs (Decidable (a.position < b.position))

def order (a b : Token) : Ordering := compare a.position b.position

/-- The number of steps clockwise from `a` to `b`, from 0 to 2^64 - 1. -/
def distanceTo (a b : Token) : Token := ⟨b.position - a.position⟩

def render (t : Token) : String := Text.hexadecimal 16 t.position.toNat

@[simp] theorem distanceTo_self (t : Token) : t.distanceTo t = zero := by
  simp [distanceTo, zero]

end Token

end RecordRelay
