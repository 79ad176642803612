import RecordRelay.Proofs.CompositeKey
import RecordRelay.Proofs.Ring.History

/-! A ring places the labels of its virtual nodes and the composite keys of records. The digits of
an identifier are as many as it may need, so a label says where they end, and no digit is a byte
that a composite key begins with. Two of these byte strings therefore only meet on the ring where
the partitioner fails to tell them apart. -/
namespace RecordRelay

namespace Text

variable {width a b : Nat}

theorem hexDigit_injective : ∀ a < 16, ∀ b < 16, hexDigit a = hexDigit b → a = b := by decide

theorem hexDigit_bounds : ∀ value < 16, 48 ≤ (hexDigit value).toNat := by decide

/-- Numbers are told apart by as many digits as they need. -/
theorem hexDigits_injective (ha : a < 16 ^ width) (hb : b < 16 ^ width)
    (h : hexDigits width a = hexDigits width b) : a = b := by
  induction width generalizing a b with
  | zero => omega
  | succ width ih =>
    obtain ⟨hhigh, hlow⟩ := List.append_inj' h rfl
    rw [Nat.pow_succ] at ha hb
    have hhigh : a / 16 = b / 16 := ih (by omega) (by omega) hhigh
    have hlow : a % 16 = b % 16 :=
      hexDigit_injective _ (by omega) _ (by omega) (List.singleton_inj.mp hlow)
    omega

theorem le_of_mem_hexDigits {c : Char} (h : c ∈ hexDigits width a) : 48 ≤ c.toNat := by
  induction width generalizing a with
  | zero => exact absurd h List.not_mem_nil
  | succ width ih =>
    rcases List.mem_append.mp h with h | h
    · exact ih h
    · rw [List.mem_singleton.mp h]
      exact hexDigit_bounds _ (by omega)

/-- A text without small characters has no small bytes. -/
theorem le_of_mem_bytes {least : Nat} {text : String} (hleast : least ≤ 128)
    (h : ∀ c ∈ text.toList, least ≤ c.toNat) {byte : UInt8} (hbyte : byte ∈ bytes text) :
    least ≤ byte.toNat := by
  rw [bytes_eq] at hbyte
  obtain ⟨c, hc, hbyte⟩ := List.mem_flatMap.mp hbyte
  have hbound := h c hc
  by_cases hsmall : c.toNat < 128
  · rw [utf8EncodeChar_of_lt hsmall, List.mem_singleton] at hbyte
    rw [hbyte, UInt8.toNat_ofNat']
    omega
  · exact hleast.trans (le_of_mem_utf8EncodeChar (Nat.not_lt.mp hsmall) hbyte)

end Text

namespace VirtualNode

variable {id other : NodeId} {index place : Nat}

theorem label_injective (h : label id index = label other place) : id = other ∧ index = place := by
  have htext := congrArg String.toList (Text.bytes_injective h)
  simp only [NodeId.render, Text.hexadecimal, String.toList_append, String.toList_ofList,
    List.append_assoc] at htext
  obtain ⟨hdigits, hrest⟩ := List.append_inj htext (by simp)
  have hindex : index.repr.toList = place.repr.toList := by simpa using hrest
  have hvalue := Text.hexDigits_injective id.value.isLt other.value.isLt hdigits
  exact ⟨NodeId.eq_of_toNat_eq hvalue, Nat.repr_injective (String.toList_injective hindex)⟩

/-- A label is made of digits and a colon, which are no small bytes. -/
theorem le_of_mem_label {byte : UInt8} (h : byte ∈ label id index) : 48 ≤ byte.toNat := by
  refine Text.le_of_mem_bytes (by decide) (fun c hc => ?_) h
  simp only [NodeId.render, Text.hexadecimal, String.toList_append, String.toList_ofList,
    List.mem_append, Nat.toList_repr] at hc
  rcases hc with (hid | hcolon) | hindex
  · exact Text.le_of_mem_hexDigits hid
  · rw [List.mem_singleton.mp hcolon]
    decide
  · have hdigit := Nat.isDigit_of_mem_toDigits (by omega) (by omega) hindex
    exact (Char.isDigit_iff_toNat.mp hdigit).1

end VirtualNode

/-- The first byte of a composite key says whether its first value is present. -/
theorem CompositeKey.le_of_encode_eq_cons {key : CompositeKey} {byte : UInt8} {rest : List UInt8}
    (h : encode key = byte :: rest) : byte.toNat ≤ 1 := by
  rw [encode] at h
  split_ifs at h
  cases key with
  | nil => cases h
  | cons value key =>
    cases value with
    | none =>
      obtain ⟨rfl, -⟩ := List.cons.inj h
      decide
    | some text =>
      obtain ⟨rfl, -⟩ := List.cons.inj h
      decide

theorem VirtualNode.label_ne_encode (id : NodeId) (index : Nat) (key : CompositeKey) :
    label id index ≠ CompositeKey.encode key := by
  intro h
  cases hbytes : label id index with
  | nil =>
    have hlength := congrArg List.length hbytes
    rw [label, Text.bytes_append, Text.bytes_append, List.length_append, List.length_append,
      Text.length_bytes ":"] at hlength
    have hcolon : ":".utf8ByteSize = 1 := rfl
    rw [hcolon, List.length_nil] at hlength
    omega
  | cons byte rest =>
    have hlarge : 48 ≤ byte.toNat := le_of_mem_label (hbytes ▸ List.mem_cons_self ..)
    have hsmall := CompositeKey.le_of_encode_eq_cons (h.symm.trans hbytes)
    omega

/-- Two byte strings meet on the ring although they differ. -/
structure Partitioner.Collide (partitioner : Partitioner) (a b : List UInt8) : Prop where
  differ : a ≠ b
  meet : partitioner.place a = partitioner.place b

section Collisions
open VirtualNode

variable {partitioner : Partitioner} {id other : NodeId} {index place : Nat}

/-- Two virtual nodes only share a position where their labels collide. -/
theorem collide_of_token_eq (hne : (id, index) ≠ (other, place))
    (h : (ofIndex partitioner id index).token = (ofIndex partitioner other place).token) :
    partitioner.Collide (label id index) (label other place) where
  differ hlabel := hne (Prod.ext_iff.mpr (label_injective hlabel))
  meet := h

/-- A key only falls on a virtual node where it collides with the label. -/
theorem collide_of_token_eq_place {key : CompositeKey}
    (h : (ofIndex partitioner id index).token = partitioner.place (CompositeKey.encode key)) :
    partitioner.Collide (label id index) (CompositeKey.encode key) where
  differ := label_ne_encode id index key
  meet := h

namespace HashRing

variable {history : List Change} {t : Token}

/-- A node of a ring claims the positions of its virtual nodes. -/
theorem claims_run_iff : (run partitioner history).Claims t id ↔
    ∃ index < given history id, (ofIndex partitioner id index).token = t := by
  rw [claims_iff, claimsOf_run, placements, List.mem_map]
  simp only [List.mem_range]
  rfl

theorem claims_of_mem_tokens (h : (t, id) ∈ (run partitioner history).tokens) :
    (run partitioner history).Claims t id := by
  have hsettled := settled_run partitioner history
  have hheld := hsettled.prevails t
  rw [(mem_iff_holder hsettled.ascending t id).mp h] at hheld
  exact hheld.1

/-- The positions that a node claims are as many as its virtual nodes, or two labels collide. -/
theorem nodup_claimsOf_or_collide (partitioner : Partitioner) (history : List Change)
    (id : NodeId) : ((run partitioner history).claimsOf id).Nodup
      ∨ ∃ index place, partitioner.Collide (label id index) (label id place) := by
  rw [claimsOf_run, placements, List.nodup_map_iff_inj_on List.nodup_range, or_iff_not_imp_left]
  intro hmeet
  push Not at hmeet
  obtain ⟨index, -, place, -, hsame, hne⟩ := hmeet
  exact ⟨index, place, collide_of_token_eq (fun heq => hne (Prod.mk.inj heq).2) hsame⟩

end HashRing

/-- The labels of virtual nodes are told apart from each other and from all composite keys. So
virtual nodes share a position, or a key falls on one, only where the partitioner places different
bytes at one position; and whatever became of a ring, this is the only way in which two of its nodes
claim one position, a node claims one twice or a key falls on a position of the ring. -/
theorem labels_and_keys_are_told_apart :
    (∀ id index other place, label id index = label other place → id = other ∧ index = place)
      ∧ (∀ id index key, label id index ≠ CompositeKey.encode key)
      ∧ ∀ partitioner : Partitioner,
        (∀ id index other place, (id, index) ≠ (other, place) →
            (ofIndex partitioner id index).token = (ofIndex partitioner other place).token →
              partitioner.Collide (label id index) (label other place))
          ∧ (∀ id index key,
            (ofIndex partitioner id index).token = partitioner.place (CompositeKey.encode key) →
              partitioner.Collide (label id index) (CompositeKey.encode key))
          ∧ ∀ history,
            let ring := HashRing.run partitioner history
            (∀ t id other, id ≠ other → ring.Claims t id → ring.Claims t other →
                ∃ index place, partitioner.Collide (label id index) (label other place))
              ∧ (∀ id, (ring.claimsOf id).Nodup
                ∨ ∃ index place, partitioner.Collide (label id index) (label id place))
              ∧ ∀ t id key, (t, id) ∈ ring.tokens →
                partitioner.place (CompositeKey.encode key) = t →
                  ∃ index, partitioner.Collide (label id index) (CompositeKey.encode key) := by
  refine ⟨fun id index other place => label_injective, label_ne_encode, fun partitioner =>
    ⟨fun id index other place => collide_of_token_eq,
      fun id index key => collide_of_token_eq_place, fun history => ⟨?_, ?_, ?_⟩⟩⟩
  · intro t id other hne hclaims hcontests
    obtain ⟨index, -, hposition⟩ := HashRing.claims_run_iff.mp hclaims
    obtain ⟨place, -, hsame⟩ := HashRing.claims_run_iff.mp hcontests
    exact ⟨index, place, collide_of_token_eq (fun heq => hne (Prod.mk.inj heq).1)
      (hposition.trans hsame.symm)⟩
  · exact HashRing.nodup_claimsOf_or_collide partitioner history
  · intro t id key hmem hplace
    obtain ⟨index, -, hposition⟩ :=
      HashRing.claims_run_iff.mp (HashRing.claims_of_mem_tokens hmem)
    exact ⟨index, collide_of_token_eq_place (hposition.trans hplace.symm)⟩

end Collisions

end RecordRelay
