import Mathlib

/-! Where every element of a list has a key of its own, a search for a key finds the one element
that has it. The keys stay when an element makes room for another one with its key. -/
namespace RecordRelay

variable {α κ : Type} [DecidableEq κ] {key : α → κ} {l : List α} {a : α}

theorem filter_key_eq_singleton (h : (l.map key).Nodup) (ha : a ∈ l) :
    l.filter (fun x => key x = key a) = [a] := by
  induction l with
  | nil => exact absurd ha List.not_mem_nil
  | cons x rest ih =>
    rw [List.map_cons, List.nodup_cons] at h
    rcases List.mem_cons.mp ha with rfl | ha
    · rw [List.filter_cons_of_pos (by simp)]
      congr 1
      refine List.filter_eq_nil_iff.mpr fun y hy heq => h.1 ?_
      rw [← of_decide_eq_true heq]
      exact List.mem_map_of_mem hy
    · have hne : key x ≠ key a := by
        intro heq
        apply h.1
        rw [heq]
        exact List.mem_map_of_mem ha
      rw [List.filter_cons_of_neg (by simpa using hne)]
      exact ih h.2 ha

theorem find?_key_eq_some (h : (l.map key).Nodup) (ha : a ∈ l) :
    l.find? (fun x => key x = key a) = some a := by
  rw [← List.head?_filter, filter_key_eq_singleton h ha]
  rfl

theorem map_set_of_eq {α β : Type} (f : α → β) {l : List α} {i : Nat} {a b : α}
    (h : l[i]? = some a) (hf : f b = f a) : (l.set i b).map f = l.map f := by
  rw [List.map_set, hf]
  refine List.ext_getElem? fun j => ?_
  rw [List.getElem?_set]
  split_ifs with hij hlt
  · subst hij
    rw [List.getElem?_map, h]
    rfl
  · subst hij
    rw [List.getElem?_eq_none (Nat.not_lt.mp hlt)]
  · rfl

end RecordRelay
