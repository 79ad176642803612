import Mathlib
import RecordRelay.Discovery.PeerSource

/-! A changing source keeps its list in order and without repetition, so the list is determined by
its entries. An update is therefore a change exactly when some entry is new or missing, whatever the
order and the repetitions of the list that is given. -/
namespace RecordRelay

theorem mem_insertText {text other : String} {sorted : List String} :
    other ∈ insertText text sorted ↔ other = text ∨ other ∈ sorted := by
  induction sorted with
  | nil => simp [insertText]
  | cons first rest ih =>
    rw [insertText]
    split_ifs with heq hlt
    · subst heq
      simp
    · exact List.mem_cons
    · rw [List.mem_cons, List.mem_cons, ih]
      exact or_left_comm

theorem pairwise_insertText (text : String) {sorted : List String}
    (h : sorted.Pairwise (· < ·)) : (insertText text sorted).Pairwise (· < ·) := by
  induction sorted with
  | nil => exact List.pairwise_singleton _ _
  | cons first rest ih =>
    obtain ⟨hfirst, hrest⟩ := List.pairwise_cons.mp h
    rw [insertText]
    split_ifs with heq hlt
    · exact h
    · refine List.pairwise_cons.mpr ⟨fun other hother => ?_, h⟩
      rcases List.mem_cons.mp hother with rfl | hlater
      · exact hlt
      · exact hlt.trans (hfirst other hlater)
    · refine List.pairwise_cons.mpr ⟨fun other hother => ?_, ih hrest⟩
      rcases mem_insertText.mp hother with rfl | hlater
      · exact lt_of_le_of_ne (not_lt.mp hlt) (Ne.symm heq)
      · exact hfirst other hlater

theorem sortedSet_concat (texts : List String) (text : String) :
    sortedSet (texts ++ [text]) = insertText text (sortedSet texts) := by
  rw [sortedSet, List.foldl_append]
  rfl

theorem mem_sortedSet {texts : List String} {text : String} :
    text ∈ sortedSet texts ↔ text ∈ texts := by
  induction texts using List.reverseRecOn with
  | nil => rfl
  | append_singleton texts last ih =>
    rw [sortedSet_concat, mem_insertText, ih, List.mem_append, List.mem_singleton, or_comm]

theorem pairwise_sortedSet (texts : List String) : (sortedSet texts).Pairwise (· < ·) := by
  induction texts using List.reverseRecOn with
  | nil => exact List.Pairwise.nil
  | append_singleton texts last ih =>
    rw [sortedSet_concat]
    exact pairwise_insertText last ih

/-- A list in order and without repetition is determined by its entries. -/
theorem eq_of_pairwise_of_mem_iff {a b : List String} (ha : a.Pairwise (· < ·))
    (hb : b.Pairwise (· < ·)) (h : ∀ text, text ∈ a ↔ text ∈ b) : a = b := by
  have hperm : a.Perm b := (List.perm_ext_iff_of_nodup (ha.imp ne_of_lt) (hb.imp ne_of_lt)).mpr h
  exact hperm.eq_of_pairwise (fun _ _ _ _ hlt hgt => absurd hgt (lt_asymm hlt)) ha hb

theorem sortedSet_eq_iff {texts sorted : List String} (h : sorted.Pairwise (· < ·)) :
    sortedSet texts = sorted ↔ ∀ text, text ∈ texts ↔ text ∈ sorted := by
  constructor
  · rintro rfl text
    exact mem_sortedSet.symm
  · intro hsame
    refine eq_of_pairwise_of_mem_iff (pairwise_sortedSet texts) h fun text => ?_
    rw [mem_sortedSet, hsame]

namespace PeerSource

variable {Listener σ : Type} {notify : Listener → List String → σ → Bool × σ}

/-- A changing source with its list in order. -/
structure Sorted (source : PeerSource Listener) : Prop where
  changing : source = .changing source.peers source.listeners
  ordered : source.peers.Pairwise (· < ·)

theorem Sorted.ofInitial (peers : List String) : (ofInitial peers : PeerSource Listener).Sorted :=
  ⟨rfl, pairwise_sortedSet peers⟩

/-- An update with the same entries calls nobody; any other calls all listeners, which keeps those
that agree. -/
theorem Sorted.update_cases {source : PeerSource Listener} (h : source.Sorted)
    (next : List String) (state : σ) :
    ((∀ peer, peer ∈ next ↔ peer ∈ source.peers) ∧
        source.update notify next state = (false, source, state)) ∨
      ((¬ ∀ peer, peer ∈ next ↔ peer ∈ source.peers) ∧
        source.update notify next state =
          (true, .changing (sortedSet next)
            (call notify (sortedSet next) source.listeners state).1,
            (call notify (sortedSet next) source.listeners state).2)) := by
  have hsame : sortedSet next = source.peers ↔ ∀ peer, peer ∈ next ↔ peer ∈ source.peers :=
    sortedSet_eq_iff h.ordered
  rw [h.changing] at hsame ⊢
  by_cases heq : sortedSet next = source.peers
  · exact .inl ⟨hsame.mp heq, if_pos heq⟩
  · exact .inr ⟨fun hboth => heq (hsame.mpr hboth), if_neg heq⟩

end PeerSource

end RecordRelay
