import RecordRelay.Forwarding.Routing
import RecordRelay.Proofs.Keys

/-! Every owner of some records has one group, and the group has the records of that owner in the
order in which they came. -/
namespace RecordRelay

theorem ownerBefore_irrefl (a : Option String) : ownerBefore a a = false := by
  cases a <;> simp [ownerBefore]

theorem ownerBefore_trans {a b c : Option String} (hab : ownerBefore a b = true)
    (hbc : ownerBefore b c = true) : ownerBefore a c = true := by
  cases b with
  | none => cases a <;> simp [ownerBefore] at hab
  | some b =>
    cases c with
    | none => simp [ownerBefore] at hbc
    | some c =>
      cases a with
      | none => rfl
      | some a =>
        simp only [ownerBefore, decide_eq_true_eq] at *
        exact lt_trans hab hbc

theorem ownerBefore_of_ne {a b : Option String} (hne : a ≠ b) (h : ownerBefore a b = false) :
    ownerBefore b a = true := by
  cases a with
  | none =>
    cases b with
    | none => exact absurd rfl hne
    | some b => simp [ownerBefore] at h
  | some a =>
    cases b with
    | none => rfl
    | some b =>
      simp only [ownerBefore, decide_eq_true_eq, decide_eq_false_iff_not] at *
      exact lt_of_le_of_ne (not_lt.mp h) fun heq => hne (congrArg some heq.symm)

/-- Groups come in the order of their owners, and no two have the same owner. -/
def InOrder (groups : List (Option String × List Record)) : Prop :=
  groups.Pairwise fun a b => ownerBefore a.1 b.1 = true

theorem InOrder.not_mem {owner : Option String} {group : Option String × List Record}
    {groups : List (Option String × List Record)} (h : InOrder (group :: groups))
    (hbefore : ownerBefore owner group.1 = true) : owner ∉ (group :: groups).map Prod.fst := by
  intro hmem
  obtain ⟨other, hother, rfl⟩ := List.mem_map.mp hmem
  rcases List.mem_cons.mp hother with rfl | hrest
  · rw [ownerBefore_irrefl] at hbefore
    contradiction
  · have hlate := ownerBefore_trans hbefore ((List.pairwise_cons.mp h).1 other hrest)
    rw [ownerBefore_irrefl] at hlate
    contradiction

theorem InOrder.nodup {groups : List (Option String × List Record)} (h : InOrder groups) :
    (groups.map Prod.fst).Nodup := by
  refine List.pairwise_map.mpr (List.Pairwise.imp (fun {a b} hbefore heq => ?_) h)
  rw [heq, ownerBefore_irrefl] at hbefore
  contradiction

variable {owner : Option String} {record : Record} {groups : List (Option String × List Record)}

theorem mem_owners_addToGroup {other : Option String} :
    other ∈ (addToGroup owner record groups).map Prod.fst
      ↔ other = owner ∨ other ∈ groups.map Prod.fst := by
  induction groups with
  | nil => simp [addToGroup]
  | cons group rest ih =>
    obtain ⟨first, records⟩ := group
    rw [addToGroup]
    split_ifs with hsame
    · simp [hsame]
    · simp
    · rw [List.map_cons, List.mem_cons, ih, List.map_cons, List.mem_cons]
      tauto

theorem InOrder.addToGroup (h : InOrder groups) : InOrder (addToGroup owner record groups) := by
  induction groups with
  | nil => exact List.pairwise_singleton ..
  | cons group rest ih =>
    obtain ⟨first, records⟩ := group
    obtain ⟨hfirst, hrest⟩ := List.pairwise_cons.mp h
    rw [RecordRelay.addToGroup]
    split_ifs with hsame hbefore
    · exact List.pairwise_cons.mpr ⟨hfirst, hrest⟩
    · refine List.pairwise_cons.mpr ⟨fun other hother => ?_, h⟩
      rcases List.mem_cons.mp hother with rfl | hother
      · exact hbefore
      · exact ownerBefore_trans hbefore (hfirst other hother)
    · refine List.pairwise_cons.mpr ⟨fun other hother => ?_, ih hrest⟩
      rcases mem_owners_addToGroup.mp (List.mem_map_of_mem hother) with heq | hmem
      · rw [heq]
        exact ownerBefore_of_ne hsame (by simpa using hbefore)
      · obtain ⟨old, hold, heq⟩ := List.mem_map.mp hmem
        rw [← heq]
        exact hfirst old hold

/-- The group of a new record is the old one with the record at its end, or a new one. -/
theorem InOrder.mem_addToGroup (h : InOrder groups) {group : Option String × List Record}
    (hgroup : group ∈ RecordRelay.addToGroup owner record groups) :
    (group.1 ≠ owner ∧ group ∈ groups)
      ∨ (∃ records, (owner, records) ∈ groups ∧ group = (owner, records ++ [record]))
      ∨ (owner ∉ groups.map Prod.fst ∧ group = (owner, [record])) := by
  induction groups with
  | nil => exact .inr (.inr ⟨List.not_mem_nil, List.mem_singleton.mp hgroup⟩)
  | cons first rest ih =>
    obtain ⟨other, records⟩ := first
    obtain ⟨hfirst, hrest⟩ := List.pairwise_cons.mp h
    rw [RecordRelay.addToGroup] at hgroup
    split_ifs at hgroup with hsame hbefore
    · subst hsame
      rcases List.mem_cons.mp hgroup with rfl | hgroup
      · exact .inr (.inl ⟨records, List.mem_cons_self, rfl⟩)
      · refine .inl ⟨fun heq => ?_, List.mem_cons_of_mem _ hgroup⟩
        have hlate := hfirst group hgroup
        rw [heq, ownerBefore_irrefl] at hlate
        contradiction
    · have hnew := h.not_mem hbefore
      rcases List.mem_cons.mp hgroup with rfl | hgroup
      · exact .inr (.inr ⟨hnew, rfl⟩)
      · refine .inl ⟨fun heq => hnew ?_, hgroup⟩
        rw [← heq]
        exact List.mem_map_of_mem hgroup
    · rcases List.mem_cons.mp hgroup with rfl | hgroup
      · exact .inl ⟨fun heq => hsame heq.symm, List.mem_cons_self⟩
      · rcases ih hrest hgroup with ⟨hne, hold⟩ | ⟨old, hold, heq⟩ | ⟨hnew, heq⟩
        · exact .inl ⟨hne, List.mem_cons_of_mem _ hold⟩
        · exact .inr (.inl ⟨old, List.mem_cons_of_mem _ hold, heq⟩)
        · refine .inr (.inr ⟨fun hmem => ?_, heq⟩)
          rcases List.mem_cons.mp hmem with hmem | hmem
          · exact hsame hmem
          · exact hnew hmem

theorem addToGroup_perm (owner : Option String) (record : Record)
    (groups : List (Option String × List Record)) :
    ((addToGroup owner record groups).flatMap (·.2)).Perm (groups.flatMap (·.2) ++ [record]) := by
  induction groups with
  | nil => simp [addToGroup]
  | cons group rest ih =>
    obtain ⟨other, records⟩ := group
    rw [addToGroup]
    split_ifs
    · simp only [List.flatMap_cons, List.append_assoc]
      exact List.perm_append_comm.append_left _
    · simp only [List.flatMap_cons]
      exact List.perm_append_comm
    · simp only [List.flatMap_cons, List.append_assoc]
      exact ih.append_left _

/-- Every owner of records has one group, with the records of that owner as they came. -/
structure Grouped (owner : Record → Option String) (records : List Record)
    (groups : List (Option String × List Record)) : Prop where
  distinct : (groups.map Prod.fst).Nodup
  of_mem : ∀ group ∈ groups, group.2 = records.filter fun r => owner r = group.1
  covered : ∀ r ∈ records, owner r ∈ groups.map Prod.fst

variable {owner : Record → Option String} {records : List Record}

theorem Grouped.filter_eq_nil (h : Grouped owner records groups) {other : Option String}
    (hnew : other ∉ groups.map Prod.fst) : records.filter (fun r => owner r = other) = [] := by
  refine List.filter_eq_nil_iff.mpr fun r hr heq => hnew ?_
  rw [← of_decide_eq_true heq]
  exact h.covered r hr

theorem Grouped.perm {others : List (Option String × List Record)}
    (h : Grouped owner records groups) (hperm : others.Perm groups) :
    Grouped owner records others where
  distinct := (hperm.map Prod.fst).nodup_iff.mpr h.distinct
  of_mem group hgroup := h.of_mem group (hperm.mem_iff.mp hgroup)
  covered r hr := (hperm.map Prod.fst).mem_iff.mpr (h.covered r hr)

theorem groupByOwner_concat (owner : Record → Option String) (records : List Record)
    (record : Record) :
    groupByOwner owner (records ++ [record])
      = addToGroup (owner record) record (groupByOwner owner records) := by
  rw [groupByOwner, List.foldl_append]
  rfl

/-- Grouping loses no record and adds none. -/
theorem groupByOwner_perm (owner : Record → Option String) (records : List Record) :
    ((groupByOwner owner records).flatMap (·.2)).Perm records := by
  induction records using List.reverseRecOn with
  | nil => exact List.Perm.refl _
  | append_singleton records record ih =>
    rw [groupByOwner_concat]
    exact (addToGroup_perm _ _ _).trans (ih.append_right _)

theorem inOrder_groupByOwner (owner : Record → Option String) (records : List Record) :
    InOrder (groupByOwner owner records) := by
  induction records using List.reverseRecOn with
  | nil => exact List.Pairwise.nil
  | append_singleton records record ih =>
    rw [groupByOwner_concat]
    exact ih.addToGroup

theorem grouped_groupByOwner (owner : Record → Option String) (records : List Record) :
    Grouped owner records (groupByOwner owner records) := by
  induction records using List.reverseRecOn with
  | nil => exact ⟨List.nodup_nil, fun _ h => absurd h List.not_mem_nil,
      fun _ h => absurd h List.not_mem_nil⟩
  | append_singleton records record ih =>
    have horder := inOrder_groupByOwner owner records
    rw [groupByOwner_concat]
    refine ⟨horder.addToGroup.nodup, fun group hgroup => ?_, fun r hr => ?_⟩
    · rw [List.filter_append]
      rcases horder.mem_addToGroup hgroup with ⟨hne, hold⟩ | ⟨old, hold, rfl⟩ | ⟨hnew, rfl⟩
      · simpa [Ne.symm hne] using ih.of_mem group hold
      · simpa using ih.of_mem _ hold
      · simp [ih.filter_eq_nil hnew]
    · rw [mem_owners_addToGroup]
      rcases List.mem_append.mp hr with hr | hr
      · exact .inr (ih.covered r hr)
      · exact .inl (by rw [List.mem_singleton.mp hr])

/-- The records of a group have the owner of the group. -/
theorem owner_of_mem_groupByOwner (owner : Record → Option String)
    {group : Option String × List Record} (h : group ∈ groupByOwner owner records) {r : Record}
    (hr : r ∈ group.2) :
    r ∈ records ∧ owner r = group.1 := by
  rw [(grouped_groupByOwner owner records).of_mem group h] at hr
  obtain ⟨hmem, howner⟩ := List.mem_filter.mp hr
  exact ⟨hmem, of_decide_eq_true howner⟩

end RecordRelay
