import RecordRelay.Proofs.Forwarding.Calls

/-! Over any number of calls the records of a destination leave its queue in the order in which they
came, in full batches. A call hands back the records that belong here and those of the batches that
the pool refused, and for each owner it hands them back in the order in which they came. -/
namespace RecordRelay.Outbox

/-- Every queue makes batches of the right size, and less than a batch waits in it. -/
structure Unfilled (outbox : Outbox) : Prop where
  batchSize : ∀ destination, (outbox.queue destination).batchSize = outbox.batchSize
  short : ∀ destination, (outbox.queue destination).records.length < outbox.batchSize

theorem unfilled_empty {settings : Settings} (hbatch : 0 < settings.batchSize)
    (pipeline plugin : String) (keys : List String) :
    (empty settings pipeline plugin keys).Unfilled where
  batchSize _ := rfl
  short _ := UInt64.lt_iff_toNat_lt.mp hbatch

/-- Two outboxes differ in their queues and counters only. -/
def SameKind (outbox next : Outbox) : Prop :=
  ∃ queues counters, next = { outbox with queues, counters }

theorem SameKind.trans {outbox between next : Outbox} (h : outbox.SameKind between)
    (hnext : between.SameKind next) : outbox.SameKind next := by
  obtain ⟨queues, counters, rfl⟩ := h
  obtain ⟨queues, counters, rfl⟩ := hnext
  exact ⟨queues, counters, rfl⟩

theorem queue_enqueue (outbox : Outbox) (destination other : String) (records : List Record) :
    (outbox.enqueue destination records).queue other
      = if other = destination then ((outbox.queue destination).offerAll records).2
        else outbox.queue other :=
  outbox.queue_setQueue destination other _

theorem Unfilled.enqueue {outbox : Outbox} (h : outbox.Unfilled) (destination : String)
    (records : List Record) :
    (∀ batch ∈ outbox.filled destination records, batch.length = outbox.batchSize)
      ∧ (outbox.enqueue destination records).Unfilled := by
  have hshort := h.short destination
  rw [← h.batchSize destination] at hshort
  obtain ⟨hfull, hrest⟩ := BatchingQueue.offerAll_fits hshort records
  rw [h.batchSize destination] at hfull hrest
  refine ⟨hfull, ⟨fun other => ?_, fun other => ?_⟩⟩
  · rw [queue_enqueue]
    split_ifs
    · rw [BatchingQueue.batchSize_offerAll]
      exact h.batchSize destination
    · exact h.batchSize other
  · rw [queue_enqueue]
    split_ifs
    · exact hrest
    · exact h.short other

section Turns
variable {routing : Routing} {registration : Nat} {groups : List (Option String × List Record)}
  {outbox next : Outbox} {turns : List Turn}

/-- The submissions of turns, in order. -/
def submissionsOf (turns : List Turn) : List Submission := turns.flatMap Turn.submissions

theorem Takes.sameKind (h : Takes routing registration groups outbox turns next) :
    outbox.SameKind next := by
  induction h with
  | nil => exact ⟨_, _, rfl⟩
  | keep _ _ ih => exact ih
  | post _ submits _ ih =>
    obtain ⟨-, counters, rfl⟩ := submits.spec
    exact SameKind.trans ⟨_, _, rfl⟩ ih

/-- What turns leave in the queues is less than a batch each, and every batch they submit is
full. -/
theorem Takes.full (h : Takes routing registration groups outbox turns next)
    (hunfilled : outbox.Unfilled) :
    (∀ s ∈ submissionsOf turns, s.job.records.length = outbox.batchSize) ∧ next.Unfilled := by
  induction h with
  | nil => exact ⟨fun s hs => absurd hs List.not_mem_nil, hunfilled⟩
  | keep _ _ ih => exact ih ⟨hunfilled.batchSize, hunfilled.short⟩
  | @post destination records groups outbox between next submissions turns _ submits _ ih =>
    obtain ⟨hfull, hqueued⟩ := hunfilled.enqueue destination records
    obtain ⟨-, counters, rfl⟩ := submits.spec
    obtain ⟨hrest, hnext⟩ := ih ⟨hqueued.batchSize, hqueued.short⟩
    refine ⟨fun s hs => ?_, hnext⟩
    rw [submissionsOf, List.flatMap_cons] at hs
    rcases List.mem_append.mp hs with hs | hs
    · exact hfull _ (submits.job_eq hs).1
    · exact hrest s hs

/-- The jobs of a turn are for its owner, and each carries its records in encoded form. -/
theorem Takes.job_eq (h : Takes routing registration groups outbox turns next) :
    ∀ turn ∈ turns, ∀ s ∈ turn.submissions, turn.owner = some s.destination
      ∧ s.job = outbox.job registration s.destination s.job.records := by
  induction h with
  | nil => exact fun turn hturn => absurd hturn List.not_mem_nil
  | keep _ _ ih =>
    intro turn hturn s hs
    rcases List.mem_cons.mp hturn with rfl | hturn
    · exact absurd hs List.not_mem_nil
    · exact ih turn hturn s hs
  | post _ submits _ ih =>
    intro turn hturn s hs
    obtain ⟨-, counters, rfl⟩ := submits.spec
    rcases List.mem_cons.mp hturn with rfl | hturn
    · have hjob := (submits.job_eq hs).2
      have hdestination : s.destination = _ := congrArg (fun job => job.request.destination) hjob
      rw [hdestination]
      exact ⟨rfl, hjob⟩
    · exact ih turn hturn s hs

theorem Takes.kept_eq (h : Takes routing registration groups outbox turns next) :
    turns.flatMap Turn.kept = staying routing groups := by
  induction h with
  | nil => rfl
  | @keep owner records groups _ _ turns stays _ ih =>
    rw [List.flatMap_cons, ih, staying, staying, List.flatMap_cons, if_pos stays, Turn.kept]
  | @post destination records groups _ _ _ _ turns leaves _ _ ih =>
    rw [List.flatMap_cons, ih, staying, staying, List.flatMap_cons, leaves, Turn.kept]
    rfl

theorem staying_perm {owner : Record → Option String} {records : List Record}
    (hgrouped : Grouped owner records groups) (hperm : (groups.flatMap (·.2)).Perm records) :
    (staying routing groups).Perm (records.filter fun r => routing.isLocal (owner r)) := by
  have heq : staying routing groups
      = (groups.flatMap (·.2)).filter fun r => routing.isLocal (owner r) := by
    rw [List.filter_flatMap, staying]
    refine List.flatMap_congr fun group hgroup => ?_
    have howner : ∀ r ∈ group.2, owner r = group.1 := by
      intro r hr
      rw [hgrouped.of_mem group hgroup] at hr
      exact of_decide_eq_true (List.mem_filter.mp hr).2
    split_ifs with hlocal
    · exact (List.filter_eq_self.mpr fun r hr => by rw [howner r hr, hlocal]).symm
    · exact (List.filter_eq_nil_iff.mpr fun r hr => by rwa [howner r hr]).symm
  rw [heq]
  exact hperm.filter _

end Turns

/-- A call: what is known of owners and addresses at its time, its records, and its turns. -/
structure Call where
  routing : Routing
  records : List Record
  turns : List Turn

namespace Call

def submissions (call : Call) : List Submission := submissionsOf call.turns

def returned (call : Call) : List Record := call.turns.flatMap Turn.returned

def ownedBy (keys : List String) (owner : Option String) (call : Call) : List Record :=
  call.records.filter fun record => call.routing.ownerOf keys record = owner

def staying (keys : List String) (call : Call) : List Record :=
  call.records.filter fun record => call.routing.isLocal (call.routing.ownerOf keys record)

end Call

/-- An outbox serves calls one after the other. A call may take up the owners of its records in any
order. -/
inductive Serves (registration : Nat) (outbox : Outbox) : List Call → Outbox → Prop where
  | start : Serves registration outbox [] outbox
  | call {calls : List Call} {call : Call} {groups : List (Option String × List Record)}
      {before next : Outbox} (earlier : Serves registration outbox calls before)
      (order : groups.Perm (groupByOwner (call.routing.ownerOf before.keys) call.records))
      (turns : Takes call.routing registration groups before call.turns next) :
      Serves registration outbox (calls ++ [call]) next

section Calls
variable {registration : Nat} {outbox next : Outbox} {calls : List Call}

theorem Serves.sameKind (h : Serves registration outbox calls next) : outbox.SameKind next := by
  induction h with
  | start => exact ⟨_, _, rfl⟩
  | call _ _ turns ih => exact ih.trans turns.sameKind

/-- Every call of a run takes up the groups of its records. -/
theorem Serves.takes (h : Serves registration outbox calls next) :
    ∀ call ∈ calls, ∃ groups before after,
      Grouped (call.routing.ownerOf outbox.keys) call.records groups
        ∧ (groups.flatMap (·.2)).Perm call.records ∧ outbox.SameKind before
        ∧ Takes call.routing registration groups before call.turns after := by
  induction h with
  | start => exact fun call hcall => absurd hcall List.not_mem_nil
  | @call calls call groups before next earlier order turns ih =>
    intro other hother
    rcases List.mem_append.mp hother with hother | hother
    · exact ih other hother
    · obtain rfl := List.mem_singleton.mp hother
      obtain ⟨queues, counters, rfl⟩ := earlier.sameKind
      exact ⟨groups, _, next, (grouped_groupByOwner _ _).perm order,
        (order.flatMap_right _).trans (groupByOwner_perm _ _), ⟨queues, counters, rfl⟩, turns⟩

/-- Over a run every batch is full, and less than a batch waits for each destination. -/
theorem Serves.full (h : Serves registration outbox calls next) (hunfilled : outbox.Unfilled) :
    (∀ call ∈ calls, ∀ s ∈ call.submissions, s.job.records.length = outbox.batchSize)
      ∧ next.Unfilled := by
  induction h with
  | start => exact ⟨fun call hcall => absurd hcall List.not_mem_nil, hunfilled⟩
  | @call calls call groups before next earlier order turns ih =>
    obtain ⟨hearlier, hbefore⟩ := ih
    obtain ⟨hfull, hnext⟩ := turns.full hbefore
    obtain ⟨queues, counters, rfl⟩ := earlier.sameKind
    refine ⟨fun other hother s hs => ?_, hnext⟩
    rcases List.mem_append.mp hother with hother | hother
    · exact hearlier other hother s hs
    · obtain rfl := List.mem_singleton.mp hother
      exact hfull s hs

end Calls

end RecordRelay.Outbox
