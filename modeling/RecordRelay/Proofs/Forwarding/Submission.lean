import RecordRelay.Proofs.Forwarding.Groups
import RecordRelay.Proofs.Forwarding.Queues

/-! Forwarding sorts records into groups, keeps the groups that belong here, cuts batches from the
queues of the others and submits the batches in order. Which batches are cut does not depend on the
dispatch pool; the pool only decides which of them come back. -/
namespace RecordRelay

namespace Pool

/-- Submits jobs in order and returns those that are refused. -/
def enlist : List Job → Pool → List Job × Pool
  | [], pool => ([], pool)
  | job :: rest, pool =>
    match pool.submit job with
    | .ok pool => enlist rest pool
    | .error (_, refused) =>
      let (others, pool) := enlist rest pool
      (refused :: others, pool)

theorem submit_cases (pool : Pool) (job : Job) :
    pool.submit job = .ok { pool with waiting := pool.waiting ++ [job] }
      ∨ ∃ cause, pool.submit job = .error (cause, job) := by
  rw [submit]
  split_ifs
  · exact .inr ⟨_, rfl⟩
  · exact .inl rfl
  · exact .inr ⟨_, rfl⟩

theorem enlist_append (jobs others : List Job) (pool : Pool) :
    enlist (jobs ++ others) pool
      = ((enlist jobs pool).1 ++ (enlist others (enlist jobs pool).2).1,
        (enlist others (enlist jobs pool).2).2) := by
  induction jobs generalizing pool with
  | nil => rfl
  | cons job rest ih =>
    rw [List.cons_append, enlist, enlist]
    rcases submit_cases pool job with h | ⟨cause, h⟩ <;> simp [h, ih]

/-- Every job is accepted or refused, and the accepted ones wait in the order in which they came. -/
theorem exists_accepted (jobs : List Job) (pool : Pool) :
    ∃ accepted, (enlist jobs pool).2 = { pool with waiting := pool.waiting ++ accepted }
      ∧ (accepted ++ (enlist jobs pool).1).Perm jobs := by
  induction jobs generalizing pool with
  | nil => exact ⟨[], by simp [enlist], List.Perm.refl _⟩
  | cons job rest ih =>
    rw [enlist]
    rcases submit_cases pool job with h | ⟨cause, h⟩
    · obtain ⟨accepted, hpool, hperm⟩ := ih { pool with waiting := pool.waiting ++ [job] }
      refine ⟨job :: accepted, ?_, ?_⟩
      · simp only [h]
        rw [hpool]
        simp
      · simp only [h]
        exact hperm.cons job
    · obtain ⟨accepted, hpool, hperm⟩ := ih pool
      refine ⟨accepted, ?_, ?_⟩
      · simp only [h]
        exact hpool
      · simp only [h]
        exact (List.perm_middle).trans (hperm.cons job)

end Pool

/-- A batch that was cut for a destination. -/
structure Cut where
  destination : String
  batch : List Record

namespace Outbox

/-- The records of the groups that belong here. -/
def staying (routing : Routing) (groups : List (Option String × List Record)) : List Record :=
  groups.flatMap fun group => if routing.isLocal group.1 then group.2 else []

/-- The groups that belong elsewhere, with the address of their owner. -/
def leaving (routing : Routing) (groups : List (Option String × List Record)) :
    List (String × List Record) :=
  groups.filterMap fun group =>
    if routing.isLocal group.1 then none else group.1.map fun destination => (destination, group.2)

/-- The batches that groups fill, in order, and the queues afterwards. -/
def cutAll (outbox : Outbox) :
    List (String × List Record) → List Cut × List (String × BatchingQueue)
  | [] => ([], outbox.queues)
  | (destination, records) :: rest =>
    let (batches, queue) := (outbox.queue destination).offerAll records
    let (cuts, queues) :=
      cutAll { outbox with queues := setQueue destination queue outbox.queues } rest
    (batches.map (Cut.mk destination) ++ cuts, queues)

/-- The job that sends a cut. -/
def jobOf (outbox : Outbox) (registration : Nat) (cut : Cut) : Job :=
  outbox.job registration cut.destination cut.batch

theorem staying_append_leaving (routing : Routing) (groups : List (Option String × List Record)) :
    (staying routing groups ++ (leaving routing groups).flatMap (·.2)).Perm
      (groups.flatMap (·.2)) := by
  induction groups with
  | nil => exact List.Perm.refl _
  | cons group rest ih =>
    obtain ⟨owner, records⟩ := group
    rw [staying, leaving] at ih ⊢
    rw [List.flatMap_cons, List.flatMap_cons, List.filterMap_cons]
    cases owner with
    | none =>
      simpa [Routing.isLocal] using ih.append_left records
    | some destination =>
      cases hlocal : routing.isLocal (some destination) with
      | true => simpa [hlocal] using ih.append_left records
      | false =>
        simp only [Bool.false_eq_true, if_false, Option.map_some, List.nil_append,
          List.flatMap_cons]
        refine (List.perm_append_comm_assoc ..).trans (ih.append_left records)

theorem mem_leaving {routing : Routing} {groups : List (Option String × List Record)}
    {group : String × List Record} (h : group ∈ leaving routing groups) :
    (some group.1, group.2) ∈ groups ∧ routing.isLocal (some group.1) = false := by
  obtain ⟨⟨owner, records⟩, hmem, hgroup⟩ := List.mem_filterMap.mp h
  split_ifs at hgroup with hlocal
  obtain ⟨destination, rfl, rfl⟩ := Option.map_eq_some_iff.mp hgroup
  exact ⟨hmem, by simpa using hlocal⟩

theorem mem_staying {routing : Routing} {groups : List (Option String × List Record)}
    {record : Record} (h : record ∈ staying routing groups) :
    ∃ group ∈ groups, record ∈ group.2 ∧ routing.isLocal group.1 = true := by
  obtain ⟨group, hgroup, hrecord⟩ := List.mem_flatMap.mp h
  split_ifs at hrecord with hlocal
  · exact ⟨group, hgroup, hrecord, hlocal⟩
  · exact absurd hrecord List.not_mem_nil

/-- The batches that are cut, with the records that wait afterwards, are the records that waited
before, with those that were added. -/
theorem cutAll_perm (outbox : Outbox) (groups : List (String × List Record)) :
    ((outbox.cutAll groups).1.flatMap Cut.batch
        ++ ({ outbox with queues := (outbox.cutAll groups).2 } : Outbox).waiting).Perm
      (outbox.waiting ++ groups.flatMap (·.2)) := by
  classical
  induction groups generalizing outbox with
  | nil => simp [cutAll]
  | cons group rest ih =>
    obtain ⟨destination, records⟩ := group
    have hqueue := BatchingQueue.offerAll_append (outbox.queue destination) records
    have hset := waiting_setQueue outbox destination ((outbox.queue destination).offerAll records).2
    have hrest := ih { outbox with
      queues := setQueue destination ((outbox.queue destination).offerAll records).2 outbox.queues }
    rw [List.perm_iff_count] at hset hrest ⊢
    intro r
    have hcount := congrArg (List.count r) hqueue
    have hset := hset r
    have hrest := hrest r
    simp only [cutAll, List.flatMap_append, List.flatMap_cons, List.count_append,
      List.flatMap_map] at hcount hset hrest ⊢
    rw [List.flatMap_id']
    omega

/-- The outbox with what it has cut, got back and kept counted. -/
def counted (outbox : Outbox) (kept cut refused : Nat) : Outbox :=
  { outbox with counters :=
      { outbox.counters with
        processedLocally := outbox.counters.processedLocally + kept
        toBeForwarded := outbox.counters.toBeForwarded + cut
        failedForwarding := outbox.counters.failedForwarding + refused } }

theorem counted_counted (outbox : Outbox) (kept cut refused kept' cut' refused' : Nat) :
    (outbox.counted kept cut refused).counted kept' cut' refused'
      = outbox.counted (kept + kept') (cut + cut') (refused + refused') := by
  simp [counted, Nat.add_assoc]

theorem submit_eq (registration : Nat) (cut : Cut) (outbox : Outbox) (pool : Pool) :
    submit registration cut.destination cut.batch outbox pool
      = ((pool.enlist [outbox.jobOf registration cut]).1.flatMap Job.records,
        outbox.counted 0 cut.batch.length
          ((pool.enlist [outbox.jobOf registration cut]).1.flatMap Job.records).length,
        (pool.enlist [outbox.jobOf registration cut]).2) := by
  rw [submit, Pool.enlist]
  rcases pool.submit_cases (outbox.jobOf registration cut) with h | ⟨cause, h⟩
  · rw [jobOf] at h ⊢
    simp only [h]
    rfl
  · rw [jobOf] at h ⊢
    simp only [h, Pool.enlist, List.flatMap_singleton]
    rfl

/-- The jobs of cuts that a pool refuses, and the pool afterwards. -/
def submission (outbox : Outbox) (registration : Nat) (cuts : List Cut) (pool : Pool) :
    List Job × Pool :=
  pool.enlist (cuts.map (outbox.jobOf registration))

/-- The records that come back when cuts are submitted. -/
def refusals (outbox : Outbox) (registration : Nat) (cuts : List Cut) (pool : Pool) :
    List Record :=
  (outbox.submission registration cuts pool).1.flatMap Job.records

theorem submission_append (outbox : Outbox) (registration : Nat) (cuts others : List Cut)
    (pool : Pool) :
    outbox.submission registration (cuts ++ others) pool
      = let first := outbox.submission registration cuts pool
        (first.1 ++ (outbox.submission registration others first.2).1,
          (outbox.submission registration others first.2).2) := by
  rw [submission, List.map_append, Pool.enlist_append]
  rfl

theorem submitAll_eq (registration : Nat) (destination : String) (batches : List (List Record))
    (outbox : Outbox) (pool : Pool) :
    submitAll registration destination batches outbox pool
      = (outbox.refusals registration (batches.map (Cut.mk destination)) pool,
        outbox.counted 0 batches.flatten.length
          (outbox.refusals registration (batches.map (Cut.mk destination)) pool).length,
        (outbox.submission registration (batches.map (Cut.mk destination)) pool).2) := by
  induction batches generalizing outbox pool with
  | nil => rfl
  | cons batch rest ih =>
    have hfirst : submit registration destination batch outbox pool
        = (outbox.refusals registration [⟨destination, batch⟩] pool,
          outbox.counted 0 batch.length
            (outbox.refusals registration [⟨destination, batch⟩] pool).length,
          (outbox.submission registration [⟨destination, batch⟩] pool).2) :=
      submit_eq registration ⟨destination, batch⟩ outbox pool
    have hjob (kept cut refused : Nat) (cuts : List Cut) (pool : Pool) :
        (outbox.counted kept cut refused).submission registration cuts pool
          = outbox.submission registration cuts pool := rfl
    have happend := submission_append outbox registration [⟨destination, batch⟩]
      (rest.map (Cut.mk destination)) pool
    rw [List.singleton_append] at happend
    simp only [submitAll, hfirst, ih, refusals, hjob, counted_counted, List.map_cons, happend,
      List.flatMap_append, List.flatten_cons, List.length_append, Nat.add_zero]

/-- Whatever holds of the records that wait for a destination, and of those that are added for it,
holds of the records of the batches that this fills and of those that wait afterwards. -/
theorem offerAll_forall {P : String → Record → Prop} {outbox : Outbox} {destination : String}
    {records : List Record} (hqueues : ∀ entry ∈ outbox.queues, ∀ r ∈ entry.2.records, P entry.1 r)
    (hrecords : ∀ r ∈ records, P destination r) :
    (∀ batch ∈ ((outbox.queue destination).offerAll records).1, ∀ r ∈ batch, P destination r)
      ∧ ∀ entry ∈ setQueue destination ((outbox.queue destination).offerAll records).2
          outbox.queues, ∀ r ∈ entry.2.records, P entry.1 r := by
  have hqueue := BatchingQueue.offerAll_append (outbox.queue destination) records
  -- A batch takes records that waited before and some of those that have just come.
  have hall : ∀ r ∈ (outbox.queue destination).records ++ records, P destination r := by
    intro r hr
    rcases List.mem_append.mp hr with hr | hr
    · rcases outbox.queue_eq_empty_or_mem destination with hempty | hmem
      · rw [hempty] at hr
        exact absurd hr List.not_mem_nil
      · exact hqueues _ hmem r hr
    · exact hrecords r hr
  rw [← hqueue] at hall
  refine ⟨fun batch hbatch r hr => ?_, fun entry hentry r hr => ?_⟩
  · exact hall r (List.mem_append_left _ (List.mem_flatten.mpr ⟨batch, hbatch, hr⟩))
  · rcases mem_setQueue hentry with rfl | hentry
    · exact hall r (List.mem_append_right _ hr)
    · exact hqueues entry hentry r hr

theorem cutAll_forall {P : String → Record → Prop} {outbox : Outbox}
    {groups : List (String × List Record)}
    (hqueues : ∀ entry ∈ outbox.queues, ∀ r ∈ entry.2.records, P entry.1 r)
    (hgroups : ∀ group ∈ groups, ∀ r ∈ group.2, P group.1 r) :
    (∀ cut ∈ (outbox.cutAll groups).1, ∀ r ∈ cut.batch, P cut.destination r)
      ∧ ∀ entry ∈ (outbox.cutAll groups).2, ∀ r ∈ entry.2.records, P entry.1 r := by
  induction groups generalizing outbox with
  | nil => exact ⟨fun cut hcut => absurd hcut List.not_mem_nil, hqueues⟩
  | cons group rest ih =>
    obtain ⟨destination, records⟩ := group
    obtain ⟨hbatches, hnext⟩ := offerAll_forall hqueues (hgroups _ (List.mem_cons_self ..))
    have hrest := @ih { outbox with
      queues := setQueue destination ((outbox.queue destination).offerAll records).2 outbox.queues }
      hnext (fun group hgroup => hgroups group (List.mem_cons_of_mem _ hgroup))
    refine ⟨fun cut hcut r hr => ?_, hrest.2⟩
    rcases List.mem_append.mp hcut with hcut | hcut
    · obtain ⟨batch, hbatch, rfl⟩ := List.mem_map.mp hcut
      exact hbatches batch hbatch r hr
    · exact hrest.1 cut hcut r hr

theorem cutAll_counted (outbox : Outbox) (kept cut refused : Nat)
    (groups : List (String × List Record)) :
    (outbox.counted kept cut refused).cutAll groups = outbox.cutAll groups := by
  induction groups generalizing outbox with
  | nil => rfl
  | cons group rest ih =>
    obtain ⟨destination, records⟩ := group
    have hrest := ih { outbox with
      queues := setQueue destination ((outbox.queue destination).offerAll records).2 outbox.queues }
    rw [cutAll, cutAll]
    exact congrArg (fun cut : List Cut × List (String × BatchingQueue) =>
      (((outbox.queue destination).offerAll records).1.map (Cut.mk destination) ++ cut.1, cut.2))
      hrest

theorem route_of_isLocal {routing : Routing} {owner : Option String}
    (h : routing.isLocal owner = true) (registration : Nat) (records : List Record)
    (outbox : Outbox) (pool : Pool) :
    route routing registration owner records outbox pool
      = (records, outbox.counted records.length 0 0, pool) := by
  cases owner with
  | none => rfl
  | some destination => exact if_pos h

theorem route_of_not_isLocal {routing : Routing} {destination : String}
    (h : routing.isLocal (some destination) = false) (registration : Nat) (records : List Record)
    (outbox : Outbox) (pool : Pool) :
    route routing registration (some destination) records outbox pool
      = post registration destination records outbox pool :=
  if_neg (by simpa [Routing.isLocal] using h)

/-- What comes of keeping records and submitting cuts: the kept records and the refused ones come
back, and everything is counted. -/
structure Routed (registration : Nat) (outbox : Outbox) (pool : Pool) (kept : List Record)
    (cuts : List Cut × List (String × BatchingQueue)) (result : List Record × Outbox × Pool) :
    Prop where
  returned : result.1.Perm (kept ++ outbox.refusals registration cuts.1 pool)
  outbox_eq : result.2.1 = ({ outbox with queues := cuts.2 } : Outbox).counted kept.length
    (cuts.1.flatMap Cut.batch).length (outbox.refusals registration cuts.1 pool).length
  pool_eq : result.2.2 = (outbox.submission registration cuts.1 pool).2

theorem Routed.keep {registration : Nat} {outbox : Outbox} {pool : Pool} {kept : List Record}
    {cuts : List Cut × List (String × BatchingQueue)} {result : List Record × Outbox × Pool}
    (records : List Record)
    (h : Routed registration (outbox.counted records.length 0 0) pool kept cuts result) :
    Routed registration outbox pool (records ++ kept) cuts (records ++ result.1, result.2) where
  returned := by
    rw [List.append_assoc]
    exact h.returned.append_left records
  outbox_eq := by
    rw [h.outbox_eq, List.length_append]
    refine (counted_counted { outbox with queues := cuts.2 } records.length 0 0 _ _ _).trans ?_
    rw [Nat.zero_add, Nat.zero_add]
    rfl
  pool_eq := h.pool_eq

theorem Routed.post {registration : Nat} {outbox : Outbox} {pool : Pool} {kept : List Record}
    {cuts : List Cut × List (String × BatchingQueue)} {result : List Record × Outbox × Pool}
    (queues : List (String × BatchingQueue)) (first : List Cut)
    (h : Routed registration
      (({ outbox with queues } : Outbox).counted 0 (first.flatMap Cut.batch).length
        (outbox.refusals registration first pool).length)
      (outbox.submission registration first pool).2 kept cuts result) :
    Routed registration outbox pool kept (first ++ cuts.1, cuts.2)
      (outbox.refusals registration first pool ++ result.1, result.2) := by
  have happend : outbox.refusals registration (first ++ cuts.1) pool
      = outbox.refusals registration first pool
        ++ outbox.refusals registration cuts.1 (outbox.submission registration first pool).2 := by
    rw [refusals, submission_append, List.flatMap_append]
    rfl
  refine ⟨?_, ?_, ?_⟩
  · rw [happend]
    exact (h.returned.append_left _).trans (List.perm_append_comm_assoc ..)
  · rw [h.outbox_eq, happend, List.flatMap_append, List.length_append, List.length_append]
    refine (counted_counted { outbox with queues := cuts.2 } 0 _ _ _ _ _).trans ?_
    rw [Nat.zero_add]
    rfl
  · rw [h.pool_eq, submission_append]
    rfl

/-- Every record that is not kept is put into the queue of its owner, and the batches that this
fills are submitted. -/
theorem routed_routeAll (routing : Routing) (registration : Nat)
    (groups : List (Option String × List Record)) (outbox : Outbox) (pool : Pool) :
    Routed registration outbox pool (staying routing groups)
      (outbox.cutAll (leaving routing groups))
      (routeAll routing registration groups outbox pool) := by
  induction groups generalizing outbox pool with
  | nil => exact ⟨List.Perm.refl _, rfl, rfl⟩
  | cons group rest ih =>
    obtain ⟨owner, records⟩ := group
    rw [routeAll]
    cases hlocal : routing.isLocal owner with
    | true =>
      have hrest := ih (outbox.counted records.length 0 0) pool
      rw [cutAll_counted] at hrest
      rw [route_of_isLocal hlocal]
      simp only [staying, leaving, hlocal, List.flatMap_cons, List.filterMap_cons, if_true]
      exact hrest.keep records
    | false =>
      cases owner with
      | none => exact absurd hlocal (by simp [Routing.isLocal])
      | some destination =>
        rw [route_of_not_isLocal hlocal, Outbox.post]
        simp only [submitAll_eq, staying, leaving, hlocal, List.flatMap_cons, List.filterMap_cons,
          Bool.false_eq_true, if_false, Option.map_some, List.nil_append, cutAll]
        generalize (outbox.queue destination).offerAll records = offered
        have hcuts : offered.1.flatten
            = (offered.1.map (Cut.mk destination)).flatMap Cut.batch := by
          rw [List.flatMap_map, List.flatMap_id']
        refine Routed.post (setQueue destination offered.2 outbox.queues) _ ?_
        rw [hcuts]
        have hrest (outbox : Outbox) (kept cut refused : Nat) :=
          ih (outbox.counted kept cut refused)
        simp only [cutAll_counted] at hrest
        exact hrest _ _ _ _ _

variable (routing : Routing) (registration : Nat) (records : List Record) (outbox : Outbox)

/-- The batches that forwarding cuts, in order, and the queues afterwards. -/
def forwardCuts : List Cut × List (String × BatchingQueue) :=
  outbox.cutAll (leaving routing (groupByOwner (routing.ownerOf outbox.keys) records))

/-- The records that forwarding keeps. -/
def forwardKept : List Record :=
  staying routing (groupByOwner (routing.ownerOf outbox.keys) records)

theorem routed_forward (pool : Pool) :
    Routed registration outbox pool (outbox.forwardKept routing records)
      (outbox.forwardCuts routing records) (outbox.forward routing registration records pool) :=
  routed_routeAll routing registration _ outbox pool

/-- No record is lost and none is added: what is kept, cut and waits is what waited and came. -/
theorem forward_perm :
    List.Perm
      (outbox.forwardKept routing records
        ++ ((outbox.forwardCuts routing records).1.flatMap Cut.batch
          ++ ({ outbox with queues := (outbox.forwardCuts routing records).2 } : Outbox).waiting))
      (outbox.waiting ++ records) := by
  classical
  have hgroups := groupByOwner_perm (routing.ownerOf outbox.keys) records
  have hsplit := staying_append_leaving routing (groupByOwner (routing.ownerOf outbox.keys) records)
  have hcuts := outbox.cutAll_perm
    (leaving routing (groupByOwner (routing.ownerOf outbox.keys) records))
  rw [List.perm_iff_count] at hgroups hsplit hcuts ⊢
  intro r
  have hgroups := hgroups r
  have hsplit := hsplit r
  have hcuts := hcuts r
  simp only [forwardKept, forwardCuts, List.count_append] at hsplit hcuts ⊢
  omega

/-- The pool after forwarding has the jobs of some of the cuts more; the records of the other cuts
come back with those that are kept. -/
theorem exists_accepted_forward (pool : Pool) :
    ∃ accepted,
      (outbox.forward routing registration records pool).2.2
          = { pool with waiting := pool.waiting ++ accepted }
        ∧ (∀ job ∈ accepted, ∃ cut ∈ (outbox.forwardCuts routing records).1,
            job = outbox.jobOf registration cut)
        ∧ List.Perm
            ((outbox.forward routing registration records pool).1 ++ accepted.flatMap Job.records)
            (outbox.forwardKept routing records
              ++ (outbox.forwardCuts routing records).1.flatMap Cut.batch) := by
  have hrouted := outbox.routed_forward routing registration records pool
  obtain ⟨accepted, hpool, hperm⟩ := Pool.exists_accepted
    ((outbox.forwardCuts routing records).1.map (outbox.jobOf registration)) pool
  refine ⟨accepted, hrouted.pool_eq.trans hpool, ?_, ?_⟩
  · intro job hjob
    obtain ⟨cut, hcut, rfl⟩ := List.mem_map.mp (hperm.subset (List.mem_append_left _ hjob))
    exact ⟨cut, hcut, rfl⟩
  · have hrecords : ((outbox.forwardCuts routing records).1.map
        (outbox.jobOf registration)).flatMap Job.records
          = (outbox.forwardCuts routing records).1.flatMap Cut.batch := by
      rw [List.flatMap_map]
      rfl
    rw [← hrecords]
    refine (hrouted.returned.append_right _).trans ?_
    rw [List.append_assoc]
    refine List.Perm.append_left _ ?_
    refine List.perm_append_comm.trans ?_
    rw [refusals, submission, ← List.flatMap_append]
    exact hperm.flatMap_right _

variable {outbox}

theorem mem_submission {cuts : List Cut} {pool : Pool} {job : Job}
    (h : job ∈ (outbox.submission registration cuts pool).1) :
    ∃ cut ∈ cuts, job = outbox.jobOf registration cut := by
  obtain ⟨accepted, -, hperm⟩ := Pool.exists_accepted (cuts.map (outbox.jobOf registration)) pool
  obtain ⟨cut, hcut, rfl⟩ := List.mem_map.mp (hperm.subset (List.mem_append_right _ h))
  exact ⟨cut, hcut, rfl⟩

/-- A record comes back because it belongs here or with a job that is refused. -/
theorem mem_forward {pool : Pool} {record : Record}
    (h : record ∈ (outbox.forward routing registration records pool).1) :
    (record ∈ records ∧ routing.isLocal (routing.ownerOf outbox.keys record) = true)
      ∨ ∃ job ∈ (outbox.submission registration (outbox.forwardCuts routing records).1 pool).1,
        record ∈ job.records := by
  have hrouted := outbox.routed_forward routing registration records pool
  rcases List.mem_append.mp (hrouted.returned.subset h) with hkept | hrefused
  · left
    obtain ⟨group, hgroup, hrecord, hlocal⟩ := mem_staying hkept
    obtain ⟨hmem, howner⟩ := owner_of_mem_groupByOwner _ hgroup hrecord
    exact ⟨hmem, by rwa [howner]⟩
  · exact .inr (List.mem_flatMap.mp hrefused)

end Outbox

end RecordRelay
