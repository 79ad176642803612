import RecordRelay.Proofs.Forwarding.Submission

/-! A call takes up the owners of its records one after the other. It hands back the records that
belong here, and submits the batches that the records of the others fill. Workers and other stages
use the dispatch pool at the same time, so each job may find the pool in a state of its own, and the
order in which owners are taken up is open. What a call does is told by its turns. -/
namespace RecordRelay

/-- A job that is submitted, and the dispatch pool as the job finds it. -/
structure Submission where
  job : Job
  pool : Pool

namespace Submission

def taken (submission : Submission) : Bool := (submission.pool.submit submission.job).isOk

/-- The records that come back with the job, if the pool refuses it. -/
def returned (submission : Submission) : List Record :=
  match submission.pool.submit submission.job with
  | .ok _ => []
  | .error (_, refused) => refused.records

def left (submission : Submission) : Pool :=
  match submission.pool.submit submission.job with
  | .ok pool => pool
  | .error _ => submission.pool

def destination (submission : Submission) : String := submission.job.request.destination

/-- A job that is taken waits in the pool behind the others; one that is refused changes nothing
and brings all its records back. -/
theorem spec (submission : Submission) :
    submission.returned = (if submission.taken then [] else submission.job.records)
      ∧ submission.left = if submission.taken then
          { submission.pool with waiting := submission.pool.waiting ++ [submission.job] }
        else submission.pool := by
  unfold returned left taken
  rcases submission.pool.submit_cases submission.job with h | ⟨cause, h⟩ <;> simp [h, Except.isOk,
    Except.toBool]

end Submission

/-- Each job finds the pool as the one before has left it. -/
def Threaded : Pool → List Submission → Pool → Prop
  | pool, [], last => pool = last
  | pool, submission :: rest, last => submission.pool = pool ∧ Threaded submission.left rest last

theorem Threaded.append {first middle last : Pool} {submissions others : List Submission}
    (h : Threaded first submissions middle) (hothers : Threaded middle others last) :
    Threaded first (submissions ++ others) last := by
  induction submissions generalizing first with
  | nil =>
    cases h
    exact hothers
  | cons submission rest ih => exact ⟨h.1, ih h.2⟩

namespace Outbox

/-- Batches for a destination are submitted one after the other, each to the pool of the moment. -/
inductive Submits (registration : Nat) (destination : String) :
    List (List Record) → Outbox → List Submission → Outbox → Prop where
  | nil {outbox : Outbox} : Submits registration destination [] outbox [] outbox
  | cons {batch : List Record} {batches : List (List Record)} {outbox next : Outbox}
      {submissions : List Submission} (pool : Pool)
      (rest : Submits registration destination batches
        (submit registration destination batch outbox pool).2.1 submissions next) :
      Submits registration destination (batch :: batches) outbox
        (⟨outbox.job registration destination batch, pool⟩ :: submissions) next

theorem submit_spec (registration : Nat) (destination : String) (batch : List Record)
    (outbox : Outbox) (pool : Pool) :
    (submit registration destination batch outbox pool).1
        = (Submission.mk (outbox.job registration destination batch) pool).returned
      ∧ (submit registration destination batch outbox pool).2.2
        = (Submission.mk (outbox.job registration destination batch) pool).left
      ∧ ∃ counters, (submit registration destination batch outbox pool).2.1
        = { outbox with counters } := by
  unfold submit Submission.returned Submission.left
  rcases pool.submit_cases (outbox.job registration destination batch) with h | ⟨cause, h⟩
  · simp only [h]
    exact ⟨trivial, trivial, _, rfl⟩
  · simp only [h]
    exact ⟨trivial, trivial, _, rfl⟩

variable {registration : Nat} {destination : String} {outbox next : Outbox}

/-- Each batch makes one job, and nothing but counters changes in the outbox. -/
theorem Submits.spec {batches : List (List Record)} {submissions : List Submission}
    (h : Submits registration destination batches outbox submissions next) :
    submissions.map Submission.job = batches.map (outbox.job registration destination)
      ∧ ∃ counters, next = { outbox with counters } := by
  induction h with
  | nil => exact ⟨rfl, _, rfl⟩
  | @cons batch batches outbox next submissions pool rest ih =>
    obtain ⟨-, -, counters, hfirst⟩ := submit_spec registration destination batch outbox pool
    obtain ⟨hjobs, others, hnext⟩ := ih
    rw [hfirst] at hjobs hnext
    refine ⟨?_, others, hnext⟩
    rw [List.map_cons, List.map_cons, hjobs]
    rfl

theorem Submits.job_eq {batches : List (List Record)} {submissions : List Submission}
    (h : Submits registration destination batches outbox submissions next) {s : Submission}
    (hs : s ∈ submissions) :
    s.job.records ∈ batches ∧ s.job = outbox.job registration destination s.job.records := by
  have hjob : s.job ∈ batches.map (outbox.job registration destination) := by
    rw [← h.spec.1]
    exact List.mem_map_of_mem hs
  obtain ⟨batch, hbatch, heq⟩ := List.mem_map.mp hjob
  rw [← heq]
  exact ⟨hbatch, rfl⟩

/-- When nobody else uses the pool, it goes from one batch to the next. -/
theorem submits_submitAll (registration : Nat) (destination : String)
    (batches : List (List Record)) (outbox : Outbox) (pool : Pool) :
    ∃ submissions,
      Submits registration destination batches outbox submissions
          (submitAll registration destination batches outbox pool).2.1
        ∧ (submitAll registration destination batches outbox pool).1
          = submissions.flatMap Submission.returned
        ∧ Threaded pool submissions
          (submitAll registration destination batches outbox pool).2.2 := by
  induction batches generalizing outbox pool with
  | nil => exact ⟨[], .nil, rfl, rfl⟩
  | cons batch rest ih =>
    obtain ⟨hreturned, hleft, -⟩ := submit_spec registration destination batch outbox pool
    obtain ⟨submissions, hrest, hothers, hthreaded⟩ :=
      ih (submit registration destination batch outbox pool).2.1
        (submit registration destination batch outbox pool).2.2
    refine ⟨⟨outbox.job registration destination batch, pool⟩ :: submissions,
      .cons pool hrest, ?_, rfl, ?_⟩
    · rw [List.flatMap_cons, ← hreturned, ← hothers]
      rfl
    · rw [← hleft]
      exact hthreaded

/-- What a call does with the records of one owner. -/
inductive Turn where
  /-- The records are handed back. -/
  | keep (owner : Option String) (records : List Record)
  /-- The records go into the queue of their owner, and the batches that this fills are
  submitted. -/
  | post (destination : String) (submissions : List Submission)

namespace Turn

def owner : Turn → Option String
  | keep owner _ => owner
  | post destination _ => some destination

def kept : Turn → List Record
  | keep _ records => records
  | post _ _ => []

def submissions : Turn → List Submission
  | keep _ _ => []
  | post _ submissions => submissions

def returned (turn : Turn) : List Record :=
  turn.kept ++ turn.submissions.flatMap Submission.returned

end Turn

/-- The batches that records for a destination fill. -/
def filled (outbox : Outbox) (destination : String) (records : List Record) :
    List (List Record) :=
  ((outbox.queue destination).offerAll records).1

/-- The outbox after records for a destination were queued and filled batches taken out. -/
def enqueue (outbox : Outbox) (destination : String) (records : List Record) : Outbox :=
  let queue := ((outbox.queue destination).offerAll records).2
  { outbox with queues := setQueue destination queue outbox.queues }

/-- A call takes up groups of records in turn. -/
inductive Takes (routing : Routing) (registration : Nat) :
    List (Option String × List Record) → Outbox → List Turn → Outbox → Prop where
  | nil {outbox : Outbox} : Takes routing registration [] outbox [] outbox
  | keep {owner : Option String} {records : List Record}
      {groups : List (Option String × List Record)} {outbox next : Outbox} {turns : List Turn}
      (stays : routing.isLocal owner = true)
      (rest : Takes routing registration groups (outbox.counted records.length 0 0) turns next) :
      Takes routing registration ((owner, records) :: groups) outbox
        (.keep owner records :: turns) next
  | post {destination : String} {records : List Record}
      {groups : List (Option String × List Record)} {outbox between next : Outbox}
      {submissions : List Submission} {turns : List Turn}
      (leaves : routing.isLocal (some destination) = false)
      (submits : Submits registration destination (outbox.filled destination records)
        (outbox.enqueue destination records) submissions between)
      (rest : Takes routing registration groups between turns next) :
      Takes routing registration ((some destination, records) :: groups) outbox
        (.post destination submissions :: turns) next

variable {routing : Routing} {groups : List (Option String × List Record)} {turns : List Turn}

/-- When nobody else uses the pool, a call takes up groups just so. -/
theorem takes_routeAll (routing : Routing) (registration : Nat)
    (groups : List (Option String × List Record)) (outbox : Outbox) (pool : Pool) :
    ∃ turns,
      Takes routing registration groups outbox turns
          (routeAll routing registration groups outbox pool).2.1
        ∧ (routeAll routing registration groups outbox pool).1 = turns.flatMap Turn.returned
        ∧ Threaded pool (turns.flatMap Turn.submissions)
          (routeAll routing registration groups outbox pool).2.2 := by
  induction groups generalizing outbox pool with
  | nil => exact ⟨[], .nil, rfl, rfl⟩
  | cons group rest ih =>
    obtain ⟨owner, records⟩ := group
    rw [routeAll]
    cases hlocal : routing.isLocal owner with
    | true =>
      rw [route_of_isLocal hlocal]
      obtain ⟨turns, hrest, hreturned, hthreaded⟩ :=
        ih (outbox.counted records.length 0 0) pool
      refine ⟨.keep owner records :: turns, .keep hlocal hrest, ?_, hthreaded⟩
      rw [List.flatMap_cons, ← hreturned]
      simp [Turn.returned, Turn.kept, Turn.submissions]
    | false =>
      cases owner with
      | none => exact absurd hlocal (by simp [Routing.isLocal])
      | some destination =>
        rw [route_of_not_isLocal hlocal]
        have hpost : Outbox.post registration destination records outbox pool
            = submitAll registration destination (outbox.filled destination records)
              (outbox.enqueue destination records) pool := rfl
        rw [hpost]
        obtain ⟨submissions, hsubmits, hrefused, hfirst⟩ :=
          submits_submitAll registration destination (outbox.filled destination records)
            (outbox.enqueue destination records) pool
        generalize submitAll registration destination (outbox.filled destination records)
          (outbox.enqueue destination records) pool = result at *
        obtain ⟨turns, hrest, hreturned, hthreaded⟩ := ih result.2.1 result.2.2
        refine ⟨.post destination submissions :: turns, .post hlocal hsubmits hrest, ?_,
          hfirst.append hthreaded⟩
        rw [List.flatMap_cons, ← hreturned]
        simp only [Turn.returned, Turn.kept, Turn.submissions, List.nil_append, ← hrefused]

end Outbox

end RecordRelay
