import Mathlib
import RecordRelay.Proofs.Dispatch.Workers

/-! Every job that was submitted is in one place: with its submitter, in the queue, with one worker,
or completed with the answer that the client gave to its own request. Shutdown returns when there is
nothing left but the completed ones. -/
namespace RecordRelay

namespace Pool

variable {pool next : Pool} {job : Job}

theorem submit_of_closed (hclosed : pool.accepting = false) (job : Job) :
    pool.submit job = .error (.shutDown, job) := by
  simp [submit, hclosed]

theorem submit_of_open (hworkers : 0 < pool.workers) (hcapacity : 0 < pool.capacity)
    (hopen : pool.accepting = true) (job : Job) :
    pool.submit job =
      if pool.waiting.length < pool.capacity then
        .ok { pool with waiting := pool.waiting ++ [job] }
      else .error (.queueFull, job) := by
  simp [submit, hasRoom, hopen, hworkers.ne', hcapacity.ne']

theorem take_eq_some (h : pool.take = some (job, next)) :
    ∃ rest, pool.waiting = job :: rest
      ∧ next = { pool with waiting := rest, running := pool.running ++ [job] } := by
  rw [take] at h
  cases hwaiting : pool.waiting with
  | nil =>
    rw [hwaiting] at h
    contradiction
  | cons first rest =>
    rw [hwaiting] at h
    dsimp only at h
    split_ifs at h
    obtain ⟨rfl, rfl⟩ := Prod.mk.inj (Option.some.inj h)
    exact ⟨rest, rfl, rfl⟩

theorem finish_eq_some {place : Nat} (h : pool.finish place = some (job, next)) :
    pool.running[place]? = some job
      ∧ next = { pool with running := pool.running.eraseIdx place } := by
  rw [finish, Option.map_eq_some_iff] at h
  obtain ⟨found, hfound, heq⟩ := h
  obtain ⟨rfl, rfl⟩ := Prod.mk.inj heq
  exact ⟨hfound, rfl⟩

namespace Trace

/-- The trace before an act and after it. -/
inductive Transition (trace : Trace) : Act → Trace → Prop
  | idles (act : Act) (hjob : act.job? = none) (hclose : act ≠ .close) : Transition trace act trace
  | accepts (job : Job) (hopen : trace.pool.accepting = true)
      (hroom : trace.pool.waiting.length < trace.pool.capacity) :
      Transition trace (.submit job)
        { trace with
          pool := { trace.pool with waiting := trace.pool.waiting ++ [job] }
          submitted := trace.submitted ++ [⟨trace.submitted.length, job⟩]
          accepted := trace.accepted ++ [⟨trace.submitted.length, job⟩]
          waiting := trace.waiting ++ [⟨trace.submitted.length, job⟩] }
  | refuses (job : Job) (cause : Refusal) :
      Transition trace (.submit job)
        { trace with
          submitted := trace.submitted ++ [⟨trace.submitted.length, job⟩]
          handedBack := trace.handedBack ++ [⟨⟨trace.submitted.length, job⟩, cause⟩] }
  | takes (worker : Nat) (job : Job) (rest : List Job) (hfree : trace.IsFree worker)
      (hwaiting : trace.pool.waiting = job :: rest) :
      Transition trace (.take worker)
        { trace with
          pool := { trace.pool with waiting := rest, running := trace.pool.running ++ [job] }
          assignments :=
            trace.assignments ++ [⟨worker, { trace.waiting.headD ⟨0, job⟩ with job }, none⟩]
          waiting := trace.waiting.tail
          started := trace.started ++ [{ trace.waiting.headD ⟨0, job⟩ with job }] }
  | answers (front back : List Assignment) (worker : Nat) (ticket : Ticket) (outcome : Outcome)
      (hassign : trace.assignments = front ++ ⟨worker, ticket, none⟩ :: back) :
      Transition trace (.answer worker outcome)
        { trace with
          assignments := front ++ ⟨worker, ticket, some outcome⟩ :: back
          answers := trace.answers ++ [⟨ticket.number, ticket.job.request, outcome⟩] }
  | completes (front back : List Assignment) (worker : Nat) (ticket : Ticket) (outcome : Outcome)
      (job : Job) (hassign : trace.assignments = front ++ ⟨worker, ticket, some outcome⟩ :: back)
      (hjob : trace.pool.running[front.length]? = some job) :
      Transition trace (.complete worker)
        { trace with
          pool := { trace.pool with running := trace.pool.running.eraseIdx front.length }
          assignments := front ++ back
          completed := trace.completed ++ [⟨{ ticket with job }, outcome⟩] }
  | leaves (worker : Nat) (hfree : trace.IsFree worker) (hclosed : trace.pool.accepting = false)
      (hwaiting : trace.pool.waiting = []) :
      Transition trace (.leave worker) { trace with gone := trace.gone ++ [worker] }
  | closes : Transition trace .close { trace with pool := trace.pool.close, closing := true }
  | joins (hclosing : trace.closing = true)
      (hgone : ∀ worker < trace.pool.workers, worker ∈ trace.gone) :
      Transition trace .join { trace with closed := true }

variable {trace later : Trace} {worker place : Nat} {act : Act}

theorem exists_assigned (h : trace.place? worker = some place) :
    ∃ front back ticket outcome, trace.assignments = front ++ ⟨worker, ticket, outcome⟩ :: back
      ∧ front.length = place := by
  obtain ⟨hlt, hworker, -⟩ := List.findIdx?_eq_some_iff_getElem.mp h
  refine ⟨trace.assignments.take place, trace.assignments.drop (place + 1),
    trace.assignments[place].ticket,
    trace.assignments[place].outcome, ?_, List.length_take_of_le hlt.le⟩
  rw [← of_decide_eq_true hworker, ← List.drop_eq_getElem_cons hlt, List.take_append_drop]

theorem transition_submit (hworkers : 0 < trace.pool.workers) (hcapacity : 0 < trace.pool.capacity)
    (job : Job) : Transition trace (.submit job) (trace.submit job) := by
  rw [submit]
  rcases hopen : trace.pool.accepting with _ | _
  · simp only [submit_of_closed hopen]
    exact .refuses job .shutDown
  · simp only [submit_of_open hworkers hcapacity hopen]
    by_cases hroom : trace.pool.waiting.length < trace.pool.capacity
    · simp only [if_pos hroom]
      exact .accepts job hopen hroom
    · simp only [if_neg hroom]
      exact .refuses job .queueFull

theorem transition_take (hfree : trace.IsFree worker) :
    Transition trace (.take worker) (trace.take worker) := by
  rw [take]
  rcases htake : trace.pool.take with _ | ⟨job, pool⟩
  · exact .idles _ rfl nofun
  · obtain ⟨rest, hwaiting, rfl⟩ := take_eq_some htake
    exact .takes worker job rest hfree hwaiting

theorem transition_answer (hplace : trace.place? worker = some place) (outcome : Outcome) :
    Transition trace (.answer worker outcome) (trace.answer place outcome) := by
  obtain ⟨front, back, ticket, given, hassign, rfl⟩ := exists_assigned hplace
  have hassigned : trace.assignments[front.length]? = some ⟨worker, ticket, given⟩ := by
    simp [hassign]
  rw [answer, hassigned]
  cases given with
  | none =>
    dsimp only
    rw [hassign, List.set_append_right _ _ le_rfl, Nat.sub_self, List.set_cons_zero]
    exact .answers front back worker ticket outcome hassign
  | some given => exact .idles _ rfl nofun

theorem transition_complete (hplace : trace.place? worker = some place) :
    Transition trace (.complete worker) (trace.complete place) := by
  obtain ⟨front, back, ticket, given, hassign, rfl⟩ := exists_assigned hplace
  have hassigned : trace.assignments[front.length]? = some ⟨worker, ticket, given⟩ := by
    simp [hassign]
  rw [complete, hassigned]
  rcases given with _ | outcome
  · exact .idles _ rfl nofun
  rcases hfinish : trace.pool.finish front.length with _ | ⟨job, pool⟩
  · exact .idles _ rfl nofun
  obtain ⟨hjob, rfl⟩ := finish_eq_some hfinish
  have herase : trace.assignments.eraseIdx front.length = front ++ back := by
    rw [hassign, List.eraseIdx_append_of_length_le le_rfl, Nat.sub_self, List.eraseIdx_cons_zero]
  dsimp only
  rw [herase]
  exact .completes front back worker ticket outcome job hassign hjob

theorem transition_step (hworkers : 0 < trace.pool.workers) (hcapacity : 0 < trace.pool.capacity)
    (act : Act) : Transition trace act (trace.step act) := by
  cases act with
  | submit job => exact transition_submit hworkers hcapacity job
  | take worker =>
    rw [step]
    split_ifs with hfree
    · exact transition_take hfree
    · exact .idles _ rfl nofun
  | answer worker outcome =>
    rw [step]
    cases hplace : trace.place? worker with
    | none => exact .idles _ rfl nofun
    | some place => exact transition_answer hplace outcome
  | complete worker =>
    rw [step]
    cases hplace : trace.place? worker with
    | none => exact .idles _ rfl nofun
    | some place => exact transition_complete hplace
  | leave worker =>
    rw [step]
    split_ifs with h
    · exact .leaves worker h.1 h.2.1 (List.isEmpty_iff.mp h.2.2)
    · exact .idles _ rfl nofun
  | close => exact .closes
  | join =>
    rw [step]
    split_ifs with h
    · exact .joins h.1 h.2
    · exact .idles _ rfl nofun

/-- The jobs that were submitted are those of the acts. -/
theorem Transition.submitted_eq (h : Transition trace act later) :
    later.submitted.map Ticket.job = trace.submitted.map Ticket.job ++ act.job?.toList := by
  cases h with
  | idles act hjob hclose => rw [hjob, Option.toList_none, List.append_nil]
  | accepts job hopen hroom => exact List.map_append
  | refuses job cause => exact List.map_append
  | _ => exact (List.append_nil _).symm

theorem Transition.closing_iff (h : Transition trace act later) :
    later.closing = true ↔ trace.closing = true ∨ act = .close := by
  cases h with
  | idles act hjob hclose => exact (or_iff_left hclose).symm
  | closes => exact iff_of_true rfl (.inr rfl)
  | _ => exact (or_iff_left nofun).symm

/-- What has been handed back or completed stays so. -/
theorem Transition.settled (h : Transition trace act later) :
    trace.handedBack <+: later.handedBack ∧ trace.completed <+: later.completed := by
  cases h with
  | refuses job cause => exact ⟨List.prefix_append .., List.prefix_rfl⟩
  | completes => exact ⟨List.prefix_rfl, List.prefix_append ..⟩
  | _ => exact ⟨List.prefix_rfl, List.prefix_rfl⟩

/-- What was seen of a pool agrees with it. -/
structure Agrees (trace : Trace) : Prop where
  numbers : trace.submitted.map Ticket.number = List.range trace.submitted.length
  shared : (trace.handedBack.map HandedBack.ticket ++ trace.accepted).Perm trace.submitted
  ordered : trace.accepted.Sublist trace.submitted
  begun : trace.accepted = trace.started ++ trace.waiting
  served : trace.started.Perm
    (trace.assignments.map Assignment.ticket ++ trace.completed.map Completion.ticket)
  waiting : trace.pool.waiting = trace.waiting.map Ticket.job
  running : trace.pool.running = trace.assignments.map fun assigned => assigned.ticket.job
  answers : trace.answers.Perm
    (trace.completed.map Completion.answer ++ trace.assignments.filterMap Assignment.answer?)

theorem agrees_start (workers capacity : Nat) : (start workers capacity).Agrees where
  numbers := rfl
  shared := .refl _
  ordered := .refl _
  begun := rfl
  served := .refl _
  waiting := rfl
  running := rfl
  answers := .refl _

theorem Agrees.numbers_append (h : trace.Agrees) (job : Job) :
    (trace.submitted ++ [Ticket.mk trace.submitted.length job]).map Ticket.number
      = List.range (trace.submitted ++ [Ticket.mk trace.submitted.length job]).length := by
  simp [h.numbers, List.range_succ]

/-- The job that a worker takes is the first of those that wait. -/
theorem Agrees.headD_waiting (h : trace.Agrees) {rest : List Job}
    (hwaiting : trace.pool.waiting = job :: rest) :
    trace.waiting = { trace.waiting.headD ⟨0, job⟩ with job } :: trace.waiting.tail
      ∧ rest = trace.waiting.tail.map Ticket.job := by
  have hjobs := h.waiting
  cases htickets : trace.waiting with
  | nil =>
    rw [hwaiting, htickets] at hjobs
    contradiction
  | cons ticket tickets =>
    rw [hwaiting, htickets, List.map_cons] at hjobs
    obtain ⟨rfl, rfl⟩ := List.cons.inj hjobs
    exact ⟨rfl, rfl⟩

theorem Agrees.transition (h : trace.Agrees) (htrans : Transition trace act later) :
    later.Agrees := by
  cases htrans with
  | idles => exact h
  | accepts job hopen hroom =>
    refine { h with numbers := h.numbers_append job, shared := ?_, ordered := ?_, begun := ?_,
                    waiting := ?_ }
    · rw [← List.append_assoc]
      exact h.shared.append_right _
    · exact h.ordered.append (.refl _)
    · simp only [h.begun, List.append_assoc]
    · simp only [h.waiting, List.map_append, List.map_singleton]
  | refuses job cause =>
    refine { h with numbers := h.numbers_append job, shared := ?_, ordered := ?_ }
    · rw [List.map_append, List.map_singleton, List.append_assoc]
      refine (List.perm_append_comm.append_left _).trans ?_
      rw [← List.append_assoc]
      exact h.shared.append_right _
    · exact h.ordered.trans (List.sublist_append_left ..)
  | takes worker job rest hfree hwaiting =>
    obtain ⟨hticket, hrest⟩ := h.headD_waiting hwaiting
    refine { h with begun := ?_, served := ?_, waiting := hrest, running := ?_, answers := ?_ }
    · rw [List.append_assoc, List.singleton_append, ← hticket]
      exact h.begun
    · rw [List.map_append, List.map_singleton, List.append_assoc]
      refine (h.served.append_right _).trans ?_
      rw [List.append_assoc]
      exact List.perm_append_comm.append_left _
    · simp only [h.running, List.map_append, List.map_singleton]
    · simpa [List.filterMap_cons] using h.answers
  | answers front back worker ticket outcome hassign =>
    refine { h with served := ?_, running := ?_, answers := ?_ }
    · simpa [hassign] using h.served
    · simpa [hassign] using h.running
    · have hanswers := h.answers
      simp only [hassign, List.filterMap_append, List.filterMap_cons, Assignment.answer?_none,
        Assignment.answer?_some] at hanswers ⊢
      refine (hanswers.append_right _).trans ?_
      simp only [List.append_assoc]
      refine (List.Perm.append_left _ ?_).append_left _
      exact List.perm_append_singleton ..
  | completes front back worker ticket outcome job hassign hjob =>
    have hrunning := h.running
    -- The pool runs jobs in the order of the assignments, so it finishes the job of this one.
    have hown : { ticket with job } = ticket := by
      rw [hrunning, hassign, List.getElem?_map, List.getElem?_append_right le_rfl,
        Nat.sub_self] at hjob
      rw [← Option.some.inj hjob]
    have hserved := h.served
    have hanswers := h.answers
    rw [hown]
    refine { h with served := ?_, running := ?_, answers := ?_ }
    · simp only [hassign, List.map_append, List.map_cons, List.map_nil, List.append_assoc,
        List.cons_append] at hserved ⊢
      refine hserved.trans (List.Perm.append_left _ ?_)
      exact (List.perm_append_singleton _ _).symm.trans (.of_eq (by simp))
    · have hplace : front.length = (front.map fun assigned => assigned.ticket.job).length := by simp
      rw [hrunning, hassign, List.map_append, List.map_cons, hplace,
        List.eraseIdx_append_of_length_le le_rfl, Nat.sub_self, List.eraseIdx_cons_zero,
        List.map_append]
    · simp only [hassign, List.filterMap_append, List.filterMap_cons, Assignment.answer?_some,
        List.map_append, List.map_cons, List.map_nil, List.append_assoc, List.cons_append]
        at hanswers ⊢
      refine hanswers.trans (List.Perm.append_left _ ?_)
      exact List.perm_middle
  | leaves worker hfree hclosed hwaiting => exact { h with }
  | closes => exact { h with }
  | joins hclosing hgone => exact { h with }

/-- Workers run one job at a time, and none of them ends before the pool is closed and empty. -/
structure Orderly (workers capacity : Nat) (trace : Trace) : Prop where
  size : trace.pool.workers = workers
  bound : trace.pool.capacity = capacity
  accepting : trace.pool.accepting = !trace.closing
  room : trace.pool.waiting.length ≤ capacity
  distinct : (trace.assignments.map Assignment.worker ++ trace.gone).Nodup
  known : ∀ worker ∈ trace.assignments.map Assignment.worker ++ trace.gone, worker < workers
  emptied : trace.gone ≠ [] → trace.closing = true ∧ trace.pool.waiting = []
  joined : trace.closed = true →
    trace.closing = true ∧ ∀ worker < workers, worker ∈ trace.gone

theorem orderly_start (workers capacity : Nat) :
    (start workers capacity).Orderly workers capacity where
  size := rfl
  bound := rfl
  accepting := rfl
  room := Nat.zero_le _
  distinct := .nil
  known := fun _ h => absurd h List.not_mem_nil
  emptied := fun h => absurd rfl h
  joined := nofun

variable {workers capacity : Nat}

/-- A worker that is free can take a job or end. -/
theorem Orderly.distinct_of_free (h : trace.Orderly workers capacity)
    (hfree : trace.IsFree worker) {numbers : List Nat}
    (hperm : numbers.Perm (worker :: (trace.assignments.map Assignment.worker ++ trace.gone))) :
    numbers.Nodup ∧ ∀ other ∈ numbers, other < workers := by
  have hknown := List.forall_mem_cons.mpr ⟨h.size ▸ hfree.1, h.known⟩
  exact ⟨hperm.nodup_iff.mpr (h.distinct.cons hfree.2),
    fun other hother => hknown other (hperm.mem_iff.mp hother)⟩

theorem Orderly.transition (h : trace.Orderly workers capacity)
    (htrans : Transition trace act later) :
    later.Orderly workers capacity := by
  have haccepting := h.accepting
  cases htrans with
  | idles => exact h
  | accepts job hopen hroom =>
    -- Nobody has ended while the pool is open.
    have hstaying : trace.gone = [] := by
      by_contra hgone
      rw [hopen, (h.emptied hgone).1] at haccepting
      contradiction
    refine { h with room := ?_, emptied := fun hgone => absurd hstaying hgone }
    rw [h.bound] at hroom
    rw [List.length_append]
    exact hroom
  | refuses job cause => exact { h with }
  | takes worker job rest hfree hwaiting =>
    have hperm (ticket : Ticket) :
        ((trace.assignments ++ [Assignment.mk worker ticket none]).map Assignment.worker
          ++ trace.gone).Perm
          (worker :: (trace.assignments.map Assignment.worker ++ trace.gone)) := by
      rw [List.map_append, List.append_assoc]
      exact List.perm_middle
    obtain ⟨hdistinct, hknown⟩ := h.distinct_of_free hfree (hperm _)
    refine { h with room := ?_, distinct := hdistinct, known := hknown, emptied := ?_ }
    · have hroom := h.room
      rw [hwaiting] at hroom
      exact (Nat.le_succ _).trans hroom
    · intro hgone
      rw [(h.emptied hgone).2] at hwaiting
      contradiction
  | answers front back worker ticket outcome hassign =>
    refine { h with distinct := ?_, known := ?_ }
    · simpa [hassign] using h.distinct
    · simpa [hassign] using h.known
  | completes front back worker ticket outcome job hassign hjob =>
    have hsublist : ((front ++ back).map Assignment.worker ++ trace.gone).Sublist
        (trace.assignments.map Assignment.worker ++ trace.gone) := by
      rw [hassign]
      exact ((List.sublist_cons_self ..).append_left front).map _ |>.append_right _
    exact { h with
      distinct := h.distinct.sublist hsublist
      known := fun other hother => h.known other (hsublist.subset hother) }
  | leaves worker hfree hclosed hwaiting =>
    have hperm : (trace.assignments.map Assignment.worker ++ (trace.gone ++ [worker])).Perm
        (worker :: (trace.assignments.map Assignment.worker ++ trace.gone)) := by
      rw [← List.append_assoc]
      exact List.perm_append_singleton ..
    obtain ⟨hdistinct, hknown⟩ := h.distinct_of_free hfree hperm
    refine { h with distinct := hdistinct, known := hknown, emptied := ?_, joined := ?_ }
    · intro _
      rw [hclosed] at haccepting
      exact ⟨by simpa using haccepting.symm, hwaiting⟩
    · intro hclosed
      obtain ⟨hclosing, hall⟩ := h.joined hclosed
      exact ⟨hclosing, fun other hother => List.mem_append_left _ (hall other hother)⟩
  | closes =>
    exact { h with
      accepting := rfl
      emptied := fun hgone => ⟨rfl, (h.emptied hgone).2⟩
      joined := fun hclosed => ⟨rfl, (h.joined hclosed).2⟩ }
  | joins hclosing hgone => exact { h with joined := fun _ => ⟨hclosing, h.size ▸ hgone⟩ }

/-- A pool that is closing accepts nothing. -/
theorem Orderly.accepted_eq (h : trace.Orderly workers capacity)
    (htrans : Transition trace act later) (hclosing : trace.closing = true) :
    later.accepted = trace.accepted := by
  cases htrans with
  | accepts job hopen hroom =>
    have haccepting := h.accepting
    rw [hopen, hclosing] at haccepting
    contradiction
  | _ => rfl

theorem length_le_of_nodup {numbers : List Nat} {bound : Nat} (hnodup : numbers.Nodup)
    (hlt : ∀ number ∈ numbers, number < bound) : numbers.length ≤ bound := by
  have hsubset : numbers ⊆ List.range bound := fun number hnumber =>
    List.mem_range.mpr (hlt number hnumber)
  simpa using (hnodup.subperm hsubset).length_le

/-- Every worker has one job at most, and none once it has ended. -/
theorem Orderly.length_le (h : trace.Orderly workers capacity) :
    trace.assignments.length + trace.gone.length ≤ workers := by
  simpa using length_le_of_nodup h.distinct h.known

theorem Orderly.length_lt_of_free (h : trace.Orderly workers capacity)
    (hfree : trace.IsFree worker) : trace.assignments.length + trace.gone.length < workers := by
  obtain ⟨hdistinct, hknown⟩ := h.distinct_of_free hfree (.refl _)
  have hlength := length_le_of_nodup hdistinct hknown
  simpa [Nat.succ_le_iff] using hlength

/-- When shutdown has returned, the pool is empty. -/
theorem Orderly.empty (h : trace.Orderly workers capacity) (hworkers : 0 < workers)
    (hclosed : trace.closed = true) : trace.assignments = [] ∧ trace.pool.waiting = [] := by
  obtain ⟨hclosing, hgone⟩ := h.joined hclosed
  constructor
  · refine List.eq_nil_iff_forall_not_mem.mpr fun assigned hassigned => ?_
    have hworker : assigned.worker ∈ trace.assignments.map Assignment.worker :=
      List.mem_map_of_mem hassigned
    have hknown := h.known assigned.worker (List.mem_append_left _ hworker)
    exact (List.nodup_append.mp h.distinct).2.2 _ hworker _ (hgone _ hknown) rfl
  · exact (h.emptied (List.ne_nil_of_mem (hgone 0 hworkers))).2

/-- What is kept by the acts of a pool with workers and a queue. -/
theorem induction (invariant : List Act → Trace → Prop) (hworkers : 0 < workers)
    (hcapacity : 0 < capacity) (hfirst : invariant [] trace)
    (horderly : trace.Orderly workers capacity)
    (hstep : ∀ {acts act trace later}, trace.Orderly workers capacity → Transition trace act later →
      invariant acts trace → invariant (acts ++ [act]) later)
    (acts : List Act) :
    (trace.run acts).Orderly workers capacity ∧ invariant acts (trace.run acts) := by
  -- The invariant speaks of all acts so far, so the last of them is taken off.
  induction acts using List.reverseRecOn with
  | nil => exact ⟨horderly, hfirst⟩
  | append_singleton acts act ih =>
    obtain ⟨horderly, hinvariant⟩ := ih
    have htrans : Transition (trace.run acts) act ((trace.run acts).step act) :=
      transition_step (horderly.size ▸ hworkers) (horderly.bound ▸ hcapacity) act
    rw [run_append]
    exact ⟨horderly.transition htrans, hstep horderly htrans hinvariant⟩

/-- Every job that was submitted is in one place, and what is done with it is its own. -/
structure OneFate (workers capacity : Nat) (acts : List Act) (trace : Trace) : Prop where
  submitted : trace.submitted.map Ticket.job = acts.filterMap Act.job?
  numbers : trace.submitted.map Ticket.number = List.range trace.submitted.length
  /-- Handed back as it was, waiting, running on a worker or completed. -/
  places : (trace.handedBack.map HandedBack.ticket ++ trace.waiting
      ++ trace.assignments.map Assignment.ticket
    ++ trace.completed.map Completion.ticket).Perm trace.submitted
  waiting : trace.pool.waiting = trace.waiting.map Ticket.job
  running : trace.pool.running = trace.assignments.map fun assigned => assigned.ticket.job
  oneWorker : (trace.assignments.map Assignment.worker).Nodup
    ∧ ∀ assigned ∈ trace.assignments, assigned.worker < workers
  /-- The client answers a job once at most, and the completion is told this answer. -/
  oneAnswer : (trace.answers.map Answer.number).Nodup
  outcomes : ∀ completion ∈ trace.completed, completion.answer ∈ trace.answers
  queueFull : ∀ job back, trace.pool.submit job = .error (.queueFull, back)
    ↔ back = job ∧ .close ∉ acts ∧ trace.waiting.length = capacity
  shutDown : ∀ job back, trace.pool.submit job = .error (.shutDown, back)
    ↔ back = job ∧ .close ∈ acts
  ordered : trace.accepted.Sublist trace.submitted ∧ trace.accepted = trace.started ++ trace.waiting
  fits : trace.waiting.length ≤ capacity ∧ trace.assignments.length ≤ workers
  closed : trace.closed = true →
    .close ∈ acts ∧ trace.accepted.Perm (trace.completed.map Completion.ticket)

theorem Agrees.places (h : trace.Agrees) :
    (trace.handedBack.map HandedBack.ticket ++ trace.waiting
      ++ trace.assignments.map Assignment.ticket
      ++ trace.completed.map Completion.ticket).Perm trace.submitted := by
  refine List.Perm.trans ?_ h.shared
  rw [h.begun, List.append_assoc, List.append_assoc]
  refine List.Perm.append_left _ ?_
  exact List.perm_append_comm.trans (h.served.symm.append_right _)

theorem numbers_answers_sublist (assignments : List Assignment) :
    ((assignments.filterMap Assignment.answer?).map Answer.number).Sublist
      ((assignments.map Assignment.ticket).map Ticket.number) := by
  induction assignments with
  | nil => exact .slnil
  | cons assigned assignments ih =>
    rcases assigned with ⟨worker, ticket, _ | outcome⟩
    · exact ih.cons _
    · exact ih.cons_cons _

/-- Nobody is asked twice about a job. -/
theorem Agrees.nodup_answers (h : trace.Agrees) : (trace.answers.map Answer.number).Nodup := by
  have hnumbers : (trace.submitted.map Ticket.number).Nodup := h.numbers ▸ List.nodup_range
  have hstarted : trace.started.Sublist trace.accepted := h.begun ▸ List.sublist_append_left ..
  have hserved := hnumbers.sublist ((hstarted.trans h.ordered).map _)
  rw [(h.served.map _).nodup_iff, List.map_append] at hserved
  rw [(h.answers.map _).nodup_iff, List.map_append]
  have hcompleted : (trace.completed.map Completion.answer).map Answer.number
      = (trace.completed.map Completion.ticket).map Ticket.number := by
    rw [List.map_map, List.map_map]
    rfl
  rw [hcompleted]
  exact (List.perm_append_comm.nodup_iff.mp hserved).sublist
    ((numbers_answers_sublist trace.assignments).append_left _)

/-- A pool with workers and a queue refuses a job when it is full or shut down. -/
theorem Orderly.submit_eq (h : trace.Orderly workers capacity) (hworkers : 0 < workers)
    (hcapacity : 0 < capacity) (job : Job) :
    trace.pool.submit job =
      if trace.closing = true then .error (.shutDown, job)
      else if trace.pool.waiting.length < capacity then
        .ok { trace.pool with waiting := trace.pool.waiting ++ [job] }
      else .error (.queueFull, job) := by
  have haccepting := h.accepting
  by_cases hclosing : trace.closing = true
  · rw [if_pos hclosing]
    rw [hclosing] at haccepting
    exact submit_of_closed haccepting job
  · rw [if_neg hclosing]
    rw [Bool.not_eq_true] at hclosing
    rw [hclosing] at haccepting
    rw [← h.bound]
    exact submit_of_open (h.size ▸ hworkers) (h.bound ▸ hcapacity) haccepting job

theorem Orderly.oneFate (h : trace.Orderly workers capacity) (hagrees : trace.Agrees)
    (hworkers : 0 < workers) (hcapacity : 0 < capacity) {acts : List Act}
    (hsubmitted : trace.submitted.map Ticket.job = acts.filterMap Act.job?)
    (hclosing : trace.closing = true ↔ .close ∈ acts) :
    trace.OneFate workers capacity acts where
  submitted := hsubmitted
  numbers := hagrees.numbers
  places := hagrees.places
  waiting := hagrees.waiting
  running := hagrees.running
  oneWorker := ⟨(List.nodup_append.mp h.distinct).1, fun assigned hassigned =>
    h.known assigned.worker (List.mem_append_left _ (List.mem_map_of_mem hassigned))⟩
  oneAnswer := hagrees.nodup_answers
  outcomes completion hcompletion := hagrees.answers.mem_iff.mpr
    (List.mem_append_left _ (List.mem_map_of_mem hcompletion))
  queueFull job back := by
    have hroom := h.room
    rw [h.submit_eq hworkers hcapacity, ← hclosing, ← List.length_map Ticket.job, ← hagrees.waiting]
    split_ifs with hclosed hless
    · simp [hclosed]
    · simp [hclosed, hless.ne]
    · simp [hclosed, eq_comm (a := back)]
      omega
  shutDown job back := by
    rw [h.submit_eq hworkers hcapacity, ← hclosing]
    split_ifs with hclosed hless
    · simp [hclosed, eq_comm (a := back)]
    · simp [hclosed]
    · simp [hclosed]
  ordered := ⟨hagrees.ordered, hagrees.begun⟩
  fits := by
    refine ⟨?_, (Nat.le_add_right ..).trans h.length_le⟩
    rw [← List.length_map Ticket.job, ← hagrees.waiting]
    exact h.room
  closed hclosed := by
    obtain ⟨hassign, hwaiting⟩ := h.empty hworkers hclosed
    refine ⟨hclosing.mp (h.joined hclosed).1, ?_⟩
    have hnone : trace.waiting = [] := List.map_eq_nil_iff.mp (hagrees.waiting.symm.trans hwaiting)
    have hserved := hagrees.served
    rw [hassign] at hserved
    rwa [hagrees.begun, hnone, List.append_nil]

/-- What was seen agrees with the acts, too. -/
structure Logged (acts : List Act) (trace : Trace) : Prop extends Agrees trace where
  submitted : trace.submitted.map Ticket.job = acts.filterMap Act.job?
  closing : trace.closing = true ↔ .close ∈ acts

theorem Logged.transition {acts : List Act} (h : Logged acts trace)
    (htrans : Transition trace act later) :
    Logged (acts ++ [act]) later := by
  refine ⟨h.toAgrees.transition htrans, ?_, ?_⟩
  · rw [htrans.submitted_eq, h.submitted, List.filterMap_append]
    cases hjob : act.job? <;> simp [hjob]
  · rw [htrans.closing_iff, h.closing, List.mem_append, List.mem_singleton, eq_comm]

theorem orderly_run (hworkers : 0 < workers) (hcapacity : 0 < capacity) (acts : List Act) :
    ((start workers capacity).run acts).Orderly workers capacity
      ∧ Logged acts ((start workers capacity).run acts) :=
  induction Logged hworkers hcapacity ⟨agrees_start workers capacity, rfl, iff_of_false nofun nofun⟩
    (orderly_start workers capacity) (fun _ htrans hlogged => hlogged.transition htrans) acts

/-- What is done stays done, and a pool that was closed accepts nothing. -/
structure Settled (trace later : Trace) : Prop where
  handedBack : trace.handedBack <+: later.handedBack
  completed : trace.completed <+: later.completed
  accepted : trace.closing = true → later.accepted = trace.accepted

theorem Orderly.settled_run (h : trace.Orderly workers capacity) (hworkers : 0 < workers)
    (hcapacity : 0 < capacity) (acts : List Act) : Settled trace (trace.run acts) := by
  refine (induction
    (fun _ later => (trace.closing = true → later.closing = true) ∧ Settled trace later)
    hworkers hcapacity ⟨id, List.prefix_rfl, List.prefix_rfl, fun _ => rfl⟩ h ?_ acts).2.2
  rintro acts act before after hbefore htrans ⟨hclosing, hsettled⟩
  obtain ⟨hback, hcompleted⟩ := htrans.settled
  refine ⟨fun h => htrans.closing_iff.mpr (.inl (hclosing h)), hsettled.handedBack.trans hback,
    hsettled.completed.trans hcompleted, fun h => ?_⟩
  exact (hbefore.accepted_eq htrans (hclosing h)).trans (hsettled.accepted h)

def Assignment.work (assigned : Assignment) : Nat := if assigned.outcome.isSome then 1 else 2

/-- How many acts are left until shutdown can return. -/
def work (trace : Trace) : Nat :=
  3 * trace.pool.waiting.length + (trace.assignments.map Assignment.work).sum
    + (trace.pool.workers - trace.gone.length) + if trace.closed then 0 else 1

theorem Agrees.running_lt (h : trace.Agrees) {front back : List Assignment} {assigned : Assignment}
    (hassign : trace.assignments = front ++ assigned :: back) :
    front.length < trace.pool.running.length := by
  rw [h.running, hassign]
  simp

/-- A worker that has a job can go on with it. -/
theorem Agrees.exists_work_lt_of_assigned (h : trace.Agrees) {assigned : Assignment}
    (hassigned : assigned ∈ trace.assignments)
    (outcome : Outcome) :
    (trace.step (.answer assigned.worker outcome)).work < trace.work
      ∨ (trace.step (.complete assigned.worker)).work < trace.work := by
  obtain ⟨place, hplace⟩ : ∃ place, trace.place? assigned.worker = some place := by
    refine Option.isSome_iff_exists.mp ?_
    rw [place?, List.findIdx?_isSome]
    exact List.any_eq_true.mpr ⟨assigned, hassigned, decide_eq_true rfl⟩
  obtain ⟨front, back, ticket, given, hassign, rfl⟩ := exists_assigned hplace
  have hget : trace.assignments[front.length]? = some ⟨assigned.worker, ticket, given⟩ := by
    simp [hassign]
  cases given with
  | none =>
    left
    rw [step, hplace, Option.elim_some, answer, hget]
    simp [work, hassign, Assignment.work]
  | some given =>
    right
    have hrunning := h.running_lt hassign
    rw [step, hplace, Option.elim_some, complete, hget, finish, List.getElem?_eq_getElem hrunning,
      Option.map_some]
    simp [work, hassign, Assignment.work, List.eraseIdx_append_of_length_le]

/-- Workers that have not ended can go on until shutdown can return. -/
theorem Orderly.exists_work_lt (h : trace.Orderly workers capacity) (hagrees : trace.Agrees)
    (hworkers : 0 < workers) (hclosing : trace.closing = true) (hclosed : trace.closed = false)
    (outcome : Outcome) :
    ∃ act : Act, act.job? = none ∧ (trace.step act).work < trace.work := by
  have haccepting : trace.pool.accepting = false := h.accepting.trans (by rw [hclosing]; rfl)
  cases hassign : trace.assignments with
  | cons assigned assignments =>
    have hassigned : assigned ∈ trace.assignments := hassign ▸ List.mem_cons_self
    rcases hagrees.exists_work_lt_of_assigned hassigned outcome with hlt | hlt
    · exact ⟨.answer assigned.worker outcome, rfl, hlt⟩
    · exact ⟨.complete assigned.worker, rfl, hlt⟩
  | nil =>
    cases hwaiting : trace.pool.waiting with
    | cons job rest =>
      -- No worker ends while a job waits, so all of them are free.
      have hgone : trace.gone = [] := by
        by_contra hgone
        rw [(h.emptied hgone).2] at hwaiting
        contradiction
      have hfree : trace.IsFree 0 := ⟨h.size.symm ▸ hworkers, by simp [hassign, hgone]⟩
      have hidle : trace.pool.running.length < trace.pool.workers := by
        rw [hagrees.running, List.length_map, h.size]
        exact (Nat.le_add_right ..).trans_lt (h.length_lt_of_free hfree)
      refine ⟨.take 0, rfl, ?_⟩
      rw [step, if_pos hfree, take, Pool.take, hwaiting]
      simp [work, hidle, hassign, hwaiting, Assignment.work]
      omega
    | nil =>
      by_cases hgone : ∀ worker < trace.pool.workers, worker ∈ trace.gone
      · refine ⟨.join, rfl, ?_⟩
        rw [step, if_pos ⟨hclosing, hgone⟩]
        simp [work, hclosed]
      · push Not at hgone
        obtain ⟨worker, hworker, hstays⟩ := hgone
        have hfree : trace.IsFree worker := ⟨hworker, by simpa [hassign] using hstays⟩
        refine ⟨.leave worker, rfl, ?_⟩
        rw [step, if_pos ⟨hfree, haccepting, by rw [hwaiting]; rfl⟩]
        have hlength := h.length_lt_of_free hfree
        simp [work, h.size]
        omega

/-- Shutdown returns if workers and client go on. -/
theorem Orderly.exists_closed (h : trace.Orderly workers capacity) (hagrees : trace.Agrees)
    (hworkers : 0 < workers) (hcapacity : 0 < capacity) (hclosing : trace.closing = true)
    (outcome : Outcome) :
    ∃ acts : List Act, (∀ act ∈ acts, act.job? = none) ∧ (trace.run acts).closed = true := by
  induction hwork : trace.work using Nat.strong_induction_on generalizing trace with
  | _ left ih =>
    cases hclosed : trace.closed with
    | true => exact ⟨[], nofun, hclosed⟩
    | false =>
      obtain ⟨act, hjob, hlt⟩ := h.exists_work_lt hagrees hworkers hclosing hclosed outcome
      have htrans := transition_step (h.size ▸ hworkers) (h.bound ▸ hcapacity) act
      obtain ⟨acts, hjobs, hreturned⟩ := ih _ (hwork ▸ hlt) (h.transition htrans)
        (hagrees.transition htrans)
        (htrans.closing_iff.mpr (.inl hclosing)) rfl
      exact ⟨act :: acts, List.forall_mem_cons.mpr ⟨hjob, hjobs⟩, hreturned⟩

/-- Of a pool with workers and a queue, whatever jobs are submitted, however its workers and the
client act and whenever shutdown is called: every job submitted is handed back, waits, runs on one
worker or is completed, with the outcome that the client gave to its request; jobs are refused only
when the pool is full or shut down, and start in the order in which they were accepted. What is
done stays done. Shutdown can return once it was called, and when it has, every accepted job is
completed and no more are accepted. -/
theorem jobs_have_one_fate (workers capacity : Nat) (hworkers : 0 < workers)
    (hcapacity : 0 < capacity) (acts : List Act) :
    let trace := (start workers capacity).run acts
    trace.OneFate workers capacity acts
      ∧ (∀ more, Settled trace (trace.run more))
      ∧ (.close ∈ acts → ∃ more : List Act,
          (∀ act ∈ more, act.job? = none) ∧ (trace.run more).closed = true) := by
  intro trace
  obtain ⟨horderly, hlogged⟩ := orderly_run hworkers hcapacity acts
  refine ⟨?_, horderly.settled_run hworkers hcapacity, fun hclose => ?_⟩
  · exact horderly.oneFate hlogged.toAgrees hworkers hcapacity hlogged.submitted hlogged.closing
  · exact horderly.exists_closed hlogged.toAgrees hworkers hcapacity (hlogged.closing.mpr hclose)
      (.ok .ok)

def emptyJob (destination : String) : Job := ⟨⟨destination, "p", "x", []⟩, [], 0⟩

/-- A second worker overtakes the first; one job finds the queue full and another the pool shut
down. -/
def overtaking : List Act :=
  [.submit (emptyJob "a"), .take 0, .submit (emptyJob "b"), .submit (emptyJob "c"), .take 1,
    .answer 1 (.error (.timeout "b")), .complete 1, .submit (emptyJob "d"), .close,
    .submit (emptyJob "e"), .take 1, .answer 0 (.ok .ok), .complete 0, .leave 0,
    .answer 1 (.ok .notFound), .join, .complete 1, .leave 1, .join]

theorem jobs_have_one_fate_overtaking :
    let trace := (start 2 1).run overtaking
    (0 < 2 ∧ 0 < 1 ∧ .close ∈ overtaking)
      ∧ trace.OneFate 2 1 overtaking
      ∧ Settled trace (trace.run [.submit (emptyJob "f"), .take 0])
      ∧ trace.closed = true
      ∧ (trace.handedBack.map fun back => (back.ticket.job.request.destination, back.cause))
          = [("c", .queueFull), ("e", .shutDown)]
      ∧ (trace.completed.map fun completion =>
            (completion.ticket.job.request.destination, completion.outcome.isSuccess))
          = [("b", false), ("a", true), ("d", false)] := by
  have h := jobs_have_one_fate 2 1 (by decide) (by decide) overtaking
  exact ⟨⟨by decide, by decide, by simp [overtaking]⟩, h.1, h.2.1 _, rfl, by decide, by decide⟩

end Trace

end Pool

end RecordRelay
