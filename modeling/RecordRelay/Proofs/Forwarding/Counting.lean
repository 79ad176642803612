import RecordRelay.Forwarding.Registration
import RecordRelay.Proofs.Buffer.Operations
import RecordRelay.Proofs.Forwarding.Calls
import RecordRelay.Proofs.Relay.Holdings

/-! Calls take up groups of records, submit the batches that these fill and are done; jobs that the
pool accepted are completed at some time, with any outcome. Calls and completions come in any order,
and several calls may be under way at once. Beside the registration stands what its callers, the
pool and the receive buffer have seen of the records, and the counters agree with it. -/
namespace RecordRelay

namespace Registration

/-- A call under way: the groups that it has not taken up and the batches that it has cut, but not
submitted. -/
structure PendingCall where
  groups : List (Option String × List Record)
  cuts : List Cut

/-- A registration that forwards records, and what was seen of it. -/
structure Service where
  /-- The number of the registration. -/
  index : Nat
  buffer : ReceiveBuffer
  sender : Sender
  pendingCalls : List PendingCall
  /-- The jobs that the pool accepted and that are not completed. -/
  jobs : List Job
  /-- The records that were passed to calls. -/
  passed : List Record
  /-- The records of jobs that the pool refused. -/
  handedBack : List Record
  /-- The records that completions added to the receive buffer. -/
  stored : List Record
  /-- The outcomes of the jobs that are completed. -/
  completed : List Outcome

inductive Act where
  /-- Records are passed to a call, which groups them by owner. -/
  | call (routing : Routing) (records : List Record)
  /-- A call takes up one of its groups. -/
  | turn (call group : Nat) (routing : Routing)
  /-- A call submits its next batch, and finds the pool in some state. -/
  | submit (call : Nat) (pool : Pool)
  /-- A worker tells the outcome of a job. -/
  | complete (place : Nat) (patience : Nanoseconds) (outcome : Outcome)
  /-- The stage reads what others have sent to it. -/
  | receive (now : Nanoseconds)
  /-- Others use the receive buffer. -/
  | share (buffer : ReceiveBuffer)

namespace Service

def start (settings : Settings) (keys : List String) (index pool : Nat) (buffer : ReceiveBuffer) :
    Service :=
  ⟨index, buffer, ⟨.empty settings buffer.pipeline buffer.plugin keys, pool⟩,
    [], [], [], [], [], []⟩

def outbox (service : Service) : Outbox := service.sender.outbox

def counters (service : Service) : ForwardingCounters := service.outbox.counters

def registration (service : Service) : Registration := ⟨service.buffer, some service.sender⟩

def withOutbox (service : Service) (outbox : Outbox) : Service :=
  { service with sender := { service.sender with outbox } }

/-- A call takes up a group. Records that belong here are kept, and others join the queue of their
owner, from which full batches are cut. -/
def turn (service : Service) (call group : Nat) (routing : Routing) : Service :=
  match service.pendingCalls[call]? with
  | none => service
  | some pendingCall =>
    let groups := pendingCall.groups.eraseIdx group
    match pendingCall.groups[group]? with
    | none => service
    | some (owner, records) =>
      if routing.isLocal owner then
        { service.withOutbox (service.outbox.counted records.length 0 0) with
          pendingCalls := service.pendingCalls.set call { pendingCall with groups } }
      else
        let destination := owner.getD ""
        let cuts := (service.outbox.filled destination records).map (Cut.mk destination)
        { service.withOutbox (service.outbox.enqueue destination records) with
          pendingCalls := service.pendingCalls.set call ⟨groups, pendingCall.cuts ++ cuts⟩ }

def submit (service : Service) (call : Nat) (pool : Pool) : Service :=
  match service.pendingCalls[call]? with
  | some ⟨groups, ⟨destination, batch⟩ :: cuts⟩ =>
    let (returned, outbox, next) :=
      Outbox.submit service.index destination batch service.outbox pool
    { service.withOutbox outbox with
      pendingCalls := service.pendingCalls.set call ⟨groups, cuts⟩
      jobs := service.jobs ++ next.waiting.drop pool.waiting.length
      handedBack := service.handedBack ++ returned }
  | _ => service

def adopt (service : Service) (registration : Registration) : Service :=
  { service with
    buffer := registration.buffer
    sender := registration.sender.getD service.sender }

def step (service : Service) : Act → Service
  | .call routing records =>
    let groups := groupByOwner (routing.ownerOf service.outbox.keys) records
    { service with
      pendingCalls := service.pendingCalls ++ [⟨groups, []⟩]
      passed := service.passed ++ records }
  | .turn call group routing => service.turn call group routing
  | .submit call pool => service.submit call pool
  | .complete place patience outcome =>
    match service.jobs[place]? with
    | none => service
    | some job =>
      let next := service.registration.complete patience outcome job.records
      { service.adopt next with
        jobs := service.jobs.eraseIdx place
        stored := service.stored ++ next.buffer.queue.drop service.buffer.queue.length
        completed := service.completed ++ [outcome] }
  | .receive now => service.adopt (service.registration.receive now).2
  | .share buffer => { service with buffer }

def run (service : Service) (acts : List Act) : Service := acts.foldl step service

theorem run_append (service : Service) (acts more : List Act) :
    service.run (acts ++ more) = (service.run acts).run more :=
  List.foldl_append ..

end Service

def PendingCall.count (pendingCall : PendingCall) : Nat :=
  (pendingCall.groups.map fun group => group.2.length).sum
    + (pendingCall.cuts.map fun cut => cut.batch.length).sum

namespace Service

def inHand (service : Service) : Nat := (service.pendingCalls.map PendingCall.count).sum

/-- The number of records in jobs that are not completed. -/
def inJobs (service : Service) : Nat := (service.jobs.map fun job => job.records.length).sum

/-- The counters agree with what was seen. -/
structure Balanced (service : Service) : Prop where
  passed : service.passed.length = service.counters.processedLocally
    + service.counters.toBeForwarded + service.outbox.waiting.length + service.inHand
  forwarded : service.counters.toBeForwarded = service.counters.successfullyForwarded
    + service.counters.failedForwarding + service.inJobs
  requests : service.counters.requestsSuccessful + service.counters.requestsFailed
    = service.completed.length
  failed : service.counters.failedForwarding
    = service.handedBack.length + service.stored.length + service.counters.dropped

theorem balanced_start (settings : Settings) (keys : List String) (index pool : Nat)
    (buffer : ReceiveBuffer) : (start settings keys index pool buffer).Balanced where
  passed := rfl
  forwarded := rfl
  requests := rfl
  failed := rfl

theorem sum_map_eraseIdx {α : Type} (f : α → Nat) {l : List α} {i : Nat} {a : α}
    (h : l[i]? = some a) : (l.map f).sum = f a + ((l.eraseIdx i).map f).sum := by
  obtain ⟨hlt, rfl⟩ := List.getElem?_eq_some_iff.mp h
  rw [← List.sum_cons, ← List.map_cons]
  exact ((List.getElem_cons_eraseIdx_perm hlt).map f).symm.sum_eq

/-- Records that join a queue wait in it or leave it in batches. -/
theorem length_enqueue (outbox : Outbox) (destination : String) (records : List Record) :
    (outbox.enqueue destination records).waiting.length
        + (outbox.filled destination records).flatten.length
      = outbox.waiting.length + records.length := by
  have hqueue := congrArg List.length
    (BatchingQueue.offerAll_append (outbox.queue destination) records)
  have hwaiting := (outbox.waiting_setQueue destination
    ((outbox.queue destination).offerAll records).2).length_eq
  simp only [List.length_append] at hqueue hwaiting
  rw [Outbox.enqueue, Outbox.filled]
  omega

theorem count_groupByOwner (owner : Record → Option String) (records : List Record) :
    PendingCall.count ⟨groupByOwner owner records, []⟩ = records.length := by
  rw [PendingCall.count, ← (groupByOwner_perm owner records).length_eq, List.length_flatMap]
  rfl

variable {pendingCall : PendingCall}

theorem count_eraseIdx {group : Nat} {owner : Option String} {records : List Record}
    (h : pendingCall.groups[group]? = some (owner, records)) :
    pendingCall.count = records.length
      + PendingCall.count ⟨pendingCall.groups.eraseIdx group, pendingCall.cuts⟩ := by
  rw [PendingCall.count, sum_map_eraseIdx _ h, PendingCall.count, Nat.add_assoc]

theorem count_append (groups : List (Option String × List Record)) (cuts : List Cut)
    (destination : String) (batches : List (List Record)) :
    PendingCall.count ⟨groups, cuts ++ batches.map (Cut.mk destination)⟩
      = PendingCall.count ⟨groups, cuts⟩ + batches.flatten.length := by
  simp [PendingCall.count, List.length_flatten, Function.comp_def, Nat.add_assoc]

theorem count_cons (groups : List (Option String × List Record)) (cut : Cut) (cuts : List Cut) :
    PendingCall.count ⟨groups, cut :: cuts⟩
      = cut.batch.length + PendingCall.count ⟨groups, cuts⟩ := by
  simp [PendingCall.count, Nat.add_left_comm]

variable {service : Service} {call : Nat}

/-- What a call gets off its hands is no longer in hand. -/
theorem inHand_set (h : service.pendingCalls[call]? = some pendingCall) (next : PendingCall) :
    ((service.pendingCalls.set call next).map PendingCall.count).sum + pendingCall.count
      = service.inHand + next.count :=
  sum_map_set_add PendingCall.count h (Nat.add_comm ..)

theorem Balanced.turn (h : service.Balanced) (call group : Nat) (routing : Routing) :
    (service.turn call group routing).Balanced := by
  rw [Service.turn]
  split
  next => exact h
  next pendingCall hcall =>
    dsimp only
    split
    next => exact h
    next owner records hgroup =>
      have hpassed := h.passed
      have hcount := count_eraseIdx hgroup
      split_ifs with hlocal
      · have hset := inHand_set hcall ⟨pendingCall.groups.eraseIdx group, pendingCall.cuts⟩
        refine { h with passed := ?_ }
        show service.passed.length = service.counters.processedLocally + records.length
          + service.counters.toBeForwarded + service.outbox.waiting.length
          + ((service.pendingCalls.set call _).map PendingCall.count).sum
        omega
      · generalize owner.getD "" = destination
        have hset := inHand_set hcall ⟨pendingCall.groups.eraseIdx group, pendingCall.cuts
          ++ (service.outbox.filled destination records).map (Cut.mk destination)⟩
        have hqueue := length_enqueue service.outbox destination records
        rw [count_append] at hset
        refine { h with passed := ?_ }
        show service.passed.length = service.counters.processedLocally
          + service.counters.toBeForwarded
          + (service.outbox.enqueue destination records).waiting.length
          + ((service.pendingCalls.set call _).map PendingCall.count).sum
        omega

theorem Balanced.submit (h : service.Balanced) (call : Nat) (pool : Pool) :
    (service.submit call pool).Balanced := by
  rw [Service.submit]
  split
  next groups destination batch cuts hcall =>
    have hset := inHand_set hcall ⟨groups, cuts⟩
    rw [count_cons] at hset
    have hpassed := h.passed
    have hforwarded := h.forwarded
    have hfailed := h.failed
    rw [Outbox.submit_eq service.index ⟨destination, batch⟩]
    -- The job of the batch is accepted or comes back.
    obtain ⟨accepted, hpool, hperm⟩ :=
      Pool.exists_accepted [service.outbox.jobOf service.index ⟨destination, batch⟩] pool
    have hshared := (hperm.map fun job => job.records.length).sum_eq
    rw [List.map_append, List.sum_append] at hshared
    have hbatch : ([service.outbox.jobOf service.index ⟨destination, batch⟩].map
        fun job => job.records.length).sum = batch.length := rfl
    rw [hpool]
    generalize (pool.enlist _).1 = refused at *
    have hrefused : (refused.flatMap Job.records).length
        = (refused.map fun job => job.records.length).sum := List.length_flatMap
    refine ⟨?_, ?_, h.requests, ?_⟩
    · show service.passed.length = service.counters.processedLocally
        + (service.counters.toBeForwarded + batch.length) + service.outbox.waiting.length
        + ((service.pendingCalls.set call _).map PendingCall.count).sum
      dsimp only at hset
      omega
    · show service.counters.toBeForwarded + batch.length = service.counters.successfullyForwarded
        + (service.counters.failedForwarding + (refused.flatMap Job.records).length)
        + ((service.jobs ++ List.drop pool.waiting.length (pool.waiting ++ accepted)).map
            fun job => job.records.length).sum
      rw [List.drop_left, List.map_append, List.sum_append]
      rw [inJobs] at hforwarded
      omega
    · show service.counters.failedForwarding + (refused.flatMap Job.records).length
        = (service.handedBack ++ refused.flatMap Job.records).length + service.stored.length
          + service.counters.dropped
      rw [List.length_append]
      omega
  next => exact h

/-- What a registration with a sender is after an outcome: the records were taken, or the receive
buffer has them, or they are dropped. -/
inductive Completes (buffer : ReceiveBuffer) (sender : Sender) (outcome : Outcome)
    (records : List Record) : Registration → Prop
  | taken (hsuccess : outcome.isSuccess = true) :
      Completes buffer sender outcome records
        ⟨buffer, some { sender with outbox := sender.outbox.settle outcome records.length }⟩
  | stored (hfailure : outcome.isSuccess = false) :
      Completes buffer sender outcome records
        ⟨buffer.enqueue records,
          some { sender with outbox := sender.outbox.settle outcome records.length }⟩
  | dropped (hfailure : outcome.isSuccess = false) :
      Completes buffer sender outcome records
        ⟨buffer, some { sender with
          outbox := (sender.outbox.settle outcome records.length).countDropped records.length }⟩

theorem completes (buffer : ReceiveBuffer) (sender : Sender) (patience : Nanoseconds)
    (outcome : Outcome) (records : List Record) :
    Completes buffer sender outcome records
      ((Registration.mk buffer (some sender)).complete patience outcome records) := by
  rw [Registration.complete]
  cases hsuccess : outcome.isSuccess with
  | true => exact .taken hsuccess
  | false =>
    rw [if_neg Bool.false_ne_true, fallBack]
    dsimp only [mapOutbox]
    cases hwrite : buffer.writeAll records patience with
    | ok next =>
      obtain rfl := ReceiveBuffer.writeAll_ok hwrite
      exact .stored hsuccess
    | error cause => exact .dropped hsuccess

theorem Balanced.complete (h : service.Balanced) (place : Nat) (patience : Nanoseconds)
    (outcome : Outcome) : (service.step (.complete place patience outcome)).Balanced := by
  rw [step]
  split
  next => exact h
  next job hjob =>
    have hjobs := sum_map_eraseIdx (fun job => job.records.length) hjob
    have hpassed := h.passed
    have hforwarded := h.forwarded
    have hrequests := h.requests
    have hfailed := h.failed
    have hcompletes := completes service.buffer service.sender patience outcome job.records
    rw [← registration] at hcompletes
    rw [inHand] at hpassed
    rw [inJobs, hjobs] at hforwarded
    dsimp only [counters, outbox] at hpassed hforwarded hrequests hfailed
    dsimp only
    generalize service.registration.complete patience outcome job.records = next at *
    cases hcompletes with
    | taken hsuccess =>
      constructor <;> simp only [adopt, counters, outbox, inHand, inJobs, Outbox.settle, hsuccess,
        if_true, Option.getD_some, List.length_append, List.drop_length, List.append_nil,
        List.length_singleton]
      case passed => exact hpassed
      case forwarded => omega
      case requests => omega
      case failed => omega
    | stored hfailure =>
      constructor <;> simp only [adopt, counters, outbox, inHand, inJobs, Outbox.settle, hfailure,
        Bool.false_eq_true, if_false, Option.getD_some, ReceiveBuffer.enqueue, List.length_append,
        List.drop_left, List.length_singleton]
      case passed => exact hpassed
      case forwarded => omega
      case requests => omega
      case failed => omega
    | dropped hfailure =>
      constructor <;> simp only [adopt, counters, outbox, inHand, inJobs, Outbox.settle,
        Outbox.countDropped, hfailure, Bool.false_eq_true, if_false, Option.getD_some,
        List.length_append, List.drop_length, List.append_nil, List.length_singleton]
      case passed => exact hpassed
      case forwarded => omega
      case requests => omega
      case failed => omega

theorem Balanced.step (h : service.Balanced) (act : Act) : (service.step act).Balanced := by
  cases act with
  | call routing records =>
    refine { h with passed := ?_ }
    have hpassed := h.passed
    have hcount := count_groupByOwner (routing.ownerOf service.outbox.keys) records
    show (service.passed ++ records).length = service.counters.processedLocally
      + service.counters.toBeForwarded + service.outbox.waiting.length
      + ((service.pendingCalls ++ [PendingCall.mk _ []]).map PendingCall.count).sum
    rw [inHand] at hpassed
    rw [List.length_append, List.map_append, List.sum_append, List.map_singleton,
      List.sum_singleton, hcount]
    omega
  | turn call group routing => exact h.turn call group routing
  | submit call pool => exact h.submit call pool
  | complete place patience outcome => exact h.complete place patience outcome
  | receive now => exact { h with }
  | share buffer => exact { h with }

theorem Balanced.run (h : service.Balanced) (acts : List Act) : (service.run acts).Balanced := by
  induction acts generalizing service with
  | nil => exact h
  | cons act acts ih => exact ih (h.step act)

/-- The service after a call has forwarded records, with what comes of it. -/
def forwarded (service : Service) (pendingCalls : List PendingCall) (outbox : Outbox)
    (accepted : List Job)
    (refused : List Record) : Service :=
  { service.withOutbox outbox with
    pendingCalls
    jobs := service.jobs ++ accepted
    handedBack := service.handedBack ++ refused }

theorem forwarded_self (service : Service) :
    service.forwarded service.pendingCalls service.outbox [] [] = service := by
  simp [forwarded, withOutbox, outbox]

theorem forwarded_forwarded (service : Service) (pendingCalls others : List PendingCall)
    (outbox next : Outbox) (accepted more : List Job) (refused rest : List Record) :
    (service.forwarded pendingCalls outbox accepted refused).forwarded others next more rest
      = service.forwarded others next (accepted ++ more) (refused ++ rest) := by
  simp [forwarded, withOutbox]

variable {calls : List PendingCall} {groups : List (Option String × List Record)}

theorem set_last (h : service.pendingCalls = calls ++ [pendingCall]) (next : PendingCall) :
    service.pendingCalls.set calls.length next = calls ++ [next] := by
  rw [h, List.set_append_right _ _ le_rfl, Nat.sub_self, List.set_cons_zero]

theorem submit_forwarded {destination : String} {batch : List Record} {cuts : List Cut}
    (hcalls : service.pendingCalls = calls ++ [⟨groups, ⟨destination, batch⟩ :: cuts⟩])
    (pool : Pool) :
    ∃ accepted,
      (Outbox.submit service.index destination batch service.outbox pool).2.2
          = { pool with waiting := pool.waiting ++ accepted }
        ∧ service.submit calls.length pool
          = service.forwarded (calls ++ [⟨groups, cuts⟩])
            (Outbox.submit service.index destination batch service.outbox pool).2.1 accepted
            (Outbox.submit service.index destination batch service.outbox pool).1 := by
  have hsubmit := Outbox.submit_eq service.index ⟨destination, batch⟩ service.outbox pool
  obtain ⟨accepted, hpool, -⟩ :=
    Pool.exists_accepted [service.outbox.jobOf service.index ⟨destination, batch⟩] pool
  have hleft : (Outbox.submit service.index destination batch service.outbox pool).2.2
      = { pool with waiting := pool.waiting ++ accepted } := by
    rw [hsubmit]
    exact hpool
  refine ⟨accepted, hleft, ?_⟩
  have hcall : service.pendingCalls[calls.length]?
      = some ⟨groups, ⟨destination, batch⟩ :: cuts⟩ := by
    rw [hcalls, List.getElem?_concat_length]
  rw [submit, hcall]
  dsimp only
  rw [hleft, set_last hcalls, List.drop_left]
  rfl

theorem run_submitAll (destination : String) (batches : List (List Record))
    (hcalls : service.pendingCalls = calls ++ [⟨groups, batches.map (Cut.mk destination)⟩])
    (pool : Pool) :
    ∃ acts accepted,
      (Outbox.submitAll service.index destination batches service.outbox pool).2.2
          = { pool with waiting := pool.waiting ++ accepted }
        ∧ service.run acts = service.forwarded (calls ++ [⟨groups, []⟩])
            (Outbox.submitAll service.index destination batches service.outbox pool).2.1 accepted
            (Outbox.submitAll service.index destination batches service.outbox pool).1 := by
  induction batches generalizing service pool with
  | nil =>
    refine ⟨[], [], ?_, ?_⟩
    · rw [List.append_nil]
      rfl
    · rw [Outbox.submitAll, ← show service.pendingCalls = calls ++ [⟨groups, []⟩] from hcalls,
        forwarded_self]
      rfl
  | cons batch rest ih =>
    obtain ⟨first, hpool, hsubmit⟩ := submit_forwarded hcalls pool
    rw [Outbox.submitAll]
    generalize Outbox.submit service.index destination batch service.outbox pool = result at *
    obtain ⟨acts, accepted, hlast, hrun⟩ := @ih (service.forwarded
      (calls ++ [⟨groups, rest.map (Cut.mk destination)⟩]) result.2.1 first result.1) rfl result.2.2
    refine ⟨.submit calls.length pool :: acts, first ++ accepted, ?_, ?_⟩
    · refine hlast.trans ?_
      rw [hpool, List.append_assoc]
    · refine (congrArg (fun service => run service acts) hsubmit).trans (hrun.trans ?_)
      exact forwarded_forwarded ..

theorem turn_of_isLocal {routing : Routing} {owner : Option String} {records : List Record}
    (hcalls : service.pendingCalls = calls ++ [⟨(owner, records) :: groups, []⟩])
    (hlocal : routing.isLocal owner = true) :
    service.turn calls.length 0 routing = service.forwarded (calls ++ [⟨groups, []⟩])
      (service.outbox.counted records.length 0 0) [] [] := by
  have hcall : service.pendingCalls[calls.length]? = some ⟨(owner, records) :: groups, []⟩ := by
    rw [hcalls, List.getElem?_concat_length]
  rw [turn, hcall]
  dsimp only [List.getElem?_cons_zero]
  rw [if_pos hlocal, set_last hcalls, forwarded, List.append_nil, List.append_nil]
  rfl

theorem turn_of_not_isLocal {routing : Routing} {destination : String} {records : List Record}
    (hcalls : service.pendingCalls = calls ++ [⟨(some destination, records) :: groups, []⟩])
    (hlocal : routing.isLocal (some destination) = false) :
    service.turn calls.length 0 routing = service.forwarded
      (calls ++ [⟨groups,
        (service.outbox.filled destination records).map (Cut.mk destination)⟩])
      (service.outbox.enqueue destination records) [] [] := by
  have hcall : service.pendingCalls[calls.length]?
      = some ⟨(some destination, records) :: groups, []⟩ := by
    rw [hcalls, List.getElem?_concat_length]
  rw [turn, hcall]
  dsimp only [List.getElem?_cons_zero]
  rw [if_neg (by simp [hlocal]), set_last hcalls, forwarded, List.append_nil, List.append_nil]
  rfl

/-- Taking up the groups of a call one after the other, with the batches of each submitted at once,
is what forwarding does. -/
theorem run_routeAll (routing : Routing) (groups : List (Option String × List Record))
    (hcalls : service.pendingCalls = calls ++ [⟨groups, []⟩]) (pool : Pool) :
    ∃ acts accepted refused,
      (Outbox.routeAll routing service.index groups service.outbox pool).2.2
          = { pool with waiting := pool.waiting ++ accepted }
        ∧ refused.Sublist (Outbox.routeAll routing service.index groups service.outbox pool).1
        ∧ service.run acts = service.forwarded (calls ++ [⟨[], []⟩])
            (Outbox.routeAll routing service.index groups service.outbox pool).2.1 accepted
            refused := by
  induction groups generalizing service pool with
  | nil =>
    refine ⟨[], [], [], ?_, .slnil, ?_⟩
    · rw [List.append_nil]
      rfl
    · rw [Outbox.routeAll, ← hcalls, forwarded_self]
      rfl
  | cons group rest ih =>
    obtain ⟨owner, records⟩ := group
    rw [Outbox.routeAll]
    cases hlocal : routing.isLocal owner with
    | true =>
      rw [Outbox.route_of_isLocal hlocal]
      obtain ⟨acts, accepted, refused, hlast, hrefused, hrun⟩ := @ih (service.forwarded
        (calls ++ [⟨rest, []⟩]) (service.outbox.counted records.length 0 0) [] []) rfl pool
      refine ⟨.turn calls.length 0 routing :: acts, accepted, refused, hlast,
        hrefused.trans (List.sublist_append_right ..), ?_⟩
      have hturn := turn_of_isLocal hcalls hlocal
      refine (congrArg (fun service => run service acts) hturn).trans (hrun.trans ?_)
      exact forwarded_forwarded ..
    | false =>
      cases owner with
      | none => exact absurd hlocal (by simp [Routing.isLocal])
      | some destination =>
        rw [Outbox.route_of_not_isLocal hlocal]
        have hturn := turn_of_not_isLocal hcalls hlocal
        generalize hqueued : service.forwarded (calls ++ [⟨rest,
          (service.outbox.filled destination records).map (Cut.mk destination)⟩])
          (service.outbox.enqueue destination records) [] [] = queued at hturn
        obtain ⟨first, taken, hpool, hfirst⟩ := @run_submitAll queued calls rest destination
          (service.outbox.filled destination records) (by rw [← hqueued]; rfl) pool
        have hpost : Outbox.post service.index destination records service.outbox pool
            = Outbox.submitAll queued.index destination (service.outbox.filled destination records)
              queued.outbox pool := by
          rw [← hqueued]
          rfl
        rw [hpost]
        generalize Outbox.submitAll queued.index destination
          (service.outbox.filled destination records) queued.outbox pool = result at *
        obtain ⟨acts, accepted, refused, hlast, hrefused, hrun⟩ := @ih (queued.forwarded
          (calls ++ [⟨rest, []⟩]) result.2.1 taken result.1) rfl result.2.2
        subst hqueued
        refine ⟨.turn calls.length 0 routing :: (first ++ acts), taken ++ accepted,
          result.1 ++ refused, ?_, hrefused.append_left _, ?_⟩
        · refine hlast.trans ?_
          rw [hpool, List.append_assoc]
        · refine (congrArg (fun service => run service (first ++ acts)) hturn).trans ?_
          dsimp only
          rw [run_append, hfirst, hrun, forwarded_forwarded, forwarded_forwarded]
          rfl

/-- A call of forwarding leads from one service to another. -/
def Forwards (service : Service) (routing : Routing) (records : List Record) (pool : Pool)
    (later : Service) : Prop :=
  ∃ accepted refused,
    (service.outbox.forward routing service.index records pool).2.2
        = { pool with waiting := pool.waiting ++ accepted }
      ∧ refused.Sublist (service.outbox.forward routing service.index records pool).1
      ∧ later = { service.forwarded (service.pendingCalls ++ [⟨[], []⟩])
          (service.outbox.forward routing service.index records pool).2.1 accepted refused with
            passed := service.passed ++ records }

theorem exists_forwards (service : Service) (routing : Routing) (records : List Record)
    (pool : Pool) : ∃ acts, service.Forwards routing records pool (service.run acts) := by
  obtain ⟨acts, accepted, refused, hpool, hrefused, hrun⟩ :=
    @run_routeAll (service.step (.call routing records)) service.pendingCalls routing
      (groupByOwner (routing.ownerOf service.outbox.keys) records) rfl pool
  exact ⟨.call routing records :: acts, accepted, refused, hpool, hrefused, hrun⟩

def Idle (service : Service) : Prop :=
  ∀ pendingCall ∈ service.pendingCalls, pendingCall.groups = [] ∧ pendingCall.cuts = []

theorem Idle.inHand (h : service.Idle) : service.inHand = 0 := by
  refine List.sum_eq_zero fun count hcount => ?_
  obtain ⟨pendingCall, hcall, rfl⟩ := List.mem_map.mp hcount
  obtain ⟨hgroups, hcuts⟩ := h pendingCall hcall
  rw [PendingCall.count, hgroups, hcuts]
  rfl

/-- However calls, submissions and completions come, and whatever comes of them, the counters of a
registration balance after each of these steps: the records that were passed in are those processed
here, those cut for a peer, those that wait and, while calls are under way, those in their hands;
the records cut for a peer are those that a peer took, those that came back and those in jobs; and
those that came back were handed back, stored in the receive buffer or dropped. A call that nothing
interrupts makes such steps. -/
theorem counters_balance (settings : Settings) (keys : List String) (index pool : Nat)
    (buffer : ReceiveBuffer) (acts : List Act) :
    let service := (start settings keys index pool buffer).run acts
    service.Balanced
      ∧ (service.Idle → service.passed.length = service.counters.processedLocally
          + service.counters.toBeForwarded + service.outbox.waiting.length)
      ∧ ∀ routing records pool, ∃ more,
          service.Forwards routing records pool (service.run more) := by
  intro service
  have hbalanced : service.Balanced := (balanced_start settings keys index pool buffer).run acts
  refine ⟨hbalanced, fun hidle => ?_, service.exists_forwards⟩
  rw [hbalanced.passed, hidle.inHand, Nat.add_zero]

/-- One peer owns every record, or nobody does. -/
def ownedBy (owner : Option String) : Routing := ⟨fun _ => owner, fun _ => some false⟩

def blankRecords (count : Nat) : List Record := List.replicate count (.ofEvent (.empty "event"))

def mixed : List Act :=
  [.call (ownedBy (some "peer")) (blankRecords 7), .turn 0 0 (ownedBy none),
    .submit 0 (.start 1 1), .submit 0 (.start 1 1), .complete 1 0 (.error (.timeout "peer")),
    .call (ownedBy none) (blankRecords 3), .turn 1 0 (ownedBy none),
    .submit 0 (Pool.start 1 1).close, .complete 0 0 (.ok .ok)]

def mixedService : Service :=
  (start { (default : Settings) with batchSize := 2 } ["id"] 0 0 (.empty "p" "x" 1 1 0)).run mixed

theorem counters_balance_mixed :
    mixedService.Balanced ∧ mixedService.Idle
      ∧ mixedService.passed.length = mixedService.counters.processedLocally
          + mixedService.counters.toBeForwarded + mixedService.outbox.waiting.length
      ∧ mixedService.outbox.waiting.length = 1
      ∧ mixedService.counters = ⟨3, 6, 2, 4, 0, 2, 1, 1, 2⟩ := by
  have hidle : mixedService.Idle := by
    have hcalls : mixedService.pendingCalls = [⟨[], []⟩, ⟨[], []⟩] := rfl
    rw [Idle, hcalls]
    simp
  obtain ⟨hbalanced, hcounts, -⟩ := counters_balance { (default : Settings) with batchSize := 2 }
    ["id"] 0 0 (.empty "p" "x" 1 1 0) mixed
  exact ⟨hbalanced, hidle, hcounts hidle, by decide, by decide⟩

end Service

end Registration

end RecordRelay
