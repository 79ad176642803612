import RecordRelay.Dispatch.Pool

/-! Callers submit jobs to a pool, each of its workers takes a job, asks the client and calls the
completion before it takes the next one, and a call of shutdown closes the pool and waits until
every worker has ended. These are the steps, in any order; one that cannot be made changes nothing.
Beside the pool stands what was seen of it so far, with every job under the number of the jobs that
were submitted before it.

Shutdown is said to have returned when the call that waits for the workers has. A second call to the
node waits for the first one. A second call to the pool itself finds no workers left to wait for and
returns at once, also while a job still runs, and says nothing about jobs. -/
namespace RecordRelay

namespace Pool

structure Ticket where
  number : Nat
  job : Job

structure HandedBack where
  ticket : Ticket
  cause : Refusal

structure Answer where
  number : Nat
  request : ForwardRequest
  outcome : Outcome

/-- A worker with the job it runs, and what the client answered, once it has. -/
structure Assignment where
  worker : Nat
  ticket : Ticket
  outcome : Option Outcome

structure Completion where
  ticket : Ticket
  outcome : Outcome

def Assignment.answer? (assigned : Assignment) : Option Answer :=
  assigned.outcome.map fun outcome => ⟨assigned.ticket.number, assigned.ticket.job.request, outcome⟩

def Completion.answer (completion : Completion) : Answer :=
  ⟨completion.ticket.number, completion.ticket.job.request, completion.outcome⟩

@[simp] theorem Assignment.answer?_none (worker : Nat) (ticket : Ticket) :
    (Assignment.mk worker ticket none).answer? = none := rfl

@[simp] theorem Assignment.answer?_some (worker : Nat) (ticket : Ticket) (outcome : Outcome) :
    (Assignment.mk worker ticket (some outcome)).answer?
      = some (Completion.mk ticket outcome).answer :=
  rfl

/-- A pool at work, and what was seen of it so far. -/
structure Trace where
  pool : Pool
  /-- The workers that run a job, in the order of the pool. -/
  assignments : List Assignment
  /-- The workers that have ended. -/
  gone : List Nat
  /-- Shutdown was called. -/
  closing : Bool
  /-- The call of shutdown has returned. -/
  closed : Bool
  submitted : List Ticket
  handedBack : List HandedBack
  accepted : List Ticket
  waiting : List Ticket
  /-- The jobs that workers took, in the order in which they did. -/
  started : List Ticket
  answers : List Answer
  completed : List Completion

inductive Act where
  | submit (job : Job)
  /-- A worker without a job takes one. -/
  | take (worker : Nat)
  /-- The client answers a worker. -/
  | answer (worker : Nat) (outcome : Outcome)
  /-- A worker that was answered calls the completion of its job. -/
  | complete (worker : Nat)
  /-- A worker without a job ends. -/
  | leave (worker : Nat)
  | close
  /-- The call of shutdown returns. -/
  | join

def Act.job? : Act → Option Job
  | .submit job => some job
  | _ => none

namespace Trace

def start (workers capacity : Nat) : Trace :=
  ⟨Pool.start workers capacity, [], [], false, false, [], [], [], [], [], [], []⟩

/-- A worker that has not ended has no job. -/
def IsFree (trace : Trace) (worker : Nat) : Prop :=
  worker < trace.pool.workers ∧ worker ∉ trace.assignments.map Assignment.worker ++ trace.gone

instance (trace : Trace) (worker : Nat) : Decidable (trace.IsFree worker) :=
  inferInstanceAs (Decidable (_ ∧ _))

def place? (trace : Trace) (worker : Nat) : Option Nat :=
  trace.assignments.findIdx? fun assigned => assigned.worker = worker

def submit (trace : Trace) (job : Job) : Trace :=
  let ticket : Ticket := ⟨trace.submitted.length, job⟩
  let trace : Trace := { trace with submitted := trace.submitted ++ [ticket] }
  match trace.pool.submit job with
  | .ok pool =>
    { trace with
      pool
      accepted := trace.accepted ++ [ticket]
      waiting := trace.waiting ++ [ticket] }
  | .error (cause, job) =>
    { trace with handedBack := trace.handedBack ++ [⟨{ ticket with job }, cause⟩] }

def take (trace : Trace) (worker : Nat) : Trace :=
  match trace.pool.take with
  | some (job, pool) =>
    let ticket := { trace.waiting.headD ⟨0, job⟩ with job }
    { trace with
      pool
      assignments := trace.assignments ++ [⟨worker, ticket, none⟩]
      waiting := trace.waiting.tail
      started := trace.started ++ [ticket] }
  | none => trace

def answer (trace : Trace) (place : Nat) (outcome : Outcome) : Trace :=
  match trace.assignments[place]? with
  | some ⟨worker, ticket, none⟩ =>
    { trace with
      assignments := trace.assignments.set place ⟨worker, ticket, some outcome⟩
      answers := trace.answers ++ [⟨ticket.number, ticket.job.request, outcome⟩] }
  | _ => trace

def complete (trace : Trace) (place : Nat) : Trace :=
  match trace.assignments[place]?, trace.pool.finish place with
  | some ⟨_, ticket, some outcome⟩, some (job, pool) =>
    { trace with
      pool
      assignments := trace.assignments.eraseIdx place
      completed := trace.completed ++ [⟨{ ticket with job }, outcome⟩] }
  | _, _ => trace

/-- An act, if it can be done. A worker ends when the pool is closed and has no job for it; shutdown
returns when every worker has ended. -/
def step (trace : Trace) : Act → Trace
  | .submit job => trace.submit job
  | .take worker => if trace.IsFree worker then trace.take worker else trace
  | .answer worker outcome =>
    (trace.place? worker).elim trace fun place => trace.answer place outcome
  | .complete worker => (trace.place? worker).elim trace trace.complete
  | .leave worker =>
    if trace.IsFree worker ∧ trace.pool.accepting = false ∧ trace.pool.waiting.isEmpty then
      { trace with gone := trace.gone ++ [worker] }
    else trace
  | .close => { trace with pool := trace.pool.close, closing := true }
  | .join =>
    if trace.closing ∧ ∀ worker < trace.pool.workers, worker ∈ trace.gone then
      { trace with closed := true }
    else trace

def run (trace : Trace) (acts : List Act) : Trace := acts.foldl step trace

theorem run_append (trace : Trace) (acts more : List Act) :
    trace.run (acts ++ more) = (trace.run acts).run more :=
  List.foldl_append ..

end Trace

end Pool

end RecordRelay
