import RecordRelay.Dispatch.Client
import RecordRelay.Event
import RecordRelay.Text.Quoted

/-! A fixed number of workers sends batches. Jobs are submitted without waiting: one that finds the
queue full or the pool shut down is handed back. Workers start jobs in the order in which they were
accepted; a job that has run leaves the pool with its outcome. A pool that is shut down still runs
what it has accepted. -/
namespace RecordRelay

/-- A batch to be sent, with its records and the registration that hears of the outcome. -/
structure Job where
  request : ForwardRequest
  records : List Record
  registration : Nat

def Job.render (job : Job) : String :=
  "DispatchJob \x7b destination: " ++ Text.quoted job.request.destination ++ ", records: "
    ++ job.records.length.repr ++ " \x7d"

inductive Refusal where
  | queueFull
  | shutDown
  deriving DecidableEq, Repr

def Refusal.render : Refusal → String
  | queueFull => "QueueFull"
  | shutDown => "ShutDown"

structure Pool where
  workers : Nat
  capacity : Nat
  /-- Whether the pool still takes jobs. -/
  accepting : Bool
  /-- The accepted jobs that no worker has taken, the oldest first. -/
  waiting : List Job
  /-- The jobs that workers run, the oldest first. -/
  running : List Job
  deriving Inhabited

namespace Pool

def start (workers capacity : Nat) : Pool := ⟨workers, capacity, true, [], []⟩

/-- There is room for one more job: a place in the queue or, in a pool without a queue, a worker
that has nothing to do. -/
def hasRoom (pool : Pool) : Bool :=
  if pool.capacity = 0 then pool.waiting.length + pool.running.length < pool.workers
  else pool.waiting.length < pool.capacity

/-- Submits a job. A pool without workers takes none, just as one that is shut down. -/
def submit (pool : Pool) (job : Job) : Except (Refusal × Job) Pool :=
  if !pool.accepting || pool.workers = 0 then .error (.shutDown, job)
  else if pool.hasRoom then .ok { pool with waiting := pool.waiting ++ [job] }
  else .error (.queueFull, job)

/-- A worker that has nothing to do takes the oldest job that waits. -/
def take (pool : Pool) : Option (Job × Pool) :=
  match pool.waiting with
  | [] => none
  | job :: rest =>
    if pool.running.length < pool.workers then
      some (job, { pool with waiting := rest, running := pool.running ++ [job] })
    else none

/-- The worker that runs the job in a place of the running ones is done with it. -/
def finish (pool : Pool) (place : Nat) : Option (Job × Pool) :=
  (pool.running[place]?).map fun job =>
    (job, { pool with running := pool.running.eraseIdx place })

def close (pool : Pool) : Pool := { pool with accepting := false }

/-- The number of jobs that wait for a worker, none once the pool is shut down. -/
def pending (pool : Pool) : Nat := if pool.accepting then pool.waiting.length else 0

end Pool

end RecordRelay
