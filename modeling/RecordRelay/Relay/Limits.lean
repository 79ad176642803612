import RecordRelay.Relay.Basic

/-! A receive buffer is made with room for all the records it may hold, and so is a batching queue.
The program stops where the room of the queues is asked for and 64 bits cannot say it, and where a
buffer or a queue is made that the memory has no room for. What else is said of a node holds as long
as neither has happened. -/
namespace RecordRelay

/-- The room of the queues could be said, and every queue that was made has found it in a memory for
so many records at once. -/
def Outbox.isWithin (memory : Nat) (outbox : Outbox) : Bool :=
  outbox.queueCapacity.isSome && outbox.queues.all fun entry => entry.2.capacity ≤ memory

def Registration.isWithin (memory : Nat) (registration : Registration) : Bool :=
  registration.buffer.capacity ≤ memory
    && (registration.sender.map fun sender => sender.outbox.isWithin memory).getD true

/-- The program has stopped for want of room. -/
def Relay.hasStopped (memory : Nat) (relay : Relay) : Bool :=
  !relay.registrations.all (Registration.isWithin memory)

end RecordRelay
