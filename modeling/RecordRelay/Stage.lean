import RecordRelay.Relay.Basic

/-! A stage transforms batches of records. Wrapped around a forwarder it sees the records that
belong here: its share of the records it is given, followed by those that other nodes sent. A
wrapped stage is a stage again. -/
namespace RecordRelay

/-- A stage, whose state is of type `σ`. Only what it makes of records has to be said. -/
structure Stage (σ : Type) where
  execute : List Record → σ → List Record × σ
  /-- The stage hears that it is going to be shut down. -/
  prepareForShutdown : σ → σ := id
  isReadyForShutdown : σ → Bool := fun _ => true
  shutDown : σ → σ := id

/-- What moves the records of a stage, on a state of type `τ`. -/
structure Forwarder (τ : Type) where
  /-- Takes the records of others away and leaves those that are processed here. -/
  forward : List Record → τ → List Record × τ
  /-- The next records that others sent here. -/
  receive : τ → List Record × τ
  /-- No received records wait to be processed. -/
  isReadyForShutdown : τ → Bool

namespace Forwarder

/-- Without other nodes every record stays here. -/
def stayHere {τ : Type} : Forwarder τ where
  forward records state := (records, state)
  receive state := ([], state)
  isReadyForShutdown _ := true

/-- The forwarder of a registered stage of a node. -/
def ofRegistration (index : Nat) (now : Nanoseconds) : Forwarder Relay where
  forward records relay := relay.forward index records
  receive relay := relay.receive index now
  isReadyForShutdown relay := relay.isReady index

end Forwarder

namespace Stage

variable {σ τ : Type}

/-- A stage that sees the records which a forwarder leaves here or receives. It is ready for
shutdown when both are. -/
def wrappedBy (forwarder : Forwarder τ) (stage : Stage σ) : Stage (τ × σ) where
  execute records := fun (state, inner) =>
    let (own, state) := forwarder.forward records state
    let (received, state) := forwarder.receive state
    let (results, inner) := stage.execute (own ++ received) inner
    (results, (state, inner))
  prepareForShutdown := fun (state, inner) => (state, stage.prepareForShutdown inner)
  isReadyForShutdown := fun (state, inner) =>
    forwarder.isReadyForShutdown state && stage.isReadyForShutdown inner
  shutDown := fun (state, inner) => (state, stage.shutDown inner)

end Stage

end RecordRelay
