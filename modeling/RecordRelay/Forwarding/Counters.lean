/-! What a registration counts about the records it forwards and receives, and what a node counts
about the batches that others send to it. -/
namespace RecordRelay

structure ForwardingCounters where
  /-- Records that belong to this node, to nobody or to a peer that cannot be resolved. -/
  processedLocally : Nat
  /-- Records of the batches that were cut for a peer. -/
  toBeForwarded : Nat
  /-- Records of the batches that a peer took. -/
  successfullyForwarded : Nat
  /-- Records of the batches that the pool refused or a peer did not take. -/
  failedForwarding : Nat
  /-- Records that were read from the receive buffer. -/
  receivedFromPeers : Nat
  /-- Records that could neither be sent nor kept. -/
  dropped : Nat
  /-- Requests that a peer answered with a success. -/
  requestsSuccessful : Nat
  /-- All other requests. -/
  requestsFailed : Nat
  /-- Requests whose duration was noted. -/
  latencySamples : Nat
  deriving DecidableEq, Repr

namespace ForwardingCounters

def zero : ForwardingCounters := ⟨0, 0, 0, 0, 0, 0, 0, 0, 0⟩

instance : Inhabited ForwardingCounters := ⟨zero⟩

def entries (counters : ForwardingCounters) : List (String × Nat) :=
  [("peer_forwarder.records_to_be_processed_locally", counters.processedLocally),
    ("peer_forwarder.records_to_be_forwarded", counters.toBeForwarded),
    ("peer_forwarder.records_successfully_forwarded", counters.successfullyForwarded),
    ("peer_forwarder.records_failed_forwarding", counters.failedForwarding),
    ("peer_forwarder.records_received_from_peers", counters.receivedFromPeers),
    ("peer_forwarder.records_dropped", counters.dropped),
    ("peer_forwarder.requests_successful", counters.requestsSuccessful),
    ("peer_forwarder.requests_failed", counters.requestsFailed),
    ("peer_forwarder.request_latency_seconds", counters.latencySamples)]

end ForwardingCounters

/-- What a node counts about the batches that others send to it. -/
structure IntakeCounters where
  /-- Records of the batches that were taken. -/
  recordsReceived : Nat
  /-- Batches that were not taken. -/
  requestsRejected : Nat
  deriving DecidableEq, Repr

namespace IntakeCounters

def zero : IntakeCounters := ⟨0, 0⟩

instance : Inhabited IntakeCounters := ⟨zero⟩

def entries (counters : IntakeCounters) : List (String × Nat) :=
  [("peer_forwarder.server.records_received", counters.recordsReceived),
    ("peer_forwarder.server.requests_rejected", counters.requestsRejected)]

end IntakeCounters

/-- The name of a counter with its labels, in order. -/
def counterName (name : String) (labels : List (String × String)) : String :=
  name ++ "\x7b" ++ ",".intercalate (labels.map fun (label, value) => label ++ "=" ++ value)
    ++ "\x7d"

end RecordRelay
