import RecordRelay.Relay.Basic

/-! A node writes each batch that others send to it into the receive buffer of the registration that
the batch names: all of its records or none. The status of the answer tells why a batch was not
taken. -/
namespace RecordRelay.Relay

/-- The status that tells why a buffer did not take a batch. -/
def statusOf : BufferError → ForwardStatus
  | .timeout _ => .requestTimeout
  | .sizeOverflow _ _ => .payloadTooLarge

def reject (relay : Relay) (status : ForwardStatus) : ForwardStatus × Relay :=
  (status,
    { relay with
      intake := { relay.intake with requestsRejected := relay.intake.requestsRejected + 1 } })

/-- Takes a batch that another node sent. -/
def accept (relay : Relay) (payload : List UInt8) : ForwardStatus × Relay :=
  match Batch.decode? payload with
  | none => relay.reject .badRequest
  | some batch =>
    match relay.find? batch.pipeline batch.plugin with
    | none => relay.reject .notFound
    | some index =>
      match relay.registrations[index]? with
      | none => relay.reject .notFound
      | some registration =>
        match registration.buffer.writeAll batch.records relay.settings.requestPatience with
        | .error cause => relay.reject (statusOf cause)
        | .ok buffer =>
          (.ok,
            { relay.setRegistration index { registration with buffer } with
              intake :=
                { relay.intake with
                  recordsReceived := relay.intake.recordsReceived + batch.events.length } })

/-- Everything that a node counts, with the names of the counters. -/
def namedCounters (relay : Relay) : List (String × Nat) :=
  relay.registrations.flatMap Registration.namedCounters
    ++ relay.intake.entries.map fun (name, value) => (counterName name [], value)

end RecordRelay.Relay
