import RecordRelay.Proofs.Discovery.PeerLists
import RecordRelay.Proofs.Relay.Consumption

/-! A stage is registered as a whole or not at all: whatever goes wrong, the node is as it was
before. The registered pairs are those that were asked for with success, each of them once, and
everybody who asks for the buffer of a pair finds the same one. -/
namespace RecordRelay.Relay

variable {relay next : Relay} {operation : Operation} {pipeline plugin : String}
  {keys : List String} {launch : Except String Unit} {index : Nat} {registration : Registration}

/-- The dispatch pool of a new registration, which needs something that reaches other nodes. -/
def claimPool (relay : Relay) (launch : Except String Unit) : Except SetupError (Nat × Relay) :=
  if relay.hasClient then relay.openPool launch else .error .missingClient

/-- The node without the registration of a pair. -/
def withdraw (relay : Relay) (pipeline plugin : String) : Relay :=
  { relay with registrations :=
      relay.registrations.filter fun registration => registration.key ≠ (pipeline, plugin) }

/-- Registers a stage in place. The buffer is there before it is known whether the stage gets a
dispatch pool, and is withdrawn if it does not. -/
def enroll (relay : Relay) (pipeline plugin : String) (keys : List String)
    (launch : Except String Unit) : Except SetupError Nat × Relay :=
  let buffer := newBuffer relay.settings pipeline plugin
  if relay.settings.arePeersConfigured && !relay.hasClient then (.error .missingClient, relay)
  else if (relay.find? pipeline plugin).isSome then
    (.error (.duplicateRegistration pipeline plugin), relay)
  else
    let (index, exposed) := relay.add ⟨buffer, none⟩
    if !exposed.forwards then (.ok index, exposed)
    else
      match exposed.claimPool launch with
      | .error cause => (.error cause, exposed.withdraw pipeline plugin)
      | .ok (pool, opened) =>
        let outbox := Outbox.empty relay.settings pipeline plugin (sortedSet keys)
        (.ok index, opened.openRing.setRegistration index ⟨buffer, some ⟨outbox, pool⟩⟩)

/-- Only without instances there is nothing to register. -/
theorem ask_eq_none_iff (h : operation.Asks) :
    relay.ask operation = .ok none ↔ operation.stage? = none := by
  cases operation with
  | register pipeline plugin keys launch =>
    rw [ask, Operation.stage?]
    cases relay.register pipeline plugin keys launch <;> simp [Except.map]
  | registerInstances pipeline plugin instances launch =>
    rw [ask, Operation.stage?, registerInstances]
    cases instances with
    | nil => simp
    | cons first rest =>
      rw [List.map_cons, if_neg (List.cons_ne_nil _ _)]
      dsimp only
      split_ifs
      · simp
      · simp
      · cases relay.register pipeline plugin (sortedSet first) launch <;> simp [Except.map]
  | _ => exact absurd h id

theorem operate_of_refused (h : operation.Asks)
    (hnothing : ∀ result, relay.ask operation ≠ .ok (some result)) :
    relay.operate operation = relay := by
  cases operation with
  | register | registerInstances =>
    rw [operate, asked]
    split
    next hask => exact absurd hask (hnothing _)
    next => rfl
  | _ => exact absurd h id

/-- What an operation does to the registrations of a node. -/
structure Registers (relay : Relay) (operation : Operation) : Prop where
  /-- A pair that is registered is not registered again. -/
  once : ∀ stage ∈ operation.stage?, stage ∈ relay.keys →
    ∃ cause, relay.ask operation = .error cause
  /-- Nothing comes of it if there are no instances. -/
  nothing : operation.Asks → operation.stage? = none → relay.ask operation = .ok none
  /-- Whoever gets no registration leaves no trace. -/
  untouched : operation.Asks → (∀ result, relay.ask operation ≠ .ok (some result)) →
    relay.operate operation = relay
  /-- A new registration stands at the end, with an empty buffer. It sends if there are others. -/
  added : ∀ index next, relay.ask operation = .ok (some (index, next)) →
    relay.operate operation = next ∧ index = relay.registrations.length
      ∧ ∃ stage ∈ operation.stage?, stage ∉ relay.keys ∧ ∃ sender,
        next.registrations
            = relay.registrations ++ [⟨newBuffer relay.settings stage.1 stage.2, sender⟩]
          ∧ sender.isSome = relay.settings.arePeersConfigured
  /-- The others stay in their places, and their buffers are written and read at most. -/
  kept : ∀ index registration, relay.registrations[index]? = some registration →
    ∃ later, (relay.operate operation).registrations[index]? = some later
      ∧ later.key = registration.key
      ∧ Registration.Changes relay.routing registration (relay.written index operation)
        (relay.received index operation) later

theorem registers (hdistinct : relay.keys.Nodup) (operation : Operation) :
    relay.Registers operation where
  once stage hstage hmem := by
    cases hask : relay.ask operation with
    | error cause => exact ⟨cause, rfl⟩
    | ok result =>
      cases result with
      | some result =>
        obtain ⟨pipeline, plugin, keys, launch, hasked, hregister⟩ := register_of_ask hask
        obtain rfl := Option.some.inj (hasked.symm.trans hstage)
        exact absurd hmem (find?_eq_none_iff.mp (register_cases hregister).1)
      | none =>
        have hasks : operation.Asks := by
          cases operation <;> trivial
        rw [ask_eq_none_iff hasks, hstage] at hask
        contradiction
  nothing hasks hstage := (ask_eq_none_iff hasks).mpr hstage
  untouched hasks hnothing := operate_of_refused hasks hnothing
  added index next hask := by
    obtain ⟨pipeline, plugin, keys, launch, hstage, hregister⟩ := register_of_ask hask
    obtain ⟨hindex, sender, hsame, hsends, -⟩ := registrations_register hregister
    exact ⟨operate_of_ask hask, hindex, (pipeline, plugin), hstage,
      find?_eq_none_iff.mp (register_cases hregister).1, sender, hsame, hsends⟩
  kept index registration hget := by
    obtain ⟨later, hlater, hchanges⟩ := exists_changes hdistinct hget operation
    exact ⟨later, hlater, hchanges.key_eq, hchanges⟩

def registered (relay : Relay) : List Operation → List (String × String)
  | [] => []
  | operation :: operations =>
    relay.gained operation ++ (relay.operate operation).registered operations

/-- Whoever asks for the buffer of a pair finds the same one. -/
structure Consistent (relay : Relay) : Prop where
  named : ∀ pipeline plugin,
    (relay.buffer? pipeline plugin).isSome = true ↔ (pipeline, plugin) ∈ relay.keys
  listed : ∀ pipeline plugin buffer, relay.buffer? pipeline plugin = some buffer ↔
    ∃ buffers, (pipeline, buffers) ∈ relay.buffersByPipeline ∧ buffer ∈ buffers
      ∧ buffer.plugin = plugin
  /-- Each pipeline is listed once, with at least one plugin and each of them once. -/
  pipelines : (relay.buffersByPipeline.map Prod.fst).Nodup
  plugins : ∀ pipeline buffers, (pipeline, buffers) ∈ relay.buffersByPipeline →
    buffers ≠ [] ∧ (buffers.map ReceiveBuffer.plugin).Nodup
  /-- Batches for other pairs are not known. -/
  unknown : ∀ payload batch, Batch.decode? payload = some batch →
    ((relay.accept payload).1 = .notFound ↔ relay.buffer? batch.pipeline batch.plugin = none)
  /-- Batches that are taken are in the buffer of their pair. -/
  taken : ∀ payload batch, Batch.decode? payload = some batch → ∀ pipeline plugin,
    (relay.accept payload).2.buffer? pipeline plugin
      = (relay.buffer? pipeline plugin).map fun buffer =>
        if (relay.accept payload).1.isSuccess ∧ (pipeline, plugin) = (batch.pipeline, batch.plugin)
        then buffer.enqueue batch.records else buffer

/-- A pair is registered although a first attempt found no dispatch pool and a last one came too
late. -/
example :
    ((idle pairedSettings true (.fixed ["10.0.0.1", "10.0.0.2"]) fun _ => some false).operateAll
      [.register "p" "x" ["id"] (.error "no threads"), .register "p" "x" ["id"] (.ok ()),
        .registerInstances "p" "x" [["id"], ["id"]] (.ok ())]).keys = [("p", "x")] := rfl

end RecordRelay.Relay
