import RecordRelay.Proofs.Relay.ConcurrentActions
import RecordRelay.Proofs.RoundTrip

/-! The batch of another node is taken as a whole or not at all, and the status of the answer tells
which. A batch that finds no room waits, and looks for room again; others use the node meanwhile. -/
namespace RecordRelay

instance (buffer : ReceiveBuffer) (records : List Record) : Decidable (buffer.Accepts records) :=
  inferInstanceAs (Decidable (_ = _ ∨ _ ≤ _))

namespace Relay

/-- A batch is for a registration of a node. -/
structure Names (relay : Relay) (batch : Batch) (index : Nat) (registration : Registration) :
    Prop where
  find : relay.find? batch.pipeline batch.plugin = some index
  get : relay.registrations[index]? = some registration

/-- The node with the records of a batch in the buffer of a registration. -/
def store (relay : Relay) (batch : Batch) (index : Nat) (registration : Registration) : Relay :=
  { relay.setRegistration index
      { registration with buffer := registration.buffer.enqueue batch.records } with
    intake := { relay.intake with
      recordsReceived := relay.intake.recordsReceived + batch.records.length } }

/-- The node after it has turned a batch away. -/
def turnAway (relay : Relay) : Relay :=
  { relay with
    intake := { relay.intake with requestsRejected := relay.intake.requestsRejected + 1 } }

variable {relay : Relay} {payload : List UInt8} {batch : Batch} {index : Nat}
  {registration : Registration}

theorem exists_names (h : (relay.find? batch.pipeline batch.plugin).isSome) :
    ∃ index registration, relay.Names batch index registration := by
  obtain ⟨index, hfind⟩ := Option.isSome_iff_exists.mp h
  obtain ⟨hlt, -⟩ := List.findIdx?_eq_some_iff_getElem.mp hfind
  exact ⟨index, relay.registrations[index], hfind, List.getElem?_eq_getElem hlt⟩

theorem accept_of_undecodable (h : Batch.decode? payload = none) :
    relay.accept payload = (.badRequest, relay.turnAway) := by
  rw [accept, h]
  rfl

theorem accept_of_unnamed (hdecode : Batch.decode? payload = some batch)
    (h : relay.find? batch.pipeline batch.plugin = none) :
    relay.accept payload = (.notFound, relay.turnAway) := by
  rw [accept, hdecode]
  dsimp only
  rw [h]
  rfl

theorem accept_of_names (hdecode : Batch.decode? payload = some batch)
    (h : relay.Names batch index registration) :
    relay.accept payload =
      if registration.buffer.capacity < batch.records.length then
        (.payloadTooLarge, relay.turnAway)
      else if registration.buffer.Accepts batch.records then
        (.ok, relay.store batch index registration)
      else (.requestTimeout, relay.turnAway) := by
  rw [accept, hdecode]
  dsimp only
  rw [h.find]
  dsimp only
  rw [h.get]
  dsimp only
  split_ifs with hlarge haccepts
  · rw [ReceiveBuffer.writeAll_of_large hlarge]
    rfl
  · rw [ReceiveBuffer.writeAll_of_accepts (not_lt.mp hlarge) haccepts, store, batch.length_records]
  · rw [ReceiveBuffer.writeAll_of_not_accepts (not_lt.mp hlarge) haccepts]
    rfl

theorem find?_eq (relay : Relay) (pipeline plugin : String) :
    relay.find? pipeline plugin
      = relay.stages.findIdx? fun stage => stage.1 = (pipeline, plugin) := by
  rw [find?, stages, List.findIdx?_map]
  rfl

/-- A batch stays with its registration, whose buffer keeps its capacity. -/
theorem Names.run (h : relay.Names batch index registration) (actions : List ConcurrentAction) :
    ∃ later, (relay.run actions).Names batch index later
      ∧ later.buffer.capacity = registration.buffer.capacity := by
  obtain ⟨more, hmore⟩ := relay.stages_run actions
  have hfind := h.find
  have hstage : relay.stages[index]? = some (registration.key, registration.buffer.capacity) := by
    rw [stages, List.getElem?_map, h.get]
    rfl
  -- Stages are only added at the end, so the place that is found is the first one still.
  have hlater : (relay.run actions).stages[index]?
      = some (registration.key, registration.buffer.capacity) := by
    rw [← hmore, List.getElem?_append_left (List.getElem?_eq_some_iff.mp hstage).1, hstage]
  rw [stages, List.getElem?_map, Option.map_eq_some_iff] at hlater
  obtain ⟨later, hget, hsame⟩ := hlater
  refine ⟨later, ⟨?_, hget⟩, congrArg Prod.snd hsame⟩
  rw [find?_eq] at hfind ⊢
  rw [← hmore, List.findIdx?_append, hfind]
  rfl

theorem Names.buffer? (h : relay.Names batch index registration) :
    relay.buffer? batch.pipeline batch.plugin = some registration.buffer := by
  simp [Relay.buffer?, h.find, h.get]

structure Addresses (batch : Batch) (relay : Relay) (index : Nat) (registration : Registration) :
    Prop where
  get : relay.registrations[index]? = some registration
  key : registration.key = (batch.pipeline, batch.plugin)

theorem Names.addresses (h : relay.Names batch index registration) :
    Addresses batch relay index registration :=
  ⟨h.get, key_of_find? h.find h.get⟩

/-- Where names are given once, the registration with the names is the one that is found. -/
theorem Addresses.eq_of_names {other : Nat} {found : Registration} (h : relay.Orderly)
    (haddresses : Addresses batch relay index registration)
    (hnames : relay.Names batch other found) : index = other ∧ registration = found := by
  have hsame : registration.key = found.key :=
    haddresses.key.trans hnames.addresses.key.symm
  have hget : (relay.registrations.map Registration.key)[index]? = some found.key := by
    rw [List.getElem?_map, haddresses.get, Option.map_some, hsame]
  have hfound : (relay.registrations.map Registration.key)[other]? = some found.key := by
    rw [List.getElem?_map, hnames.get, Option.map_some]
  obtain rfl : index = other :=
    (List.getElem?_inj (List.getElem?_eq_some_iff.mp hget).1 h.distinct).mp
      (hget.trans hfound.symm)
  exact ⟨rfl, Option.some.inj (haddresses.get.symm.trans hnames.get)⟩

theorem not_addresses (h : relay.find? batch.pipeline batch.plugin = none) :
    ¬ Addresses batch relay index registration := fun haddresses => by
  have hnone := List.findIdx?_eq_none_iff.mp h registration (List.mem_of_getElem? haddresses.get)
  exact of_decide_eq_false hnone haddresses.key

/-- There is room for a batch, or it is empty. -/
def Suits (batch : Batch) (relay : Relay) : Prop :=
  ∃ index registration, Addresses batch relay index registration
    ∧ (batch.events = []
      ∨ registration.buffer.length + batch.events.length ≤ registration.buffer.capacity)

/-- The events of a batch, without metadata, are at the end of the queue of the registration that
the batch is for, and they are counted. Nothing else has changed. -/
structure Stored (batch : Batch) (relay next : Relay) (index : Nat) (registration : Registration) :
    Prop where
  addresses : Addresses batch relay index registration
  here : next.registrations[index]? = some
    { registration with
      buffer :=
        { registration.buffer with
          queue := registration.buffer.queue ++ batch.events.map fun event => ⟨event, []⟩ } }
  elsewhere : ∀ other, other ≠ index → next.registrations[other]? = relay.registrations[other]?
  intake : next.intake
    = { relay.intake with
        recordsReceived := relay.intake.recordsReceived + batch.events.length }
  rest : { next with registrations := relay.registrations, intake := relay.intake } = relay

/-- A batch is counted as rejected, and nothing else has changed. -/
structure TurnedAway (relay next : Relay) : Prop where
  registrations : next.registrations = relay.registrations
  intake : next.intake
    = { relay.intake with requestsRejected := relay.intake.requestsRejected + 1 }
  rest : { next with intake := relay.intake } = relay

theorem turnedAway_turnAway (relay : Relay) : TurnedAway relay relay.turnAway := ⟨rfl, rfl, rfl⟩

theorem stored_store (h : relay.Names batch index registration) :
    Stored batch relay (relay.store batch index registration) index registration where
  addresses := h.addresses
  here := List.getElem?_set_self (List.getElem?_eq_some_iff.mp h.get).1
  elsewhere other hother := List.getElem?_set_ne hother.symm
  intake := by
    rw [store, batch.length_records]
  rest := rfl

theorem suits_iff (h : relay.Orderly) (hnames : relay.Names batch index registration) :
    Suits batch relay ↔ registration.buffer.Accepts batch.records := by
  rw [ReceiveBuffer.Accepts, batch.length_records, Batch.records, List.map_eq_nil_iff]
  constructor
  · rintro ⟨place, found, haddresses, hroom⟩
    obtain ⟨rfl, rfl⟩ := haddresses.eq_of_names h hnames
    exact hroom
  · exact fun hroom => ⟨index, registration, hnames.addresses, hroom⟩

open Waiting (IsFirst Look Pause Settles settles_await)

/-- The answer to a payload as it is at one look. -/
def respond (payload : List UInt8) (relay : Relay) : Relay × ForwardStatus :=
  ((relay.accept payload).2, (relay.accept payload).1)

def isTimeout (status : ForwardStatus) : Bool := status = .requestTimeout

/-- The looks that a batch takes from one look on, what others do at the node between them. -/
def looks (deadline : Nanoseconds) (look : Look Relay) (pauses : List (Pause ConcurrentAction)) :
    List (Look Relay) :=
  look.looks run deadline pauses

/-- What becomes of a payload from one look on: the node afterwards, and the answer, which there is
not while its batch waits. -/
def handle (payload : List UInt8) (deadline : Nanoseconds) (look : Look Relay)
    (pauses : List (Pause ConcurrentAction)) : Relay × Option ForwardStatus :=
  look.await run (respond payload) isTimeout deadline pauses

section Responding

theorem respond_of_undecodable (h : Batch.decode? payload = none) :
    respond payload relay = (relay.turnAway, .badRequest) := by
  rw [respond, accept_of_undecodable h]

theorem respond_of_unnamed (hdecode : Batch.decode? payload = some batch)
    (h : relay.find? batch.pipeline batch.plugin = none) :
    respond payload relay = (relay.turnAway, .notFound) := by
  rw [respond, accept_of_unnamed hdecode h]

variable (hdecode : Batch.decode? payload = some batch)
  (hnames : relay.Names batch index registration)
include hdecode hnames

theorem respond_of_large (hlarge : registration.buffer.capacity < batch.events.length) :
    respond payload relay = (relay.turnAway, .payloadTooLarge) := by
  rw [← batch.length_records] at hlarge
  rw [respond, accept_of_names hdecode hnames, if_pos hlarge]

variable (horderly : relay.Orderly)
  (hsmall : batch.events.length ≤ registration.buffer.capacity)
include horderly hsmall

theorem respond_of_suits (hsuits : Suits batch relay) :
    respond payload relay = (relay.store batch index registration, .ok) := by
  rw [← batch.length_records] at hsmall
  rw [respond, accept_of_names hdecode hnames, if_neg hsmall.not_gt,
    if_pos ((suits_iff horderly hnames).mp hsuits)]

theorem respond_of_not_suits (hfull : ¬ Suits batch relay) :
    respond payload relay = (relay.turnAway, .requestTimeout) := by
  rw [← batch.length_records] at hsmall
  rw [respond, accept_of_names hdecode hnames, if_neg hsmall.not_gt,
    if_neg (mt (suits_iff horderly hnames).mpr hfull)]

theorem isTimeout_respond_eq_false_iff :
    isTimeout (respond payload relay).2 = false ↔ Suits batch relay := by
  by_cases hsuits : Suits batch relay
  · rw [respond_of_suits hdecode hnames horderly hsmall hsuits]
    exact iff_of_true rfl hsuits
  · rw [respond_of_not_suits hdecode hnames horderly hsmall hsuits]
    exact iff_of_false Bool.noConfusion hsuits

end Responding

variable {deadline : Nanoseconds} {looks : List (Look Relay)} {look : Look Relay}

/-- How a node answers a payload whose batch takes some looks, and what it is like afterwards. The
first of the conditions for taking a batch that fails decides the answer. -/
structure Handled (payload : List UInt8) (deadline : Nanoseconds) (relay : Relay)
    (looks : List (Look Relay)) (outcome : Relay × Option ForwardStatus) : Prop where
  status : ∀ status ∈ outcome.2,
    status ∈ [.ok, .badRequest, .notFound, .payloadTooLarge, .requestTimeout]
  badRequest : outcome.2 = some .badRequest ↔ Batch.decode? payload = none
  notFound : outcome.2 = some .notFound
    ↔ ∃ batch ∈ Batch.decode? payload, ∀ index registration,
        ¬ Addresses batch relay index registration
  payloadTooLarge : outcome.2 = some .payloadTooLarge
    ↔ ∃ batch ∈ Batch.decode? payload, ∃ index registration,
        Addresses batch relay index registration
          ∧ registration.buffer.capacity < batch.events.length
  requestTimeout : outcome.2 = some .requestTimeout
    ↔ ∃ batch ∈ Batch.decode? payload, ∃ index registration,
        Addresses batch relay index registration
          ∧ batch.events.length ≤ registration.buffer.capacity
          ∧ (∀ look ∈ looks, ¬ Suits batch look.state) ∧ ∃ look ∈ looks, look.IsLast deadline
  success : (∃ status ∈ outcome.2, status.isSuccess = true)
    ↔ ∃ batch ∈ Batch.decode? payload, ∃ index registration,
        Addresses batch relay index registration
          ∧ batch.events.length ≤ registration.buffer.capacity
          ∧ ∃ look ∈ looks, Suits batch look.state
  /-- A batch is stored at the first look that finds room for it. -/
  stored : ∀ status ∈ outcome.2, status.isSuccess = true →
    ∃ batch ∈ Batch.decode? payload, ∃ look,
      IsFirst (fun look => Suits batch look.state) looks look
        ∧ ∃ index registration, Stored batch look.state outcome.1 index registration
  /-- Any other answer leaves every buffer as it was. -/
  turnedAway : ∀ status ∈ outcome.2, status.isSuccess = false →
    ∃ look ∈ looks, TurnedAway look.state outcome.1
  /-- The batch waits until the deadline at most, and changes nothing until it is answered. -/
  waits : outcome.2 = none →
    (∀ look ∈ looks, ¬ look.IsLast deadline) ∧ ∃ look ∈ looks, outcome.1 = look.state

section Handling

theorem Handled.eq_ok {outcome : Relay × Option ForwardStatus} {status : ForwardStatus}
    (h : Handled payload deadline relay looks outcome) (hstatus : status ∈ outcome.2)
    (hsuccess : status.isSuccess = true) : status = .ok := by
  have hone := h.status status hstatus
  simp only [List.mem_cons, List.not_mem_nil, or_false] at hone
  rcases hone with rfl | rfl | rfl | rfl | rfl
  · rfl
  all_goals exact absurd hsuccess (by decide)

theorem handled_of_undecodable (hlook : look ∈ looks) (h : Batch.decode? payload = none) :
    Handled payload deadline relay looks (look.state.turnAway, some .badRequest) := by
  constructor <;> simp [h, ForwardStatus.isSuccess, ForwardStatus.code]
  case turnedAway => exact ⟨look, hlook, turnedAway_turnAway look.state⟩

theorem handled_of_unnamed (hlook : look ∈ looks) (hdecode : Batch.decode? payload = some batch)
    (h : ∀ index registration, ¬ Addresses batch relay index registration) :
    Handled payload deadline relay looks (look.state.turnAway, some .notFound) := by
  constructor <;> simp [hdecode, h, ForwardStatus.isSuccess, ForwardStatus.code]
  case turnedAway => exact ⟨look, hlook, turnedAway_turnAway look.state⟩

/-- A batch that the buffer of its registration could never hold is turned away at once. -/
theorem handled_of_large (horderly : relay.Orderly) (hlook : look ∈ looks)
    (hdecode : Batch.decode? payload = some batch)
    (hnames : relay.Names batch index registration)
    (hlarge : registration.buffer.capacity < batch.events.length) :
    Handled payload deadline relay looks (look.state.turnAway, some .payloadTooLarge) := by
  have hown {place : Nat} {found : Registration}
      (haddresses : Addresses batch relay place found) : found = registration :=
    (haddresses.eq_of_names horderly hnames).2
  constructor <;> simp [hdecode, ForwardStatus.isSuccess, ForwardStatus.code]
  case notFound => exact ⟨index, registration, hnames.addresses⟩
  case payloadTooLarge => exact ⟨index, registration, hnames.addresses, hlarge⟩
  case requestTimeout =>
    intro place found haddresses hsmall
    rw [hown haddresses] at hsmall
    exact absurd hlarge hsmall.not_gt
  case success =>
    intro place found haddresses hsmall
    rw [hown haddresses] at hsmall
    exact absurd hlarge hsmall.not_gt
  case turnedAway => exact ⟨look, hlook, turnedAway_turnAway look.state⟩

section Fitting

variable (horderly : relay.Orderly) (hdecode : Batch.decode? payload = some batch)
  (hnames : relay.Names batch index registration)
  (hsmall : batch.events.length ≤ registration.buffer.capacity)
include horderly hdecode hnames hsmall

omit hdecode in
theorem not_too_large (place : Nat) (found : Registration)
    (haddresses : Addresses batch relay place found) :
    batch.events.length ≤ found.buffer.capacity := by
  rwa [(haddresses.eq_of_names horderly hnames).2]

theorem handled_of_suits {place : Nat} {found : Registration}
    (hfirst : IsFirst (fun look => Suits batch look.state) looks look)
    (hfound : look.state.Names batch place found) :
    Handled payload deadline relay looks (look.state.store batch place found, some .ok) := by
  have hfits := not_too_large horderly hnames hsmall
  constructor <;> simp [hdecode, ForwardStatus.isSuccess, ForwardStatus.code]
  case notFound => exact ⟨index, registration, hnames.addresses⟩
  case payloadTooLarge => exact hfits
  case requestTimeout =>
    exact fun _ _ _ _ hfull => absurd hfirst.1 (hfull look hfirst.mem)
  case success =>
    exact ⟨index, registration, hnames.addresses, hsmall, look, hfirst.mem, hfirst.1⟩
  case stored => exact ⟨look, hfirst, place, found, stored_store hfound⟩

theorem handled_of_last (hlook : look ∈ looks) (hlast : look.IsLast deadline)
    (hfull : ∀ look ∈ looks, ¬ Suits batch look.state) :
    Handled payload deadline relay looks (look.state.turnAway, some .requestTimeout) := by
  have hfits := not_too_large horderly hnames hsmall
  constructor <;> simp [hdecode, ForwardStatus.isSuccess, ForwardStatus.code]
  case notFound => exact ⟨index, registration, hnames.addresses⟩
  case payloadTooLarge => exact hfits
  case requestTimeout =>
    exact ⟨index, registration, hnames.addresses, hsmall, hfull, look, hlook, hlast⟩
  case success => exact fun _ _ _ _ => hfull
  case turnedAway => exact ⟨look, hlook, turnedAway_turnAway look.state⟩

theorem handled_of_waits (hlook : look ∈ looks) (hmore : ∀ look ∈ looks, ¬ look.IsLast deadline)
    (hfull : ∀ look ∈ looks, ¬ Suits batch look.state) :
    Handled payload deadline relay looks (look.state, none) := by
  have hfits := not_too_large horderly hnames hsmall
  constructor <;> simp [hdecode, ForwardStatus.isSuccess, ForwardStatus.code]
  case notFound => exact ⟨index, registration, hnames.addresses⟩
  case payloadTooLarge => exact hfits
  case requestTimeout => exact fun _ _ _ _ _ => hmore
  case success => exact fun _ _ _ _ => hfull
  case waits => exact ⟨hmore, look, hlook, rfl⟩

/-- A batch that the buffer of its registration could hold is stored at the first look that finds
room, is turned away at the last look, or still waits. -/
theorem handled_of_settles {outcome : Relay × Option ForwardStatus}
    (hlooks : ∀ look ∈ looks, look.state.Orderly ∧ ∃ later,
      look.state.Names batch index later
        ∧ later.buffer.capacity = registration.buffer.capacity)
    (h : Settles (respond payload) isTimeout deadline looks outcome) :
    Handled payload deadline relay looks outcome := by
  have hroom : ∀ look ∈ looks,
      (isTimeout (respond payload look.state).2 = false ↔ Suits batch look.state) := by
    intro look hlook
    obtain ⟨hlooked, later, hlater, hcapacity⟩ := hlooks look hlook
    exact isTimeout_respond_eq_false_iff hdecode hlater hlooked (hsmall.trans_eq hcapacity.symm)
  rcases h.elim_room hroom with
    ⟨look, hfirst, rfl⟩ | ⟨hfull, ⟨look, hlook, hlast, rfl⟩ | ⟨hmore, look, hlook, rfl⟩⟩
  · obtain ⟨hlooked, later, hlater, hcapacity⟩ := hlooks look hfirst.mem
    rw [respond_of_suits hdecode hlater hlooked (hsmall.trans_eq hcapacity.symm) hfirst.1]
    exact handled_of_suits horderly hdecode hnames hsmall hfirst hlater
  · obtain ⟨hlooked, later, hlater, hcapacity⟩ := hlooks look hlook
    rw [respond_of_not_suits hdecode hlater hlooked (hsmall.trans_eq hcapacity.symm)
      (hfull look hlook)]
    exact handled_of_last horderly hdecode hnames hsmall hlook hlast hfull
  · exact handled_of_waits horderly hdecode hnames hsmall hlook hmore hfull

end Fitting

end Handling

/-- The answer at the first look stands unless there was no room. -/
theorem handle_of_not_isTimeout (h : isTimeout (respond payload look.state).2 = false)
    (pauses : List (Pause ConcurrentAction)) :
    handle payload deadline look pauses
      = ((respond payload look.state).1, some (respond payload look.state).2) :=
  Look.await_of_not (fun hfull => Bool.false_ne_true (h.symm.trans hfull.1)) pauses

theorem handled (horderly : relay.Orderly) (payload : List UInt8) (deadline now : Nanoseconds)
    (pauses : List (Pause ConcurrentAction)) :
    Handled payload deadline relay (Relay.looks deadline ⟨now, true, relay⟩ pauses)
      (handle payload deadline ⟨now, true, relay⟩ pauses) := by
  have hlook : (⟨now, true, relay⟩ : Look Relay) ∈ Relay.looks deadline ⟨now, true, relay⟩ pauses :=
    Look.mem_looks _ pauses
  cases hdecode : Batch.decode? payload with
  | none =>
    have hrespond : respond payload relay = (relay.turnAway, .badRequest) :=
      respond_of_undecodable hdecode
    rw [handle_of_not_isTimeout (by rw [hrespond]; rfl), hrespond]
    exact handled_of_undecodable hlook hdecode
  | some batch =>
    cases hfind : relay.find? batch.pipeline batch.plugin with
    | none =>
      have hrespond := respond_of_unnamed hdecode hfind
      rw [handle_of_not_isTimeout (by rw [hrespond]; rfl), hrespond]
      exact handled_of_unnamed hlook hdecode fun _ _ => not_addresses hfind
    | some index =>
      obtain ⟨index, registration, hnames⟩ :=
        relay.exists_names (Option.isSome_iff_exists.mpr ⟨index, hfind⟩)
      rcases lt_or_ge registration.buffer.capacity batch.events.length with hlarge | hsmall
      · have hrespond := respond_of_large hdecode hnames hlarge
        rw [handle_of_not_isTimeout (by rw [hrespond]; rfl), hrespond]
        exact handled_of_large horderly hlook hdecode hnames hlarge
      · refine handled_of_settles horderly hdecode hnames hsmall ?_ (settles_await _ pauses)
        refine Look.forall_mem_looks (P := fun relay : Relay => relay.Orderly ∧ ∃ later,
          relay.Names batch index later
            ∧ later.buffer.capacity = registration.buffer.capacity) ?_
          ⟨horderly, registration, hnames, rfl⟩ pauses
        rintro relay actions ⟨hlooked, later, hlater, hcapacity⟩
        obtain ⟨last, hlast, hsame⟩ := hlater.run actions
        exact ⟨hlooked.run actions, last, hlast, hsame.trans hcapacity⟩

/-- Whatever is registered at a node, whatever is in its buffers and whatever others do while a
batch waits: a payload is answered with a success if it can be read, names a registration, has no
more records than the buffer could hold and finds room in time, and then its records, without
metadata, are at the end of that buffer and counted; the first of these conditions that fails gives
the status otherwise, and then no buffer has changed. At every look stages have names of their own,
and room is what the records in a buffer leave of its capacity. -/
theorem handles_all_or_nothing (settings : Settings) (hasClient : Bool)
    (source : PeerSource Follower) (isLocal? : String → Option Bool)
    (actions : List ConcurrentAction)
    (payload : List UInt8) (now : Nanoseconds) (pauses : List (Pause ConcurrentAction)) :
    let relay := (idle settings hasClient source isLocal?).run actions
    let deadline := now + relay.settings.requestPatience
    let looks := Relay.looks deadline ⟨now, true, relay⟩ pauses
    Handled payload deadline relay looks (handle payload deadline ⟨now, true, relay⟩ pauses)
      ∧ ∀ look ∈ looks, (look.state.registrations.map Registration.key).Nodup
          ∧ ∀ registration ∈ look.state.registrations, registration.buffer.Counts := by
  intro relay deadline looks
  have horderly : relay.Orderly := (orderly_idle settings hasClient source isLocal?).run actions
  have hlater : ∀ look ∈ looks, look.state.Orderly :=
    Look.forall_mem_looks (P := Orderly) (fun _ actions h => h.run actions) horderly pauses
  refine ⟨handled horderly payload deadline now pauses, fun look hlook => ?_⟩
  exact ⟨(hlater look hlook).distinct, fun registration hregistration =>
    ((hlater look hlook).reached registration hregistration).counts⟩

def testRecord (id : String) : Record := .ofEvent (.ofData "test" (.object [("id", .string id)]))

theorem canonical_testRecord (id : String) : (testRecord id).Canonical := by
  have hid : (Json.string id).Canonical := trivial
  exact Event.canonical_ofData "test" (Json.canonical_object_nil.set hid "id")

theorem fits_testRecord (id : String) : (testRecord id).event.Fits Batch.documentDepth := by
  simp [testRecord, Record.ofEvent, Event.ofData, Event.Fits, Json.isObject, Json.depth,
    Json.depthFields, Batch.documentDepth, Json.depthLimit]

def loneSettings : Settings := { Settings.standard with ssl := false }

/-- A buffer for two records is full when a batch comes. Then one of the two is released, which
wakes the batch: it is stored behind the other one, without the metadata that its record had. -/
theorem handles_all_or_nothing_crowded :
    let settings : Settings := { loneSettings with batchSize := 1, bufferSize := 2 }
    let relay := (idle settings false (.fixed []) fun _ => none).run
      [.register "p" "x" ["id"] (.ok ()), .register "p" "y" ["id"] (.ok ()),
        .access 0 0 (.write [testRecord "a", testRecord "b"] 0), .access 0 1 .redeliver,
        .access 0 1 .take]
    let payload := Batch.encode [⟨(testRecord "c").event, [("key", "value")]⟩] "p" "x"
    let outcome := handle payload (2 + relay.settings.requestPatience) ⟨2, true, relay⟩
      [⟨[.access 0 3 (.checkpoint ⟨1, 1⟩)], 3, true⟩]
    outcome.2 = some .ok
      ∧ outcome.1.registrations.map (fun registration => registration.buffer.queue)
        = [[testRecord "b", testRecord "c"], []]
      ∧ outcome.1.intake = ⟨1, 0⟩ := by
  intro settings relay payload outcome
  let record : Record := ⟨(testRecord "c").event, [("key", "value")]⟩
  let patience := settings.checkpointPatience
  let node := idle settings false (.fixed []) fun _ => none
  let full : Registration := ⟨⟨"p", "x", 2, 1, patience, [testRecord "b"],
    [⟨1, [testRecord "a"], 1 + patience⟩], 1, 2⟩, none⟩
  let freed : Registration := ⟨⟨"p", "x", 2, 1, patience, [testRecord "b"], [], 0, 2⟩, none⟩
  let other : Registration := ⟨newBuffer settings "p" "y", none⟩
  have hrelay : relay = { node with registrations := [full, other] } := rfl
  have hfreed : run { node with registrations := [full, other] }
      [.access 0 3 (.checkpoint ⟨1, 1⟩)] = { node with registrations := [freed, other] } := rfl
  have hcanonical : ∀ other ∈ [record], other.Canonical :=
    List.forall_mem_singleton.mpr (canonical_testRecord "c")
  have hfits : ∀ other ∈ [record], other.event.Fits Batch.documentDepth :=
    List.forall_mem_singleton.mpr (fits_testRecord "c")
  have hdecode : Batch.decode? payload = some (.ofRecords [record] "p" "x") := by
    rw [Batch.decode?_encode hcanonical, if_pos hfits]
  have horderly : relay.Orderly := (orderly_idle settings false (.fixed []) fun _ => none).run _
  have hlater := horderly.run [.access 0 3 (.checkpoint ⟨1, 1⟩)]
  have hlooks : Relay.looks (2 + relay.settings.requestPatience) ⟨2, true, relay⟩
      [⟨[.access 0 3 (.checkpoint ⟨1, 1⟩)], 3, true⟩]
      = [⟨2, true, relay⟩, ⟨3, true, relay.run [.access 0 3 (.checkpoint ⟨1, 1⟩)]⟩] := rfl
  have hhandled : Handled payload (2 + relay.settings.requestPatience) relay
      [⟨2, true, relay⟩, ⟨3, true, relay.run [.access 0 3 (.checkpoint ⟨1, 1⟩)]⟩] outcome := by
    rw [← hlooks]
    exact (handles_all_or_nothing settings false (.fixed []) (fun _ => none)
      [.register "p" "x" ["id"] (.ok ()), .register "p" "y" ["id"] (.ok ()),
        .access 0 0 (.write [testRecord "a", testRecord "b"] 0), .access 0 1 .redeliver,
        .access 0 1 .take] payload 2 [⟨[.access 0 3 (.checkpoint ⟨1, 1⟩)], 3, true⟩]).1
  rw [hrelay, hfreed] at hhandled hlater
  rw [hrelay] at horderly
  have hnames : Names { node with registrations := [full, other] } (.ofRecords [record] "p" "x") 0
      full := ⟨rfl, rfl⟩
  have hnamed : Names { node with registrations := [freed, other] } (.ofRecords [record] "p" "x") 0
      freed := ⟨rfl, rfl⟩
  have hfull := mt (suits_iff horderly hnames).mp (by decide)
  have hroom := (suits_iff hlater hnamed).mpr (by decide)
  obtain ⟨status, hstatus, hsuccess⟩ := hhandled.success.mpr
    ⟨_, hdecode, 0, full, hnames.addresses, by decide, _, .tail _ (.head _), hroom⟩
  obtain rfl := hhandled.eq_ok hstatus hsuccess
  obtain ⟨batch, hbatch, look, hfirst, index, registration, hstored⟩ :=
    hhandled.stored .ok hstatus rfl
  obtain rfl := Option.some.inj (hdecode.symm.trans hbatch)
  rcases List.mem_cons.mp hfirst.mem with rfl | hlast
  · exact absurd hfirst.1 hfull
  obtain rfl := List.mem_singleton.mp hlast
  obtain ⟨rfl, rfl⟩ := hstored.addresses.eq_of_names hlater hnamed
  refine ⟨hstatus, List.ext_getElem? fun place => ?_, hstored.intake⟩
  rw [List.getElem?_map]
  cases place with
  | zero =>
    rw [hstored.here]
    rfl
  | succ place =>
    rw [hstored.elsewhere (place + 1) (Nat.succ_ne_zero place)]
    cases place <;> rfl

end Relay

end RecordRelay
