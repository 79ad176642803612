import RecordRelay.Proofs.Fleet.Steps
import RecordRelay.Proofs.Relay.FleetView

/-! In a fleet whose nodes know the addresses of each other and register a stage with the same
identification keys, all records with the same values of these keys belong to one node. It is the
only one where the ring lets them stay, and whatever else a node hands out was forwarded there and
could not be sent. A node whose settings name no peers does not ask the ring, even if it was given a
list of all nodes: it keeps every record that is forwarded there. -/
namespace RecordRelay.Fleet

/-- Whether a node sends records to others, as its settings say. -/
def sends (fleet : Fleet) (node : Nat) : Bool :=
  (fleet.relay? node).any fun relay => relay.settings.arePeersConfigured

/-- An action that leaves alone what nodes know of each other. It registers a stage only with the
keys that all nodes use for it. -/
def Action.Steady (keysOf : String × String → List String) : Action → Prop
  | register _ pipeline plugin keys _ => sortedSet keys = keysOf (pipeline, plugin)
  | reroute _ _ _ => False
  | connect _ _ => False
  | disconnect _ => False
  | _ => True

/-- A fleet whose nodes are where the addresses lead, some of which send records to others. -/
structure Placed (addresses : List String) (sends : Nat → Bool) (fleet : Fleet) : Prop where
  length : fleet.relays.length = addresses.length
  reached : ∀ node own, addresses[node]? = some own → fleet.handler? own = some node
  located : ∀ node relay own, fleet.relay? node = some relay → addresses[node]? = some own →
    relay.Located addresses own (sends node)

variable {addresses : List String} {sends : Nat → Bool} {keysOf : String × String → List String}
  {owner : CompositeKey → Nat} {fleet : Fleet} {node : Nat} {relay next : Relay}

theorem Placed.setRelay (h : fleet.Placed addresses sends) (hrelay : fleet.relay? node = some relay)
    (hnext : ∀ own, relay.Located addresses own (sends node) →
      next.Located addresses own (sends node)) :
    (fleet.setRelay node next).Placed addresses sends where
  length := List.length_set.trans h.length
  reached := h.reached
  located other found own hfound hown := by
    rw [relay?_setRelay hrelay] at hfound
    split_ifs at hfound with hsame
    · subst hsame
      obtain rfl := Option.some.inj hfound
      exact hnext own (h.located node relay own hrelay hown)
    · exact h.located other found own hfound hown

theorem Placed.setRelay_of_fleetView_eq (h : fleet.Placed addresses sends)
    (hrelay : fleet.relay? node = some relay) (hsame : next.fleetView = relay.fleetView) :
    (fleet.setRelay node next).Placed addresses sends :=
  h.setRelay hrelay fun _ hlocated => hlocated.of_fleetView_eq hsame

theorem Placed.change (h : fleet.Placed addresses sends) {f : Relay → Relay}
    (hf : ∀ relay own, relay.Located addresses own (sends node) →
      (f relay).Located addresses own (sends node)) :
    (fleet.change node f).Placed addresses sends := by
  rw [Fleet.change]
  cases hrelay : fleet.relay? node with
  | none => exact h
  | some relay => exact h.setRelay hrelay (hf relay)

theorem Placed.deliver (h : fleet.Placed addresses sends) (request : ForwardRequest) :
    (fleet.deliver request).2.Placed addresses sends := by
  rcases fleet.deliver_cases request with ⟨cause, heq⟩ | ⟨target, relay, -, hrelay, heq⟩
  · rw [heq]
    exact h
  · rw [heq]
    exact h.setRelay_of_fleetView_eq hrelay (relay.fleetView_accept _)

/-- A steady action leaves the nodes where they are. -/
theorem Placed.act (h : fleet.Placed addresses sends)
    (hdistinct : PeerRing.Distinguished addresses) {action : Action}
    (haction : action.Steady keysOf) : (fleet.act action).1.Placed addresses sends := by
  cases action with
  | register node pipeline plugin keys launch =>
    refine h.change fun relay own hlocated => ?_
    cases hregister : relay.register pipeline plugin keys launch with
    | error cause => exact hlocated
    | ok registered => exact hlocated.register hdistinct hregister
  | forward node index records =>
    rw [Fleet.act]
    cases hfind : fleet.registration? node index with
    | none => exact h
    | some found =>
      obtain ⟨hrelay, -⟩ := registration?_eq_some hfind
      exact h.setRelay_of_fleetView_eq hrelay (Relay.fleetView_forward _ index records)
  | receive node index now =>
    rw [Fleet.act]
    cases hfind : fleet.registration? node index with
    | none => exact h
    | some found =>
      obtain ⟨hrelay, -⟩ := registration?_eq_some hfind
      exact h.setRelay_of_fleetView_eq hrelay (Relay.fleetView_receive _ index now)
  | takeJob node pool =>
    rw [Fleet.act]
    cases htake : fleet.takeJob node pool with
    | none => exact h
    | some taken =>
      obtain ⟨relay, next, hrelay, hnext, hafter⟩ := takeJob_eq_some htake
      have hset := h.setRelay_of_fleetView_eq hrelay (Relay.fleetView_takeJob hnext)
      rwa [← hafter] at hset
  | finishJob node pool place =>
    rw [Fleet.act]
    cases hfinish : fleet.finishJob node pool place none with
    | none => exact h
    | some finished =>
      obtain ⟨relay, left, there, hrelay, hdone, hthere, -, hafter⟩ := finishJob_eq_some hfinish
      have hleft := h.setRelay_of_fleetView_eq hrelay (Relay.fleetView_finishJob hdone)
      have hended := (hleft.deliver finished.1.request).setRelay_of_fleetView_eq hthere
        (there.fleetView_complete finished.1 finished.2.1)
      rwa [← hafter] at hended
  | shutDown node =>
    exact h.change fun relay own hlocated => hlocated.of_fleetView_eq relay.fleetView_shutDown
  | reroute => exact absurd haction id
  | connect => exact absurd haction id
  | disconnect => exact absurd haction id

/-- Every ring of the addresses gives a key to the address of its owner. -/
def Owns (addresses : List String) (owner : CompositeKey → Nat) : Prop :=
  ∀ ring : PeerRing, ring.Lists addresses → addresses ≠ [] → ∀ key,
    ∃ address, addresses[owner key]? = some address ∧ ring.owner? key = some address

theorem Placed.exists_address (h : fleet.Placed addresses sends)
    (hrelay : fleet.relay? node = some relay) : ∃ own, addresses[node]? = some own := by
  have hlt := (List.getElem?_eq_some_iff.mp hrelay).1
  rw [h.length] at hlt
  exact ⟨_, List.getElem?_eq_getElem hlt⟩

/-- An address is that of one node only. -/
theorem Placed.node_eq (h : fleet.Placed addresses sends) {other : Nat} {address : String}
    (hnode : addresses[node]? = some address) (hother : addresses[other]? = some address) :
    node = other :=
  Option.some.inj ((h.reached node address hnode).symm.trans (h.reached other address hother))

/-- Every node routes a record to its owner, and it stays at the owner only. -/
theorem Placed.routing (h : fleet.Placed addresses sends) (howns : Owns addresses owner)
    (hrelay : fleet.relay? node = some relay) (keys : List String) (record : Record) :
    (∃ address, addresses[owner (Routing.compositeKey keys record)]? = some address
        ∧ relay.routing.ownerOf keys record = some address)
      ∧ relay.routing.isLocal (relay.routing.ownerOf keys record)
        = decide (owner (Routing.compositeKey keys record) = node) := by
  obtain ⟨own, hown⟩ := h.exists_address hrelay
  have hlocated := h.located node relay own hrelay hown
  have hsome : addresses ≠ [] := List.ne_nil_of_mem (List.mem_of_getElem? hown)
  obtain ⟨address, hindex, howner⟩ :=
    howns relay.peerRing hlocated.ring hsome (Routing.compositeKey keys record)
  have hroute : relay.routing.ownerOf keys record = some address := howner
  refine ⟨⟨address, hindex, hroute⟩, ?_⟩
  have hresolved : relay.isLocal? address = some (decide (address = own)) :=
    hlocated.resolves address (List.mem_of_getElem? hindex)
  rw [hroute]
  show (relay.isLocal? address).getD true = _
  rw [hresolved, Option.getD_some, decide_eq_decide]
  constructor
  · rintro rfl
    exact h.node_eq hindex hown
  · intro hnode
    rw [hnode, hown] at hindex
    exact (Option.some.inj hindex).symm

def Passed (notes : List Note) (node : Nat) (stage : String × String) (record : Record) : Prop :=
  ∃ records returned refused,
    Note.forwarded node stage records returned refused ∈ notes ∧ record ∈ records

def Failed (notes : List Note) (node : Nat) (stage : String × String) (record : Record) : Prop :=
  ∃ job outcome dropped, Note.sent node job outcome dropped ∈ notes
    ∧ outcome.isSuccess = false ∧ job.stage = stage ∧ record ∈ job.records

def home (keysOf : String × String → List String) (owner : CompositeKey → Nat)
    (stage : String × String) (record : Record) : Nat :=
  owner (Routing.compositeKey (keysOf stage) record)

/-- Records that a node hands out belong to it, or it was given them and could not send them. A node
that sends nothing gives back what it is given. -/
def Note.Explained (keysOf : String × String → List String) (owner : CompositeKey → Nat)
    (sends : Nat → Bool) (notes : List Note) : Note → Prop
  | forwarded node stage records returned refused =>
    if sends node then
      ∀ record ∈ returned, home keysOf owner stage record = node
        ∨ (Passed notes node stage record
          ∧ ∃ job ∈ refused, job.stage = stage ∧ record ∈ job.records)
    else returned = records ∧ refused = []
  | received node stage records => ∀ record ∈ records,
    home keysOf owner stage record = node
      ∨ (Passed notes node stage record ∧ Failed notes node stage record)
  | sent _ _ _ _ => True

/-- Each note is explained by what was noted before. -/
def AllExplained (keysOf : String × String → List String) (owner : CompositeKey → Nat)
    (sends : Nat → Bool) : List Note → List Note → Prop
  | _, [] => True
  | earlier, note :: rest => note.Explained keysOf owner sends (earlier ++ [note])
    ∧ AllExplained keysOf owner sends (earlier ++ [note]) rest

theorem AllExplained.append {earlier notes others : List Note}
    (h : AllExplained keysOf owner sends earlier notes)
    (h' : AllExplained keysOf owner sends (earlier ++ notes) others) :
    AllExplained keysOf owner sends earlier (notes ++ others) := by
  induction notes generalizing earlier with
  | nil => rwa [List.append_nil] at h'
  | cons note rest ih =>
    refine ⟨h.1, ih h.2 ?_⟩
    rwa [List.append_assoc]

/-- What holds of the records at a node after everything that was noted: they wait for the node
they belong to, and a buffer has records of its node and records that came back. -/
def affinity (addresses : List String) (keysOf : String × String → List String)
    (owner : CompositeKey → Nat) (sends : Nat → Bool) (notes : List Note) (node : Nat) :
    Terms where
  registers stage
    | some keys => sends node = true ∧ keys = keysOf stage
    | none => sends node = false
  waits stage address record :=
    addresses[home keysOf owner stage record]? = some address ∧ Passed notes node stage record
  rests stage record := home keysOf owner stage record = node
    ∨ (Passed notes node stage record ∧ Failed notes node stage record)

theorem Passed.append {notes : List Note} {stage : String × String} {record : Record}
    (h : Passed notes node stage record) (others : List Note) :
    Passed (notes ++ others) node stage record := by
  obtain ⟨records, returned, refused, hmem, hrecord⟩ := h
  exact ⟨records, returned, refused, List.mem_append_left _ hmem, hrecord⟩

theorem Failed.append {notes : List Note} {stage : String × String} {record : Record}
    (h : Failed notes node stage record) (others : List Note) :
    Failed (notes ++ others) node stage record := by
  obtain ⟨job, outcome, dropped, hmem, hrest⟩ := h
  exact ⟨job, outcome, dropped, List.mem_append_left _ hmem, hrest⟩

theorem affinity_append (notes others : List Note) (node : Nat) :
    (affinity addresses keysOf owner sends notes node).Implies
      (affinity addresses keysOf owner sends (notes ++ others) node) where
  registers h := h
  waits h := ⟨h.1, h.2.append others⟩
  rests h := h.imp_right fun ⟨hpassed, hfailed⟩ => ⟨hpassed.append others, hfailed.append others⟩

/-- The keys of a registration that sends are those of its stage. -/
theorem keys_eq_of_sound {notes : List Note} {registration : Registration}
    (h : registration.Sound (affinity addresses keysOf owner sends notes node)) {keys : List String}
    (hkeys : keys ∈ registration.keys?) : keys = keysOf registration.key := by
  have hregisters := h.registers
  rw [Option.mem_def.mp hkeys] at hregisters
  exact hregisters.2

/-- What a steady action brings and moves meets the terms, once it is noted. -/
theorem Placed.meets (h : fleet.Placed addresses sends) (howns : Owns addresses owner)
    {earlier : List Note} (hsound : fleet.Sound (affinity addresses keysOf owner sends earlier))
    {action : Action} (haction : action.Steady keysOf) :
    action.Meets (affinity addresses keysOf owner sends (earlier ++ (fleet.act action).2))
      fleet := by
  cases action with
  | register node pipeline plugin keys launch =>
    intro relay hrelay
    obtain ⟨own, hown⟩ := h.exists_address hrelay
    rw [(h.located node relay own hrelay hown).configured]
    cases hsends : sends node with
    | true => exact ⟨hsends, haction⟩
    | false => exact hsends
  | forward node index records =>
    intro relay registration hfind keys hkeys record hrecord address hroute
    obtain ⟨hrelay, hi⟩ := registration?_eq_some hfind
    have hregistration := (hsound node relay hrelay).registrations _ (List.mem_of_getElem? hi)
    obtain rfl := keys_eq_of_sound hregistration hkeys
    obtain ⟨⟨found, hindex, hfound⟩, -⟩ :=
      h.routing howns hrelay (keysOf registration.key) record
    rw [hroute] at hfound
    obtain rfl := Option.some.inj hfound
    refine ⟨hindex, records, (relay.forward index records).1, relay.refused index records, ?_,
      hrecord⟩
    rw [act_forward hfind]
    exact List.mem_append_right _ (List.mem_singleton.mpr rfl)
  | finishJob node pool place =>
    intro job outcome after hfinish hfair record hrecord
    obtain ⟨-, hindex, hpassed⟩ := hfair.waits record hrecord
    refine ⟨fun target htarget => .inl ?_, fun hfailed => .inr ⟨hpassed, ?_⟩⟩
    · have hreached := h.reached _ _ hindex
      rw [htarget] at hreached
      exact (Option.some.inj hreached).symm
    · refine ⟨job, outcome, after.dropped - fleet.dropped, ?_, hfailed, rfl, hrecord⟩
      rw [act_finishJob hfinish]
      exact List.mem_append_right _ (List.mem_singleton.mpr rfl)
  | receive => trivial
  | takeJob => trivial
  | shutDown => trivial
  | reroute => trivial
  | connect => trivial
  | disconnect => trivial

/-- A record that a registration keeps when it is forwarded belongs to a node that sends others. -/
theorem Placed.home_of_stays (h : fleet.Placed addresses sends) (howns : Owns addresses owner)
    (hrelay : fleet.relay? node = some relay) (hsends : sends node = true) {notes : List Note}
    {registration : Registration}
    (hregistration : registration.Sound (affinity addresses keysOf owner sends notes node))
    {record : Record} (hstays : ∀ keys ∈ registration.keys?,
      relay.routing.isLocal (relay.routing.ownerOf keys record) = true) :
    home keysOf owner registration.key record = node := by
  have hregisters := hregistration.registers
  cases hkeys : registration.keys? with
  | none =>
    rw [hkeys] at hregisters
    exact absurd (hregisters.symm.trans hsends) Bool.false_ne_true
  | some keys =>
    obtain ⟨-, hlocal⟩ := h.routing howns hrelay (keysOf registration.key) record
    have hkept := hstays keys hkeys
    rw [keys_eq_of_sound hregistration hkeys, hlocal] at hkept
    exact of_decide_eq_true hkept

/-- A registration has no keys at a node that sends nothing. -/
theorem keys?_eq_none_of_sound {notes : List Note} {registration : Registration}
    (h : registration.Sound (affinity addresses keysOf owner sends notes node))
    (hsends : sends node = false) : registration.keys? = none := by
  have hregisters := h.registers
  cases hkeys : registration.keys? with
  | none => rfl
  | some keys =>
    rw [hkeys] at hregisters
    exact absurd (hregisters.1.symm.trans hsends) Bool.false_ne_true.symm

theorem Placed.explained_forward (h : fleet.Placed addresses sends) (howns : Owns addresses owner)
    {earlier : List Note} (hsound : fleet.Sound (affinity addresses keysOf owner sends earlier))
    {index : Nat} {records : List Record} (hcanonical : ∀ record ∈ records, record.Canonical) :
    AllExplained keysOf owner sends earlier (fleet.act (.forward node index records)).2 := by
  cases hfind : fleet.registration? node index with
  | none =>
    rw [Fleet.act, hfind]
    trivial
  | some found =>
    obtain ⟨relay, registration⟩ := found
    obtain ⟨hrelay, hi⟩ := registration?_eq_some hfind
    have hmeets : (Action.forward node index records).Meets _ fleet :=
      h.meets howns hsound trivial
    have hmeets := hmeets relay registration hfind
    rw [act_forward hfind] at hmeets ⊢
    refine ⟨?_, trivial⟩
    have hnow := (hsound node relay hrelay).imp (affinity_append earlier
      [.forwarded node registration.key records (relay.forward index records).1
        (relay.refused index records)] node)
    have hregistration := hnow.registrations _ (List.mem_of_getElem? hi)
    rw [Note.Explained]
    split_ifs with hsends
    · intro record hrecord
      rcases hnow.mem_forward hi hcanonical hmeets hrecord with
        ⟨-, hstays⟩ | ⟨job, hjob, hmem, hfair, hstage⟩
      · exact .inl (h.home_of_stays howns hrelay hsends hregistration hstays)
      · have hwaits := (hfair.waits record hmem).2
        rw [hstage] at hwaits
        exact .inr ⟨hwaits.2, job, hjob, hstage, hmem⟩
    · exact Relay.forward_of_keys?_eq_none hi
        (keys?_eq_none_of_sound hregistration (Bool.eq_false_iff.mpr hsends)) records

theorem explained_receive {earlier : List Note}
    (hsound : fleet.Sound (affinity addresses keysOf owner sends earlier)) (index : Nat)
    (now : Nanoseconds) :
    AllExplained keysOf owner sends earlier (fleet.act (.receive node index now)).2 := by
  cases hfind : fleet.registration? node index with
  | none =>
    rw [Fleet.act, hfind]
    trivial
  | some found =>
    obtain ⟨relay, registration⟩ := found
    obtain ⟨hrelay, hi⟩ := registration?_eq_some hfind
    rw [act_receive hfind]
    refine ⟨fun record hrecord => ?_, trivial⟩
    have hnow := (hsound node relay hrelay).imp (affinity_append earlier
      [.received node registration.key (relay.receive index now).1] node)
    exact (hnow.receive hi now).2.1 record hrecord

/-- What a steady action hands out is explained. -/
theorem Placed.explained (h : fleet.Placed addresses sends) (howns : Owns addresses owner)
    {earlier : List Note} (hsound : fleet.Sound (affinity addresses keysOf owner sends earlier))
    {action : Action} (hcanonical : action.Canonical) (haction : action.Steady keysOf) :
    AllExplained keysOf owner sends earlier (fleet.act action).2 := by
  cases action with
  | forward node index records => exact h.explained_forward howns hsound hcanonical
  | receive node index now => exact explained_receive hsound index now
  | finishJob node pool place =>
    cases hfinish : fleet.finishJob node pool place none with
    | none =>
      rw [Fleet.act, hfinish]
      trivial
    | some finished =>
      obtain ⟨job, outcome, after⟩ := finished
      rw [act_finishJob hfinish]
      exact ⟨trivial, trivial⟩
  | takeJob node pool =>
    cases htake : fleet.takeJob node pool <;> rw [Fleet.act, htake] <;> trivial
  | register => trivial
  | shutDown => trivial
  | reroute => exact absurd haction id
  | connect => exact absurd haction id
  | disconnect => exact absurd haction id

/-- A steady run leaves the nodes where they are and explains what they hand out. -/
theorem Placed.run (h : fleet.Placed addresses sends) (hdistinct : PeerRing.Distinguished addresses)
    (howns : Owns addresses owner) {earlier : List Note}
    (hsound : fleet.Sound (affinity addresses keysOf owner sends earlier)) {actions : List Action}
    (hactions : ∀ action ∈ actions, action.Canonical ∧ action.Steady keysOf) :
    (Fleet.run actions fleet).1.Placed addresses sends
      ∧ (Fleet.run actions fleet).1.Sound
        (affinity addresses keysOf owner sends (earlier ++ (Fleet.run actions fleet).2))
      ∧ AllExplained keysOf owner sends earlier (Fleet.run actions fleet).2 := by
  induction actions generalizing fleet earlier with
  | nil =>
    rw [Fleet.run, List.append_nil]
    exact ⟨h, hsound, trivial⟩
  | cons action rest ih =>
    obtain ⟨hcanonical, hsteady⟩ := hactions action (List.mem_cons_self ..)
    -- The terms speak of everything noted so far, so they are weakened before the action is taken.
    have hnow :
        fleet.Sound (affinity addresses keysOf owner sends (earlier ++ (fleet.act action).2)) :=
      fun node relay hrelay => (hsound node relay hrelay).imp (affinity_append earlier _ node)
    obtain ⟨hnext, -⟩ := hnow.act hcanonical (h.meets howns hsound hsteady)
    obtain ⟨hplaced, hend, hrest⟩ := ih (h.act hdistinct hsteady) hnext fun other hother =>
      hactions other (List.mem_cons_of_mem _ hother)
    have hfirst := h.explained howns hsound hcanonical hsteady
    rw [Fleet.run]
    refine ⟨hplaced, ?_, hfirst.append hrest⟩
    rwa [List.append_assoc] at hend

end RecordRelay.Fleet
