import RecordRelay.Proofs.Fleet.Runs

/-! An action leaves every node in order. What the nodes hold after it, with what has left the
fleet, is what they held before, with what has come. Terms that are met by the records that wait and
by those in buffers are still met afterwards, if the records that the action brings and moves meet
them. -/
namespace RecordRelay.Fleet

/-- A fleet between two actions, with terms for each node. -/
def Sound (terms : Nat → Terms) (fleet : Fleet) : Prop :=
  ∀ node relay, fleet.relay? node = some relay → relay.Sound (terms node)

/-- What the nodes of a fleet hold: records on their way out, records in buffers, and the number of
those that were dropped. -/
def holdings (fleet : Fleet) : StageRecords × StageRecords × Nat :=
  (fleet.relays.map Relay.holdings).sum

theorem holdings_eq (fleet : Fleet) :
    fleet.holdings = (fleet.pending + fleet.dispatched, fleet.buffered, fleet.dropped) := by
  rw [holdings, pending, dispatched, buffered, dropped]
  induction fleet.relays with
  | nil => rfl
  | cons relay rest ih =>
    simp only [List.map_cons, List.sum_cons, ih, relay.holdings_eq, Prod.mk_add_mk]
    rw [add_add_add_comm]

variable {fleet : Fleet} {terms : Nat → Terms} {node : Nat} {relay next : Relay}

theorem relay?_setRelay (hrelay : fleet.relay? node = some relay) (other : Nat) :
    (fleet.setRelay node next).relay? other
      = if node = other then some next else fleet.relay? other := by
  rw [Fleet.relay?, setRelay, List.getElem?_set]
  split_ifs with hsame hlt
  · rfl
  · exact absurd (List.getElem?_eq_some_iff.mp hrelay).1 hlt
  · rfl

theorem Sound.setRelay (h : fleet.Sound terms) (hrelay : fleet.relay? node = some relay)
    (hnext : next.Sound (terms node)) : (fleet.setRelay node next).Sound terms := by
  intro other found hfound
  rw [relay?_setRelay hrelay] at hfound
  split_ifs at hfound with hsame
  · obtain rfl := Option.some.inj hfound
    rwa [← hsame]
  · exact h other found hfound

theorem holdings_setRelay {gain loss : StageRecords × StageRecords × Nat}
    (hrelay : fleet.relay? node = some relay) (h : next.holdings + loss = relay.holdings + gain) :
    (fleet.setRelay node next).holdings + loss = fleet.holdings + gain :=
  sum_map_set_add Relay.holdings hrelay h

theorem holdings_setRelay_gain {gain : StageRecords × StageRecords × Nat}
    (hrelay : fleet.relay? node = some relay) (h : next.holdings = relay.holdings + gain) :
    (fleet.setRelay node next).holdings = fleet.holdings + gain := by
  have hset := holdings_setRelay hrelay ((add_zero next.holdings).trans h)
  rwa [add_zero] at hset

theorem holdings_setRelay_loss {loss : StageRecords × StageRecords × Nat}
    (hrelay : fleet.relay? node = some relay) (h : next.holdings + loss = relay.holdings) :
    (fleet.setRelay node next).holdings + loss = fleet.holdings := by
  have hset := holdings_setRelay hrelay (h.trans (add_zero relay.holdings).symm)
  rwa [add_zero] at hset

theorem holdings_setRelay_of_eq (hrelay : fleet.relay? node = some relay)
    (h : next.holdings = relay.holdings) :
    (fleet.setRelay node next).holdings = fleet.holdings := by
  have hset := holdings_setRelay_gain hrelay (h.trans (add_zero relay.holdings).symm)
  rwa [add_zero] at hset

/-- A node that changes without a change of what it holds. -/
theorem Sound.change (h : fleet.Sound terms) {f : Relay → Relay}
    (hf : ∀ relay, fleet.relay? node = some relay → relay.Sound (terms node) →
      (f relay).Sound (terms node) ∧ (f relay).holdings = relay.holdings) :
    (fleet.change node f).Sound terms ∧ (fleet.change node f).holdings = fleet.holdings := by
  rw [Fleet.change]
  cases hrelay : fleet.relay? node with
  | none => exact ⟨h, rfl⟩
  | some relay =>
    obtain ⟨hsound, hholdings⟩ := hf relay hrelay (h node relay hrelay)
    exact ⟨h.setRelay hrelay hsound, holdings_setRelay_of_eq hrelay hholdings⟩

theorem shape_setRelay (hrelay : fleet.relay? node = some relay) (hshape : next.shape = relay.shape)
    (other : Nat) :
    ((fleet.setRelay node next).relay? other).map Relay.shape
      = (fleet.relay? other).map Relay.shape := by
  rw [Fleet.relay?, Fleet.relay?, ← List.getElem?_map, ← List.getElem?_map]
  exact congrArg (·[other]?) (map_set_of_eq Relay.shape hrelay hshape)

/-- A request goes nowhere, or the node at its destination answers it. -/
theorem deliver_cases (fleet : Fleet) (request : ForwardRequest) :
    (∃ cause, fleet.deliver request = (.error cause, fleet))
      ∨ ∃ target relay, fleet.handler? request.destination = some target
        ∧ fleet.relay? target = some relay
        ∧ fleet.deliver request = (.ok (relay.accept request.payload).1,
            fleet.setRelay target (relay.accept request.payload).2) := by
  rw [Fleet.deliver]
  cases fleet.handler? request.destination with
  | none => exact .inl ⟨_, rfl⟩
  | some target =>
    dsimp only
    cases hrelay : fleet.relay? target with
    | none => exact .inl ⟨_, rfl⟩
    | some relay => exact .inr ⟨target, relay, rfl, hrelay, rfl⟩

/-- A delivered batch is stored by one node if it is answered with a success, and nothing changes
otherwise. -/
theorem Sound.deliver (h : fleet.Sound terms) {others : Terms} {job : Job} (hjob : job.Fair others)
    (hrests : ∀ target, fleet.handler? job.request.destination = some target →
      ∀ record ∈ job.records, (terms target).rests job.stage record.bare) :
    (fleet.deliver job.request).2.Sound terms
      ∧ (∀ other, ((fleet.deliver job.request).2.relay? other).map Relay.shape
          = (fleet.relay? other).map Relay.shape)
      ∧ (fleet.deliver job.request).2.holdings = fleet.holdings
        + (0, if Outcome.isSuccess (fleet.deliver job.request).1
            then ofStage job.stage (job.records.map Record.bare) else 0, 0) := by
  rcases fleet.deliver_cases job.request with ⟨cause, heq⟩ | ⟨target, relay, htarget, hrelay, heq⟩
  · rw [heq]
    exact ⟨h, fun _ => rfl, (add_zero _).symm⟩
  · obtain ⟨hsound, hshape, hholdings⟩ :=
      (h target relay hrelay).accept hjob (hrests target htarget)
    rw [heq]
    exact ⟨h.setRelay hrelay hsound, shape_setRelay hrelay hshape,
      holdings_setRelay_gain hrelay hholdings⟩

def Action.Canonical : Action → Prop
  | forward _ _ records => ∀ record ∈ records, record.Canonical
  | _ => True

/-- What an action brings or moves meets the terms. -/
def Action.Meets (terms : Nat → Terms) (fleet : Fleet) : Action → Prop
  | register node pipeline plugin keys _ => ∀ relay, fleet.relay? node = some relay →
    (terms node).registers (pipeline, plugin)
      (if relay.settings.arePeersConfigured then some (sortedSet keys) else none)
  | forward node index records => ∀ relay registration,
    fleet.registration? node index = some (relay, registration) →
      ∀ keys ∈ registration.keys?, ∀ record ∈ records, ∀ address,
        relay.routing.ownerOf keys record = some address →
          (terms node).waits registration.key address record
  | finishJob node pool place => ∀ job outcome after,
    fleet.finishJob node pool place none = some (job, outcome, after) → job.Fair (terms node) →
      ∀ record ∈ job.records,
        (∀ target, fleet.handler? job.request.destination = some target →
          (terms target).rests job.stage record.bare)
        ∧ (outcome.isSuccess = false → (terms node).rests job.stage record)
  | _ => True

/-- An empty record of its metadata, as it is for its stage. -/
def bareStageRecord (entry : (String × String) × Record) : (String × String) × Record :=
  (entry.1, entry.2.bare)

theorem map_bareStageRecord (stage : String × String) (records : List Record) :
    (ofStage stage records).map bareStageRecord = ofStage stage (records.map Record.bare) := by
  rw [ofStage, ofStage, Multiset.map_coe, List.map_map, List.map_map]
  rfl

/-- What a note says has left a fleet: records that came back or were sent, records that were read,
and nothing of what was dropped. -/
def Note.outflow (note : Note) : StageRecords × StageRecords × Nat :=
  (note.returned + note.crossed + note.fellBack + note.lost, note.handedOut, 0)

/-- What a note says has come: records to be forwarded, records that were stored, and the number of
those that were dropped. -/
def Note.inflow (note : Note) : StageRecords × StageRecords × Nat :=
  (note.submitted, note.fellBack + note.crossed.map bareStageRecord, note.lost.card)

theorem outflow_forwarded (node : Nat) (stage : String × String) (records returned : List Record)
    (refused : List Job) :
    (Note.forwarded node stage records returned refused).outflow
      = (ofStage stage returned, 0, 0) := by
  simp [Note.outflow, Note.returned, Note.crossed, Note.fellBack, Note.lost, Note.handedOut]

theorem inflow_forwarded (node : Nat) (stage : String × String) (records returned : List Record)
    (refused : List Job) :
    (Note.forwarded node stage records returned refused).inflow
      = (ofStage stage records, 0, 0) := by
  simp [Note.inflow, Note.submitted, Note.crossed, Note.fellBack, Note.lost]

theorem outflow_received (node : Nat) (stage : String × String) (records : List Record) :
    (Note.received node stage records).outflow = (0, ofStage stage records, 0) := by
  simp [Note.outflow, Note.returned, Note.crossed, Note.fellBack, Note.lost, Note.handedOut]

theorem inflow_received (node : Nat) (stage : String × String) (records : List Record) :
    (Note.received node stage records).inflow = 0 := by
  simp [Note.inflow, Note.submitted, Note.crossed, Note.fellBack, Note.lost]

/-- However a job ends, its records have left the way out. -/
theorem outflow_sent (node : Nat) (job : Job) (outcome : Outcome) (dropped : Nat) :
    (Note.sent node job outcome dropped).outflow = (job.stageRecords, 0, 0) := by
  simp only [Note.outflow, Note.returned, Note.crossed, Note.fellBack, Note.lost, Note.handedOut]
  by_cases hsuccess : outcome.isSuccess = true
  · simp [hsuccess]
  · by_cases hdropped : dropped = 0 <;> simp [hsuccess, hdropped]

theorem inflow_sent (node : Nat) (job : Job) (outcome : Outcome) (dropped : Nat) :
    (Note.sent node job outcome dropped).inflow
      = if outcome.isSuccess then (0, ofStage job.stage (job.records.map Record.bare), 0)
        else if dropped = 0 then (0, job.stageRecords, 0) else (0, 0, job.records.length) := by
  have hcard : job.stageRecords.card = job.records.length := by
    rw [Job.stageRecords, ofStage, Multiset.coe_card, List.length_map]
  have hbare : job.stageRecords.map bareStageRecord
      = ofStage job.stage (job.records.map Record.bare) :=
    map_bareStageRecord job.stage job.records
  simp only [Note.inflow, Note.submitted, Note.crossed, Note.fellBack, Note.lost]
  by_cases hsuccess : outcome.isSuccess = true
  · simp [hsuccess, hbare]
  · by_cases hdropped : dropped = 0 <;> simp [hsuccess, hdropped, hcard]

/-- The books of a fleet are balanced from one state to another: what is held afterwards, with what
has left, is what was held before, with what has come. -/
def Balanced (before : Fleet) (notes : List Note) (after : Fleet) : Prop :=
  after.holdings + (notes.map Note.outflow).sum = before.holdings + (notes.map Note.inflow).sum

theorem balanced_of_eq {before after : Fleet} (h : after.holdings = before.holdings) :
    Balanced before [] after :=
  congrArg (· + 0) h

theorem balanced_singleton {before after : Fleet} {note : Note}
    (h : after.holdings + note.outflow = before.holdings + note.inflow) :
    Balanced before [note] after := by
  rwa [Balanced, List.map_singleton, List.map_singleton, List.sum_singleton, List.sum_singleton]

/-- The books are balanced by a job that has left its pool if its records were stored elsewhere, or
stored here, or counted as dropped. -/
theorem balanced_sent {before after : Fleet} {node : Nat} {job : Job} {outcome : Outcome}
    {gain : StageRecords × StageRecords × Nat}
    (h : after.holdings + (job.stageRecords, 0, 0) = before.holdings + gain)
    (hgain : if outcome.isSuccess then
        gain = (0, ofStage job.stage (job.records.map Record.bare), 0)
      else gain = (0, job.stageRecords, 0) ∨ gain = (0, 0, job.records.length)) :
    Balanced before [.sent node job outcome (after.dropped - before.dropped)] after := by
  have hdropped : after.dropped - before.dropped = gain.2.2 := by
    rw [holdings_eq, holdings_eq] at h
    have hcount : after.dropped + 0 = before.dropped + gain.2.2 :=
      congrArg (fun held => held.2.2) h
    omega
  refine balanced_singleton ?_
  rw [outflow_sent, inflow_sent, h, hdropped]
  split_ifs at hgain ⊢ with hsuccess hnone
  · rw [hgain]
  · rcases hgain with rfl | rfl
    · rfl
    · have hempty : job.records = [] := List.eq_nil_of_length_eq_zero hnone
      rw [Job.stageRecords, hempty]
      rfl
  · rcases hgain with rfl | rfl
    · exact absurd rfl hnone
    · rfl

theorem Balanced.trans {first second third : Fleet} {notes others : List Note}
    (h : Balanced first notes second) (h' : Balanced second others third) :
    Balanced first (notes ++ others) third := by
  rw [Balanced] at h h' ⊢
  rw [List.map_append, List.map_append, List.sum_append, List.sum_append]
  calc third.holdings + ((notes.map Note.outflow).sum + (others.map Note.outflow).sum)
      = third.holdings + (others.map Note.outflow).sum + (notes.map Note.outflow).sum := by abel
    _ = second.holdings + (notes.map Note.outflow).sum + (others.map Note.inflow).sum := by
        rw [h']
        abel
    _ = first.holdings + ((notes.map Note.inflow).sum + (others.map Note.inflow).sum) := by
        rw [h]
        abel

theorem registration?_eq_some {index : Nat} {registration : Registration}
    (h : fleet.registration? node index = some (relay, registration)) :
    fleet.relay? node = some relay ∧ relay.registrations[index]? = some registration := by
  obtain ⟨found, hfound, h⟩ := Option.bind_eq_some_iff.mp h
  obtain ⟨entry, hentry, h⟩ := Option.bind_eq_some_iff.mp h
  obtain ⟨rfl, rfl⟩ := Prod.mk.inj (Option.some.inj h)
  exact ⟨hfound, hentry⟩

theorem takeJob_eq_some {pool : Nat} {job : Job} {after : Fleet}
    (h : fleet.takeJob node pool = some (job, after)) :
    ∃ relay next, fleet.relay? node = some relay ∧ relay.takeJob pool = some (job, next)
      ∧ after = fleet.setRelay node next := by
  obtain ⟨relay, hrelay, h⟩ := Option.bind_eq_some_iff.mp h
  obtain ⟨⟨taken, next⟩, hnext, h⟩ := Option.bind_eq_some_iff.mp h
  obtain ⟨rfl, rfl⟩ := Prod.mk.inj (Option.some.inj h)
  exact ⟨relay, next, hrelay, hnext, rfl⟩

/-- What happens to a job that a worker is done with: it leaves its pool, its request is delivered,
and its node takes note of the outcome. -/
theorem finishJob_eq_some {pool place : Nat} {job : Job} {outcome : Outcome} {after : Fleet}
    (h : fleet.finishJob node pool place none = some (job, outcome, after)) :
    ∃ relay left there, fleet.relay? node = some relay
      ∧ relay.finishJob pool place = some (job, left)
      ∧ ((fleet.setRelay node left).deliver job.request).2.relay? node = some there
      ∧ outcome = ((fleet.setRelay node left).deliver job.request).1
      ∧ after = ((fleet.setRelay node left).deliver job.request).2.setRelay node
          (there.complete job outcome) := by
  obtain ⟨relay, hrelay, h⟩ := Option.bind_eq_some_iff.mp h
  obtain ⟨⟨done, left⟩, hdone, h⟩ := Option.bind_eq_some_iff.mp h
  obtain ⟨there, hthere, h⟩ := Option.bind_eq_some_iff.mp h
  have hpair : (done, ((fleet.setRelay node left).deliver done.request).1,
      ((fleet.setRelay node left).deliver done.request).2.setRelay node
        (there.complete done ((fleet.setRelay node left).deliver done.request).1))
      = (job, outcome, after) := Option.some.inj h
  rw [Prod.mk.injEq, Prod.mk.injEq] at hpair
  obtain ⟨rfl, rfl, rfl⟩ := hpair
  exact ⟨relay, left, there, hrelay, hdone, hthere, rfl, rfl⟩

/-- A job that a worker is done with has crossed, or it is in the buffer, or it was dropped. -/
theorem Sound.finishJob (h : fleet.Sound terms) {pool place : Nat} {job : Job} {outcome : Outcome}
    {after : Fleet} (hfinish : fleet.finishJob node pool place none = some (job, outcome, after))
    (hmeets : (Action.finishJob node pool place).Meets terms fleet) :
    after.Sound terms
      ∧ Balanced fleet [.sent node job outcome (after.dropped - fleet.dropped)] after := by
  have hmeets := hmeets job outcome after hfinish
  obtain ⟨relay, left, there, hrelay, hdone, hthere, houtcome, rfl⟩ := finishJob_eq_some hfinish
  obtain ⟨hleft, hshape, hmem, hholdings⟩ := (h node relay hrelay).finishJob hdone
  obtain ⟨hfair, hregistered⟩ := (h node relay hrelay).jobs job hmem
  have hmeets := hmeets hfair
  obtain ⟨hdelivered, hsame, hstored⟩ := (h.setRelay hrelay hleft).deliver hfair
    fun target htarget record hrecord => (hmeets record hrecord).1 target htarget
  have hmoved := holdings_setRelay_loss hrelay hholdings
  rw [← houtcome] at hstored
  generalize ((fleet.setRelay node left).deliver job.request).2 = arrived at *
  have hregistered : ∃ pool, there.shape[job.registration]? = some (job.stage, some pool) := by
    have hshapes := hsame node
    rw [shape_setRelay hrelay hshape, hthere, hrelay] at hshapes
    rwa [Option.some.inj hshapes]
  obtain ⟨hsound, -, hended⟩ := (hdelivered node there hthere).complete hregistered
    fun hfailed record hrecord => (hmeets record hrecord).2 hfailed
  refine ⟨hdelivered.setRelay hthere hsound, ?_⟩
  have hnode : (there.complete job outcome).holdings = there.holdings + 0
      ∧ outcome.isSuccess = true
      ∨ ∃ gain, (there.complete job outcome).holdings = there.holdings + gain
        ∧ outcome.isSuccess = false
        ∧ (gain = (0, job.stageRecords, 0) ∨ gain = (0, 0, job.records.length)) := by
    split_ifs at hended with hsuccess
    · exact .inl ⟨hended.trans (add_zero _).symm, hsuccess⟩
    · right
      rcases hended with hback | hlost
      · exact ⟨_, hback, by simpa using hsuccess, .inl rfl⟩
      · exact ⟨_, hlost, by simpa using hsuccess, .inr rfl⟩
  -- Whatever the outcome adds to the node is added to what the fleet held before the job ended.
  have hgain {gain : StageRecords × StageRecords × Nat}
      (hnode : (there.complete job outcome).holdings = there.holdings + gain) :
      (arrived.setRelay node (there.complete job outcome)).holdings + (job.stageRecords, 0, 0)
        = fleet.holdings + ((0, if outcome.isSuccess
            then ofStage job.stage (job.records.map Record.bare) else 0, 0) + gain) := by
    rw [holdings_setRelay_gain hthere hnode, hstored, ← hmoved]
    abel
  rcases hnode with ⟨hkept, hsuccess⟩ | ⟨gain, hadded, hfailed, hgained⟩
  · refine balanced_sent (hgain hkept) ?_
    rw [hsuccess]
    exact add_zero _
  · refine balanced_sent (hgain hadded) ?_
    have hnothing : ((0, 0, 0) : StageRecords × StageRecords × Nat) + gain = gain := zero_add gain
    rw [hfailed]
    show (0, 0, 0) + gain = _ ∨ (0, 0, 0) + gain = _
    rwa [hnothing]

/-- An action leaves a fleet in order and its books balanced. -/
theorem Sound.act (h : fleet.Sound terms) {action : Action} (haction : action.Canonical)
    (hmeets : action.Meets terms fleet) :
    (fleet.act action).1.Sound terms
      ∧ Balanced fleet (fleet.act action).2 (fleet.act action).1 := by
  cases action with
  | register node pipeline plugin keys launch =>
    refine (h.change fun relay hrelay hsound => ?_).imp id balanced_of_eq
    cases hregister : relay.register pipeline plugin keys launch with
    | error cause => exact ⟨hsound, rfl⟩
    | ok registered => exact hsound.register (hmeets relay hrelay) hregister
  | forward node index records =>
    rw [Fleet.act]
    cases hfind : fleet.registration? node index with
    | none => exact ⟨h, rfl⟩
    | some found =>
      obtain ⟨relay, registration⟩ := found
      obtain ⟨hrelay, hi⟩ := registration?_eq_some hfind
      obtain ⟨hsound, hholdings⟩ :=
        (h node relay hrelay).forward hi haction (hmeets relay registration hfind)
      refine ⟨h.setRelay hrelay hsound, balanced_singleton ?_⟩
      rw [outflow_forwarded, inflow_forwarded]
      exact holdings_setRelay hrelay hholdings
  | receive node index now =>
    rw [Fleet.act]
    cases hfind : fleet.registration? node index with
    | none => exact ⟨h, rfl⟩
    | some found =>
      obtain ⟨relay, registration⟩ := found
      obtain ⟨hrelay, hi⟩ := registration?_eq_some hfind
      obtain ⟨hsound, -, hholdings⟩ := (h node relay hrelay).receive hi now
      refine ⟨h.setRelay hrelay hsound, balanced_singleton ?_⟩
      rw [outflow_received, inflow_received]
      exact (holdings_setRelay_loss hrelay hholdings).trans (add_zero _).symm
  | takeJob node pool =>
    rw [Fleet.act]
    cases htake : fleet.takeJob node pool with
    | none => exact ⟨h, rfl⟩
    | some taken =>
      obtain ⟨job, after⟩ := taken
      obtain ⟨relay, next, hrelay, hnext, rfl⟩ := takeJob_eq_some htake
      obtain ⟨hsound, hholdings⟩ := (h node relay hrelay).takeJob hnext
      exact ⟨h.setRelay hrelay hsound, balanced_of_eq (holdings_setRelay_of_eq hrelay hholdings)⟩
  | finishJob node pool place =>
    rw [Fleet.act]
    cases hfinish : fleet.finishJob node pool place none with
    | none => exact ⟨h, rfl⟩
    | some finished =>
      obtain ⟨job, outcome, after⟩ := finished
      exact h.finishJob hfinish hmeets
  | shutDown node =>
    exact (h.change fun relay _ hsound => hsound.shutDown).imp id balanced_of_eq
  | reroute node following isLocal? =>
    refine (h.change fun relay _ hsound => ?_).imp id balanced_of_eq
    exact ⟨⟨hsound.registrations, hsound.jobs, hsound.pools, hsound.current⟩, rfl⟩
  | connect address node => exact ⟨h, rfl⟩
  | disconnect address => exact ⟨h, rfl⟩

end RecordRelay.Fleet
