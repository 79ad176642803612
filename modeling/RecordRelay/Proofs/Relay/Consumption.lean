import RecordRelay.Proofs.Relay.Acceptance
import RecordRelay.Proofs.Relay.Logs

/-! The records of a batch that is answered with a success and those of a batch that is written back
lie in the buffer of a registration until they are received. On a node with other nodes around it
each of them is received once, in the order in which they were written, and the registration is
ready to be shut down when none is left. A node without other nodes around it answers batches just
the same, but its registrations hand out nothing and are always ready. -/
namespace RecordRelay

/-- Valid sizes are positive, and there is room for a batch in a buffer. -/
theorem Settings.sizes_of_validate {settings : Settings} (h : settings.validate = .ok ()) :
    (∀ size ∈ settings.sizes, size.2 ≠ 0) ∧ settings.batchSize ≤ settings.bufferSize := by
  rw [validate] at h
  cases hfind : settings.sizes.find? fun size => size.2 = 0 with
  | some size =>
    rw [hfind] at h
    contradiction
  | none =>
    refine ⟨by simpa using hfind, ?_⟩
    by_contra hsmall
    rw [hfind] at h
    dsimp only at h
    rw [if_pos (UInt64.not_le.mp hsmall)] at h
    contradiction

namespace Registration

variable {settings : Settings} {registration later : Registration} {written given : List Record}

/-- A registration that sends nothing hands out nothing. -/
theorem receive_of_alone (h : registration.sender = none) (now : Nanoseconds) :
    registration.receive now = ([], registration) := by
  rw [receive, h]

/-- A registration that sends hands out the oldest records of its buffer, up to a batch. -/
theorem receive_spec (hsends : registration.sender.isSome = true)
    (hquiet : registration.buffer.Quiet) (now : Nanoseconds) :
    (registration.receive now).1
        = registration.buffer.queue.take registration.buffer.batchSize
      ∧ (registration.receive now).2.sender.isSome = true
      ∧ ∃ id, (registration.receive now).2.buffer = { registration.buffer with
        queue := registration.buffer.queue.drop registration.buffer.batchSize, nextId := id } := by
  obtain ⟨buffer, sender⟩ := registration
  obtain ⟨sender, rfl⟩ := Option.isSome_iff_exists.mp hsends
  obtain ⟨id, hrecords, hbuffer⟩ := hquiet.read_checkpoint now
  exact ⟨hrecords, rfl, id, hbuffer⟩

/-- What was written into the buffer of a registration is what it has handed out, followed by what
waits; no read is in flight between two operations. -/
structure Account (settings : Settings) (registration : Registration)
    (written given : List Record) : Prop where
  quiet : registration.buffer.Quiet
  batchSize : registration.buffer.batchSize = settings.batchSize.toNat
  sends : registration.sender.isSome = settings.arePeersConfigured
  balance : written = given ++ registration.buffer.queue

theorem account_new {stage : String × String} (h : Relay.New settings stage registration) :
    Account settings registration [] [] where
  quiet := h.buffer ▸ ⟨rfl, rfl⟩
  batchSize := h.buffer ▸ rfl
  sends := h.sends
  balance := h.buffer ▸ rfl

theorem Account.receive (h : Account settings registration written given) (now : Nanoseconds) :
    Account settings (registration.receive now).2 written
      (given ++ (registration.receive now).1) := by
  cases hsender : registration.sender with
  | none =>
    rw [receive_of_alone hsender, List.append_nil]
    exact h
  | some sender =>
    have hsends : registration.sender.isSome = true := hsender ▸ rfl
    obtain ⟨hrecords, hlater, id, hbuffer⟩ := receive_spec hsends h.quiet now
    refine ⟨hbuffer ▸ h.quiet, hbuffer ▸ h.batchSize, hlater.trans (hsends.symm.trans h.sends), ?_⟩
    rw [hrecords, hbuffer, h.balance, List.append_assoc]
    exact congrArg (given ++ ·) (List.take_append_drop _ _).symm

theorem sender_complete (registration : Registration) (patience : Nanoseconds) (outcome : Outcome)
    (records : List Record) :
    (registration.complete patience outcome records).sender.isSome
      = registration.sender.isSome := by
  have hmapped (change : Outbox → Outbox) (registration : Registration) :
      (registration.mapOutbox change).sender.isSome = registration.sender.isSome :=
    Option.isSome_map
  rw [complete, fallBack]
  split_ifs
  · exact hmapped _ _
  · split
    · exact hmapped _ _
    · exact (hmapped _ _).trans (hmapped _ _)

theorem Account.changes {routing : Routing} {records : List Record}
    {received : List (List Record)} (h : Account settings registration written given)
    (hchanges : Changes routing registration records received later) :
    Account settings later (written ++ records) (given ++ received.flatten) := by
  have hmore {buffer : ReceiveBuffer} (hwritten : written = given ++ buffer.queue)
      (records : List Record) :
      written ++ records = given ++ [].flatten ++ (buffer.enqueue records).queue := by
    rw [hwritten, List.flatten_nil, List.append_nil, List.append_assoc]
    rfl
  cases hchanges with
  | nothing => simpa using h
  | stored records => exact ⟨h.quiet, h.batchSize, h.sends, hmore h.balance records⟩
  | received now => simpa using h.receive now
  | forwarded index records pool =>
    exact ⟨h.quiet, h.batchSize, h.sends, by simpa using h.balance⟩
  | completed patience outcome records =>
    have hbuffer := registration.buffer_complete patience outcome records
    exact ⟨hbuffer ▸ h.quiet, hbuffer ▸ h.batchSize,
      (registration.sender_complete patience outcome records).trans h.sends,
      hbuffer ▸ hmore h.balance _⟩

end Registration

namespace Relay

/-- A registration hands out what was written into its buffer. -/
structure Log.Delivers (index batchSize : Nat) (log : Log) : Prop where
  /-- Every record was received once, in the order in which they were written. -/
  inTurn : log.received.flatten <+: log.written
  /-- The next answer has the oldest of the others, as many as a batch has. -/
  next : ∀ now, (log.relay.receive index now).1
    = (log.written.drop log.received.flatten.length).take batchSize
  /-- An empty answer means that there are no others. -/
  last : ∀ now, (log.relay.receive index now).1 = [] ↔ log.received.flatten = log.written
  /-- Enough further answers have all of the others. -/
  drained : ∀ times : List Nanoseconds,
    log.written.length ≤ log.received.flatten.length + batchSize * times.length →
      ((times.map (Operation.receive index)).foldl (enter index) log).received.flatten
        = log.written
  ready : log.relay.isReady index = true ↔ log.received.flatten = log.written

/-- A log of a registration that hands out all records in turn. -/
structure Log.Settled (settings : Settings) (index : Nat) (registration : Registration)
    (log : Log) : Prop where
  get : log.relay.registrations[index]? = some registration
  account : registration.Account settings log.written log.received.flatten
  sends : settings.arePeersConfigured = true

namespace Log

variable {settings : Settings} {index : Nat} {registration : Registration} {log : Log}

theorem Settled.receive (h : log.Settled settings index registration) (now : Nanoseconds) :
    (log.relay.receive index now).1
        = registration.buffer.queue.take settings.batchSize.toNat
      ∧ ∃ later, (log.enter index (.receive index now)).Settled settings index later
        ∧ later.buffer.queue = registration.buffer.queue.drop settings.batchSize.toNat := by
  obtain ⟨hrecords, -, id, hbuffer⟩ :=
    Registration.receive_spec (h.account.sends.trans h.sends) h.account.quiet now
  rw [h.account.batchSize] at hrecords hbuffer
  have hreceive : log.relay.receive index now
      = ((registration.receive now).1,
        log.relay.setRegistration index (registration.receive now).2) := by
    rw [Relay.receive, h.get]
  have hnothing : log.relay.written index (.receive index now) = [] := rfl
  have hentered : log.enter index (.receive index now)
      = ⟨log.relay.setRegistration index (registration.receive now).2, log.written,
        log.received ++ [(registration.receive now).1]⟩ := by
    rw [enter, operate, hnothing, Relay.received, if_pos rfl, hreceive, List.append_nil]
  rw [hentered, hreceive]
  refine ⟨hrecords, (registration.receive now).2, ⟨?_, ?_, h.sends⟩, by rw [hbuffer]⟩
  · rw [getElem?_setRegistration h.get, if_pos rfl]
  · rw [List.flatten_append, List.flatten_singleton]
    exact h.account.receive now

/-- The records that wait are received one batch after the other. -/
theorem Settled.receiveAll (h : log.Settled settings index registration)
    (times : List Nanoseconds) :
    ((times.map (Operation.receive index)).foldl (enter index) log).written = log.written
      ∧ ∃ later, ((times.map (Operation.receive index)).foldl (enter index) log).Settled
          settings index later
        ∧ later.buffer.queue
          = registration.buffer.queue.drop (settings.batchSize.toNat * times.length) := by
  induction times generalizing log registration with
  | nil => exact ⟨rfl, registration, h, rfl⟩
  | cons now times ih =>
    obtain ⟨-, later, hlater, hqueue⟩ := h.receive now
    obtain ⟨hwritten, last, hlast, hrest⟩ := ih hlater
    rw [List.map_cons, List.foldl_cons]
    refine ⟨hwritten.trans (List.append_nil _), last, hlast, ?_⟩
    rw [hrest, hqueue, List.drop_drop, List.length_cons, Nat.mul_succ, Nat.add_comm]

theorem Settled.delivers (h : log.Settled settings index registration)
    (hbatch : 0 < settings.batchSize) : log.Delivers index settings.batchSize.toNat := by
  have hpositive : settings.batchSize.toNat ≠ 0 := (UInt64.lt_iff_toNat_lt.mp hbatch).ne'
  have hqueue : log.written.drop log.received.flatten.length = registration.buffer.queue := by
    rw [h.account.balance, List.drop_left]
  have hempty : registration.buffer.queue = [] ↔ log.received.flatten = log.written := by
    rw [h.account.balance, List.self_eq_append_right]
  refine ⟨?_, fun now => ?_, fun now => ?_, fun times henough => ?_, ?_⟩
  · exact ⟨_, h.account.balance.symm⟩
  · rw [hqueue]
    exact (h.receive now).1
  · rw [(h.receive now).1, List.take_eq_nil_iff, or_iff_right hpositive, hempty]
  · obtain ⟨hwritten, later, hlater, hrest⟩ := h.receiveAll times
    have hnothing : later.buffer.queue = [] := by
      rw [hrest, List.drop_eq_nil_iff]
      have hlength := congrArg List.length h.account.balance
      rw [List.length_append] at hlength
      omega
    have hbalance := hlater.account.balance
    rw [hnothing, List.append_nil, hwritten] at hbalance
    exact hbalance.symm
  · have hready : log.relay.isReady index = registration.isReady := by
      rw [isReady, h.get]
      rfl
    have hsender : registration.sender.isNone = false := by
      rw [← Option.not_isSome, h.account.sends, h.sends]
      rfl
    have hnone := h.account.quiet.2
    rw [hready, Registration.isReady, hsender, Bool.false_or, ReceiveBuffer.isEmpty,
      ReceiveBuffer.length, hnone, ← hempty]
    simp

end Log

/-- A node is only set up with batches of one record or more, and buffers with room for one. -/
theorem sizes_of_start {settings : Settings} {hasClient : Bool}
    {source : Option (PeerSource Follower)} {isLocal? : String → Option Bool} {node : Relay}
    (h : start settings hasClient source isLocal? = .ok node) :
    0 < settings.batchSize ∧ settings.batchSize ≤ settings.bufferSize := by
  obtain ⟨hsizes, hfits⟩ := Settings.sizes_of_validate (validate_of_start h)
  exact ⟨UInt64.pos_iff_ne_zero.mpr (hsizes ("batch_size", settings.batchSize) (.head _)), hfits⟩

theorem batchSize_pos_of_start {settings : Settings} {hasClient : Bool}
    {source : Option (PeerSource Follower)} {isLocal? : String → Option Bool} {node : Relay}
    (h : start settings hasClient source isLocal? = .ok node) : 0 < settings.batchSize :=
  (sizes_of_start h).1

section Idle

variable {settings : Settings} {hasClient : Bool} {source : PeerSource Follower}
  {isLocal? : String → Option Bool} {operations : List Operation} {registration : Registration}

theorem account_operateAll {index : Nat}
    (hget : ((idle settings hasClient source isLocal?).operateAll operations).registrations[index]?
      = some registration) :
    registration.Account settings
      ((idle settings hasClient source isLocal?).log index operations).written
      ((idle settings hasClient source isLocal?).log index operations).received.flatten :=
  log_induction settings hasClient source isLocal?
    (fun _ _ hnew => Registration.account_new hnew)
    (fun _ _ _ _ _ _ _ haccount hchanges => haccount.changes hchanges) operations hget

/-- Registrations send exactly where there are other nodes. -/
theorem sends_operateAll
    (hmem : registration ∈ ((idle settings hasClient source isLocal?).operateAll
      operations).registrations) :
    registration.sender.isSome = settings.arePeersConfigured := by
  obtain ⟨index, hget⟩ := List.mem_iff_getElem?.mp hmem
  exact (account_operateAll hget).sends

end Idle

/-- Whatever happens at a node that was set up: where there are other nodes, the records that were
acknowledged for a registration or written back to it are received through it, each once and in the
order in which they were written, a batch at a time, until none is left, and it is ready to be shut
down when none is left. Where there are none, a registration hands out nothing and is always
ready. -/
theorem acknowledged_records_are_received {settings : Settings} {hasClient : Bool}
    {source : Option (PeerSource Follower)} {isLocal? : String → Option Bool} {node : Relay}
    {operations : List Operation} {index : Nat}
    (hstart : start settings hasClient source isLocal? = .ok node)
    (hindex : index < (node.operateAll operations).registrations.length) :
    (settings.arePeersConfigured = true →
        (node.log index operations).Delivers index settings.batchSize.toNat)
      ∧ (settings.arePeersConfigured = false →
        (∀ now, ((node.operateAll operations).receive index now).1 = [])
          ∧ (node.operateAll operations).isReady index = true) := by
  have hbatch := batchSize_pos_of_start hstart
  obtain ⟨chosen, -, rfl⟩ := eq_idle_of_start hstart
  have hget := List.getElem?_eq_getElem hindex
  have haccount := account_operateAll hget
  refine ⟨fun hpeers => ?_, fun halone => ?_⟩
  · refine Log.Settled.delivers ⟨?_, haccount, hpeers⟩ hbatch
    rw [relay_log]
    exact hget
  · have hnone : (((idle settings hasClient chosen isLocal?).operateAll
        operations).registrations[index]).sender = none := by
      rw [← Option.not_isSome_iff_eq_none, haccount.sends, halone]
      exact Bool.false_ne_true
    refine ⟨fun now => ?_, ?_⟩
    · rw [receive, hget]
      exact congrArg Prod.fst (Registration.receive_of_alone hnone now)
    · rw [isReady, hget, Option.map_some, Option.getD_some, Registration.isReady, hnone]
      rfl

section Acknowledging

variable {relay : Relay} {pipeline plugin : String} {index : Nat} {registration : Registration}
  {records : List Record}

/-- A batch that finds room in the buffer of its registration is stored without the metadata of its
records. -/
theorem accept_encode (hfind : relay.find? pipeline plugin = some index)
    (hget : relay.registrations[index]? = some registration)
    (hcanonical : ∀ record ∈ records, record.Canonical)
    (hfits : ∀ record ∈ records, record.event.Fits Batch.documentDepth)
    (hroom : registration.buffer.length + records.length ≤ registration.buffer.capacity) :
    relay.accept (Batch.encode records pipeline plugin)
        = (.ok, relay.store (.ofRecords records pipeline plugin) index registration)
      ∧ relay.acknowledged index (Batch.encode records pipeline plugin)
        = records.map Record.bare := by
  have hdecode := Batch.decode?_encode hcanonical pipeline plugin
  rw [if_pos hfits] at hdecode
  have hrecords := Batch.records_ofRecords records pipeline plugin
  have hlength : (Batch.ofRecords records pipeline plugin).records.length = records.length := by
    rw [hrecords, List.length_map]
  have hnames : relay.Names (.ofRecords records pipeline plugin) index registration := ⟨hfind, hget⟩
  have hstored : relay.accept (Batch.encode records pipeline plugin)
      = (.ok, relay.store (.ofRecords records pipeline plugin) index registration) := by
    rw [accept_of_names hdecode hnames, if_neg (by omega), if_pos (.inr (hlength ▸ hroom))]
  have hkey : relay.keys[index]? = some (pipeline, plugin) := by
    rw [keys_getElem?, hget, Option.map_some, key_of_find? hfind hget]
  refine ⟨hstored, ?_⟩
  rw [acknowledged, hdecode, hstored, ← hrecords]
  exact if_pos ⟨rfl, hkey⟩

end Acknowledging

def pairedSettings : Settings :=
  { loneSettings with
    discoveryMode := .static, staticEndpoints := ["10.0.0.1", "10.0.0.2"], batchSize := 1 }

/-- A node with another one, after a stage was registered, a batch of two records was taken and one
of them was received. -/
theorem acknowledged_records_are_received_paired :
    start pairedSettings true none (fun _ => some false)
        = .ok (idle pairedSettings true (.fixed ["10.0.0.1", "10.0.0.2"]) fun _ => some false)
      ∧ ((idle pairedSettings true (.fixed ["10.0.0.1", "10.0.0.2"]) fun _ => some false).log 0
          [.register "p" "x" ["id"] (.ok ()),
            .accept (Batch.encode [testRecord "a", testRecord "b"] "p" "x"),
            .receive 0 0]).Delivers 0 1 := by
  have hstart : start pairedSettings true none (fun _ => some false)
      = .ok (idle pairedSettings true (.fixed ["10.0.0.1", "10.0.0.2"]) fun _ => some false) := rfl
  refine ⟨hstart, (acknowledged_records_are_received hstart ?_).1 rfl⟩
  have hregistered : ((idle pairedSettings true (.fixed ["10.0.0.1", "10.0.0.2"])
      fun _ => some false).operate (.register "p" "x" ["id"] (.ok ()))).registrations.length
        = 1 := rfl
  rw [operateAll, List.foldl_cons, List.foldl_cons, List.foldl_cons, List.foldl_nil,
    length_operate (by rintro _ ⟨⟩), length_operate (by rintro _ ⟨⟩), hregistered]
  exact Nat.one_pos

/-- A node that is alone acknowledges a record that its registration never hands out, although it is
ready to be shut down. -/
theorem lone_node_keeps_acknowledged_record :
    let node := idle loneSettings false (.fixed []) fun _ => none
    let log := node.log 0
      [.register "p" "x" ["id"] (.ok ()), .accept (Batch.encode [testRecord "a"] "p" "x")]
    start loneSettings false none (fun _ => none) = .ok node
      ∧ log.written = [testRecord "a"] ∧ (log.relay.receive 0 0).1 = []
      ∧ log.relay.isReady 0 = true ∧ ¬ log.Delivers 0 48 := by
  intro node log
  let registered := (node.add ⟨newBuffer loneSettings "p" "x", none⟩).2
  have hfind : registered.find? "p" "x" = some 0 := rfl
  obtain ⟨haccept, hwritten⟩ := accept_encode hfind rfl
    (List.forall_mem_singleton.mpr (canonical_testRecord "a"))
    (List.forall_mem_singleton.mpr (fits_testRecord "a")) (by decide)
  have hregistered : Log.enter 0 ⟨node, [], []⟩ (.register "p" "x" ["id"] (.ok ()))
      = ⟨registered, [], []⟩ := rfl
  have hlog : log = ⟨registered.store (.ofRecords [testRecord "a"] "p" "x") 0
      ⟨newBuffer loneSettings "p" "x", none⟩, [testRecord "a"], []⟩ := by
    rw [show log = Log.enter 0 _ _ from rfl, hregistered, Log.enter, operate, written,
      haccept, hwritten]
    rfl
  rw [hlog]
  refine ⟨rfl, rfl, rfl, rfl, fun hdelivers => ?_⟩
  exact absurd ((hdelivers.last 0).mp rfl) (List.cons_ne_nil _ _).symm

end Relay
end RecordRelay
