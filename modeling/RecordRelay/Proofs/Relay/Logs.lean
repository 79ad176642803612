import RecordRelay.Proofs.Relay.Operating

/-! The log of a registration tells what was written into its buffer and what it handed out while
a node was in use. What holds of a new registration and is kept by every single change holds of all
registrations of a node whatever happens at it. -/
namespace RecordRelay

namespace Relay

variable {relay next : Relay} {operation : Operation} {index : Nat} {registration : Registration}

/-- A node in use, with what one of its registrations has been given and has handed out. -/
structure Log where
  relay : Relay
  /-- The records that were written into the buffer of the registration, in order. -/
  written : List Record
  /-- The answers that the registration got when it received records, in order. -/
  received : List (List Record)

def Log.enter (index : Nat) (log : Log) (operation : Operation) : Log where
  relay := log.relay.operate operation
  written := log.written ++ log.relay.written index operation
  received := log.received ++ log.relay.received index operation

def log (relay : Relay) (index : Nat) (operations : List Operation) : Log :=
  operations.foldl (Log.enter index) ⟨relay, [], []⟩

theorem log_concat (relay : Relay) (index : Nat) (operations : List Operation)
    (last : Operation) :
    relay.log index (operations ++ [last]) = (relay.log index operations).enter index last :=
  List.foldl_append

theorem relay_log (relay : Relay) (index : Nat) (operations : List Operation) :
    (relay.log index operations).relay = relay.operateAll operations := by
  induction operations using List.reverseRecOn with
  | nil => rfl
  | append_singleton operations last ih =>
    rw [log_concat, operateAll_concat, ← ih]
    rfl

/-- Nothing is written for a registration before it is made, and it hands out nothing. -/
theorem log_of_absent (h : relay.registrations[index]? = none) (operation : Operation) :
    relay.written index operation = [] ∧ (relay.received index operation).flatten = [] := by
  cases operation with
  | accept payload =>
    refine ⟨?_, rfl⟩
    rw [written, acknowledged, keys_getElem?, h]
    cases Batch.decode? payload with
    | none => rfl
    | some batch =>
      refine if_neg ?_
      rintro ⟨-, hkey⟩
      rw [Option.map_none] at hkey
      contradiction
  | receive place now =>
    refine ⟨rfl, ?_⟩
    rw [received]
    split_ifs with hplace
    · rw [hplace, receive, h]
      rfl
    · rfl
  | finishJob pool place outcome =>
    refine ⟨?_, rfl⟩
    rw [written]
    cases hfinish : relay.finishJob pool place with
    | none => rfl
    | some result =>
      dsimp only
      rw [registrations_finishJob hfinish, h]
  | _ => exact ⟨rfl, rfl⟩

theorem settings_openRing (relay : Relay) : relay.openRing.settings = relay.settings := by
  rw [openRing]
  split <;> rfl

theorem settings_register {pipeline plugin : String} {keys : List String}
    {launch : Except String Unit}
    (h : relay.register pipeline plugin keys launch = .ok (index, next)) :
    next.settings = relay.settings := by
  obtain ⟨-, ⟨-, heq⟩ | ⟨-, pool, opened, hopen, heq⟩⟩ := register_cases h
  · obtain ⟨-, rfl⟩ := Prod.mk.inj heq
    rfl
  · obtain ⟨-, rfl⟩ := Prod.mk.inj heq
    exact opened.settings_openRing.trans (congrArg Prod.fst (fleetView_openPool hopen))

theorem settings_operate (relay : Relay) (operation : Operation) :
    (relay.operate operation).settings = relay.settings := by
  have hasked (hasks : operation.Asks) : (relay.operate operation).settings = relay.settings := by
    rcases relay.operate_of_asks hasks with
      hsame | ⟨pipeline, plugin, keys, launch, index, hregister⟩
    · rw [hsame]
    · exact settings_register hregister
  cases operation with
  | register | registerInstances => exact hasked trivial
  | openRing => exact relay.settings_openRing
  | updatePeers peers => rfl
  | accept payload => exact congrArg Prod.fst (relay.fleetView_accept payload)
  | forward index records => exact congrArg Prod.fst (relay.fleetView_forward index records)
  | receive index now => exact congrArg Prod.fst (relay.fleetView_receive index now)
  | takeJob pool =>
    rw [operate]
    cases htake : relay.takeJob pool with
    | none => rfl
    | some result => exact congrArg Prod.fst (fleetView_takeJob htake)
  | finishJob pool place outcome =>
    rw [operate]
    cases hfinish : relay.finishJob pool place with
    | none => rfl
    | some result =>
      exact (congrArg Prod.fst (result.2.fleetView_complete result.1 outcome)).trans
        (congrArg Prod.fst (fleetView_finishJob hfinish))
  | shutDown => exact congrArg Prod.fst relay.fleetView_shutDown

section Idle

variable (settings : Settings) (hasClient : Bool) (source : PeerSource Follower)
  (isLocal? : String → Option Bool)

theorem settings_operateAll (operations : List Operation) :
    ((idle settings hasClient source isLocal?).operateAll operations).settings = settings := by
  induction operations using List.reverseRecOn with
  | nil => rfl
  | append_singleton operations last ih => rw [operateAll_concat, settings_operate, ih]

theorem nodup_keys_operateAll (operations : List Operation) :
    ((idle settings hasClient source isLocal?).operateAll operations).keys.Nodup := by
  induction operations using List.reverseRecOn with
  | nil => exact .nil
  | append_singleton operations last ih =>
    rw [operateAll_concat]
    exact nodup_keys_operate ih last

/-- What holds of every new registration and is kept by all that operations do to one holds of the
registrations of a node whatever happens at it. -/
theorem log_induction {P : Registration → List Record → List Record → Prop}
    (hnew : ∀ stage registration, New settings stage registration → P registration [] [])
    (hchanges : ∀ routing registration later written given records received,
      P registration written given →
        Registration.Changes routing registration records received later →
          P later (written ++ records) (given ++ received.flatten))
    (operations : List Operation) {index : Nat} {registration : Registration}
    (h : ((idle settings hasClient source isLocal?).operateAll operations).registrations[index]?
      = some registration) :
    P registration ((idle settings hasClient source isLocal?).log index operations).written
      ((idle settings hasClient source isLocal?).log index operations).received.flatten := by
  -- Before a registration is made its log is empty.
  suffices hall : (∀ registration,
        ((idle settings hasClient source isLocal?).operateAll operations).registrations[index]?
            = some registration →
          P registration ((idle settings hasClient source isLocal?).log index operations).written
            ((idle settings hasClient source isLocal?).log index operations).received.flatten)
      ∧ (((idle settings hasClient source isLocal?).operateAll operations).registrations[index]?
          = none →
        ((idle settings hasClient source isLocal?).log index operations).written = []
          ∧ ((idle settings hasClient source isLocal?).log index operations).received.flatten
            = []) from hall.1 registration h
  clear h
  induction operations using List.reverseRecOn with
  | nil =>
    refine ⟨fun found hfound => ?_, fun _ => ⟨rfl, rfl⟩⟩
    exact absurd (List.mem_of_getElem? hfound) List.not_mem_nil
  | append_singleton operations last ih =>
    have hdistinct := nodup_keys_operateAll settings hasClient source isLocal? operations
    have hsettings := settings_operateAll settings hasClient source isLocal? operations
    rw [log_concat, operateAll_concat]
    simp only [Log.enter, relay_log, List.flatten_append]
    generalize (idle settings hasClient source isLocal?).operateAll operations = relay at *
    cases hget : relay.registrations[index]? with
    | some registration =>
      obtain ⟨later, hlater, hchange⟩ := exists_changes hdistinct hget last
      have hkept := hchanges _ _ _ _ _ _ _ (ih.1 registration hget) hchange
      rw [hlater]
      refine ⟨fun found hfound => ?_, fun hnone => ?_⟩
      · exact Option.some.inj hfound ▸ hkept
      · contradiction
    | none =>
      obtain ⟨hnothing, hnobody⟩ := ih.2 hget
      obtain ⟨hwritten, hreceived⟩ := log_of_absent hget last
      rw [hnothing, hnobody, hwritten, hreceived]
      refine ⟨fun found hfound => ?_, fun _ => ⟨rfl, rfl⟩⟩
      have hge := List.getElem?_eq_none_iff.mp hget
      rcases relay.registrations_operate_cases last with
        ⟨stage, fresh, hfresh, -, -, hsame⟩ | ⟨-, hlength⟩
      · rw [hsame, List.getElem?_append_right hge] at hfound
        obtain rfl := List.mem_singleton.mp (List.mem_of_getElem? hfound)
        exact hnew stage _ (hsettings ▸ hfresh)
      · rw [List.getElem?_eq_none (hlength ▸ hge)] at hfound
        contradiction

end Idle

end Relay
end RecordRelay
