import RecordRelay.Net.Locality
import RecordRelay.Proofs.Net.Spellings

/-! As long as the interfaces of a host and the addresses of names do not change, what is remembered
is what would be found again: every answer is the one that is found with nothing remembered,
whatever was asked before, in which order and at which times. -/
namespace RecordRelay

/-- The peer address leads to the internet address, among others. -/
def Host.LeadsTo (host : Host) (address : String) (ip : IpAddress) : Prop :=
  ∃ ips, host.resolve? address = some ips ∧ ip ∈ ips

namespace Host

variable {host : Host} {configured : List IpAddress}

theorem isLocal?_eq_none {address : String} :
    host.isLocal? configured address = none ↔ host.resolve? address = none := by
  rw [isLocal?, Option.map_eq_none_iff]

theorem owns_iff {ip : IpAddress} : host.owns configured ip = true ↔
    ip.isLoopback ∨ ip.isUnspecified ∨ ip ∈ configured ∨ ip ∈ host.interfaces := by
  simp [owns, or_assoc]

theorem isLocal?_eq_true {address : String} : host.isLocal? configured address = some true ↔
    ∃ ip, host.LeadsTo address ip ∧
      (ip.isLoopback ∨ ip.isUnspecified ∨ ip ∈ configured ∨ ip ∈ host.interfaces) := by
  simp only [isLocal?, Option.map_eq_some_iff, List.any_eq_true, owns_iff, LeadsTo]
  constructor
  · rintro ⟨ips, hips, ip, hip, howned⟩
    exact ⟨ip, ⟨ips, hips, hip⟩, howned⟩
  · rintro ⟨ip, ⟨ips, hips, hip⟩, howned⟩
    exact ⟨ips, hips, ip, hip, howned⟩

end Host

namespace Locality

variable {host : Host} {locality : Locality} {address : String} {now : Nanoseconds}

/-- Everything that is remembered still holds of the host. -/
structure Truthful (host : Host) (locality : Locality) : Prop where
  listed : locality.hostAddresses = addressesOf host locality.configured
  found : ∀ entry ∈ locality.answers,
    host.isLocal? locality.configured entry.1 = some entry.2.1

theorem truthful_start (host : Host) (configured : List IpAddress)
    (lifetime started : Nanoseconds) : Truthful host (start host configured lifetime started) :=
  ⟨rfl, nofun⟩

@[simp] theorem configured_refresh (locality : Locality) (host : Host) (now : Nanoseconds) :
    (locality.refresh host now).configured = locality.configured := by
  unfold refresh
  split_ifs <;> rfl

theorem Truthful.refresh (h : Truthful host locality) (now : Nanoseconds) :
    Truthful host (locality.refresh host now) := by
  unfold Locality.refresh
  split_ifs
  · exact h
  · exact ⟨rfl, h.found⟩

theorem owns_eq (host : Host) (configured : List IpAddress) (ip : IpAddress) :
    host.owns configured ip =
      ((ip.isLoopback || ip.isUnspecified) || (addressesOf host configured).contains ip) := by
  simp [Host.owns, addressesOf, Bool.or_assoc]

/-- Looking one address after another up says whether any of them belongs to the host. -/
theorem Truthful.anyOwned (h : Truthful host locality) (now : Nanoseconds) (ips : List IpAddress) :
    (anyOwned host now ips locality).1 = ips.any (host.owns locality.configured) ∧
      (anyOwned host now ips locality).2.configured = locality.configured ∧
      Truthful host (anyOwned host now ips locality).2 := by
  induction ips generalizing locality with
  | nil => exact ⟨rfl, rfl, h⟩
  | cons ip rest ih =>
    have hrefreshed := h.refresh now
    have hlisted := hrefreshed.listed
    rw [configured_refresh] at hlisted
    rw [Locality.anyOwned, List.any_cons, owns_eq]
    dsimp only
    split_ifs with hkind hcontains
    · exact ⟨by rw [hkind, Bool.true_or, Bool.true_or], rfl, h⟩
    · rw [hlisted] at hcontains
      exact ⟨by rw [hcontains, Bool.or_true, Bool.true_or], configured_refresh .., hrefreshed⟩
    · rw [hlisted] at hcontains
      obtain ⟨hany, hconfigured, htruthful⟩ := ih hrefreshed
      rw [configured_refresh] at hany hconfigured
      refine ⟨?_, hconfigured, htruthful⟩
      rw [hany, Bool.eq_false_iff.mpr hkind, Bool.eq_false_iff.mpr hcontains]
      rfl

theorem Truthful.remember {answer : Bool} (h : Truthful host locality)
    (hanswer : host.isLocal? locality.configured address = some answer) :
    Truthful host (locality.remember address answer now) := by
  refine ⟨h.listed, fun entry hentry => ?_⟩
  obtain rfl | hkept := List.mem_cons.mp hentry
  · exact hanswer
  · exact h.found entry (List.mem_of_mem_filter hkept)

theorem Truthful.remembered? {answer : Bool} (h : Truthful host locality)
    (hanswer : locality.remembered? address now = some answer) :
    host.isLocal? locality.configured address = some answer := by
  obtain ⟨entry, hfind, hkept⟩ := Option.bind_eq_some_iff.mp hanswer
  have haddress : entry.1 = address := by simpa using List.find?_some hfind
  have hfound := h.found entry (List.mem_of_find?_eq_some hfind)
  dsimp only at hkept
  split_ifs at hkept
  rw [← haddress, hfound, hkept]

/-- An answer is the one that is found with nothing remembered, and what is remembered after it is
still true. -/
theorem Truthful.isLocal? (h : Truthful host locality) (address : String) (now : Nanoseconds) :
    (locality.isLocal? host address now).1 = host.isLocal? locality.configured address ∧
      (locality.isLocal? host address now).2.configured = locality.configured ∧
      Truthful host (locality.isLocal? host address now).2 := by
  rw [Locality.isLocal?]
  cases hremembered : locality.remembered? address now with
  | some answer => exact ⟨(h.remembered? hremembered).symm, rfl, h⟩
  | none =>
    cases hips : host.resolve? address with
    | none => exact ⟨by rw [Host.isLocal?, hips]; rfl, rfl, h⟩
    | some ips =>
      obtain ⟨hany, hconfigured, htruthful⟩ := h.anyOwned now ips
      have hanswer : host.isLocal? locality.configured address
          = some (Locality.anyOwned host now ips locality).1 := by
        rw [Host.isLocal?, hips, Option.map_some, hany]
      exact ⟨hanswer.symm, hconfigured, htruthful.remember (by rwa [hconfigured])⟩

/-- An address that leads nowhere leaves no trace. -/
theorem Truthful.isLocal?_of_none (h : Truthful host locality)
    (hnone : (locality.isLocal? host address now).1 = none) :
    (locality.isLocal? host address now).2 = locality := by
  rw [(h.isLocal? address now).1, Host.isLocal?_eq_none] at hnone
  rw [Locality.isLocal?]
  cases locality.remembered? address now with
  | some answer => rfl
  | none => rw [hnone]

/-- What is remembered after questions about peer addresses, each with its time. -/
def after (host : Host) (locality : Locality) (questions : List (String × Nanoseconds)) :
    Locality :=
  questions.foldl (fun locality question => (locality.isLocal? host question.1 question.2).2)
    locality

theorem Truthful.after (h : Truthful host locality) (questions : List (String × Nanoseconds)) :
    (locality.after host questions).configured = locality.configured ∧
      Truthful host (locality.after host questions) := by
  induction questions generalizing locality with
  | nil => exact ⟨rfl, h⟩
  | cons question rest ih =>
    obtain ⟨-, hconfigured, htruthful⟩ := h.isLocal? question.1 question.2
    obtain ⟨hrest, hafter⟩ := ih htruthful
    exact ⟨hrest.trans hconfigured, hafter⟩

/-- What a host was told belongs to it by every list of its addresses, also when its interfaces have
changed since the last one. -/
theorem Truthful.configured_subset (h : Truthful host locality) (changed : Host)
    (now : Nanoseconds) : locality.configured ⊆ (locality.refresh changed now).hostAddresses := by
  unfold Locality.refresh
  split_ifs
  · rw [h.listed]
    exact List.subset_append_left ..
  · exact List.subset_append_left ..

/-- Every answer is the one of a host that remembers nothing: none where the address leads nowhere,
and otherwise whether the address leads to one that belongs to the host. An internet address leads
to itself and a name to its addresses, and a port changes no answer. -/
theorem answers_as_with_nothing_remembered (host : Host) (configured : List IpAddress)
    (lifetime started : Nanoseconds) (questions : List (String × Nanoseconds)) :
    let locality := (start host configured lifetime started).after host questions
    host.Resolves ∧
      (∀ address now,
      (locality.isLocal? host address now).1
          = ((start host configured 0 now).isLocal? host address now).1 ∧
        ((locality.isLocal? host address now).1 = none ↔ host.resolve? address = none) ∧
        ((locality.isLocal? host address now).1 = some true ↔ ∃ ip, host.LeadsTo address ip ∧
          (ip.isLoopback ∨ ip.isUnspecified ∨ ip ∈ configured ∨ ip ∈ host.interfaces)) ∧
        ((locality.isLocal? host address now).1 = none →
          (locality.isLocal? host address now).2 = locality)) ∧
      (∀ changed now, configured ⊆ (locality.refresh changed now).hostAddresses) ∧
      (∀ name port now later, ':' ∉ name.toList → Host.DecimalPort port.toList →
        (locality.isLocal? host (Host.withPort name port) later).1
          = (locality.isLocal? host name now).1) ∧
      ∀ literal value port now later, IpAddress.ofText? literal = some (.v6 value) →
        Host.DecimalPort port.toList →
          (locality.isLocal? host (Host.withPort (Host.inBrackets literal) port) later).1
            = (locality.isLocal? host literal now).1 := by
  intro locality
  obtain ⟨hconfigured, htruthful⟩ :=
    (truthful_start host configured lifetime started).after questions
  change locality.configured = configured at hconfigured
  change Truthful host locality at htruthful
  have hanswer (address : String) (now : Nanoseconds) :
      (locality.isLocal? host address now).1 = host.isLocal? configured address := by
    rw [(htruthful.isLocal? address now).1, hconfigured]
  have hafresh (address : String) (now : Nanoseconds) :
      ((start host configured 0 now).isLocal? host address now).1
        = host.isLocal? configured address :=
    ((truthful_start host configured 0 now).isLocal? address now).1
  refine ⟨host.resolves, fun address now => ⟨?_, ?_, ?_, htruthful.isLocal?_of_none⟩, ?_, ?_, ?_⟩
  · rw [hanswer, hafresh]
  · rw [hanswer, Host.isLocal?_eq_none]
  · rw [hanswer, Host.isLocal?_eq_true]
  · intro changed now
    exact hconfigured ▸ htruthful.configured_subset changed now
  · intro name port now later hname hport
    rw [hanswer, hanswer, Host.isLocal?, Host.resolve?_withPort host hname hport.isPort]
    rfl
  · intro literal value port now later hliteral hport
    rw [hanswer, hanswer, Host.isLocal?, Host.resolve?_inBrackets host hliteral hport]
    rfl

/-- A host with one interface that knows the name of a neighbour. -/
def neighbourly : Host where
  interfaces := [.v4 0x0A000001#32]
  lookup name := if name = "node-b" then some [.v4 0x0A000002#32] else none

theorem answers_as_with_nothing_remembered_neighbourly :
    let locality := (start neighbourly [] 5 0).after neighbourly
      [("nowhere", 0), ("node-b", 1), ("node-b", 3), ("::1", 9)]
    ':' ∉ "node-b".toList ∧ Host.DecimalPort "4994".toList ∧
      IpAddress.ofText? "::1" = some (.v6 1#128) ∧
      (locality.isLocal? neighbourly (Host.withPort "node-b" "4994") 4).1
        = (locality.isLocal? neighbourly "node-b" 12).1 ∧
      (locality.isLocal? neighbourly (Host.withPort (Host.inBrackets "::1") "4994") 4).1
        = (locality.isLocal? neighbourly "::1" 12).1 := by
  have hname : ':' ∉ "node-b".toList := by decide
  have hport : Host.DecimalPort "4994".toList := ⟨by decide, by simp, by decide +kernel⟩
  have hliteral : IpAddress.ofText? "::1" = some (.v6 1#128) := by rfl
  have h := answers_as_with_nothing_remembered neighbourly [] 5 0
    [("nowhere", 0), ("node-b", 1), ("node-b", 3), ("::1", 9)]
  obtain ⟨-, -, -, hports, hbrackets⟩ := h
  exact ⟨hname, hport, hliteral, hports "node-b" "4994" 12 4 hname hport,
    hbrackets "::1" 1#128 "4994" 12 4 hliteral hport⟩

end Locality
end RecordRelay
