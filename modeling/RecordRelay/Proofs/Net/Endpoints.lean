import RecordRelay.Proofs.Net.Spellings
import RecordRelay.Settings

/-! The place of a peer is made of its address as it is written, with the port of the settings
behind it. This names the peer's host and one port where the address is one of the older version or
a name, without a port of its own. An address of the newer version lacks its brackets there, and a
port in the address is followed by a second one, although the host it leads to is found. -/
namespace RecordRelay
open IpAddress Host

/-- The characters that end the authority of a URI. -/
def EndsAuthority (c : Char) : Prop := c = '/' ∨ c = '?' ∨ c = '#'

instance (c : Char) : Decidable (EndsAuthority c) := inferInstanceAs (Decidable (_ ∨ _ ∨ _))

/-- A name of a host: a text without the characters that have a meaning in a URI. -/
structure HostName (text : String) : Prop where
  nonempty : text ≠ ""
  plain : ∀ c ∈ text.toList, ¬ EndsAuthority c ∧ c ∉ [':', '[', ']', '@']

/-- The hosts that peer addresses write. -/
inductive IsHost (text : String) : Prop
  | older (value : BitVec 32) (h : ofText? text = some (.v4 value))
  | newer (value : BitVec 128) (h : ofText? text = some (.v6 value))
  | name (h : HostName text)

/-- A host as it stands in front of a port: in brackets if it is an address of the newer version. -/
def beforePort (text : String) : String :=
  match ofText? text with
  | some (.v6 _) => inBrackets text
  | _ => text

/-- The peer addresses that write a host, with a port or without one. -/
inductive Spells (text : String) : String → Prop
  | bare : Spells text text
  | withPort (port : String) (h : DecimalPort port.toList) :
      Spells text (Host.withPort (beforePort text) port)

variable {text address : String}

theorem mem_of_newer {value : BitVec 128} (h : ofText? text = some (.v6 value)) :
    ':' ∈ text.toList := by
  obtain ⟨n, hread, -⟩ := newer_eq_some_of_ofText? h
  obtain ⟨read, htaken, -, hcount⟩ := takes_newer _ n [] hread
  rw [htaken, List.append_nil]
  exact List.count_pos_iff.mp (by omega)

/-- Among the hosts, the addresses of the newer version are those with a colon. -/
theorem IsHost.mem_iff (h : IsHost text) :
    ':' ∈ text.toList ↔ ∃ value, ofText? text = some (.v6 value) := by
  constructor
  · intro hcolon
    cases h with
    | older value hread =>
      obtain ⟨n, holder⟩ := older_eq_some_of_ofText? hread
      exact absurd hcolon (not_mem_of_older holder)
    | newer value hread => exact ⟨value, hread⟩
    | name hname => exact absurd List.mem_cons_self (hname.plain ':' hcolon).2
  · rintro ⟨value, hread⟩
    exact mem_of_newer hread

theorem beforePort_of_newer {value : BitVec 128} (h : ofText? text = some (.v6 value)) :
    beforePort text = inBrackets text := by
  unfold beforePort
  split
  case h_1 => rfl
  case h_2 hother => exact absurd h (hother value)

theorem IsHost.beforePort_eq (h : IsHost text) (hcolon : ':' ∉ text.toList) :
    beforePort text = text := by
  unfold beforePort
  split
  case h_1 value hread => exact absurd (h.mem_iff.mpr ⟨value, hread⟩) hcolon
  case h_2 => rfl

/-- Every spelling of a host leads where the host leads. -/
theorem Spells.resolve?_eq (h : Spells text address) (hhost : IsHost text) (machine : Host) :
    machine.resolve? address = machine.resolve? text := by
  cases h with
  | bare => rfl
  | withPort port hport =>
    by_cases hcolon : ':' ∈ text.toList
    · obtain ⟨value, hread⟩ := hhost.mem_iff.mp hcolon
      rw [beforePort_of_newer hread, resolve?_inBrackets machine hread hport]
    · rw [hhost.beforePort_eq hcolon, resolve?_withPort machine hcolon hport.isPort]

/-- The authority of a URI: what stands between the two slashes and its path. -/
def authority (uri : String) : List Char :=
  ((uri.toList.dropWhile (· ≠ ':')).drop 3).takeWhile fun c => ¬ EndsAuthority c

theorem not_endsAuthority_of_isWritten {c : Char} (h : IsWritten c) : ¬ EndsAuthority c := by
  rintro (rfl | rfl | rfl) <;> simp [IsWritten, Text.hexValue?] at h

theorem IsHost.plain (h : IsHost text) : ∀ c ∈ text.toList, ¬ EndsAuthority c := by
  cases h with
  | older value hread =>
    obtain ⟨n, holder⟩ := older_eq_some_of_ofText? hread
    obtain ⟨read, htaken, hwritten, -⟩ := takes_older _ n [] holder
    rw [htaken, List.append_nil]
    exact fun c hc => not_endsAuthority_of_isWritten (hwritten c hc)
  | newer value hread =>
    obtain ⟨n, hnewer, -⟩ := newer_eq_some_of_ofText? hread
    obtain ⟨read, htaken, hwritten, -⟩ := takes_newer _ n [] hnewer
    rw [htaken, List.append_nil]
    exact fun c hc => not_endsAuthority_of_isWritten (hwritten c hc)
  | name hname => exact fun c hc => (hname.plain c hc).1

theorem not_endsAuthority_of_decimalPort {cs : List Char} (h : DecimalPort cs) :
    ∀ c ∈ cs, ¬ EndsAuthority c := by
  rintro c hc (rfl | rfl | rfl) <;> exact absurd (h.digits _ hc) (by decide)

theorem decimalPort_repr {n : Nat} (h : n < 0x10000) : DecimalPort n.repr.toList := by
  rw [Nat.toList_repr]
  refine ⟨Nat.toDigits_ne_nil, fun c hc => Nat.isDigit_of_mem_toDigits (by omega) (by omega) hc, ?_⟩
  rwa [Nat.ofDigitChars_toDigits (by omega) (by omega)]

theorem plain_withPort {port : String} (h : ∀ c ∈ address.toList, ¬ EndsAuthority c)
    (hport : DecimalPort port.toList) :
    ∀ c ∈ (Host.withPort address port).toList, ¬ EndsAuthority c := by
  rw [toList_withPort]
  intro c hc
  obtain hc | hc := List.mem_append.mp hc
  · exact h c hc
  · obtain rfl | hc := List.mem_cons.mp hc
    · decide
    · exact not_endsAuthority_of_decimalPort hport c hc

theorem IsHost.plain_beforePort (h : IsHost text) :
    ∀ c ∈ (beforePort text).toList, ¬ EndsAuthority c := by
  by_cases hcolon : ':' ∈ text.toList
  · obtain ⟨value, hread⟩ := h.mem_iff.mp hcolon
    rw [beforePort_of_newer hread, toList_inBrackets]
    simpa [or_imp, forall_and, EndsAuthority] using h.plain
  · rw [h.beforePort_eq hcolon]
    exact h.plain

theorem Spells.plain (h : Spells text address) (hhost : IsHost text) :
    ∀ c ∈ address.toList, ¬ EndsAuthority c := by
  cases h with
  | bare => exact hhost.plain
  | withPort port hport => exact plain_withPort hhost.plain_beforePort hport

theorem beforePort_ne_withPort (text port : String) :
    beforePort text ≠ Host.withPort (beforePort text) port := fun h => by
  simpa using congrArg (·.toList.length) h

/-- In front of a port stands the address as it is written only where neither a port nor brackets
belong to it. -/
theorem Spells.eq_beforePort_iff (h : Spells text address) (hhost : IsHost text) :
    address = beforePort text ↔ address = text ∧ ∀ value, ofText? text ≠ some (.v6 value) := by
  constructor
  · intro heq
    cases h with
    | bare =>
      refine ⟨rfl, fun value hread => ?_⟩
      rw [beforePort_of_newer hread] at heq
      have hlength := congrArg (·.toList.length) heq
      simp at hlength
      omega
    | withPort port hport => exact absurd heq.symm (beforePort_ne_withPort text port)
  · rintro ⟨rfl, hnewer⟩
    have hcolon : ':' ∉ address.toList := fun hmem =>
      (hhost.mem_iff.mp hmem).elim hnewer
    exact (hhost.beforePort_eq hcolon).symm

/-- What stands before the last port of two texts is the same if the texts are. -/
theorem withPort_inj {first second port other : String} (hport : DecimalPort port.toList)
    (hother : DecimalPort other.toList)
    (h : (Host.withPort first port).toList = (Host.withPort second other).toList) :
    first = second := by
  have hsplit := congrArg (Text.splitAtLast? ':') h
  rw [toList_withPort, toList_withPort, Text.splitAtLast?_append _ (not_mem_of_isPort hport.isPort),
    Text.splitAtLast?_append _ (not_mem_of_isPort hother.isPort)] at hsplit
  exact String.toList_injective (Prod.mk.inj (Option.some.inj hsplit)).1

namespace Settings

theorem toList_peerUri (settings : Settings) (address : String) :
    (settings.peerUri address).toList = (if settings.ssl then "https" else "http").toList ++
      ':' :: '/' :: '/' :: ((Host.withPort address settings.port.toNat.repr).toList ++
        forwardingPath.toList) := by
  rw [peerUri, Host.withPort]
  simp [String.toList_append]
  rfl

/-- The authority of the place of a peer is its address as it is written, with the port behind. -/
theorem authority_peerUri (settings : Settings) (h : ∀ c ∈ address.toList, ¬ EndsAuthority c) :
    authority (settings.peerUri address) =
      (Host.withPort address settings.port.toNat.repr).toList := by
  have hplain : ∀ c ∈ (Host.withPort address settings.port.toNat.repr).toList,
      decide (¬ EndsAuthority c) = true := fun c hc =>
    decide_eq_true (plain_withPort h (decimalPort_repr settings.port.toNat_lt) c hc)
  have hscheme : ∀ c ∈ (if settings.ssl then "https" else "http").toList,
      decide (c ≠ ':') = true := by
    cases settings.ssl <;> simp
  have hpath : forwardingPath.toList.takeWhile (fun c => ¬ EndsAuthority c) = [] := rfl
  rw [authority, toList_peerUri, List.dropWhile_append_of_pos hscheme,
    List.dropWhile_cons_of_neg (by simp), List.drop_succ_cons, List.drop_succ_cons,
    List.drop_succ_cons, List.drop_zero, List.takeWhile_append_of_pos hplain, hpath,
    List.append_nil]

/-- The place of a peer that an address writes, and when it names the host and one port: for the
addresses of the older version and for names, without a port of their own. Everywhere else the
address still leads to the host, but the place is none of it. -/
theorem place_of_peer (settings : Settings) (machine : Host) (configured : List IpAddress)
    (hhost : IsHost text) (hspells : Spells text address) :
    machine.isLocal? configured address = machine.isLocal? configured text
      ∧ Text.splitAtLast? ':' (authority (settings.peerUri address))
          = some (address.toList, settings.port.toNat.repr.toList)
      ∧ ((∃ port, DecimalPort port.toList ∧ authority (settings.peerUri address)
            = (Host.withPort (beforePort text) port).toList)
          ↔ address = text ∧ ∀ value, ofText? text ≠ some (.v6 value)) := by
  have hauthority := authority_peerUri settings (hspells.plain hhost)
  have hport := decimalPort_repr settings.port.toNat_lt
  refine ⟨?_, ?_, ?_⟩
  · rw [Host.isLocal?, hspells.resolve?_eq hhost]
    rfl
  · rw [hauthority, toList_withPort, Text.splitAtLast?_append _ (not_mem_of_isPort hport.isPort)]
  · rw [hauthority, ← hspells.eq_beforePort_iff hhost]
    constructor
    · rintro ⟨port, hother, heq⟩
      exact withPort_inj hport hother heq
    · rintro rfl
      exact ⟨_, hport, rfl⟩

theorem place_of_peer_with_port :
    IsHost "node-b" ∧ Spells "node-b" "node-b:7000"
      ∧ Host.isolated.isLocal? [] "node-b:7000" = Host.isolated.isLocal? [] "node-b"
      ∧ Text.splitAtLast? ':' (authority (standard.peerUri "node-b:7000"))
          = some ("node-b:7000".toList, standard.port.toNat.repr.toList) := by
  have hname : HostName "node-b" := ⟨by decide, by simp [EndsAuthority]⟩
  have hport : DecimalPort "7000".toList := ⟨by decide, by simp, by decide +kernel⟩
  have hspells : Spells "node-b" (Host.withPort (beforePort "node-b") "7000") :=
    .withPort "7000" hport
  rw [(IsHost.name hname).beforePort_eq (by simp)] at hspells
  obtain ⟨hlocal, hplace, -⟩ := place_of_peer standard Host.isolated [] (.name hname) hspells
  exact ⟨.name hname, hspells, hlocal, hplace⟩

/-- The places of an address of the newer version and of an address with a port, by settings that
are in order, are no host with one port. -/
theorem places_of_no_host :
    let settings := { standard with ssl := false }
    settings.validate = .ok ()
      ∧ ofText? "2001:db8::7" = some (.v6 0x20010db8000000000000000000000007#128)
      ∧ ofText? "198.51.100.7" = some (.v4 0xC6336407#32)
      ∧ Spells "2001:db8::7" "2001:db8::7" ∧ Spells "198.51.100.7" "198.51.100.7:4994"
      ∧ settings.peerUri "2001:db8::7" = "http://2001:db8::7:4994/event/forward"
      ∧ settings.peerUri "198.51.100.7:4994" = "http://198.51.100.7:4994:4994/event/forward"
      ∧ ∀ port, DecimalPort port.toList →
          authority (settings.peerUri "2001:db8::7")
              ≠ (Host.withPort (beforePort "2001:db8::7") port).toList
            ∧ authority (settings.peerUri "198.51.100.7:4994")
              ≠ (Host.withPort (beforePort "198.51.100.7") port).toList := by
  intro settings
  have hnewer : ofText? "2001:db8::7" = some (.v6 0x20010db8000000000000000000000007#128) := rfl
  have holder : ofText? "198.51.100.7" = some (.v4 0xC6336407#32) := rfl
  have hport : DecimalPort "4994".toList := ⟨by decide, by simp, by decide +kernel⟩
  have hhost : IsHost "198.51.100.7" := .older _ holder
  have hspells : Spells "198.51.100.7" (Host.withPort (beforePort "198.51.100.7") "4994") :=
    .withPort "4994" hport
  have haddress : Host.withPort (beforePort "198.51.100.7") "4994" = "198.51.100.7:4994" := by
    rw [hhost.beforePort_eq (by simp)]
    rfl
  rw [haddress] at hspells
  have hsettings := decimalPort_repr settings.port.toNat_lt
  refine ⟨rfl, hnewer, holder, .bare, hspells, by decide +kernel, by decide +kernel,
    fun port hother => ⟨?_, ?_⟩⟩
  · rw [authority_peerUri settings (IsHost.newer _ hnewer).plain]
    intro heq
    have hsame := withPort_inj hsettings hother heq
    rw [beforePort_of_newer hnewer] at hsame
    exact absurd hsame (by decide)
  · rw [authority_peerUri settings (hspells.plain hhost)]
    intro heq
    have hsame := withPort_inj hsettings hother heq
    rw [hhost.beforePort_eq (by simp)] at hsame
    exact absurd hsame (by decide)

end Settings
end RecordRelay
