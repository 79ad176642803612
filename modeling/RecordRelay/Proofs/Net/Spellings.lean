import RecordRelay.Net.Host
import RecordRelay.Proofs.Net.Literals
import RecordRelay.Proofs.Text.Split

/-! An address with a port leads where it leads without the port. The two spellings are read by
different readers, which agree because an address of the newer version has more than one colon and a
port has none. -/
namespace RecordRelay
namespace Host
open IpAddress

def withPort (address port : String) : String := address ++ ":" ++ port

/-- An address of the newer version as it stands in front of a port. -/
def inBrackets (address : String) : String := "[" ++ address ++ "]"

@[simp] theorem toList_withPort (address port : String) :
    (withPort address port).toList = address.toList ++ ':' :: port.toList := by
  simp [withPort]

@[simp] theorem toList_inBrackets (address : String) :
    (inBrackets address).toList = '[' :: (address.toList ++ [']']) := by
  simp [inBrackets]

section Ports

/-- Decimal digits that write a number of the 16-bit range. -/
structure DecimalPort (cs : List Char) : Prop where
  nonempty : cs ≠ []
  digits : ∀ c ∈ cs, c.isDigit = true
  small : Nat.ofDigitChars 10 cs 0 < 0x10000

variable {port : List Char}

theorem digitValue?_of_isDigit {c : Char} (h : c.isDigit = true) :
    Text.digitValue? 10 c = some (c.toNat - 48) := by
  obtain ⟨hlow, hhigh⟩ : 48 ≤ c.toNat ∧ c.toNat ≤ 57 := by
    simpa [Char.isDigit, UInt32.le_iff_toNat_le] using h
  have hchar : '0' ≤ c ∧ c ≤ '9' := by
    simpa [Char.isDigit, Char.le_def] using h
  have hsmall : c.toNat - 48 < 10 := by omega
  rw [Text.digitValue?, Text.hexValue?, if_pos hchar, Option.filter_some, if_pos (by simpa)]

theorem number?_of_isDigit (hnonempty : port ≠ []) (h : ∀ c ∈ port, c.isDigit = true) :
    Text.number? 10 port = some (Nat.ofDigitChars 10 port 0) := by
  rw [Text.number?, if_neg (by simpa using hnonempty), Nat.ofDigitChars]
  clear hnonempty
  generalize 0 = start
  induction port generalizing start with
  | nil => rfl
  | cons c rest ih =>
    obtain ⟨hc, hrest⟩ := List.forall_mem_cons.mp h
    simp only [List.foldlM_cons, List.foldl_cons, digitValue?_of_isDigit hc, Option.map_some]
    exact ih hrest _

theorem DecimalPort.number_eq (h : DecimalPort port) :
    number IpAddress.port port = some (Nat.ofDigitChars 10 port 0, []) := by
  have hdigit : ∀ c ∈ port, (Text.digitValue? 10 c).isSome = true := fun c hc => by
    rw [digitValue?_of_isDigit (h.digits c hc), Option.isSome_some]
  have htaken := List.takeWhile_eq_self_iff.mpr hdigit
  have hdropped := List.dropWhile_eq_nil_iff.mpr hdigit
  simp [number, IpAddress.port, htaken, hdropped, number?_of_isDigit h.nonempty h.digits, h.small]

theorem DecimalPort.isPort (h : DecimalPort port) : isPort port = true := by
  unfold Host.isPort
  split
  case h_1 => exact absurd (h.digits '+' List.mem_cons_self) (by decide)
  case h_2 => simp [h.number_eq]

theorem not_mem_of_number_eq {form : NumberForm} {cs : List Char} {value : Nat}
    (h : number form cs = some (value, [])) : ':' ∉ cs := by
  simp only [number] at h
  split_ifs at h
  obtain ⟨_, -, hread⟩ := Option.map_eq_some_iff.mp h
  intro hcolon
  have hdigit := List.dropWhile_eq_nil_iff.mp (Prod.mk.inj hread).2 ':' hcolon
  simp [Text.digitValue?, Text.hexValue?] at hdigit

/-- A port has no colon. -/
theorem not_mem_of_isPort (h : isPort port = true) : ':' ∉ port := by
  unfold Host.isPort at h
  split at h
  case h_1 =>
    dsimp only at h
    split at h
    case h_1 hnumber => simpa using not_mem_of_number_eq hnumber
    case h_2 => contradiction
  case h_2 =>
    dsimp only at h
    split at h
    case h_1 hnumber => exact not_mem_of_number_eq hnumber
    case h_2 => contradiction

end Ports

theorem whole_eq_some {α : Type} {scan : Scan α} {text : String} {value : α} :
    whole scan text = some value ↔ scan text.toList = some (value, []) := by
  rw [whole]
  split <;> simp_all

section WithPort

/-- A text with a single colon is no address of the newer version. -/
theorem newer_eq_none {cs : List Char} (h : cs.count ':' < 2) : newer cs = none := by
  refine Option.eq_none_iff_forall_ne_some.mpr fun ⟨value, left⟩ hread => ?_
  obtain ⟨read, rfl, -, hcount⟩ := takes_newer cs value left hread
  rw [List.count_append] at h
  omega

theorem newerWithPort_eq_none {cs : List Char} (h : cs.count ':' < 2) :
    newerWithPort cs = none := by
  cases cs with
  | nil => rfl
  | cons c rest =>
    have hrest : rest.count ':' < 2 := lt_of_le_of_lt (List.count_le_count_cons ..) h
    rw [newerWithPort, character]
    split_ifs
    · simp [newer_eq_none hrest]
    · rfl

theorem older_eq_some_of_olderWithPort {cs left : List Char} {ip : IpAddress}
    (h : olderWithPort cs = some (ip, left)) :
    ∃ value rest, older cs = some (value, ':' :: rest) ∧ ip = .v4 (BitVec.ofNat 32 value) := by
  obtain ⟨⟨value, behind⟩, holder, h⟩ := Option.bind_eq_some_iff.mp h
  obtain ⟨⟨_, rest⟩, hcolon, h⟩ := Option.bind_eq_some_iff.mp h
  obtain ⟨read, -, hip⟩ := Option.bind_eq_some_iff.mp h
  cases behind with
  | nil => contradiction
  | cons c behind =>
    dsimp only at hcolon hip
    rw [character] at hcolon
    split_ifs at hcolon with hc
    exact ⟨value, behind, by rw [holder, hc], (Prod.mk.inj (Option.some.inj hip)).1.symm⟩

/-- The readers of addresses with a port read at most one colon as an address of the older version
and the colon before its port. -/
theorem older_eq_some_of_ofTextWithPort? {address : String} {ip : IpAddress}
    (hcount : address.toList.count ':' < 2) (h : ofTextWithPort? address = some ip) :
    ∃ value rest, older address.toList = some (value, ':' :: rest) ∧
      ip = .v4 (BitVec.ofNat 32 value) := by
  rw [ofTextWithPort?, whole_eq_some, addressWithPort, newerWithPort_eq_none hcount] at h
  split at h
  case h_2 => contradiction
  case h_1 result hread =>
    rw [h] at hread
    exact older_eq_some_of_olderWithPort hread

/-- A text without a colon is read by no reader of addresses with a port. -/
theorem ofTextWithPort?_eq_none {address : String} (h : ':' ∉ address.toList) :
    ofTextWithPort? address = none := by
  have hcount : address.toList.count ':' = 0 := List.count_eq_zero_of_not_mem h
  refine Option.eq_none_iff_forall_ne_some.mpr fun ip hread => ?_
  obtain ⟨value, rest, holder, -⟩ := older_eq_some_of_ofTextWithPort? (by omega) hread
  obtain ⟨before, hread, -⟩ := takes_older address.toList _ _ holder
  exact h (hread ▸ List.mem_append_right before List.mem_cons_self)

variable {address port : String}

theorem withoutPort_of_not_mem (h : ':' ∉ address.toList) : withoutPort address = address := by
  rw [withoutPort, Text.splitAtLast?_eq_none h]

theorem withoutPort_withPort (h : ':' ∉ address.toList) (hport : isPort port.toList = true) :
    withoutPort (withPort address port) = address := by
  rw [withoutPort, toList_withPort, Text.splitAtLast?_append _ (not_mem_of_isPort hport)]
  simp [h, hport]

theorem count_withPort (h : ':' ∉ address.toList) (hport : isPort port.toList = true) :
    (withPort address port).toList.count ':' = 1 := by
  rw [toList_withPort, List.count_append, List.count_cons_self, List.count_eq_zero_of_not_mem h,
    List.count_eq_zero_of_not_mem (not_mem_of_isPort hport)]

theorem older_withPort (address port : String) : older (withPort address port).toList
    = (older address.toList).map fun read => (read.1, read.2 ++ ':' :: port.toList) := by
  have hcolon : NoDigit (':' :: port.toList) := by simp [NoDigit, Text.hexValue?]
  rw [toList_withPort]
  exact stopsAt_older hcolon (by simp) address.toList

/-- The reader of addresses without a port reads no address with one. -/
theorem ofText?_withPort (h : ':' ∉ address.toList) (hport : isPort port.toList = true) :
    ofText? (withPort address port) = none := by
  have hnewer := newer_eq_none (Nat.lt_succ_of_le (count_withPort h hport).le)
  rw [ofText?, whole, IpAddress.address, older_withPort, hnewer]
  cases older address.toList with
  | none => rfl
  | some read => simp

/-- The readers of addresses with a port read the address that stands before the port. -/
theorem ofText?_of_ofTextWithPort? {ip : IpAddress} (h : ':' ∉ address.toList)
    (hport : isPort port.toList = true)
    (hread : ofTextWithPort? (withPort address port) = some ip) : ofText? address = some ip := by
  obtain ⟨value, rest, holder, rfl⟩ := older_eq_some_of_ofTextWithPort?
    (Nat.lt_succ_of_le (count_withPort h hport).le) hread
  rw [older_withPort] at holder
  obtain ⟨⟨_, left⟩, hname, heq⟩ := Option.map_eq_some_iff.mp holder
  obtain ⟨rfl, hleft⟩ := Prod.mk.inj heq
  obtain ⟨before, htaken, -⟩ := takes_older address.toList _ left hname
  cases left with
  | nil => rw [ofText?, whole_eq_some, IpAddress.address, hname]
  | cons c left =>
    obtain rfl := (List.cons.inj hleft).1
    exact absurd (htaken ▸ List.mem_append_right before List.mem_cons_self) h

theorem literal?_eq (address : String) :
    literal? address = (ofText? address).or (ofTextWithPort? address) := by
  unfold literal?
  cases ofText? address with
  | none => simp only [Option.none_or]
  | some ip => simp only [Option.some_or]

/-- A peer address is read as it stands, with a port, and without its port, before it is looked up
as a name. -/
theorem resolve?_eq (host : Host) (address : String) : host.resolve? address =
    (((literal? address).or (ofText? (withoutPort address))).map ([·])).or
      ((host.lookup (withoutPort address)).filter (!·.isEmpty)) := by
  unfold resolve?
  cases literal? address with
  | none =>
    dsimp only
    cases ofText? (withoutPort address) with
    | none => simp only [Option.none_or, Option.map_none]
    | some ip => simp only [Option.none_or, Option.map_some, Option.some_or]
  | some ip => simp only [Option.map_some, Option.some_or]

/-- An address leads with a port where it leads without one. -/
theorem resolve?_withPort (host : Host) (h : ':' ∉ address.toList)
    (hport : isPort port.toList = true) :
    host.resolve? (withPort address port) = host.resolve? address := by
  have hread : (literal? (withPort address port)).or (ofText? address)
      = (literal? address).or (ofText? address) := by
    simp only [literal?_eq, ofText?_withPort h hport, ofTextWithPort?_eq_none h, Option.none_or,
      Option.or_none, Option.or_self]
    cases hwith : ofTextWithPort? (withPort address port) with
    | none => rfl
    | some ip => rw [ofText?_of_ofTextWithPort? h hport hwith, Option.some_or]
  rw [resolve?_eq, resolve?_eq, withoutPort_withPort h hport, withoutPort_of_not_mem h, hread]

end WithPort

section Bracketed

variable {literal port : String}

theorem number_eq_none (form : NumberForm) {c : Char} (h : Text.hexValue? c = none)
    (cs : List Char) : number form (c :: cs) = none := by
  have hdigit : (Text.digitValue? form.base c).isSome = false := by simp [Text.digitValue?, h]
  simp [number, hdigit, Text.number?]

/-- No address begins with a bracket. -/
theorem older_bracket (cs : List Char) : older ('[' :: cs) = none := by
  simp [older, number_eq_none octet (c := '[') (by decide)]

theorem newer_bracket (cs : List Char) : newer ('[' :: cs) = none := by
  have hgroups : groups 8 true ('[' :: cs) = ([], false, '[' :: cs) := by
    simp [groups, separated, older_bracket, number_eq_none group (c := '[') (by decide)]
  simp [newer_eq, hgroups, character]

theorem newer_eq_some_of_ofText? {value : BitVec 128} (h : ofText? literal = some (.v6 value)) :
    ∃ n, newer literal.toList = some (n, []) ∧ value = BitVec.ofNat 128 n := by
  rw [ofText?, whole_eq_some, IpAddress.address] at h
  split at h
  · simp at h
  · obtain ⟨⟨n, left⟩, hread, heq⟩ := Option.map_eq_some_iff.mp h
    simp only [Prod.mk.injEq, IpAddress.v6.injEq] at heq
    obtain ⟨hvalue, rfl⟩ := heq
    exact ⟨n, hread, hvalue.symm⟩

theorem newerWithPort_withPort {n : Nat} (hread : newer literal.toList = some (n, []))
    (hport : DecimalPort port.toList) :
    newerWithPort (withPort (inBrackets literal) port).toList
      = some (.v6 (BitVec.ofNat 128 n), []) := by
  have hstops : newer (literal.toList ++ ']' :: ':' :: port.toList)
      = some (n, ']' :: ':' :: port.toList) := by
    rw [stopsAt_newer (by simp [NoDigit, Text.hexValue?]) (by simp) (by simp), hread]
    rfl
  simp [newerWithPort, character, hstops, skipScope, hport.number_eq]

/-- An address of the newer version leads in brackets with a port where it leads without them. -/
theorem resolve?_inBrackets (host : Host) {value : BitVec 128}
    (hliteral : ofText? literal = some (.v6 value)) (hport : DecimalPort port.toList) :
    host.resolve? (withPort (inBrackets literal) port) = host.resolve? literal := by
  have hplain : literal? literal = some (.v6 value) := by
    rw [literal?_eq, hliteral, Option.some_or]
  obtain ⟨n, hread, rfl⟩ := newer_eq_some_of_ofText? hliteral
  have holder : older (withPort (inBrackets literal) port).toList = none := by
    rw [toList_withPort, toList_inBrackets]
    exact older_bracket _
  have hnewer : newer (withPort (inBrackets literal) port).toList = none := by
    rw [toList_withPort, toList_inBrackets]
    exact newer_bracket _
  have hnone : ofText? (withPort (inBrackets literal) port) = none := by
    rw [ofText?, whole, IpAddress.address, holder, hnewer]
    rfl
  have hsome : ofTextWithPort? (withPort (inBrackets literal) port)
      = some (.v6 (BitVec.ofNat 128 n)) := by
    rw [ofTextWithPort?, whole_eq_some, addressWithPort, olderWithPort, holder]
    exact newerWithPort_withPort hread hport
  simp only [resolve?_eq, hplain, literal?_eq, hnone, hsome, Option.none_or, Option.some_or,
    Option.map_some]

end Bracketed

/-- An address of the older version has no colon. -/
theorem not_mem_of_older {cs : List Char} {value : Nat} (h : older cs = some (value, [])) :
    ':' ∉ cs := by
  intro hcolon
  obtain ⟨before, behind, rfl⟩ := List.append_of_mem hcolon
  rw [stopsAt_older (by simp [NoDigit, Text.hexValue?]) (by simp)] at h
  obtain ⟨read, -, heq⟩ := Option.map_eq_some_iff.mp h
  simp at heq

theorem older_eq_some_of_ofText? {text : String} {value : BitVec 32}
    (h : ofText? text = some (.v4 value)) :
    ∃ n, older text.toList = some (n, []) := by
  rw [ofText?, whole_eq_some, IpAddress.address] at h
  split at h
  case h_1 n left hread =>
    obtain rfl : left = [] := by simpa using congrArg (Option.map Prod.snd) h
    exact ⟨n, hread⟩
  case h_2 =>
    obtain ⟨_, -, heq⟩ := Option.map_eq_some_iff.mp h
    simp at heq

/-- What a peer address leads to, for each way to write one: the internet address that stands there,
and the addresses of a name if it has some. -/
structure Resolves (host : Host) : Prop where
  literal : ∀ literal ip, ofText? literal = some ip → host.resolve? literal = some [ip]
  olderWithPort : ∀ literal value port, ofText? literal = some (.v4 value) →
    DecimalPort port.toList → host.resolve? (withPort literal port) = some [.v4 value]
  newerWithPort : ∀ literal value port, ofText? literal = some (.v6 value) →
    DecimalPort port.toList →
      host.resolve? (withPort (inBrackets literal) port) = some [.v6 value]
  name : ∀ name ips, ':' ∉ name.toList → ofText? name = none →
    (host.resolve? name = some ips ↔ host.lookup name = some ips ∧ ips ≠ [])
  nameWithPort : ∀ name port ips, ':' ∉ name.toList → ofText? name = none →
    DecimalPort port.toList →
      (host.resolve? (withPort name port) = some ips ↔ host.lookup name = some ips ∧ ips ≠ [])

variable {literal name : String}

theorem resolve?_of_literal (host : Host) {ip : IpAddress} (h : ofText? literal = some ip) :
    host.resolve? literal = some [ip] := by
  rw [resolve?_eq, literal?_eq, h]
  rfl

theorem resolve?_of_name (host : Host) (hplain : ':' ∉ name.toList) (h : ofText? name = none)
    (ips : List IpAddress) :
    host.resolve? name = some ips ↔ host.lookup name = some ips ∧ ips ≠ [] := by
  rw [resolve?_eq, literal?_eq, ofTextWithPort?_eq_none hplain, withoutPort_of_not_mem hplain, h]
  simp [Option.filter_eq_some_iff]

theorem resolves (host : Host) : host.Resolves where
  literal _ _ h := host.resolve?_of_literal h
  olderWithPort literal value port h hport := by
    obtain ⟨n, holder⟩ := older_eq_some_of_ofText? h
    rw [host.resolve?_withPort (not_mem_of_older holder) hport.isPort, host.resolve?_of_literal h]
  newerWithPort literal value port h hport := by
    rw [host.resolve?_inBrackets h hport, host.resolve?_of_literal h]
  name _ ips hplain h := host.resolve?_of_name hplain h ips
  nameWithPort name port ips hplain h hport := by
    rw [host.resolve?_withPort hplain hport.isPort, host.resolve?_of_name hplain h]

end Host
end RecordRelay
