import RecordRelay.Net.Host
import RecordRelay.Text.Duration

/-! A host is asked about the same few peer addresses again and again, so answers and the list of
its interfaces are kept for a while. Addresses that lead nowhere are asked about anew each time. -/
namespace RecordRelay

/-- What is remembered about the locality of peer addresses. -/
structure Locality where
  /-- Addresses that belong to the host whatever its interfaces say. -/
  configured : List IpAddress
  /-- How long an answer or a list of interfaces is kept. -/
  lifetime : Nanoseconds
  /-- The addresses of the host when its interfaces were last listed. -/
  hostAddresses : List IpAddress
  listedAt : Nanoseconds
  /-- The answers with the times at which they were found, the latest first. -/
  answers : List (String × Bool × Nanoseconds)

namespace Locality

/-- The lifetime unless another one is asked for: a minute. -/
def standardLifetime : Nanoseconds := Text.ofMilliseconds 60000

/-- The addresses of a host, with those it was told. -/
def addressesOf (host : Host) (configured : List IpAddress) : List IpAddress :=
  configured ++ host.interfaces

def start (host : Host) (configured : List IpAddress) (lifetime now : Nanoseconds) : Locality :=
  ⟨configured, lifetime, addressesOf host configured, now, []⟩

def remembered? (locality : Locality) (address : String) (now : Nanoseconds) : Option Bool :=
  (locality.answers.find? fun entry => entry.1 = address).bind fun (_, answer, found) =>
    if now - found < locality.lifetime then some answer else none

/-- The interfaces are listed again once the list is too old. -/
def refresh (locality : Locality) (host : Host) (now : Nanoseconds) : Locality :=
  if now - locality.listedAt < locality.lifetime then locality
  else { locality with hostAddresses := addressesOf host locality.configured, listedAt := now }

/-- One of several internet addresses belongs to the host. The interfaces are only looked at for
an address whose kind does not say it. -/
def anyOwned (host : Host) (now : Nanoseconds) : List IpAddress → Locality → Bool × Locality
  | [], locality => (false, locality)
  | ip :: rest, locality =>
    if ip.isLoopback || ip.isUnspecified then (true, locality)
    else
      let locality := locality.refresh host now
      if locality.hostAddresses.contains ip then (true, locality)
      else anyOwned host now rest locality

def remember (locality : Locality) (address : String) (answer : Bool) (now : Nanoseconds) :
    Locality :=
  { locality with
    answers := (address, answer, now) :: locality.answers.filter fun entry => entry.1 ≠ address }

/-- Whether a peer address leads to the host, from memory where it can be. -/
def isLocal? (locality : Locality) (host : Host) (address : String) (now : Nanoseconds) :
    Option Bool × Locality :=
  match locality.remembered? address now with
  | some answer => (some answer, locality)
  | none =>
    match host.resolve? address with
    | none => (none, locality)
    | some ips =>
      let (answer, locality) := anyOwned host now ips locality
      (some answer, locality.remember address answer now)

end Locality

/-- The rule of a host that treats exactly the given peer addresses as its own, and cannot resolve
some. Nothing is looked up. -/
def fixedLocality (own unresolved : List String) (address : String) : Option Bool :=
  if unresolved.contains address then none else some (own.contains address)

end RecordRelay
