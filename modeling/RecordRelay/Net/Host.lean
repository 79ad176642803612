import RecordRelay.Net.IpAddress
import RecordRelay.Text.Split

/-! A peer address is an internet address or a host name, each with or without a port. A host knows
the addresses of its network interfaces and finds the addresses of names; by these it tells whether
a peer address leads back to itself. -/
namespace RecordRelay

/-- What a host knows of the network around it. -/
structure Host where
  /-- The addresses of its network interfaces. -/
  interfaces : List IpAddress
  /-- The addresses of a name, if the name is known. -/
  lookup : String → Option (List IpAddress)

namespace Host

/-- The address by which a host of the older version reaches itself. -/
def loopback : IpAddress := .v4 0x7F000001#32

/-- A host that is connected to nothing and knows no name but its own. -/
def isolated : Host where
  interfaces := [loopback, .v6 1#128]
  lookup name := if name = "localhost" then some [.v6 1#128, loopback] else none

/-- A text is a port: a number of the 16-bit range, which may have a plus in front. -/
def isPort (cs : List Char) : Bool :=
  let digits := match cs with
    | '+' :: rest => rest
    | cs => cs
  match IpAddress.number IpAddress.port digits with
  | some (_, []) => true
  | _ => false

/-- A peer address without its port, if there is one: what stands before the only colon, where a
port stands behind it. -/
def withoutPort (address : String) : String :=
  match Text.splitAtLast? ':' address.toList with
  | some (name, port) => if !name.contains ':' && isPort port then String.ofList name else address
  | none => address

/-- The internet address that a peer address writes, with or without a port. -/
def literal? (address : String) : Option IpAddress :=
  match IpAddress.ofText? address with
  | some ip => some ip
  | none => IpAddress.ofTextWithPort? address

def resolve? (host : Host) (address : String) : Option (List IpAddress) :=
  match literal? address with
  | some ip => some [ip]
  | none =>
    let name := withoutPort address
    match IpAddress.ofText? name with
    | some ip => some [ip]
    | none => (host.lookup name).filter (!·.isEmpty)

/-- The internet address belongs to the host: by its kind, because the host was told so, or as the
address of an interface. -/
def owns (host : Host) (configured : List IpAddress) (ip : IpAddress) : Bool :=
  ip.isLoopback || ip.isUnspecified || configured.contains ip || host.interfaces.contains ip

/-- A peer address leads to the host if one of its internet addresses belongs to it. There is no
answer for an address that leads nowhere. -/
def isLocal? (host : Host) (configured : List IpAddress) (address : String) : Option Bool :=
  (host.resolve? address).map fun ips => ips.any (host.owns configured)

end Host

end RecordRelay
