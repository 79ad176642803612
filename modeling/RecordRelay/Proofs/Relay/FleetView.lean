import RecordRelay.Proofs.Relay.Operations
import RecordRelay.Proofs.Ring.Agreement

/-! Only a registration that needs the ring changes what a node knows of the other nodes, and the
ring that it makes lists the peers of the source. So a node whose source denotes the addresses of a
fleet has a ring of exactly these for as long as nobody gives it other peers. -/
namespace RecordRelay

namespace Following

/-- A new ring lists the current peers, once or twice in a row. -/
theorem ring?_addRing (following : Following) (virtualNodes : Nat) :
    ∃ ring, (following.addRing virtualNodes).2.followers.ring?
          (following.addRing virtualNodes).1 = some ring
      ∧ (ring = PeerRing.ofPeers virtualNodes following.source.peers
        ∨ ring = (PeerRing.ofPeers virtualNodes following.source.peers).update
            following.source.peers) := by
  obtain ⟨source, followers⟩ := following
  have hnew (ring : PeerRing) :
      ({ followers with rings := followers.rings ++ [some ring] } : Followers).ring?
        followers.rings.length = some ring := by
    rw [Followers.ring?, List.getElem?_concat_length]
    rfl
  cases source with
  | fixed peers => exact ⟨_, hnew _, .inl rfl⟩
  | changing peers listeners =>
    refine ⟨_, ?_, .inr rfl⟩
    simp only [addRing, listen, PeerSource.listen, Followers.notify, hnew]
    rw [Followers.ring?, Followers.setRing, List.getElem?_set_self (by simp)]
    rfl

theorem peers_addRing (following : Following) (virtualNodes : Nat) :
    (following.addRing virtualNodes).2.source.peers = following.source.peers := by
  obtain ⟨source, followers⟩ := following
  cases source <;> rfl

end Following

namespace Relay

/-- What a node knows of its fleet: its settings, the peer source with the rings that follow it,
which of them is its own, and where addresses lead. -/
def fleetView (relay : Relay) : Settings × Following × Option Nat × (String → Option Bool) :=
  (relay.settings, relay.following, relay.ring, relay.isLocal?)

variable {relay next : Relay}

theorem fleetView_forward (relay : Relay) (index : Nat) (records : List Record) :
    (relay.forward index records).2.fleetView = relay.fleetView := by
  rw [forward]
  split <;> rfl

theorem fleetView_receive (relay : Relay) (index : Nat) (now : Nanoseconds) :
    (relay.receive index now).2.fleetView = relay.fleetView := by
  rw [receive]
  split <;> rfl

theorem fleetView_takeJob {pool : Nat} {job : Job} (h : relay.takeJob pool = some (job, next)) :
    next.fleetView = relay.fleetView := by
  obtain ⟨found, after, -, -, rfl⟩ := takeJob_eq_some h
  rfl

theorem fleetView_finishJob {pool place : Nat} {job : Job}
    (h : relay.finishJob pool place = some (job, next)) : next.fleetView = relay.fleetView := by
  obtain ⟨found, after, -, -, rfl⟩ := finishJob_eq_some h
  rfl

theorem fleetView_complete (relay : Relay) (job : Job) (outcome : Outcome) :
    (relay.complete job outcome).fleetView = relay.fleetView := by
  rw [complete]
  split <;> rfl

theorem fleetView_accept (relay : Relay) (payload : List UInt8) :
    (relay.accept payload).2.fleetView = relay.fleetView := by
  rcases relay.accept_cases payload with ⟨status, -, heq⟩ | ⟨_, _, _, _, -, -, -, -, heq⟩ <;>
    rw [heq] <;> rfl

theorem fleetView_shutDown (relay : Relay) : relay.shutDown.fleetView = relay.fleetView := by
  rw [shutDown]
  split <;> rfl

/-- A node at one of some addresses, which it can tell from the others, with a ring of them all. It
sends records to the others or keeps everything. -/
structure Located (addresses : List String) (own : String) (sends : Bool) (relay : Relay) :
    Prop where
  peers : PeerRing.Denotes relay.following.source.peers addresses
  resolves : ∀ address ∈ addresses, relay.isLocal? address = some (decide (address = own))
  configured : relay.settings.arePeersConfigured = sends
  ring : relay.peerRing.Lists addresses

variable {addresses : List String} {own : String} {sends : Bool}

theorem Located.of_fleetView_eq (h : relay.Located addresses own sends)
    (hsame : next.fleetView = relay.fleetView) : next.Located addresses own sends := by
  obtain ⟨hsettings, hrest⟩ := Prod.mk.inj hsame
  obtain ⟨hfollowing, hrest⟩ := Prod.mk.inj hrest
  obtain ⟨hring, hresolver⟩ := Prod.mk.inj hrest
  refine ⟨?_, ?_, ?_, ?_⟩
  · rw [hfollowing]
    exact h.peers
  · rw [hresolver]
    exact h.resolves
  · rw [hsettings]
    exact h.configured
  · rw [peerRing, hring, hfollowing]
    exact h.ring

theorem Located.openRing (h : relay.Located addresses own sends)
    (hdistinct : PeerRing.Distinguished addresses) :
    relay.openRing.Located addresses own sends := by
  rw [Relay.openRing]
  cases hring : relay.ring with
  | some index => exact h
  | none =>
    have hpeers := relay.following.peers_addRing PeerRing.defaultVirtualNodes
    obtain ⟨ring, hfound, hor⟩ := relay.following.ring?_addRing PeerRing.defaultVirtualNodes
    refine ⟨?_, h.resolves, h.configured, ?_⟩
    · show PeerRing.Denotes (relay.following.addRing _).2.source.peers addresses
      rw [hpeers]
      exact h.peers
    · have hlists := PeerRing.lists_ofPeers hdistinct h.peers
      simp only [peerRing, Option.bind_some, hfound]
      rcases hor with rfl | rfl
      · exact hlists
      · exact hlists.update hdistinct h.peers

theorem fleetView_openPool {launch : Except String Unit} {index : Nat}
    (h : relay.openPool launch = .ok (index, next)) : next.fleetView = relay.fleetView := by
  obtain ⟨-, rfl⟩ | ⟨-, rfl⟩ := openPool_cases h <;> rfl

theorem Located.register {pipeline plugin : String} {keys : List String}
    {launch : Except String Unit} {index : Nat} (h : relay.Located addresses own sends)
    (hdistinct : PeerRing.Distinguished addresses)
    (hregister : relay.register pipeline plugin keys launch = .ok (index, next)) :
    next.Located addresses own sends := by
  rw [Relay.register] at hregister
  split_ifs at hregister
  · obtain rfl := congrArg Prod.snd (Except.ok.inj hregister)
    exact h.of_fleetView_eq rfl
  · cases hopen : relay.openPool launch with
    | error cause =>
      rw [hopen] at hregister
      contradiction
    | ok opened =>
      rw [hopen] at hregister
      obtain rfl := congrArg Prod.snd (Except.ok.inj hregister)
      have hopened := (h.of_fleetView_eq (fleetView_openPool hopen)).openRing hdistinct
      exact hopened.of_fleetView_eq rfl

end Relay

end RecordRelay
