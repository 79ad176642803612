import RecordRelay.Discovery.PeerSource
import RecordRelay.PeerRing

/-! The rings and observers that follow one peer source. A ring applies every list it hears and
stays as long as it is in use; once it is dropped it unsubscribes at the next call. An observer
notes every list it hears and answers as it likes. -/
namespace RecordRelay

inductive Follower where
  | ring (index : Nat)
  | observer (index : Nat)
  deriving DecidableEq

/-- The answer of an observer to a call, given how many calls it has had before. -/
abbrev Observer := Nat → List String → Bool

/-- The rings and observers that were ever made to follow a source. -/
structure Followers where
  /-- The rings in the order they were made; a dropped one leaves its place empty. -/
  rings : List (Option PeerRing)
  observers : List Observer
  /-- The lists that observers heard, in order. -/
  heard : List (Nat × List String)

namespace Followers

def none : Followers := ⟨[], [], []⟩

instance : Inhabited Followers := ⟨none⟩

/-- The ring of an index, if it is in use. -/
def ring? (followers : Followers) (index : Nat) : Option PeerRing :=
  (followers.rings[index]?).join

def setRing (followers : Followers) (index : Nat) (ring : Option PeerRing) : Followers :=
  { followers with rings := followers.rings.set index ring }

def callCount (followers : Followers) (index : Nat) : Nat :=
  (followers.heard.filter fun entry => entry.1 = index).length

/-- Calls one follower with a peer list and takes its answer. -/
def notify (follower : Follower) (peers : List String) (followers : Followers) :
    Bool × Followers :=
  match follower with
  | .ring index =>
    match followers.ring? index with
    | some ring => (true, followers.setRing index (some (ring.update peers)))
    | .none => (false, followers)
  | .observer index =>
    match followers.observers[index]? with
    | some answer =>
      (answer (followers.callCount index) peers,
        { followers with heard := followers.heard ++ [(index, peers)] })
    | .none => (false, followers)

end Followers

/-- A peer source together with those who follow it. -/
structure Following where
  source : PeerSource Follower
  followers : Followers

namespace Following

def ofSource (source : PeerSource Follower) : Following := ⟨source, .none⟩

instance : Inhabited Following := ⟨ofSource (.fixed [])⟩

/-- Replaces the peers of the source and says whether the set changed. -/
def update (following : Following) (peers : List String) : Bool × Following :=
  let (changed, source, followers) :=
    following.source.update Followers.notify peers following.followers
  (changed, ⟨source, followers⟩)

def listen (following : Following) (follower : Follower) : Following :=
  let (source, followers) := following.source.listen Followers.notify follower following.followers
  ⟨source, followers⟩

/-- Makes a ring of the current peers that follows the source from now on. -/
def addRing (following : Following) (virtualNodes : Nat) : Nat × Following :=
  let index := following.followers.rings.length
  let ring := PeerRing.ofPeers virtualNodes following.source.peers
  let followers := { following.followers with rings := following.followers.rings ++ [some ring] }
  (index, ({ following with followers } : Following).listen (.ring index))

def dropRing (following : Following) (index : Nat) : Following :=
  { following with followers := following.followers.setRing index none }

/-- Adds an observer that follows the source from now on. -/
def addObserver (following : Following) (answer : Observer) : Following :=
  let index := following.followers.observers.length
  let followers :=
    { following.followers with observers := following.followers.observers ++ [answer] }
  ({ following with followers } : Following).listen (.observer index)

/-- Makes a ring follow a list of its own, without the source. -/
def updateRing (following : Following) (index : Nat) (peers : List String) : Following :=
  match following.followers.ring? index with
  | some ring =>
    { following with followers := following.followers.setRing index (some (ring.update peers)) }
  | none => following

end Following

end RecordRelay
