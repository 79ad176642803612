/-! A peer source yields the current peer list. A fixed list never changes, so nobody who listens to
it is ever called. A changing list is a set, kept in order; listeners are called with the whole
list, once when they are added and once for every change, and are dropped after the first call they
answer with `false`. What a listener does when it is called is left open: `notify` runs it on a
state of the caller's choice. -/
namespace RecordRelay

/-- A list of texts in order and without repetition, with one more text put in its place. -/
def insertText (text : String) : List String → List String
  | [] => [text]
  | other :: rest =>
    if text = other then other :: rest
    else if text < other then text :: other :: rest
    else other :: insertText text rest

/-- The texts of a list in order, without repetition. -/
def sortedSet (texts : List String) : List String :=
  texts.foldl (fun sorted text => insertText text sorted) []

/-- Where the peer list comes from, with the listeners of type `Listener` that follow it. -/
inductive PeerSource (Listener : Type) where
  /-- A list that never changes. -/
  | fixed (peers : List String)
  /-- A set of peers that changes, and the listeners that hear of it, the oldest first. -/
  | changing (peers : List String) (listeners : List Listener)

namespace PeerSource

variable {Listener σ : Type}

def ofInitial (peers : List String) : PeerSource Listener := changing (sortedSet peers) []

def peers : PeerSource Listener → List String
  | fixed peers => peers
  | changing peers _ => peers

def listeners : PeerSource Listener → List Listener
  | fixed _ => []
  | changing _ listeners => listeners

/-- Calls listeners in order with a peer list and keeps those that answer `true`. -/
def call (notify : Listener → List String → σ → Bool × σ) (peers : List String) :
    List Listener → σ → List Listener × σ
  | [], state => ([], state)
  | listener :: rest, state =>
    let (stays, state) := notify listener peers state
    let (kept, state) := call notify peers rest state
    (if stays then listener :: kept else kept, state)

/-- Replaces the peers. Says whether the set changed; listeners are only called if it did. A fixed
list stays as it is. -/
def update (notify : Listener → List String → σ → Bool × σ) (source : PeerSource Listener)
    (next : List String) (state : σ) : Bool × PeerSource Listener × σ :=
  match source with
  | fixed peers => (false, fixed peers, state)
  | changing peers listeners =>
    let next := sortedSet next
    if next = peers then (false, changing peers listeners, state)
    else
      let (kept, state) := call notify next listeners state
      (true, changing next kept, state)

/-- Adds a listener, which is called at once with the current list. -/
def listen (notify : Listener → List String → σ → Bool × σ) (source : PeerSource Listener)
    (listener : Listener) (state : σ) : PeerSource Listener × σ :=
  match source with
  | fixed peers => (fixed peers, state)
  | changing peers listeners =>
    let (stays, state) := notify listener peers state
    (changing peers (if stays then listeners ++ [listener] else listeners), state)

end PeerSource

end RecordRelay
