import RecordRelay.Proofs.Discovery.Followers

/-! Lists are put into a changing source, rings and observers come, rings are dropped: after every
such step the rings in use have the peers of the source and give every key to the owner that a new
ring of these peers gives it to. The next change takes the dropped rings off the source, and no
other one. -/
namespace RecordRelay

namespace Following

inductive Act where
  | update (peers : List String)
  | addRing (virtualNodes : Nat)
  | dropRing (index : Nat)
  | addObserver (answer : Observer)

def act (following : Following) : Act → Following
  | .update peers => (following.update peers).2
  | .addRing virtualNodes => (following.addRing virtualNodes).2
  | .dropRing index => following.dropRing index
  | .addObserver answer => following.addObserver answer

/-- A source that starts with some peers and no followers, after acts. -/
def run (initial : List String) (acts : List Act) : Following :=
  acts.foldl act (.ofSource (.ofInitial initial))

/-- The rings in use after an act: each with its number of virtual nodes, in the order they were
made, with nothing in the place of a dropped one. -/
def Act.rings (rings : List (Option Nat)) : Act → List (Option Nat)
  | .addRing virtualNodes => rings ++ [some virtualNodes]
  | .dropRing index => rings.set index none
  | _ => rings

def inUse (acts : List Act) : List (Option Nat) := acts.foldl Act.rings []

def Act.lists : Act → List (List String)
  | .update peers => [peers]
  | _ => []

/-- The lists that were put into a source, the first of them when it was made. -/
def lists (initial : List String) (acts : List Act) : List (List String) :=
  initial :: acts.flatMap Act.lists

theorem run_concat (initial : List String) (acts : List Act) (last : Act) :
    run initial (acts ++ [last]) = (run initial acts).act last := List.foldl_append

theorem inUse_concat (acts : List Act) (last : Act) :
    inUse (acts ++ [last]) = last.rings (inUse acts) := List.foldl_append

theorem lists_concat (initial : List String) (acts : List Act) (last : Act) :
    lists initial (acts ++ [last]) = lists initial acts ++ last.lists := by
  simp [lists]

variable {following : Following}

theorem update_cases (h : following.source.Sorted) (peers : List String) :
    ((∀ peer, peer ∈ peers ↔ peer ∈ following.source.peers) ∧
        following.update peers = (false, following)) ∨
      ((¬ ∀ peer, peer ∈ peers ↔ peer ∈ following.source.peers) ∧
        following.update peers =
          (true, ⟨.changing (sortedSet peers)
              (PeerSource.call Followers.notify (sortedSet peers) following.source.listeners
                following.followers).1,
            (PeerSource.call Followers.notify (sortedSet peers) following.source.listeners
              following.followers).2⟩)) := by
  rcases h.update_cases peers following.followers with ⟨hsame, heq⟩ | ⟨hother, heq⟩
  · refine .inl ⟨hsame, ?_⟩
    rw [update, heq]
  · refine .inr ⟨hother, ?_⟩
    rw [update, heq]

/-- A new ring applies the list twice, when it is made and when it is subscribed. -/
theorem addRing_eq (h : following.source.Sorted) (virtualNodes : Nat) :
    (following.addRing virtualNodes).2 =
      ⟨.changing following.source.peers
          (following.source.listeners ++ [.ring following.followers.rings.length]),
        { following.followers with
          rings := following.followers.rings ++
            [some ((PeerRing.ofPeers virtualNodes following.source.peers).update
              following.source.peers)] }⟩ := by
  obtain ⟨source, followers⟩ := following
  cases source with
  | fixed peers => exact absurd h.changing (by simp)
  | changing peers listeners =>
    have hnew (ring : PeerRing) :
        ({ followers with rings := followers.rings ++ [some ring] } : Followers).ring?
          followers.rings.length = some ring := by
      rw [Followers.ring?, List.getElem?_concat_length]
      rfl
    simp only [addRing, listen, PeerSource.listen, Followers.notify, hnew]
    simp [Followers.setRing, PeerSource.peers, PeerSource.listeners]

/-- An observer changes neither the peers nor the rings, nor which of them are subscribed. -/
theorem addObserver_eq (h : following.source.Sorted) (answer : Observer) :
    ∃ listeners heard, following.addObserver answer =
        ⟨.changing following.source.peers listeners,
          ⟨following.followers.rings, following.followers.observers ++ [answer], heard⟩⟩ ∧
      ∀ index, .ring index ∈ listeners ↔ .ring index ∈ following.source.listeners := by
  obtain ⟨source, followers⟩ := following
  cases source with
  | fixed peers => exact absurd h.changing (by simp)
  | changing peers listeners =>
    simp only [addObserver, listen, PeerSource.listen, Followers.notify,
      List.getElem?_concat_length]
    refine ⟨_, _, rfl, fun index => ?_⟩
    split_ifs <;> simp [PeerSource.listeners]

/-- The rings in use are subscribed to a changing source and have its peers. -/
structure UpToDate (known : List String) (following : Following) : Prop where
  sorted : following.source.Sorted
  known : ∀ address ∈ PeerRing.addresses following.source.peers, address ∈ known
  subscribed : ∀ index ring, following.followers.ring? index = some ring →
    .ring index ∈ following.source.listeners
  tracks : ∀ index ring, following.followers.ring? index = some ring →
    ring.Tracks following.source.peers

variable {known peers : List String}

theorem upToDate_ofInitial (hknown : ∀ address ∈ PeerRing.addresses peers, address ∈ known) :
    (ofSource (.ofInitial peers)).UpToDate known where
  sorted := .ofInitial peers
  known := by
    simpa only [ofSource, PeerSource.ofInitial, PeerSource.peers, PeerRing.mem_addresses_sortedSet]
  subscribed index ring hring := absurd hring (by simp [ofSource, Followers.ring?, Followers.none])
  tracks index ring hring := absurd hring (by simp [ofSource, Followers.ring?, Followers.none])

theorem UpToDate.update (h : following.UpToDate known)
    (hdistinct : PeerRing.Distinguished known)
    (hpeers : ∀ address ∈ PeerRing.addresses peers, address ∈ known) :
    (following.update peers).2.UpToDate known := by
  rcases update_cases h.sorted peers with ⟨-, heq⟩ | ⟨-, heq⟩
  · rw [heq]
    exact h
  · have hknown : ∀ address ∈ PeerRing.addresses (sortedSet peers), address ∈ known := by
      simpa only [PeerRing.mem_addresses_sortedSet]
    have htracks := Followers.tracks_call hdistinct h.known hknown following.source.listeners
      following.followers fun index ring hring =>
        .inr ⟨h.tracks index ring hring, h.subscribed index ring hring⟩
    rw [heq]
    refine ⟨⟨rfl, pairwise_sortedSet peers⟩, hknown, fun index ring hring => ?_, htracks⟩
    have hlive : (following.followers.ring? index).isSome := by
      rw [← Followers.exists_ring?_iff, ← Followers.counts_call (sortedSet peers)
        following.source.listeners, Followers.exists_ring?_iff, hring]
      rfl
    obtain ⟨old, hold⟩ := Option.isSome_iff_exists.mp hlive
    exact (Followers.mem_call_ring _ _ _).mpr ⟨h.subscribed index old hold, hlive⟩

theorem UpToDate.addRing (h : following.UpToDate known) (hdistinct : PeerRing.Distinguished known)
    (virtualNodes : Nat) : (following.addRing virtualNodes).2.UpToDate known := by
  have hnew : ((PeerRing.ofPeers virtualNodes following.source.peers).update
      following.source.peers).Tracks following.source.peers :=
    (PeerRing.tracks_ofPeers virtualNodes hdistinct h.known).update hdistinct h.known h.known
  -- A ring is either the new one or one that was in use before.
  have hcases {index : Nat} {ring : PeerRing}
      (hring : (following.addRing virtualNodes).2.followers.ring? index = some ring) :
      following.followers.ring? index = some ring ∨ (index = following.followers.rings.length ∧
        ring = (PeerRing.ofPeers virtualNodes following.source.peers).update
          following.source.peers) := by
    rw [addRing_eq h.sorted, Followers.ring?, List.getElem?_append] at hring
    split_ifs at hring with hlt
    · exact .inl hring
    · obtain hzero | hpos := Nat.eq_zero_or_pos (index - following.followers.rings.length)
      · rw [hzero] at hring
        exact .inr ⟨by omega, (Option.some.inj hring).symm⟩
      · rw [List.getElem?_eq_none hpos] at hring
        contradiction
  have heq := addRing_eq h.sorted virtualNodes
  refine ⟨?_, ?_, fun index ring hring => ?_, fun index ring hring => ?_⟩
  · rw [heq]
    exact ⟨rfl, h.sorted.ordered⟩
  · rw [heq]
    exact h.known
  · have hor := hcases hring
    rw [heq]
    rcases hor with hold | ⟨rfl, -⟩
    · exact List.mem_append_left _ (h.subscribed index ring hold)
    · exact List.mem_append_right _ (List.mem_singleton_self _)
  · have hor := hcases hring
    rw [heq]
    rcases hor with hold | ⟨-, rfl⟩
    · exact h.tracks index ring hold
    · exact hnew

theorem UpToDate.dropRing (h : following.UpToDate known) (index : Nat) :
    (following.dropRing index).UpToDate known := by
  have hold {other : Nat} {ring : PeerRing}
      (hring : (following.dropRing index).followers.ring? other = some ring) :
      following.followers.ring? other = some ring := by
    by_cases heq : index = other
    · subst heq
      rw [Following.dropRing, Followers.ring?_setRing_none] at hring
      contradiction
    · rwa [Following.dropRing, Followers.ring?_setRing_ne heq] at hring
  exact ⟨h.sorted, h.known, fun other ring hring => h.subscribed other ring (hold hring),
    fun other ring hring => h.tracks other ring (hold hring)⟩

theorem UpToDate.addObserver (h : following.UpToDate known) (answer : Observer) :
    (following.addObserver answer).UpToDate known := by
  obtain ⟨listeners, heard, heq, hsame⟩ := addObserver_eq h.sorted answer
  rw [heq]
  exact ⟨⟨rfl, h.sorted.ordered⟩, h.known,
    fun index ring hring => (hsame index).mpr (h.subscribed index ring hring), h.tracks⟩

theorem UpToDate.act (h : following.UpToDate known) (hdistinct : PeerRing.Distinguished known)
    (next : Act) (hnext : ∀ address ∈ next.lists.flatMap PeerRing.addresses, address ∈ known) :
    (following.act next).UpToDate known := by
  cases next with
  | update peers =>
    rw [Act.lists, List.flatMap_singleton] at hnext
    exact h.update hdistinct hnext
  | addRing virtualNodes => exact h.addRing hdistinct virtualNodes
  | dropRing index => exact h.dropRing index
  | addObserver answer => exact h.addObserver answer

theorem sorted_act (h : following.source.Sorted) (next : Act) :
    (following.act next).source.Sorted := by
  cases next with
  | update peers =>
    rw [act]
    rcases update_cases h peers with ⟨-, heq⟩ | ⟨-, heq⟩
    · rw [heq]
      exact h
    · rw [heq]
      exact ⟨rfl, pairwise_sortedSet peers⟩
  | addRing virtualNodes =>
    rw [act, addRing_eq h]
    exact ⟨rfl, h.ordered⟩
  | dropRing index => exact h
  | addObserver answer =>
    obtain ⟨listeners, heard, heq, -⟩ := addObserver_eq h answer
    rw [act, heq]
    exact ⟨rfl, h.ordered⟩

theorem counts_act (h : following.source.Sorted) (next : Act) :
    (following.act next).followers.counts = next.rings following.followers.counts := by
  cases next with
  | update peers =>
    rw [act]
    rcases update_cases h peers with ⟨-, heq⟩ | ⟨-, heq⟩
    · rw [heq]
      rfl
    · rw [heq]
      exact Followers.counts_call _ _ _
  | addRing virtualNodes =>
    rw [act, addRing_eq h]
    exact List.map_append
  | dropRing index => exact List.map_set
  | addObserver answer =>
    obtain ⟨listeners, heard, heq, -⟩ := addObserver_eq h answer
    rw [act, heq]
    rfl

/-- The list of a source is the one that was put in last. -/
theorem peers_act (h : following.source.Sorted) (next : Act) :
    (following.act next).source.peers =
      (next.lists.getLast?.map sortedSet).getD following.source.peers := by
  cases next with
  | update peers =>
    rw [act]
    rcases update_cases h peers with ⟨hsame, heq⟩ | ⟨-, heq⟩
    · rw [heq]
      exact ((sortedSet_eq_iff h.ordered).mpr hsame).symm
    · rw [heq]
      rfl
  | addRing virtualNodes =>
    rw [act, addRing_eq h]
    rfl
  | dropRing index => rfl
  | addObserver answer =>
    obtain ⟨listeners, heard, heq, -⟩ := addObserver_eq h answer
    rw [act, heq]
    rfl

theorem sorted_run (initial : List String) (acts : List Act) :
    (run initial acts).source.Sorted := by
  induction acts using List.reverseRecOn with
  | nil => exact .ofInitial initial
  | append_singleton acts last ih =>
    rw [run_concat]
    exact sorted_act ih last

theorem counts_run (initial : List String) (acts : List Act) :
    (run initial acts).followers.counts = inUse acts := by
  induction acts using List.reverseRecOn with
  | nil => rfl
  | append_singleton acts last ih =>
    rw [run_concat, inUse_concat, counts_act (sorted_run initial acts), ih]

theorem peers_run (initial : List String) (acts : List Act) :
    (lists initial acts).getLast?.map sortedSet = some (run initial acts).source.peers := by
  induction acts using List.reverseRecOn with
  | nil => rfl
  | append_singleton acts last ih =>
    rw [run_concat, peers_act (sorted_run initial acts), lists_concat, List.getLast?_append]
    cases hlast : last.lists.getLast? with
    | none => exact ih
    | some peers => rfl

theorem upToDate_run {initial : List String} {acts : List Act}
    (hdistinct : PeerRing.Distinguished known)
    (hknown : ∀ address ∈ (lists initial acts).flatMap PeerRing.addresses, address ∈ known) :
    (run initial acts).UpToDate known := by
  induction acts using List.reverseRecOn with
  | nil =>
    refine upToDate_ofInitial fun address haddress => hknown address ?_
    exact List.mem_flatMap_of_mem (List.mem_singleton_self initial) haddress
  | append_singleton acts last ih =>
    rw [lists_concat, List.flatMap_append] at hknown
    rw [run_concat]
    have hbefore := ih fun address haddress => hknown address (List.mem_append_left _ haddress)
    exact hbefore.act hdistinct last fun address haddress =>
      hknown address (List.mem_append_right _ haddress)

/-- Whatever lists are put into a source and whoever follows it, its list is the last of them, and
the rings in use have exactly the addresses of that list and give every key to the owner that a new
ring of the list would give it to. An update that changes the list leaves those rings subscribed and
no dropped one. -/
theorem rings_in_use_are_current {initial : List String} {acts : List Act}
    (hdistinct : PeerRing.Distinguished ((lists initial acts).flatMap PeerRing.addresses)) :
    (lists initial acts).getLast?.map sortedSet = some (run initial acts).source.peers ∧
      (∀ index virtualNodes, (inUse acts)[index]? = some (some virtualNodes) →
        ∃ ring, (run initial acts).followers.ring? index = some ring ∧
          ring.virtualNodes = virtualNodes ∧
          ring.peers = sortedSet (PeerRing.addresses (run initial acts).source.peers) ∧
          ring.Alike (PeerRing.ofPeers virtualNodes (run initial acts).source.peers)) ∧
      ∀ peers,
        (((run initial acts).update peers).1 = true ↔
          ¬ ∀ peer, peer ∈ peers ↔ peer ∈ (run initial acts).source.peers) ∧
        (((run initial acts).update peers).1 = true → ∀ index,
          .ring index ∈ ((run initial acts).update peers).2.source.listeners ↔
            ∃ virtualNodes, (inUse acts)[index]? = some (some virtualNodes)) := by
  have h := upToDate_run hdistinct fun _ haddress => haddress
  rw [← counts_run initial acts]
  refine ⟨peers_run initial acts, fun index virtualNodes hcount => ?_, fun peers => ?_⟩
  · have hring : ((run initial acts).followers.ring? index).map PeerRing.virtualNodes =
        some virtualNodes := by
      rw [← Followers.counts_getElem?, hcount]
      rfl
    obtain ⟨ring, hfound, rfl⟩ := Option.map_eq_some_iff.mp hring
    have htracks := h.tracks index ring hfound
    exact ⟨ring, hfound, rfl, htracks.peers_eq,
      htracks.alike (PeerRing.tracks_ofPeers _ hdistinct h.known) rfl⟩
  · rcases update_cases h.sorted peers with ⟨hsame, heq⟩ | ⟨hother, heq⟩
    · rw [heq]
      exact ⟨iff_of_false Bool.false_ne_true (not_not_intro hsame), fun hno => by contradiction⟩
    · rw [heq]
      refine ⟨iff_of_true rfl hother, fun _ index => ?_⟩
      rw [Followers.exists_ring?_iff]
      refine (Followers.mem_call_ring _ _ _).trans (and_iff_right_of_imp fun hlive => ?_)
      obtain ⟨ring, hring⟩ := Option.isSome_iff_exists.mp hlive
      exact h.subscribed index ring hring

def dropping : List Act :=
  [.addRing 2, .addObserver fun calls _ => calls = 0, .addRing 3, .dropRing 0, .update ["c ", "b"]]

/-- The other ring has the list that was put in after that; one more change and only this ring is
still subscribed. -/
theorem rings_in_use_are_current_after_drop :
    PeerRing.Distinguished ((lists ["b", " "] dropping).flatMap PeerRing.addresses) ∧
      (∃ ring, (run ["b", " "] dropping).followers.ring? 1 = some ring ∧
        ring.peers = ["b", "c"] ∧ ring.Alike (PeerRing.ofPeers 3 ["b", "c "])) ∧
      ((run ["b", " "] dropping).update ["c", "d"]).1 = true ∧
      .ring 0 ∉ ((run ["b", " "] dropping).update ["c", "d"]).2.source.listeners ∧
      .ring 1 ∈ ((run ["b", " "] dropping).update ["c", "d"]).2.source.listeners := by
  have hdistinct : PeerRing.Distinguished
      ((lists ["b", " "] dropping).flatMap PeerRing.addresses) := by
    rw [PeerRing.Distinguished]
    decide +kernel
  obtain ⟨hlast, hrings, hupdates⟩ := rings_in_use_are_current hdistinct
  have hpeers : (run ["b", " "] dropping).source.peers = ["b", "c "] :=
    (Option.some.inj hlast).symm.trans (by decide)
  obtain ⟨ring, hring, -, hlisted, halike⟩ := hrings 1 3 rfl
  obtain ⟨hchanged, hsubscribed⟩ := hupdates ["c", "d"]
  rw [hpeers] at hlisted halike hchanged
  have htrue := hchanged.mpr fun hsame => absurd ((hsame "d").mp (by decide)) (by decide)
  refine ⟨hdistinct, ⟨ring, hring, hlisted.trans (by decide), halike⟩, htrue, fun hzero => ?_,
    (hsubscribed htrue 1).mpr ⟨3, rfl⟩⟩
  obtain ⟨virtualNodes, hcount⟩ := (hsubscribed htrue 0).mp hzero
  exact absurd (Option.some.inj hcount).symm (Option.some_ne_none _)

end Following
end RecordRelay
