import RecordRelay.Proofs.Discovery.PeerLists
import RecordRelay.Proofs.Keys

/-! The calls of the listeners of a changing source are written down with their answers, whatever it
is that the answers depend on. Each listener hears the list that it finds and then every list that
takes the place of a different one, until it first answers `false`. -/
namespace RecordRelay
namespace PeerSource

/-- A call of a listener, which is known by how many others were added before it. -/
structure Notice where
  listener : Nat
  peers : List String
  /-- The answer: whether the listener wants to be called again. -/
  stays : Bool

/-- The notices of one listener. -/
def noticesOf (listener : Nat) (notices : List Notice) : List Notice :=
  notices.filter fun notice => notice.listener = listener

/-- A listener has answered `true` to every call so far. -/
def agreed (notices : List Notice) (listener : Nat) : Bool :=
  (noticesOf listener notices).all Notice.stays

theorem noticesOf_append (listener : Nat) (a b : List Notice) :
    noticesOf listener (a ++ b) = noticesOf listener a ++ noticesOf listener b :=
  List.filter_append ..

theorem agreed_append (a b : List Notice) (listener : Nat) :
    agreed (a ++ b) listener = (agreed a listener && agreed b listener) := by
  simp [agreed, noticesOf_append]

theorem agreed_iff {notices : List Notice} {listener : Nat} :
    agreed notices listener = true ↔ ∀ notice ∈ noticesOf listener notices, notice.stays = true :=
  List.all_eq_true

theorem noticesOf_eq_nil {notices : List Notice} {listener : Nat}
    (h : listener ∉ notices.map Notice.listener) : noticesOf listener notices = [] := by
  refine List.filter_eq_nil_iff.mpr fun notice hmem heq => h ?_
  rw [← of_decide_eq_true heq]
  exact List.mem_map_of_mem hmem

/-- One call of each of some listeners with the same list, and the listeners that agree. -/
structure Round (peers : List String) (called kept : List Nat) (notices : List Notice) : Prop where
  called : notices.map Notice.listener = called
  peers : ∀ notice ∈ notices, notice.peers = peers
  kept : kept = (notices.filter Notice.stays).map Notice.listener

section Round

variable {peers : List String} {called kept : List Nat} {notices : List Notice} {listener : Nat}

theorem Round.sublist (h : Round peers called kept notices) : kept.Sublist called := by
  rw [h.kept, ← h.called]
  exact List.filter_sublist.map _

theorem Round.noticesOf_of_not_mem (h : Round peers called kept notices)
    (hnot : listener ∉ called) : noticesOf listener notices = [] :=
  noticesOf_eq_nil (h.called ▸ hnot)

/-- Who is called is called once. -/
theorem Round.exists_notice (h : Round peers called kept notices) (hdistinct : called.Nodup)
    (hmem : listener ∈ called) :
    ∃ stays, noticesOf listener notices = [⟨listener, peers, stays⟩] := by
  rw [← h.called] at hmem hdistinct
  obtain ⟨notice, hnotice, rfl⟩ := List.mem_map.mp hmem
  refine ⟨notice.stays, ?_⟩
  rw [← h.peers notice hnotice]
  exact filter_key_eq_singleton hdistinct hnotice

theorem Round.mem_kept (h : Round peers called kept notices) (hdistinct : called.Nodup) :
    listener ∈ kept ↔ listener ∈ called ∧ agreed notices listener = true := by
  constructor
  · intro hconsistent
    have hcalled := h.sublist.subset hconsistent
    refine ⟨hcalled, ?_⟩
    rw [h.kept] at hconsistent
    obtain ⟨notice, hnotice, rfl⟩ := List.mem_map.mp hconsistent
    obtain ⟨hnotice, hstays⟩ := List.mem_filter.mp hnotice
    have honly : noticesOf notice.listener notices = [notice] :=
      filter_key_eq_singleton (h.called ▸ hdistinct) hnotice
    simp [agreed, honly, hstays]
  · rintro ⟨hcalled, hagreed⟩
    rw [← h.called] at hcalled
    obtain ⟨notice, hnotice, rfl⟩ := List.mem_map.mp hcalled
    have hstays := agreed_iff.mp hagreed notice (List.mem_filter.mpr ⟨hnotice, by simp⟩)
    rw [h.kept]
    exact List.mem_map_of_mem (List.mem_filter.mpr ⟨hnotice, hstays⟩)

end Round

variable {Listener σ : Type}

/-- Calls a numbered listener and writes the call down. -/
def notifyNoted (notify : Listener → List String → σ → Bool × σ) (listener : Nat × Listener)
    (peers : List String) (noted : List Notice × σ) : Bool × List Notice × σ :=
  let (stays, state) := notify listener.2 peers noted.2
  (stays, noted.1 ++ [⟨listener.1, peers, stays⟩], state)

/-- Calling the listeners of a source is a round. -/
theorem exists_round (notify : Listener → List String → σ → Bool × σ) (peers : List String)
    (listeners : List (Nat × Listener)) (noted : List Notice × σ) :
    ∃ notices,
      (call (notifyNoted notify) peers listeners noted).2.1 = noted.1 ++ notices ∧
      Round peers (listeners.map Prod.fst)
        ((call (notifyNoted notify) peers listeners noted).1.map Prod.fst) notices := by
  induction listeners generalizing noted with
  | nil => exact ⟨[], by simp [call], by simp, by simp, by simp [call]⟩
  | cons listener rest ih =>
    let answer := notify listener.2 peers noted.2
    let notice : Notice := ⟨listener.1, peers, answer.1⟩
    obtain ⟨notices, hnoted, hround⟩ := ih (noted.1 ++ [notice], answer.2)
    refine ⟨notice :: notices, ?_, ?_, ?_, ?_⟩
    · rw [call]
      exact hnoted.trans (by simp)
    · rw [List.map_cons, hround.called, List.map_cons]
    · exact List.forall_mem_cons.mpr ⟨rfl, hround.peers⟩
    · have hconsistent := hround.kept
      cases hstays : answer.1 <;>
        simpa [call, notifyNoted, notice, answer, hstays] using hconsistent

/-- A source whose listeners are numbered in the order in which they were added, with the notices so
far and the state that their answers depend on. -/
structure Watched (Listener σ : Type) where
  source : PeerSource (Nat × Listener)
  /-- How many listeners were added. -/
  added : Nat
  notices : List Notice
  state : σ

inductive Turn (Listener σ : Type) where
  | update (peers : List String)
  | listen (listener : Listener)
  /-- Something elsewhere, which may change the answers to come. -/
  | elsewhere (change : σ → σ)

def Turn.isListen : Turn Listener σ → Bool
  | listen _ => true
  | _ => false

namespace Watched

def update (notify : Listener → List String → σ → Bool × σ) (watched : Watched Listener σ)
    (peers : List String) : Bool × Watched Listener σ :=
  let (changed, source, notices, state) :=
    watched.source.update (notifyNoted notify) peers (watched.notices, watched.state)
  (changed, { watched with source, notices, state })

def listen (notify : Listener → List String → σ → Bool × σ) (watched : Watched Listener σ)
    (listener : Listener) : Watched Listener σ :=
  let (source, notices, state) := watched.source.listen (notifyNoted notify)
    (watched.added, listener) (watched.notices, watched.state)
  ⟨source, watched.added + 1, notices, state⟩

def turn (notify : Listener → List String → σ → Bool × σ) (watched : Watched Listener σ) :
    Turn Listener σ → Watched Listener σ
  | .update peers => (watched.update notify peers).2
  | .listen listener => watched.listen notify listener
  | .elsewhere change => { watched with state := change watched.state }

def runFrom (notify : Listener → List String → σ → Bool × σ) (watched : Watched Listener σ)
    (turns : List (Turn Listener σ)) : Watched Listener σ :=
  turns.foldl (turn notify) watched

/-- A changing source that starts with some peers and no listeners, after turns. -/
def run (notify : Listener → List String → σ → Bool × σ) (initial : List String) (state : σ)
    (turns : List (Turn Listener σ)) : Watched Listener σ :=
  runFrom notify ⟨.ofInitial initial, 0, [], state⟩ turns

variable (notify : Listener → List String → σ → Bool × σ) {watched : Watched Listener σ}
  {listener : Nat}

theorem run_append (initial : List String) (state : σ) (before after : List (Turn Listener σ)) :
    run notify initial state (before ++ after) =
      (run notify initial state before).runFrom notify after := List.foldl_append

/-- The subscribed listeners are those that have agreed to every call, the oldest first. -/
structure Consistent (watched : Watched Listener σ) : Prop where
  sorted : watched.source.Sorted
  known : ∀ notice ∈ watched.notices, notice.listener < watched.added
  ordered : ∀ notice ∈ watched.notices, notice.peers.Pairwise (· < ·)
  oldestFirst : (watched.source.listeners.map Prod.fst).Pairwise (· < ·)
  mem_iff : ∀ listener, listener ∈ watched.source.listeners.map Prod.fst ↔
    listener < watched.added ∧ agreed watched.notices listener = true

theorem Consistent.nodup (h : watched.Consistent) : (watched.source.listeners.map Prod.fst).Nodup :=
  h.oldestFirst.imp ne_of_lt

theorem Consistent.noticesOf_of_le (h : watched.Consistent) (hle : watched.added ≤ listener) :
    noticesOf listener watched.notices = [] := by
  refine noticesOf_eq_nil fun hmem => ?_
  obtain ⟨notice, hnotice, rfl⟩ := List.mem_map.mp hmem
  exact absurd (h.known notice hnotice) (Nat.not_lt.mpr hle)

/-- All that an update can do: nothing where no entry is new or missing, else a round of calls of
the subscribed listeners. -/
theorem Consistent.update_cases (h : watched.Consistent) (peers : List String) :
    ((∀ peer, peer ∈ peers ↔ peer ∈ watched.source.peers) ∧
        watched.update notify peers = (false, watched)) ∨
      ((¬ ∀ peer, peer ∈ peers ↔ peer ∈ watched.source.peers) ∧
        ∃ listeners notices state,
          watched.update notify peers = (true, ⟨.changing (sortedSet peers) listeners,
            watched.added, watched.notices ++ notices, state⟩) ∧
          Round (sortedSet peers) (watched.source.listeners.map Prod.fst)
            (listeners.map Prod.fst) notices) := by
  obtain ⟨notices, hnotices, hround⟩ := exists_round notify (sortedSet peers)
    watched.source.listeners (watched.notices, watched.state)
  let noted := call (notifyNoted notify) (sortedSet peers) watched.source.listeners
    (watched.notices, watched.state)
  have hcases : _ ∨ _ ∧ watched.source.update (notifyNoted notify) peers
      (watched.notices, watched.state) = (true, .changing (sortedSet peers) noted.1, noted.2) :=
    h.sorted.update_cases peers (watched.notices, watched.state)
  rcases hcases with ⟨hsame, heq⟩ | ⟨hother, heq⟩
  · refine .inl ⟨hsame, ?_⟩
    rw [update, heq]
  · refine .inr ⟨hother, noted.1, notices, noted.2.2, ?_, hround⟩
    rw [update, heq, ← hnotices]

/-- A new listener is called with the list that it finds. -/
theorem Consistent.listen_eq (h : watched.Consistent) (new : Listener) :
    ∃ stays state, watched.listen notify new =
      ⟨.changing watched.source.peers
          (if stays then watched.source.listeners ++ [(watched.added, new)]
            else watched.source.listeners),
        watched.added + 1,
        watched.notices ++ [⟨watched.added, watched.source.peers, stays⟩], state⟩ := by
  let answer := notify new watched.source.peers watched.state
  refine ⟨answer.1, answer.2, ?_⟩
  rw [listen, h.sorted.changing]
  rfl

theorem consistent_start (initial : List String) (state : σ) :
    (run notify initial state []).Consistent where
  sorted := .ofInitial initial
  known := nofun
  ordered := nofun
  oldestFirst := List.Pairwise.nil
  mem_iff listener := by simp [run, runFrom, ofInitial, listeners]

theorem Consistent.update (h : watched.Consistent) (peers : List String) :
    (watched.update notify peers).2.Consistent := by
  rcases h.update_cases notify peers with
    ⟨-, heq⟩ | ⟨-, kept, notices, state, heq, hround⟩
  · rw [heq]
    exact h
  · rw [heq]
    refine ⟨⟨rfl, pairwise_sortedSet peers⟩, ?_, ?_, h.oldestFirst.sublist hround.sublist, ?_⟩
    · refine List.forall_mem_append.mpr ⟨h.known, fun notice hmem => ?_⟩
      have hcalled : notice.listener ∈ watched.source.listeners.map Prod.fst := by
        rw [← hround.called]
        exact List.mem_map_of_mem hmem
      exact ((h.mem_iff _).mp hcalled).1
    · refine List.forall_mem_append.mpr ⟨h.ordered, fun notice hmem => ?_⟩
      rw [hround.peers notice hmem]
      exact pairwise_sortedSet peers
    · intro listener
      show listener ∈ kept.map Prod.fst ↔ _
      rw [hround.mem_kept h.nodup, h.mem_iff, agreed_append, Bool.and_eq_true, and_assoc]

theorem Consistent.listen (h : watched.Consistent) (new : Listener) :
    (watched.listen notify new).Consistent := by
  obtain ⟨stays, state, heq⟩ := h.listen_eq notify new
  have hfresh : watched.added ∉ watched.source.listeners.map Prod.fst := fun hmem =>
    absurd ((h.mem_iff _).mp hmem).1 (Nat.lt_irrefl _)
  rw [heq]
  refine ⟨⟨rfl, h.sorted.ordered⟩, ?_, ?_, ?_, fun listener => ?_⟩
  · refine List.forall_mem_append.mpr ⟨fun notice hmem => ?_, ?_⟩
    · exact Nat.lt_succ_of_lt (h.known notice hmem)
    · exact List.forall_mem_singleton.mpr (Nat.lt_succ_self _)
  · exact List.forall_mem_append.mpr
      ⟨h.ordered, List.forall_mem_singleton.mpr h.sorted.ordered⟩
  · cases stays with
    | false => exact h.oldestFirst
    | true =>
      show ((watched.source.listeners ++ [(watched.added, new)]).map Prod.fst).Pairwise _
      rw [List.map_append, List.pairwise_append]
      refine ⟨h.oldestFirst, List.pairwise_singleton _ _, fun a ha b hb => ?_⟩
      rw [List.mem_singleton.mp hb]
      exact ((h.mem_iff a).mp ha).1
  · have hold := h.mem_iff listener
    rw [agreed_append]
    by_cases hnew : listener = watched.added
    · subst hnew
      have hnone : noticesOf watched.added watched.notices = [] := h.noticesOf_of_le le_rfl
      cases stays <;> simp_all [agreed, noticesOf, PeerSource.listeners]
    · have hother : agreed [⟨watched.added, watched.source.peers, stays⟩] listener = true := by
        simp [agreed, noticesOf, Ne.symm hnew]
      have hlt : listener < watched.added + 1 ↔ listener < watched.added := by omega
      rw [hother, Bool.and_true, hlt, ← hold]
      cases stays <;> simp [PeerSource.listeners, hnew]

theorem Consistent.turn (h : watched.Consistent) (next : Turn Listener σ) :
    (watched.turn notify next).Consistent := by
  cases next with
  | update peers => exact h.update notify peers
  | listen new => exact h.listen notify new
  | elsewhere change => exact ⟨h.sorted, h.known, h.ordered, h.oldestFirst, h.mem_iff⟩

theorem Consistent.runFrom (h : watched.Consistent) (turns : List (Turn Listener σ)) :
    (watched.runFrom notify turns).Consistent := by
  induction turns generalizing watched with
  | nil => exact h
  | cons first rest ih => exact ih (h.turn notify first)

theorem consistent_run (initial : List String) (state : σ) (turns : List (Turn Listener σ)) :
    (run notify initial state turns).Consistent :=
  (consistent_start notify initial state).runFrom notify turns

theorem added_run (initial : List String) (state : σ) (turns : List (Turn Listener σ)) :
    (run notify initial state turns).added = turns.countP Turn.isListen := by
  induction turns using List.reverseRecOn with
  | nil => rfl
  | append_singleton turns last ih =>
    have hconsistent := consistent_run notify initial state turns
    rw [run_append, List.countP_append, List.countP_singleton, ← ih]
    cases last with
    | update peers =>
      show ((run notify initial state turns).update notify peers).2.added = _
      rcases hconsistent.update_cases notify peers with ⟨-, heq⟩ | ⟨-, _, _, _, heq, -⟩
      · rw [heq]
        rfl
      · rw [heq]
        rfl
    | listen new => rfl
    | elsewhere change => rfl

/-- The listeners that are subscribed are as many as have agreed to every call. -/
theorem Consistent.length_listeners (h : watched.Consistent) :
    watched.source.listeners.length =
      (List.range watched.added).countP (agreed watched.notices) := by
  have hperm : (watched.source.listeners.map Prod.fst).Perm
      ((List.range watched.added).filter (agreed watched.notices)) := by
    refine (List.perm_ext_iff_of_nodup h.nodup (List.nodup_range.filter _)).mpr fun listener => ?_
    rw [h.mem_iff, List.mem_filter, List.mem_range]
  rw [List.countP_eq_length_filter, ← hperm.length_eq, List.length_map]

end Watched

def changes (peers : List String) : List (Turn Listener σ) → List (List String)
  | [] => []
  | .update next :: rest =>
    if next ⊆ peers ∧ peers ⊆ next then changes peers rest
    else sortedSet next :: changes (sortedSet next) rest
  | .listen _ :: rest => changes peers rest
  | .elsewhere _ :: rest => changes peers rest

theorem subset_and_subset_iff {a b : List String} :
    a ⊆ b ∧ b ⊆ a ↔ ∀ peer, peer ∈ a ↔ peer ∈ b :=
  ⟨fun h _ => ⟨fun hmem => h.1 hmem, fun hmem => h.2 hmem⟩,
    fun h => ⟨fun peer => (h peer).mp, fun peer => (h peer).mpr⟩⟩

/-- A list with other entries is another list. -/
theorem isChain_changes (peers : List String) (turns : List (Turn Listener σ)) :
    (peers :: changes peers turns).IsChain (· ≠ ·) := by
  induction turns generalizing peers with
  | nil => exact List.isChain_singleton _
  | cons first rest ih =>
    cases first with
    | update next =>
      rw [changes]
      split_ifs with hsame
      · exact ih peers
      · refine List.isChain_cons_cons.mpr ⟨fun heq => hsame ?_, ih _⟩
        rw [heq, subset_and_subset_iff]
        exact fun _ => mem_sortedSet.symm
    | listen new => exact ih peers
    | elsewhere change => exact ih peers

/-- The notices of a listener are the lists that are offered to it, in order, as far as the first
that it refuses. -/
structure UntilRefusal (offered : List (List String)) (notices : List Notice) : Prop where
  lists : notices.map Notice.peers <+: offered
  agreed : ∀ notice ∈ notices.dropLast, notice.stays = true
  complete : (∀ notice ∈ notices, notice.stays = true) → notices.map Notice.peers = offered

section UntilRefusal

variable {offered : List (List String)} {notices : List Notice}

theorem UntilRefusal.hear (h : UntilRefusal offered notices)
    (hagreed : ∀ notice ∈ notices, notice.stays = true) (notice : Notice) :
    UntilRefusal (offered ++ [notice.peers]) (notices ++ [notice]) := by
  have hlists : (notices ++ [notice]).map Notice.peers = offered ++ [notice.peers] := by
    rw [List.map_append, h.complete hagreed, List.map_singleton]
  refine ⟨hlists ▸ List.prefix_rfl, ?_, fun _ => hlists⟩
  rwa [List.dropLast_concat]

theorem UntilRefusal.miss (h : UntilRefusal offered notices)
    (hrefused : ¬ ∀ notice ∈ notices, notice.stays = true) (peers : List String) :
    UntilRefusal (offered ++ [peers]) notices :=
  ⟨h.lists.trans (List.prefix_append _ _), h.agreed, fun hagreed => absurd hagreed hrefused⟩

end UntilRefusal

namespace Watched

variable (notify : Listener → List String → σ → Bool × σ) {watched : Watched Listener σ}
  {listener : Nat} {offered : List (List String)}

/-- One of the listeners that were added has heard the lists that were offered to it. -/
structure Heard (listener : Nat) (offered : List (List String)) (watched : Watched Listener σ) :
    Prop where
  added : listener < watched.added
  notices : UntilRefusal offered (noticesOf listener watched.notices)

theorem Consistent.heard_listen (h : watched.Consistent) (new : Listener) :
    (watched.listen notify new).Heard watched.added [watched.source.peers] := by
  obtain ⟨stays, state, heq⟩ := h.listen_eq notify new
  rw [heq]
  refine ⟨Nat.lt_succ_self _, ?_⟩
  show UntilRefusal _ (noticesOf _ (_ ++ _))
  rw [noticesOf_append, h.noticesOf_of_le le_rfl]
  refine ⟨?_, ?_, ?_⟩ <;> simp [noticesOf]

theorem Heard.update (h : watched.Heard listener offered) (hconsistent : watched.Consistent)
    (peers : List String) :
    (watched.update notify peers).2.Heard listener
      (offered ++ changes watched.source.peers [(.update peers : Turn Listener σ)]) := by
  rcases hconsistent.update_cases notify peers with
    ⟨hsame, heq⟩ | ⟨hother, kept, notices, state, heq, hround⟩
  · rw [heq, changes, if_pos (subset_and_subset_iff.mpr hsame), changes, List.append_nil]
    exact h
  · rw [heq, changes, if_neg (mt subset_and_subset_iff.mp hother), changes]
    refine ⟨h.added, ?_⟩
    show UntilRefusal _ (noticesOf listener (watched.notices ++ notices))
    rw [noticesOf_append]
    -- Only who has agreed so far is called.
    by_cases hagreed : agreed watched.notices listener = true
    · have hcalled := (hconsistent.mem_iff listener).mpr ⟨h.added, hagreed⟩
      obtain ⟨stays, honce⟩ := hround.exists_notice hconsistent.nodup hcalled
      rw [honce]
      exact h.notices.hear (agreed_iff.mp hagreed) ⟨listener, sortedSet peers, stays⟩
    · have hnot : listener ∉ watched.source.listeners.map Prod.fst := fun hmem =>
        hagreed ((hconsistent.mem_iff listener).mp hmem).2
      rw [hround.noticesOf_of_not_mem hnot, List.append_nil]
      exact h.notices.miss (mt agreed_iff.mpr hagreed) (sortedSet peers)

theorem Heard.turn (h : watched.Heard listener offered) (hconsistent : watched.Consistent)
    (next : Turn Listener σ) :
    (watched.turn notify next).Heard listener (offered ++ changes watched.source.peers [next]) := by
  cases next with
  | update peers => exact h.update notify hconsistent peers
  | listen new =>
    obtain ⟨stays, state, heq⟩ := hconsistent.listen_eq notify new
    have hother : noticesOf listener [⟨watched.added, watched.source.peers, stays⟩] = [] :=
      noticesOf_eq_nil (by simpa using h.added.ne)
    rw [changes, changes, List.append_nil, Watched.turn, heq]
    refine ⟨Nat.lt_succ_of_lt h.added, ?_⟩
    show UntilRefusal _ (noticesOf listener (_ ++ _))
    rw [noticesOf_append, hother, List.append_nil]
    exact h.notices
  | elsewhere change =>
    rw [changes, changes, List.append_nil]
    exact ⟨h.added, h.notices⟩

/-- The changes of turns are those of the first one and then those of the others. -/
theorem Consistent.changes_cons (h : watched.Consistent) (first : Turn Listener σ)
    (rest : List (Turn Listener σ)) :
    changes watched.source.peers (first :: rest) =
      changes watched.source.peers [first] ++
        changes (watched.turn notify first).source.peers rest := by
  cases first with
  | update peers =>
    rw [Watched.turn, changes, changes, changes, changes]
    rcases h.update_cases notify peers with ⟨hsame, heq⟩ | ⟨hother, _, _, _, heq, -⟩
    · rw [heq, if_pos (subset_and_subset_iff.mpr hsame), if_pos (subset_and_subset_iff.mpr hsame)]
      rfl
    · rw [heq, if_neg (mt subset_and_subset_iff.mp hother),
        if_neg (mt subset_and_subset_iff.mp hother)]
      rfl
  | listen new =>
    obtain ⟨stays, state, heq⟩ := h.listen_eq notify new
    rw [Watched.turn, heq]
    rfl
  | elsewhere change => rfl

theorem Heard.runFrom (h : watched.Heard listener offered) (hconsistent : watched.Consistent)
    (turns : List (Turn Listener σ)) :
    (watched.runFrom notify turns).Heard listener
      (offered ++ changes watched.source.peers turns) := by
  induction turns generalizing watched offered with
  | nil =>
    rw [changes, List.append_nil]
    exact h
  | cons first rest ih =>
    rw [hconsistent.changes_cons notify first rest, ← List.append_assoc]
    exact ih (h.turn notify hconsistent first) (hconsistent.turn notify first)

/-- The list that is stored is the one of the last change. -/
theorem Consistent.peers_turn (h : watched.Consistent) (next : Turn Listener σ) :
    (changes watched.source.peers [next]).getLast?.getD watched.source.peers =
      (watched.turn notify next).source.peers := by
  cases next with
  | update peers =>
    rw [Watched.turn, changes, changes, changes]
    rcases h.update_cases notify peers with ⟨hsame, heq⟩ | ⟨hother, _, _, _, heq, -⟩
    · rw [heq, if_pos (subset_and_subset_iff.mpr hsame)]
      rfl
    · rw [heq, if_neg (mt subset_and_subset_iff.mp hother)]
      rfl
  | listen new =>
    obtain ⟨stays, state, heq⟩ := h.listen_eq notify new
    rw [Watched.turn, heq]
    rfl
  | elsewhere change => rfl

theorem Consistent.peers_runFrom (h : watched.Consistent) (turns : List (Turn Listener σ)) :
    (changes watched.source.peers turns).getLast?.getD watched.source.peers =
      (watched.runFrom notify turns).source.peers := by
  induction turns generalizing watched with
  | nil => rfl
  | cons first rest ih =>
    rw [h.changes_cons notify first rest, List.getLast?_append, Option.getD_or,
      h.peers_turn notify first]
    exact ih (h.turn notify first)

end Watched

/-- Whatever its listeners answer, each of them hears the list that it finds and then every list
that takes the place of one with other entries, in order and as far as the first that it refuses;
so it never hears a list twice in a row. The lists are in order and without repetition, the
listeners that are left are as many as have agreed to every call, and an update tells whether the
set changes. -/
theorem listeners_hear_every_change (notify : Listener → List String → σ → Bool × σ)
    (initial : List String) (state : σ) :
    (∀ before listener after,
        let found := (Watched.run notify initial state before).source.peers
        let heard := noticesOf (before.countP Turn.isListen)
          (Watched.run notify initial state (before ++ .listen listener :: after)).notices
        UntilRefusal (found :: changes found after) heard ∧
          (heard.map Notice.peers).IsChain (· ≠ ·)) ∧
      ∀ turns,
        let watched := Watched.run notify initial state turns
        (∀ notice ∈ watched.notices,
          notice.listener < turns.countP Turn.isListen ∧ notice.peers.Pairwise (· < ·)) ∧
        watched.source.listeners.length =
          (List.range (turns.countP Turn.isListen)).countP (agreed watched.notices) ∧
        (changes (sortedSet initial) turns).getLast?.getD (sortedSet initial) =
          watched.source.peers ∧
        ∀ peers,
          ((watched.update notify peers).1 = true ↔
            ¬ ∀ peer, peer ∈ peers ↔ peer ∈ watched.source.peers) ∧
          (watched.update notify peers).2.source.peers.Pairwise (· < ·) ∧
          ∀ peer, peer ∈ (watched.update notify peers).2.source.peers ↔ peer ∈ peers := by
  refine ⟨fun before listener after => ?_, fun turns => ?_⟩
  · have hconsistent := Watched.consistent_run notify initial state before
    have hheard := (hconsistent.heard_listen notify listener).runFrom notify
      (hconsistent.listen notify listener) after
    obtain ⟨stays, state', heq⟩ := hconsistent.listen_eq notify listener
    have hpeers : ((Watched.run notify initial state before).listen notify listener).source.peers =
        (Watched.run notify initial state before).source.peers := by
      rw [heq]
      rfl
    rw [Watched.added_run, hpeers] at hheard
    intro found heard
    have huntil : UntilRefusal (found :: changes found after) heard := by
      show UntilRefusal _ (noticesOf _ _)
      rw [Watched.run_append]
      exact hheard.notices
    obtain ⟨missed, hmissed⟩ := huntil.lists
    have hchain := isChain_changes found after
    rw [← hmissed] at hchain
    exact ⟨huntil, hchain.left_of_append⟩
  · have hconsistent := Watched.consistent_run notify initial state turns
    intro watched
    refine ⟨fun notice hmem => ?_, ?_, ?_, fun peers => ?_⟩
    · rw [← Watched.added_run notify initial state turns]
      exact ⟨hconsistent.known notice hmem, hconsistent.ordered notice hmem⟩
    · rw [← Watched.added_run notify initial state turns]
      exact hconsistent.length_listeners
    · exact (Watched.consistent_start notify initial state).peers_runFrom notify turns
    · rcases hconsistent.update_cases notify peers with ⟨hsame, heq⟩ | ⟨hother, _, _, _, heq, -⟩
      · rw [heq]
        exact ⟨iff_of_false Bool.false_ne_true (not_not_intro hsame), hconsistent.sorted.ordered,
          fun peer => (hsame peer).symm⟩
      · rw [heq]
        exact ⟨iff_of_true rfl hother, pairwise_sortedSet peers, fun _ => mem_sortedSet⟩

end PeerSource
end RecordRelay
