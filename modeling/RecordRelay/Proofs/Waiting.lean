import Mathlib

/-! Whoever finds no room waits and looks again, when somebody wakes it or when its time is up, and
others have their turn between two looks. The first look that finds room decides. If there is none
before the time is up, the look that is taken then is the last. -/
namespace RecordRelay

namespace Waiting

structure Look (σ : Type) where
  time : Nat
  /-- The one who waits has just come, or somebody woke it; if not, it looks again by itself. -/
  woken : Bool
  state : σ

/-- What others do between two looks, when the second is taken, and whether they asked for it. -/
structure Pause (α : Type) where
  others : List α
  resumed : Nat
  woken : Bool

/-- The first element of a list that has a property. -/
def IsFirst {α : Type} (P : α → Prop) (l : List α) (a : α) : Prop :=
  P a ∧ ∃ before after, l = before ++ a :: after ∧ ∀ other ∈ before, ¬ P other

theorem IsFirst.mem {α : Type} {P : α → Prop} {l : List α} {a : α} (h : IsFirst P l a) :
    a ∈ l := by
  obtain ⟨-, before, after, rfl, -⟩ := h
  exact List.mem_append_right _ (.head _)

theorem IsFirst.congr {α : Type} {P Q : α → Prop} {l : List α} {a : α} (h : IsFirst P l a)
    (hPQ : ∀ other ∈ l, (P other ↔ Q other)) : IsFirst Q l a := by
  have hmem := h.mem
  obtain ⟨ha, before, after, rfl, hbefore⟩ := h
  refine ⟨(hPQ a hmem).mp ha, before, after, rfl, fun other hother hQ => ?_⟩
  exact hbefore other hother ((hPQ other (List.mem_append_left _ hother)).mpr hQ)

theorem isFirst_cons_self {α : Type} {P : α → Prop} {a : α} (l : List α) (ha : P a) :
    IsFirst P (a :: l) a :=
  ⟨ha, [], l, rfl, nofun⟩

theorem IsFirst.cons {α : Type} {P : α → Prop} {l : List α} {a b : α} (h : IsFirst P l b)
    (ha : ¬ P a) : IsFirst P (a :: l) b := by
  obtain ⟨hb, before, after, rfl, hbefore⟩ := h
  exact ⟨hb, a :: before, after, rfl, List.forall_mem_cons.mpr ⟨ha, hbefore⟩⟩

variable {σ α β : Type}

namespace Look

/-- The time is up, and nobody asked for another look. -/
def IsLast (look : Look σ) (deadline : Nat) : Prop := look.woken = false ∧ deadline ≤ look.time

instance (look : Look σ) (deadline : Nat) : Decidable (look.IsLast deadline) :=
  inferInstanceAs (Decidable (_ ∧ _))

variable (run : σ → List α → σ) (ask : σ → σ × β) (isFull : β → Bool) (deadline : Nat)

def after (look : Look σ) (pause : Pause α) : Look σ :=
  ⟨pause.resumed, pause.woken, run look.state pause.others⟩

/-- The looks until the time is up, from one look on. -/
def looks (look : Look σ) : List (Pause α) → List (Look σ)
  | [] => [look]
  | pause :: pauses =>
    look :: if look.IsLast deadline then [] else looks (look.after run pause) pauses

/-- What is left behind after a number of pauses, and the answer, which there is not while the one
who asks still waits. -/
def await (look : Look σ) : List (Pause α) → σ × Option β
  | [] =>
    if isFull (ask look.state).2 ∧ ¬ look.IsLast deadline then (look.state, none)
    else ((ask look.state).1, some (ask look.state).2)
  | pause :: pauses =>
    if isFull (ask look.state).2 ∧ ¬ look.IsLast deadline then await (look.after run pause) pauses
    else ((ask look.state).1, some (ask look.state).2)

variable {run ask isFull deadline}

theorem mem_looks (look : Look σ) (pauses : List (Pause α)) :
    look ∈ look.looks run deadline pauses := by
  cases pauses <;> exact .head _

theorem exists_looks_eq_cons (look : Look σ) (pauses : List (Pause α)) :
    ∃ others, look.looks run deadline pauses = look :: others := by
  cases pauses <;> exact ⟨_, rfl⟩

/-- What the others keep holds at every look. -/
theorem forall_mem_looks {P : σ → Prop} (hrun : ∀ state others, P state → P (run state others))
    {look : Look σ} (h : P look.state) (pauses : List (Pause α)) :
    ∀ other ∈ look.looks run deadline pauses, P other.state := by
  induction pauses generalizing look with
  | nil => exact List.forall_mem_singleton.mpr h
  | cons pause pauses ih =>
    rw [looks]
    refine List.forall_mem_cons.mpr ⟨h, ?_⟩
    split_ifs
    · exact nofun
    · exact ih (hrun look.state pause.others h)

end Look

/-- What can come of looks. -/
inductive Settles (ask : σ → σ × β) (isFull : β → Bool) (deadline : Nat) (looks : List (Look σ)) :
    σ × Option β → Prop
  | decides (look : Look σ)
      (hfirst : IsFirst (fun look => isFull (ask look.state).2 = false) looks look) :
      Settles ask isFull deadline looks ((ask look.state).1, some (ask look.state).2)
  | givesUp (look : Look σ) (hlook : look ∈ looks) (hlast : look.IsLast deadline)
      (hfull : ∀ look ∈ looks, isFull (ask look.state).2 = true) :
      Settles ask isFull deadline looks ((ask look.state).1, some (ask look.state).2)
  | waits (look : Look σ) (hlook : look ∈ looks) (hmore : ∀ look ∈ looks, ¬ look.IsLast deadline)
      (hfull : ∀ look ∈ looks, isFull (ask look.state).2 = true) :
      Settles ask isFull deadline looks (look.state, none)

variable {run : σ → List α → σ} {ask : σ → σ × β} {isFull : β → Bool} {deadline : Nat}
  {look : Look σ}

/-- A look in vain before the others changes nothing. -/
theorem Settles.cons {looks : List (Look σ)} {outcome : σ × Option β}
    (h : Settles ask isFull deadline looks outcome) (hfull : isFull (ask look.state).2 = true)
    (hmore : ¬ look.IsLast deadline) : Settles ask isFull deadline (look :: looks) outcome := by
  cases h with
  | decides later hfirst =>
    exact .decides later (hfirst.cons (by rw [hfull]; exact Bool.noConfusion))
  | givesUp later hlater hlast hrest =>
    exact .givesUp later (.tail _ hlater) hlast (List.forall_mem_cons.mpr ⟨hfull, hrest⟩)
  | waits later hlater hothers hrest =>
    exact .waits later (.tail _ hlater) (List.forall_mem_cons.mpr ⟨hmore, hothers⟩)
      (List.forall_mem_cons.mpr ⟨hfull, hrest⟩)

/-- What can come of looks, in terms of what makes room at a look. -/
theorem Settles.elim_room {looks : List (Look σ)} {outcome : σ × Option β}
    (h : Settles ask isFull deadline looks outcome) {P : Look σ → Prop}
    (hP : ∀ look ∈ looks, (isFull (ask look.state).2 = false ↔ P look)) :
    (∃ look, IsFirst P looks look ∧ outcome = ((ask look.state).1, some (ask look.state).2))
      ∨ (∀ look ∈ looks, ¬ P look)
        ∧ ((∃ look ∈ looks, look.IsLast deadline
            ∧ outcome = ((ask look.state).1, some (ask look.state).2))
          ∨ (∀ look ∈ looks, ¬ look.IsLast deadline)
            ∧ ∃ look ∈ looks, outcome = (look.state, none)) := by
  have hvain (hfull : ∀ look ∈ looks, isFull (ask look.state).2 = true) :
      ∀ look ∈ looks, ¬ P look := by
    intro look hlook hroom
    rw [← hP look hlook, hfull look hlook] at hroom
    exact absurd hroom Bool.noConfusion
  cases h with
  | decides look hfirst => exact .inl ⟨look, hfirst.congr hP, rfl⟩
  | givesUp look hlook hlast hfull => exact .inr ⟨hvain hfull, .inl ⟨look, hlook, hlast, rfl⟩⟩
  | waits look hlook hmore hfull => exact .inr ⟨hvain hfull, .inr ⟨hmore, look, hlook, rfl⟩⟩

/-- A look that finds room decides, and so does one that is taken because the time is up. -/
theorem Look.await_of_not (h : ¬ (isFull (ask look.state).2 = true ∧ ¬ look.IsLast deadline))
    (pauses : List (Pause α)) :
    look.await run ask isFull deadline pauses
      = ((ask look.state).1, some (ask look.state).2) := by
  cases pauses <;> rw [await, if_neg h]

theorem settles_of_first {pauses : List (Pause α)}
    (hrest : isFull (ask look.state).2 = true → ¬ look.IsLast deadline →
      Settles ask isFull deadline (look.looks run deadline pauses)
        (look.await run ask isFull deadline pauses)) :
    Settles ask isFull deadline (look.looks run deadline pauses)
      (look.await run ask isFull deadline pauses) := by
  by_cases hgoes : isFull (ask look.state).2 = true ∧ ¬ look.IsLast deadline
  · exact hrest hgoes.1 hgoes.2
  rw [Look.await_of_not hgoes]
  by_cases hfull : isFull (ask look.state).2 = true
  · have hlast : look.IsLast deadline := not_not.mp fun hmore => hgoes ⟨hfull, hmore⟩
    have hlooks : look.looks run deadline pauses = [look] := by
      cases pauses with
      | nil => rfl
      | cons pause pauses => rw [Look.looks, if_pos hlast]
    rw [hlooks]
    exact .givesUp look (.head _) hlast (List.forall_mem_singleton.mpr hfull)
  · obtain ⟨others, hlooks⟩ : ∃ others, look.looks run deadline pauses = look :: others :=
      look.exists_looks_eq_cons pauses
    rw [hlooks]
    exact .decides look (isFirst_cons_self others (Bool.eq_false_iff.mpr hfull))

theorem settles_await (look : Look σ) (pauses : List (Pause α)) :
    Settles ask isFull deadline (look.looks run deadline pauses)
      (look.await run ask isFull deadline pauses) := by
  induction pauses generalizing look with
  | nil =>
    refine settles_of_first fun hfull hmore => ?_
    rw [Look.await, if_pos ⟨hfull, hmore⟩]
    exact .waits look (.head _) (List.forall_mem_singleton.mpr hmore)
      (List.forall_mem_singleton.mpr hfull)
  | cons pause pauses ih =>
    refine settles_of_first fun hfull hmore => ?_
    rw [Look.await, if_pos ⟨hfull, hmore⟩, Look.looks, if_neg hmore]
    exact (ih (look.after run pause)).cons hfull hmore

end Waiting

end RecordRelay
