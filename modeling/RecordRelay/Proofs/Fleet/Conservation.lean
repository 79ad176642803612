import RecordRelay.Proofs.Fleet.Steps

/-! Whatever happens in a fleet, a record that was given to be forwarded came back, or it waits in a
batching queue, or it belongs to a job, or it was sent: then it is in one receive buffer or was read
from one, without its metadata if it crossed to another node, or it counts as dropped. -/
namespace RecordRelay.Fleet
variable {fleet : Fleet}

/-- Where the records are that were ever given to be forwarded. -/
structure Accounted (fleet : Fleet) (notes : List Note) : Prop where
  /-- A record came back, or it waits, or it belongs to a job, or its job is done. -/
  submitted : total Note.submitted notes
    = total Note.returned notes + fleet.pending + fleet.dispatched
      + (total Note.crossed notes + total Note.fellBack notes + total Note.lost notes)
  /-- What is in a buffer or was read from one came there by a job, as it was when it fell back
  and without its metadata when it crossed. -/
  stored : fleet.buffered + total Note.handedOut notes
    = total Note.fellBack notes + (total Note.crossed notes).map bareStageRecord
  dropped : fleet.dropped = (total Note.lost notes).card

theorem meets_free (fleet : Fleet) (action : Action) :
    action.Meets (fun _ => Terms.free) fleet := by
  cases action with
  | register => exact fun _ _ => trivial
  | forward => exact fun _ _ _ _ _ _ _ _ _ => trivial
  | finishJob => exact fun _ _ _ _ _ _ _ => ⟨fun _ _ => trivial, fun _ => trivial⟩
  | _ => trivial

/-- A run leaves the books of a fleet balanced. -/
theorem Sound.run (h : fleet.Sound fun _ => Terms.free) {actions : List Action}
    (hactions : ∀ action ∈ actions, action.Canonical) :
    Balanced fleet (Fleet.run actions fleet).2 (Fleet.run actions fleet).1 := by
  induction actions generalizing fleet with
  | nil => rfl
  | cons action rest ih =>
    obtain ⟨hsound, hbalanced⟩ :=
      h.act (hactions action (List.mem_cons_self ..)) (meets_free fleet action)
    have hothers := ih hsound fun other hother => hactions other (List.mem_cons_of_mem _ hother)
    rw [Fleet.run]
    exact hbalanced.trans hothers

end RecordRelay.Fleet
