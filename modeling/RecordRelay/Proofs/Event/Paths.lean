import Mathlib
import RecordRelay.Event

/-! A value that is put at a path is found there, and what lies inside it is found behind the path.
The steps on the way are objects afterwards, whatever stood there before, and everything that is not
on the way stays as it was. -/
namespace RecordRelay

namespace Text

theorem cons_runs (isSeparator : Char → Bool) (cs : List Char) :
    (runs isSeparator cs).1 :: (runs isSeparator cs).2 = cs.splitOnP isSeparator := by
  induction cs with
  | nil => rfl
  | cons c rest ih =>
    rw [List.splitOnP_cons_eq_if_modifyHead, ← ih, runs, List.foldr_cons, ← runs]
    split_ifs <;> rfl

theorem split_eq (isSeparator : Char → Bool) (text : String) :
    split isSeparator text = (text.toList.splitOnP isSeparator).map String.ofList := by
  rw [split, ← cons_runs]

end Text

namespace Event

/-- The segments of a path are the parts between slashes and points that are not empty. -/
theorem segments_eq (path : String) :
    segments path
      = ((path.toList.splitOnP fun c => c == '/' || c == '.').filter (!·.isEmpty)).map
        String.ofList := by
  rw [segments, Text.split_eq, List.filter_map]
  refine congrArg (List.map String.ofList) (List.filter_congr fun part _ => ?_)
  have hempty : (String.ofList part).isEmpty = part.isEmpty := by
    rw [Bool.eq_iff_iff, String.isEmpty_iff, List.isEmpty_iff, String.ofList_eq_empty_iff]
  exact congrArg (!·) hempty

end Event

namespace Json

/-- Two lists of names part at some step: neither is the beginning of the other. -/
def Diverge (names others : List String) : Prop := ¬ names <+: others ∧ ¬ others <+: names

theorem diverge_cons_iff {name : String} {names others : List String} :
    Diverge (name :: names) (name :: others) ↔ Diverge names others := by
  simp [Diverge, List.cons_prefix_cons]

/-- Nothing diverges from the way to the document itself. -/
theorem Diverge.ne_nil {names others : List String} (h : Diverge names others) :
    names ≠ [] ∧ others ≠ [] := by
  constructor
  · rintro rfl
    exact h.1 List.nil_prefix
  · rintro rfl
    exact h.2 List.nil_prefix

/-- The first step goes to a field; a document that is no object has none. -/
theorem follow_cons (name : String) (rest : List String) (document : Json) :
    document.follow (name :: rest)
      = (Fields.get? name (document.fields?.getD [])).bind (follow rest) := by
  cases document <;> rfl

variable (value : Json)

theorem follow_place_append (names rest : List String) (document : Json) :
    (place value names document).follow (names ++ rest) = value.follow rest := by
  induction names generalizing document with
  | nil => rfl
  | cons name names ih =>
    rw [place, List.cons_append, follow, Fields.get?_set, if_pos rfl, Option.bind_some, ih]

theorem follow_place_of_diverge {names others : List String} (h : Diverge names others)
    (document : Json) : (place value names document).follow others = document.follow others := by
  induction names generalizing others document with
  | nil => exact absurd rfl h.ne_nil.1
  | cons name names ih =>
    obtain ⟨other, others, rfl⟩ := List.exists_cons_of_ne_nil h.ne_nil.2
    rw [follow_cons, follow_cons, place, fields?, Option.getD_some, Fields.get?_set]
    split_ifs with hsame
    · subst hsame
      have hrest := diverge_cons_iff.mp h
      rw [Option.bind_some, ih hrest]
      cases hchild : Fields.get? other (document.fields?.getD []) with
      | some child => rfl
      | none =>
        -- A missing step becomes an empty object, in which the way on finds nothing either.
        obtain ⟨next, others, rfl⟩ := List.exists_cons_of_ne_nil hrest.ne_nil.2
        rfl
    · rfl

theorem exists_follow_place (front : List String) {rest : List String} (h : rest ≠ [])
    (document : Json) :
    ∃ fields, (place value (front ++ rest) document).follow front = some (object fields) := by
  induction front generalizing document with
  | nil =>
    obtain ⟨name, rest, rfl⟩ := List.exists_cons_of_ne_nil h
    exact ⟨_, rfl⟩
  | cons name front ih =>
    rw [List.cons_append, place, follow, Fields.get?_set, if_pos rfl, Option.bind_some]
    exact ih _

end Json

namespace Event

variable {event : Event} {path : String}

theorem put_of_segments_eq_nil (h : segments path = []) (value : Json) :
    event.put path value = event := by
  rw [put, h]

theorem data_put (h : segments path ≠ []) (value : Json) :
    (event.put path value).data = Json.place value (segments path) event.data := by
  obtain ⟨name, rest, hsegments⟩ := List.exists_cons_of_ne_nil h
  rw [put, hsegments]

/-- Only the segments of a path count, the parts between slashes and points that are not empty. A
path without segments names no field; behind any other one lies the value that is put there, in
front of it lie objects, and everything beside it stays. -/
theorem put_changes_only_its_path (event : Event) (path : String) (value : Json) :
    segments path
        = ((path.toList.splitOnP fun c => c == '/' || c == '.').filter (!·.isEmpty)).map
          String.ofList
      ∧ (∀ other, segments other = segments path →
        event.get? other = event.get? path ∧ event.text? other = event.text? path
          ∧ event.put other value = event.put path value)
      ∧ (segments path = [] → event.put path value = event)
      ∧ (segments path ≠ [] →
        (event.put path value).get? path = some value
          ∧ (∀ other rest, segments other = segments path ++ rest →
            (event.put path value).get? other = value.follow rest)
          ∧ (∀ other, Json.Diverge (segments path) (segments other) →
            (event.put path value).get? other = event.get? other)
          ∧ ∀ other rest, rest ≠ [] → segments path = segments other ++ rest →
            ∃ fields, (event.put path value).get? other = some (.object fields))
      ∧ (event.put path value).kind = event.kind
      ∧ (event.put path value).attributes = event.attributes := by
  refine ⟨segments_eq path, fun other hsame => ?_, fun hnone => put_of_segments_eq_nil hnone value,
    fun hsome => ⟨?_, ?_, ?_, ?_⟩, ?_, ?_⟩
  · have hget : event.get? other = event.get? path := by rw [get?, get?, hsame]
    exact ⟨hget, congrArg (Option.bind · textOf) hget, by rw [put, put, hsame]⟩
  · have hplaced := Json.follow_place_append value (segments path) [] event.data
    rwa [List.append_nil, ← data_put hsome] at hplaced
  · intro other rest hbehind
    rw [get?, data_put hsome, hbehind, Json.follow_place_append]
  · intro other hbeside
    rw [get?, data_put hsome, Json.follow_place_of_diverge value hbeside]
    rfl
  · intro other rest hrest hbefore
    rw [get?, data_put hsome, hbefore]
    exact Json.exists_follow_place value (segments other) hrest event.data
  · rw [put]
    split <;> rfl
  · rw [put]
    split <;> rfl

/-- A text that stands in the way makes room. -/
example : ((ofData "log" (.object [("http", .string "GET")])).put "/http.status"
    (.bool true)).data = .object [("http", .object [("status", .bool true)])] := by
  rfl

end Event

end RecordRelay
