import RecordRelay.Forwarding.Routing
import RecordRelay.Inspection.KeyArguments
import RecordRelay.Proofs.Discovery.PeerLists
import RecordRelay.Proofs.Text.Split

/-! When the values that a record has under some keys are written as arguments, the arguments are
read as these keys and values, whatever order they come in and whatever characters the values have.
So they make the composite key by which the record is sorted. -/
namespace RecordRelay

namespace Text

/-- A text without blanks at its two ends. -/
structure Unpadded (text : String) : Prop where
  first : ∀ c ∈ text.toList.head?, isBlank c = false
  last : ∀ c ∈ text.toList.getLast?, isBlank c = false

theorem dropBlanks_eq_self {cs : List Char} (h : ∀ c ∈ cs.head?, isBlank c = false) :
    dropBlanks cs = cs := by
  cases cs with
  | nil => rfl
  | cons c cs => rw [dropBlanks, List.dropWhile_cons_of_neg (by simp [h c rfl])]

theorem Unpadded.trim_eq_self {text : String} (h : Unpadded text) : trim text = text := by
  have hreverse : ∀ c ∈ text.toList.reverse.head?, isBlank c = false := by
    rw [List.head?_reverse]
    exact h.last
  rw [trim, dropBlanks_eq_self h.first, dropBlanks_eq_self hreverse, List.reverse_reverse,
    String.ofList_toList]

end Text

namespace KeyArguments

/-- A key that can be written as an argument. -/
structure Writable (key : String) : Prop where
  nonempty : key ≠ ""
  noEquals : '=' ∉ key.toList
  unpadded : Text.Unpadded key

/-- The argument for a key of a record. -/
def ofRecord (record : Record) (key : String) : String :=
  match record.event.text? key with
  | some value => key ++ "=" ++ value
  | none => key

theorem split_ofRecord {key : String} (h : Writable key) (record : Record) :
    split (ofRecord record key) = (key, record.event.text? key) := by
  rw [ofRecord]
  cases record.event.text? key with
  | none =>
    dsimp only
    rw [split, Text.splitAtFirst?_eq_none h.noEquals]
    dsimp only
    rw [h.unpadded.trim_eq_self]
  | some value =>
    have hcharacters : (key ++ "=" ++ value).toList = key.toList ++ '=' :: value.toList := by
      simp
    dsimp only
    rw [split, hcharacters, Text.splitAtFirst?_append h.noEquals]
    dsimp only
    rw [String.ofList_toList, String.ofList_toList, h.unpadded.trim_eq_self]

/-- A new field takes the place that it has among the sorted fields. -/
theorem insert_map {key : String} {keys : List String} (value : String → Option String)
    (hnew : key ∉ keys) :
    insert key (value key) (keys.map fun key => (key, value key))
      = (insertText key keys).map fun key => (key, value key) := by
  induction keys with
  | nil => rfl
  | cons first rest ih =>
    obtain ⟨hne, hrest⟩ := not_or.mp (mt List.mem_cons.mpr hnew)
    rw [List.map_cons, insert, insertText, if_neg hne]
    split_ifs
    · rfl
    · rw [List.map_cons, ih hrest]

theorem add_ofRecord {key : String} {keys : List String} (h : Writable key) (hnew : key ∉ keys)
    (record : Record) :
    add (keys.map fun key => (key, record.event.text? key)) (ofRecord record key)
      = .ok ((insertText key keys).map fun key => (key, record.event.text? key)) := by
  have hnonempty : ¬ key.isEmpty = true := by simpa using h.nonempty
  have hunknown : ¬ ((keys.map fun key => (key, record.event.text? key)).map Prod.fst).contains key
      = true := by
    simpa [Function.comp_def] using hnew
  rw [add, split_ofRecord h]
  dsimp only
  rw [if_neg hnonempty, if_neg hunknown, insert_map record.event.text? hnew]

theorem parse_concat {arguments : List String} {fields : List (String × Option String)}
    (h : parse arguments = .ok fields) (argument : String) :
    parse (arguments ++ [argument]) = add fields argument := by
  rw [parse] at h
  rw [parse, List.foldlM_append, h]
  simp only [List.foldlM_cons, List.foldlM_nil, bind_pure]
  rfl

theorem parse_map_ofRecord {keys : List String} (hwritable : ∀ key ∈ keys, Writable key)
    (hdistinct : keys.Nodup) (record : Record) :
    parse (keys.map (ofRecord record))
      = .ok ((sortedSet keys).map fun key => (key, record.event.text? key)) := by
  induction keys using List.reverseRecOn with
  | nil => rfl
  | append_singleton keys last ih =>
    rw [List.forall_mem_append, List.forall_mem_singleton] at hwritable
    obtain ⟨hkeys, -, hlast⟩ := List.nodup_append.mp hdistinct
    have hnew : last ∉ sortedSet keys := fun hmem =>
      hlast last (mem_sortedSet.mp hmem) last List.mem_cons_self rfl
    rw [List.map_append, List.map_singleton, parse_concat (ih hwritable.1 hkeys), sortedSet_concat,
      add_ofRecord hwritable.2 hnew]

/-- Arguments for some keys are those of the keys in some order. -/
theorem exists_order {keys arguments : List String} (hwritable : ∀ key ∈ keys, Writable key)
    (record : Record) (harguments : arguments.Perm (keys.map (ofRecord record))) :
    ∃ order : List String, order.Perm keys ∧ arguments = order.map (ofRecord record) := by
  have hfield : ∀ key ∈ keys, (split (ofRecord record key)).1 = id key := fun key hkey => by
    rw [split_ofRecord (hwritable key hkey), id]
  have hargument : ∀ argument ∈ arguments, ofRecord record (split argument).1 = id argument :=
    fun argument hmem => by
      obtain ⟨key, hkey, rfl⟩ := List.mem_map.mp (harguments.mem_iff.mp hmem)
      rw [hfield key hkey, id, id]
  refine ⟨arguments.map fun argument => (split argument).1, ?_, ?_⟩
  · have hfields := harguments.map fun argument => (split argument).1
    rwa [List.map_map, Function.comp_def, List.map_congr_left hfield, List.map_id] at hfields
  · rw [List.map_map, Function.comp_def, List.map_congr_left hargument, List.map_id]

/-- The arguments of a record make the composite key by which the record is sorted. -/
theorem compositeKey_eq {keys arguments : List String} (hwritable : ∀ key ∈ keys, Writable key)
    (record : Record) (harguments : arguments.Perm ((sortedSet keys).map (ofRecord record))) :
    compositeKey arguments = .ok (Routing.compositeKey (sortedSet keys) record) := by
  have hwritable : ∀ key ∈ sortedSet keys, Writable key := fun key hkey =>
    hwritable key (mem_sortedSet.mp hkey)
  obtain ⟨order, horder, rfl⟩ := exists_order hwritable record harguments
  have hsorted : sortedSet order = sortedSet keys :=
    (sortedSet_eq_iff (pairwise_sortedSet keys)).mpr fun _ => horder.mem_iff
  have hdistinct : order.Nodup :=
    horder.nodup_iff.mpr ((pairwise_sortedSet keys).imp ne_of_lt)
  have hparsed := parse_map_ofRecord (fun key hkey => hwritable key (horder.mem_iff.mp hkey))
    hdistinct record
  rw [compositeKey, hparsed, hsorted, Routing.compositeKey, Except.map, List.map_map]
  rfl

end KeyArguments

end RecordRelay
