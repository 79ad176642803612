/-! A text is cut at every separator, or once at the first or the last one. -/
namespace RecordRelay.Text

/-- The runs of characters between separators: the first one and the others. -/
def runs (isSeparator : Char → Bool) (cs : List Char) : List Char × List (List Char) :=
  cs.foldr (fun c (first, others) =>
    if isSeparator c then ([], first :: others) else (c :: first, others)) ([], [])

/-- The texts between separators, at least one. -/
def split (isSeparator : Char → Bool) (text : String) : List String :=
  let (first, others) := runs isSeparator text.toList
  (first :: others).map String.ofList

/-- What stands before and behind the first separator, if there is one. -/
def splitAtFirst? (separator : Char) (cs : List Char) : Option (List Char × List Char) :=
  match cs.dropWhile (· ≠ separator) with
  | [] => none
  | _ :: rest => some (cs.takeWhile (· ≠ separator), rest)

/-- What stands before and behind the last separator, if there is one. -/
def splitAtLast? (separator : Char) (cs : List Char) : Option (List Char × List Char) :=
  (splitAtFirst? separator cs.reverse).map fun (behind, before) => (before.reverse, behind.reverse)

end RecordRelay.Text
