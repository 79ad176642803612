import Mathlib.Data.List.TakeWhile
import RecordRelay.Text.Split

/-! What stands before and behind the first or the last separator of a text. -/
namespace RecordRelay.Text

variable {separator : Char}

theorem splitAtFirst?_eq_none {cs : List Char} (h : separator ∉ cs) :
    splitAtFirst? separator cs = none := by
  have hpassed : ∀ c ∈ cs, decide (c ≠ separator) = true := fun c hc =>
    decide_eq_true fun heq => h (heq ▸ hc)
  rw [splitAtFirst?, List.dropWhile_eq_nil_iff.mpr hpassed]

theorem splitAtFirst?_append {before : List Char} (h : separator ∉ before) (behind : List Char) :
    splitAtFirst? separator (before ++ separator :: behind) = some (before, behind) := by
  have hpassed : ∀ c ∈ before, decide (c ≠ separator) = true := fun c hc =>
    decide_eq_true fun heq => h (heq ▸ hc)
  rw [splitAtFirst?, List.dropWhile_append_of_pos hpassed, List.dropWhile_cons_of_neg (by simp),
    List.takeWhile_append_of_pos hpassed, List.takeWhile_cons_of_neg (by simp), List.append_nil]

theorem splitAtLast?_eq_none {cs : List Char} (h : separator ∉ cs) :
    splitAtLast? separator cs = none := by
  rw [splitAtLast?, splitAtFirst?_eq_none (by simpa using h), Option.map_none]

theorem splitAtLast?_append (before : List Char) {behind : List Char} (h : separator ∉ behind) :
    splitAtLast? separator (before ++ separator :: behind) = some (before, behind) := by
  have hreverse : (before ++ separator :: behind).reverse
      = behind.reverse ++ separator :: before.reverse := by simp
  rw [splitAtLast?, hreverse, splitAtFirst?_append (by simpa using h), Option.map_some]
  simp only [List.reverse_reverse]

end RecordRelay.Text
