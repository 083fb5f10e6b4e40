-- SUMMARY: Literals tell values of one type apart: integers are read back, and dates and texts have different texts.
import Tabular.Proofs.Sql.Spelling
import Tabular.Proofs.Value.Text

/-!
# Literals

Integers and dates are read back from their texts, and what stands between quotes is known from the token. So values of
one type have different literals, floats apart: several of them are not numbers, and all of these are written alike.
-/

namespace Tabular

/-- What stands between quotes is known from the token. -/
theorem Text.quoted_inj {q : Char} {s t : String} (h : Text.quoted q s = Text.quoted q t) : s = t := by
  have hinside := List.append_cancel_right (List.cons.inj (String.ofList_injective h)).2
  have hread := congrArg (Text.undouble? q) hinside
  rw [Text.undouble?_double, Text.undouble?_double] at hread
  exact String.toList_inj.1 (Option.some.inj hread)

/-- Values of one type that has categories are the same if their literals are. -/
theorem Sql.Spelling.literal_inj {v w : Value} (htype : v.dataType = w.dataType) (hfloat : v.dataType ≠ .float)
    (h : literal v = literal w) : v = w := by
  cases v <;> cases w <;> try cases htype
  case null.null => rfl
  case integer.integer m n =>
    have hread := congrArg (fun text : String => Decimal.integer? text.toList) h
    simp only [literal, Decimal.integer?_text] at hread
    rw [Option.some.inj hread]
  case float.float => exact absurd rfl hfloat
  case string.string => rw [Text.quoted_inj h]
  case date.date a b =>
    rw [literal_date, literal_date] at h
    rw [Date.text_inj (Text.quoted_inj h)]

end Tabular
