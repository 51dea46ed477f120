import DotGraph.Attribute.Table
import DotGraph.Datum.Product
import DotGraph.Text.Digits

/-!
The text of a table in a layout of any kind: before each entry stands the product of a unit and a
level, and only a text separates entries.
-/

namespace DotGraph

inductive LayoutError where
  | product (e : ProductError)
  | separator (given : Datum)
  | tooManyDigits

def LayoutError.message : LayoutError → String
  | product e => e.message
  | separator given => "entries are not separated by " ++ given.shown
  | tooManyDigits => Text.limitMessage ""

namespace Datum

/-- Whole numbers with more digits than the limit have no text. -/
def hasText : Datum → Bool
  | integer n => n.natAbs < Nat.pow 10 Text.digitLimit
  | _ => true

end Datum

namespace AttrTable

/-- What stands before the entries is found first, and its text is needed only if there are any. -/
def laidOut (t : AttrTable) (level separator unit : Datum) : Except LayoutError String :=
  match unit.product level, separator with
  | .error e, _ => .error (.product e)
  | .ok lead, .text separator =>
    if t.isEmpty || lead.hasText then .ok (t.writtenBehind lead.name separator)
    else .error .tooManyDigits
  | .ok _, separator => .error (.separator separator)

/-- With a text as the unit and a level in range, the layout is the indentation of that level. -/
theorem laidOut_text {t : AttrTable} {level : Int} {separator unit text : String}
    (h : Text.repeated unit level = .ok text) :
    t.laidOut (.integer level) (.text separator) (.text unit) =
      .ok (t.written level separator unit) := by
  have hp : (Datum.text unit).product (.integer level) = .ok (.text text) := by
    rw [Datum.product_text]
    simp only [Datum.repeated, h]
    rfl
  simp only [laidOut, hp, Datum.hasText, Bool.or_true, if_true, written, Datum.name,
    Text.repeated_eq h]

end AttrTable

end DotGraph
