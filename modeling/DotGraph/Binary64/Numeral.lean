import DotGraph.Binary64
import DotGraph.Text.WholeNumber

/-!
Floating-point numbers as they are typed: blanks around them, a sign in front and single underscores
between digits are allowed, the digits may be those of any script, and words stand for what is
without bound or undefined.
-/

namespace DotGraph

open Text

namespace Binary64

/-- Digits of any script give way to those of ASCII. -/
def plainDigit (c : Char) : Char :=
  match digit? c with
  | some d => Nat.digitChar d
  | none => c

/-- The text without underscores, if each has a digit on either side. -/
def withoutUnderscores? (behindDigit : Bool) : List Char → Option (List Char)
  | [] => some []
  | '_' :: [] => none
  | '_' :: c :: rest =>
    if behindDigit && isDigit c then (withoutUnderscores? true rest).map (c :: ·) else none
  | c :: rest => (withoutUnderscores? (isDigit c) rest).map (c :: ·)

/-- The words, in letters of either case and behind a sign or none. -/
def word? (text : List Char) : Option Binary64 :=
  let (negative, rest) := Decimal.takeSign text
  match String.ofList (rest.map Char.toLower) with
  | "inf" => some (.infinite negative)
  | "infinity" => some (.infinite negative)
  | "nan" => some .undefined
  | _ => none

def ofPlain? (text : List Char) : Option Binary64 :=
  (word? text).or ((Decimal.read? text).map ofDecimal)

/-- The number that a text stands for. -/
def ofText (text : String) : Except NumeralError Binary64 :=
  match (withoutUnderscores? false ((trim text.toList).map plainDigit)).bind ofPlain? with
  | some x => .ok x
  | none => .error (.notNumber text)

end Binary64

end DotGraph
