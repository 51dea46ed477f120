import DotGraph.Binary64

/-!
The text of a floating-point number: the fewest decimal digits that read back as the number, and
of the decimals of that length the nearest one.
-/

namespace DotGraph

namespace Finite64

/-- How many digits a positive ratio has before its point, negative if zeros follow the point. -/
def decimalPoint (num den : Nat) : Int :=
  let lead : Int := (Nat.toDigits 10 num).length - (Nat.toDigits 10 den).length
  let reached : Bool :=
    if 0 ≤ lead then den * Nat.pow 10 lead.toNat ≤ num
    else den ≤ num * Nat.pow 10 (-lead).toNat
  if reached then lead + 1 else lead

/-- The two neighbours of a number among the decimals of so many digits, the nearer one first. -/
def candidates (x : Finite64) (count : Nat) : List Decimal :=
  let (num, den) := x.ratio
  let exponent := decimalPoint num den - count
  let (num, den) :=
    if 0 ≤ exponent then (num, den * Nat.pow 10 exponent.toNat)
    else (num * Nat.pow 10 (-exponent).toNat, den)
  let low := num / den
  let rest := num % den
  let below := (Decimal.mk x.negative low exponent).trimmed
  let above := (Decimal.mk x.negative (low + 1) exponent).trimmed
  if 2 * rest < den ∨ (2 * rest = den ∧ low % 2 = 0) then [below, above] else [above, below]

/-- Every digit of the number. -/
def exact (x : Finite64) : Decimal :=
  if 0 ≤ x.exponent then ⟨x.negative, x.significand * Nat.pow 2 x.exponent.toNat, 0⟩
  else ⟨x.negative, x.significand * Nat.pow 5 (-x.exponent).toNat, x.exponent⟩

def readsBack (x : Finite64) (d : Decimal) : Bool :=
  Binary64.ofDecimal d = .finite x

/-- Seventeen digits are always enough; the exact digits stand behind them only to make the
search total. -/
def shortest (x : Finite64) : Decimal :=
  if x.significand = 0 then ⟨x.negative, 0, 0⟩
  else
    ((List.range 17).findSome? fun n => (x.candidates (n + 1)).find? x.readsBack).getD x.exact

/-- Numbers from `10 ^ -4` up to, not including, `10 ^ 16`, and zero, are written in full. -/
def isPlain (d : Decimal) : Bool :=
  d.coefficient = 0 || (-4 < d.point && d.point ≤ 16)

/-- A whole number keeps one zero behind its point, unless it has an exponent. -/
def shown (x : Finite64) : String :=
  let d := x.shortest
  String.ofList <|
    if isPlain d then d.positional ++ (if 0 ≤ d.exponent then ['.', '0'] else [])
    else d.scientific

/-- The same digits without an exponent, which the numerals of a graph text do not have. -/
def numeral (x : Finite64) : String :=
  let d := x.shortest
  String.ofList <|
    if isPlain d then d.positional ++ (if 0 ≤ d.exponent then ['.', '0'] else [])
    else d.positional

end Finite64

namespace Binary64

def shown : Binary64 → String
  | .finite x => x.shown
  | .infinite false => "inf"
  | .infinite true => "-inf"
  | .undefined => "nan"

def numeral : Binary64 → String
  | .finite x => x.numeral
  | .infinite false => "Infinity"
  | .infinite true => "-Infinity"
  | .undefined => "NaN"

end Binary64

end DotGraph
