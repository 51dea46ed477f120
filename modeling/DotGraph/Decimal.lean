/-! Finite decimals and the two ways of writing one: with a point, and with an exponent. -/

namespace DotGraph

/-- The number `coefficient · 10 ^ exponent`; the sign is kept for zero as well. -/
structure Decimal where
  negative : Bool
  coefficient : Nat
  exponent : Int
  deriving DecidableEq

namespace Decimal

def digits (d : Decimal) : List Char :=
  Nat.toDigits 10 d.coefficient

/-- Where the point stands, counted in digits from the front of the coefficient. -/
def point (d : Decimal) : Int :=
  d.digits.length + d.exponent

def signText (d : Decimal) : List Char :=
  if d.negative then ['-'] else []

/-- Every digit in its place, and a point only where a fraction follows it. -/
def positional (d : Decimal) : List Char :=
  d.signText ++
    if 0 ≤ d.exponent then d.digits ++ List.replicate d.exponent.toNat '0'
    else if 0 < d.point then d.digits.take d.point.toNat ++ '.' :: d.digits.drop d.point.toNat
    else '0' :: '.' :: (List.replicate (-d.point).toNat '0' ++ d.digits)

/-- A signed exponent of at least two digits. -/
def exponentText (e : Int) : List Char :=
  let digits := Nat.toDigits 10 e.natAbs
  (if e < 0 then '-' else '+') :: (if digits.length < 2 then '0' :: digits else digits)

/-- One digit before the point, and a point only where more digits follow. -/
def mantissaText : List Char → List Char
  | [] => []
  | [c] => [c]
  | c :: rest => c :: '.' :: rest

def scientific (d : Decimal) : List Char :=
  d.signText ++ mantissaText d.digits ++ 'e' :: exponentText (d.point - 1)

/-- The same number with no zero at the end of its coefficient. -/
def trimmed (d : Decimal) : Decimal :=
  if d.coefficient ≠ 0 ∧ d.coefficient % 10 = 0 then
    trimmed ⟨d.negative, d.coefficient / 10, d.exponent + 1⟩
  else d
termination_by d.coefficient
decreasing_by omega

end Decimal

end DotGraph
