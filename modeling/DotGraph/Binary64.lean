import DotGraph.Decimal.Reader

/-!
Binary floating-point numbers of 64 bits, as exact values: a significand below `2 ^ 53` times a
power of two between `-1074` and `971`.  Every operation is on whole numbers.
-/

namespace DotGraph

/-- The exponent of a finite number is the least for which its significand is whole. -/
def CanonicalParts (significand : Nat) (exponent : Int) : Prop :=
  significand < Nat.pow 2 53 ∧ -1074 ≤ exponent ∧ exponent ≤ 971 ∧
    (Nat.pow 2 52 ≤ significand ∨ exponent = -1074)

instance (significand : Nat) (exponent : Int) : Decidable (CanonicalParts significand exponent) :=
  inferInstanceAs (Decidable (_ ∧ _))

/-- The number `significand · 2 ^ exponent`, with a sign that zero has too. -/
structure Finite64 where
  negative : Bool
  significand : Nat
  exponent : Int
  canonical : CanonicalParts significand exponent
  deriving DecidableEq

inductive Binary64 where
  | finite (x : Finite64)
  | infinite (negative : Bool)
  | undefined
  deriving DecidableEq

namespace Finite64

def zero (negative : Bool) : Finite64 :=
  ⟨negative, 0, -1074, by decide⟩

/-- Numerator and denominator of the magnitude. -/
def ratio (x : Finite64) : Nat × Nat :=
  if 0 ≤ x.exponent then (x.significand * Nat.pow 2 x.exponent.toNat, 1)
  else (x.significand, Nat.pow 2 (-x.exponent).toNat)

/-- How many units of `2 ^ -1074` make one. -/
def unitsPerOne : Nat :=
  Nat.pow 2 1074

theorem unitsPerOne_pos : 0 < unitsPerOne := by
  unfold unitsPerOne
  generalize 1074 = n
  exact Nat.two_pow_pos n

/-- The value counted in units of `2 ^ -1074`, of which every finite number is a multiple. -/
def units (x : Finite64) : Int :=
  let magnitude : Nat := x.significand * Nat.pow 2 (x.exponent + 1074).toNat
  if x.negative then -(magnitude : Int) else magnitude

end Finite64

namespace Binary64

/-- The quotient rounded to the nearest whole number, a half to the even one. -/
def roundHalfEven (num den : Nat) : Nat :=
  let quotient := num / den
  let rest := num % den
  if 2 * rest < den ∨ (2 * rest = den ∧ quotient % 2 = 0) then quotient else quotient + 1

/-- The exponent of the grid on which a positive ratio is rounded: 53 bits, or the last grid. -/
def gridExponent (num den : Nat) : Int :=
  let lead : Int := num.log2 - den.log2
  let reached : Bool :=
    if 0 ≤ lead then den * Nat.pow 2 lead.toNat ≤ num
    else den ≤ num * Nat.pow 2 (-lead).toNat
  max (-1074) ((if reached then lead else lead - 1) - 52)

/-- Rounding may have carried into a 54th bit; what no exponent can hold is infinite. -/
def ofParts (negative : Bool) (significand : Nat) (exponent : Int) : Binary64 :=
  if h : CanonicalParts significand exponent then .finite ⟨negative, significand, exponent, h⟩
  else if h : CanonicalParts (significand / 2) (exponent + 1) then
    .finite ⟨negative, significand / 2, exponent + 1, h⟩
  else .infinite negative

/-- The number nearest to a ratio, of two the one with the even significand. -/
def ofRatio (negative : Bool) (num den : Nat) : Binary64 :=
  if num = 0 then .finite (.zero negative)
  else
    let e := gridExponent num den
    let significand :=
      if 0 ≤ e then roundHalfEven num (den * Nat.pow 2 e.toNat)
      else roundHalfEven (num * Nat.pow 2 (-e).toNat) den
    ofParts negative significand e

/-- The number nearest to a decimal.  Beyond `10 ^ 400` all is infinite, below `10 ^ -400` zero,
which spares the powers of ten that an exponent of many digits would ask for. -/
def ofDecimal (d : Decimal) : Binary64 :=
  if d.coefficient = 0 then .finite (.zero d.negative)
  else if 400 < d.point then .infinite d.negative
  else if d.point < -400 then .finite (.zero d.negative)
  else if 0 ≤ d.exponent then ofRatio d.negative (d.coefficient * Nat.pow 10 d.exponent.toNat) 1
  else ofRatio d.negative d.coefficient (Nat.pow 10 (-d.exponent).toNat)

end Binary64

end DotGraph
