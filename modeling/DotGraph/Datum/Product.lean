import DotGraph.Binary64.Product
import DotGraph.Datum
import DotGraph.Text.Indentation

/-!
The product of two values.  Numbers are multiplied; a text, a list or a tuple is repeated as often
as a whole number says, on whichever side it stands.  No other two values have a product.
-/

namespace DotGraph

inductive ProductError where
  /-- Values of these kinds are not multiplied. -/
  | kinds
  /-- No such number is counted with. -/
  | outOfRange
  /-- More copies than anything can hold. -/
  | noRoom
  deriving DecidableEq

def ProductError.message : ProductError → String
  | kinds => "no product of such values"
  | outOfRange => "the number is too large"
  | noRoom => "the product is too large"

/-- One more than the greatest number that copies and characters are counted with. -/
def countBound : Int := 9223372036854775808

/-- The most items or characters that a product may have. -/
def roomBound : Int := 68719476736

/-- How many copies a whole number asks for, of something that has so many items.  A number below
zero asks for none. -/
def copies (n : Int) (size : Nat) : Except ProductError Nat :=
  if n < -countBound ∨ countBound ≤ n then .error .outOfRange
  else if roomBound < n * size then .error .noRoom
  else .ok n.toNat

namespace Text

/-- How many copies of a unit a whole number asks for; their characters are counted too. -/
def copies (unit : String) (n : Int) : Except ProductError Nat :=
  if countBound ≤ n * unit.length then .error .outOfRange
  else DotGraph.copies n unit.length

/-- A unit so many times. -/
def repeated (unit : String) (n : Int) : Except ProductError String := do
  return times (← copies unit n) unit

theorem copies_eq {unit : String} {n : Int} {count : Nat} (h : copies unit n = .ok count) :
    count = n.toNat := by
  unfold copies DotGraph.copies at h
  split at h
  · cases h
  · split at h
    · cases h
    · split at h
      · cases h
      · cases h
        rfl

theorem repeated_eq {unit text : String} {n : Int} (h : repeated unit n = .ok text) :
    text = indentation n unit := by
  unfold repeated at h
  cases hc : copies unit n with
  | error e => rw [hc] at h; cases h
  | ok count =>
    rw [hc] at h
    cases h
    rw [copies_eq hc]
    rfl

end Text

namespace Datum

/-- The value as a whole number, for which a flag counts as zero or one. -/
def whole? : Datum → Option Int
  | integer n => some n
  | flag b => some (if b then 1 else 0)
  | _ => none

/-- The items so many times; where there are none, no copy is made. -/
def repeatedItems (items : List Datum) (n : Int) : Except ProductError (List Datum) := do
  let count ← copies n items.length
  return if items.isEmpty then [] else (List.replicate count items).flatten

/-- A value so many times. -/
def repeated (d : Datum) (n : Int) : Except ProductError Datum :=
  match d with
  | text s => return text (← Text.repeated s n)
  | list items => return list (← repeatedItems items n)
  | tuple items => return tuple (← repeatedItems items n)
  | _ => .error .kinds

/-- The number that a value stands for beside a floating-point number. -/
def toBinary64 (d : Datum) : Except ProductError Binary64 :=
  match d, d.whole? with
  | float x, _ => .ok x
  | _, some n =>
    match Binary64.ofInt? n with
    | some x => .ok x
    | none => .error .outOfRange
  | _, none => .error .kinds

def product (a b : Datum) : Except ProductError Datum :=
  match a.whole?, b.whole? with
  | some m, some n => .ok (integer (m * n))
  | _, _ =>
    match a, b with
    | float _, _ => return float ((← a.toBinary64).mul (← b.toBinary64))
    | _, float _ => return float ((← a.toBinary64).mul (← b.toBinary64))
    | _, _ =>
      match a.whole?, b.whole? with
      | none, some n => a.repeated n
      | some m, none => b.repeated m
      | _, _ => .error .kinds

theorem product_integer (m n : Int) : product (integer m) (integer n) = .ok (integer (m * n)) :=
  rfl

theorem product_text (s : String) (n : Int) :
    product (text s) (integer n) = (text s).repeated n := rfl

end Datum

end DotGraph
