import DotGraph.Decimal
import DotGraph.Text.Digits

/-!
Reading decimal numerals.  A numeral is taken apart into its whole digits, its fraction digits
and its exponent; the value is put together from these in one place.
-/

namespace DotGraph.Decimal

open Text

def ofParts (negative : Bool) (whole fraction : List Char) (exponent : Int) : Decimal :=
  ⟨negative, digitsValue (whole ++ fraction), exponent - fraction.length⟩

/-- A point and at least one digit, if they are next. -/
def takeFraction? : List Char → Option (List Char × List Char)
  | '.' :: rest =>
    match takeDigits rest with
    | ([], _) => none
    | found => some found
  | _ => none

/-- An exponent sign may be missing and then counts as plus. -/
def takeSign : List Char → Bool × List Char
  | '-' :: rest => (true, rest)
  | '+' :: rest => (false, rest)
  | text => (false, text)

/-- The letter `e` of either case, a sign and at least one digit, if they are next. -/
def takeExponent? : List Char → Option (Int × List Char)
  | c :: rest =>
    if c = 'e' ∨ c = 'E' then
      let (negative, rest) := takeSign rest
      match takeDigits rest with
      | ([], _) => none
      | (digits, rest) =>
        some (if negative then -(digitsValue digits : Int) else digitsValue digits, rest)
    else none
  | [] => none

/-- A whole text that is one numeral; digits may be missing on one side of the point. -/
def read? (text : List Char) : Option Decimal :=
  let (negative, text) := takeSign text
  let (whole, text) := takeDigits text
  let (fraction, text) :=
    match text with
    | '.' :: rest => takeDigits rest
    | _ => ([], text)
  if whole.isEmpty && fraction.isEmpty then none
  else
    match text, takeExponent? text with
    | [], _ => some (ofParts negative whole fraction 0)
    | _, some (exponent, []) => some (ofParts negative whole fraction exponent)
    | _, _ => none

end DotGraph.Decimal
