import DotGraph.Decimal.Reader
import DotGraph.Json
import DotGraph.Text.Hex

/-!
Reading JSON values.  The reader takes one value with blanks around it and nothing else.  Of two
members with one key it keeps the place of the first and the value of the last.  Of several faults
the first in the text is told.  Readers differ in what numbers they take: the one that reads files
accepts the three words for numbers without a value and no overlong row of digits, a strict one
accepts no words and digits without end.
-/

namespace DotGraph.Json

open Text

/-- Which numbers a reader takes: the words for numbers without a value or not, and whole numbers
of any length or only of so many digits. -/
structure Dialect where
  words : Bool
  digitLimit : Option Nat

namespace Dialect

def lenient : Dialect :=
  ⟨true, some Text.digitLimit⟩

def strict : Dialect :=
  ⟨false, none⟩

end Dialect

def isBlankChar (c : Char) : Bool :=
  c == ' ' || c == '\t' || c == '\n' || c == '\r'

def skipBlanks (input : List Char) : List Char :=
  input.dropWhile isBlankChar

/-! ### Quoted texts -/

def hexUnit? (a b c d : Char) : Option Nat := do
  let a ← hexValue? a
  let b ← hexValue? b
  let c ← hexValue? c
  let d ← hexValue? d
  return ((a * 16 + b) * 16 + c) * 16 + d

/-- The character that a letter behind a backslash stands for. -/
def shortEscape? (c : Char) : Option Char :=
  if c = '\x22' ∨ c = '\x5c' ∨ c = '/' then some c
  else if c = 'b' then some '\x08'
  else if c = 'f' then some '\x0c'
  else if c = 'n' then some '\n'
  else if c = 'r' then some '\r'
  else if c = 't' then some '\t'
  else none

/-- Reads up to the closing quote.  Control characters have to be escaped. -/
def pieces? : List Char → Option (List Piece × List Char)
  | [] => none
  | '\x22' :: rest => some ([], rest)
  | '\x5c' :: 'u' :: a :: b :: c :: d :: rest => do
    let n ← hexUnit? a b c d
    let (pieces, rest) ← pieces? rest
    return (.unit n :: pieces, rest)
  | '\x5c' :: e :: rest => do
    let c ← shortEscape? e
    let (pieces, rest) ← pieces? rest
    return (.char c :: pieces, rest)
  | c :: rest =>
    if c = '\x5c' ∨ c.toNat < 32 then none
    else do
      let (pieces, rest) ← pieces? rest
      return (.char c :: pieces, rest)

/-- A quoted text whose opening quote has been read. -/
def quotedRest? (input : List Char) : Option (List Piece × List Char) := do
  let (pieces, rest) ← pieces? input
  return (Piece.assemble pieces, rest)

/-! ### Numbers and words -/

/-- A zero in front ends the whole digits. -/
def takeWhole? (input : List Char) : Option (List Char × List Char) :=
  match takeDigits input with
  | ([], _) => none
  | ('0' :: more, rest) => some (['0'], more ++ rest)
  | found => some found

/-- Why a text cannot be read. -/
inductive ReadError where
  | malformed
  /-- A whole number of so many digits, which are too many. -/
  | tooManyDigits (count : Nat)
  deriving DecidableEq

def ReadError.message : ReadError → String
  | malformed => "not a JSON text"
  | tooManyDigits count => tooManyDigitsMessage count

def orMalformed {α : Type} : Option α → Except ReadError α
  | some a => .ok a
  | none => .error .malformed

variable (d : Dialect)

def wholeNumber (negative : Bool) (digits rest : List Char) : Except ReadError (Json × List Char) :=
  if d.digitLimit.any (· < digits.length) then .error (.tooManyDigits digits.length)
  else
    let n : Int := digitsValue digits
    .ok (integer (if negative then -n else n), rest)

/-- Without a fraction and an exponent a number is whole. -/
def unsigned (negative : Bool) (input : List Char) : Except ReadError (Json × List Char) := do
  let (whole, input) ← orMalformed (takeWhole? input)
  let fraction := Decimal.takeFraction? input
  let (digits, input) := fraction.getD ([], input)
  let exponent := Decimal.takeExponent? input
  let (power, input) := exponent.getD (0, input)
  if fraction.isNone && exponent.isNone then wholeNumber d negative whole input
  else return (float (Binary64.ofDecimal (Decimal.ofParts negative whole digits power)), input)

/-- A word for a number without a value, if one is next. -/
def word? : List Char → Option (Binary64 × List Char)
  | 'N' :: 'a' :: 'N' :: rest => some (.undefined, rest)
  | 'I' :: 'n' :: 'f' :: 'i' :: 'n' :: 'i' :: 't' :: 'y' :: rest => some (.infinite false, rest)
  | '-' :: 'I' :: 'n' :: 'f' :: 'i' :: 'n' :: 'i' :: 't' :: 'y' :: rest =>
    some (.infinite true, rest)
  | _ => none

def number (input : List Char) : Except ReadError (Json × List Char) :=
  match if d.words then word? input else none with
  | some (x, rest) => .ok (float x, rest)
  | none =>
    match input with
    | '-' :: rest => unsigned d true rest
    | input => unsigned d false input

def scalar : List Char → Except ReadError (Json × List Char)
  | 'n' :: 'u' :: 'l' :: 'l' :: rest => .ok (null, rest)
  | 't' :: 'r' :: 'u' :: 'e' :: rest => .ok (flag true, rest)
  | 'f' :: 'a' :: 'l' :: 's' :: 'e' :: rest => .ok (flag false, rest)
  | input => number d input

/-! ### Values -/

/-- A key with its colon, up to the value.  A key that is torn is mended: none of those is looked
up. -/
def key? : List Char → Option (String × List Char)
  | '\x22' :: rest => do
    let (pieces, rest) ← quotedRest? rest
    match skipBlanks rest with
    | ':' :: rest => return (Piece.mended pieces, skipBlanks rest)
    | _ => none
  | _ => none

mutual

/-- Each call needs one unit of fuel, and no text needs more than `fuelFor` gives it. -/
def value : Nat → List Char → Except ReadError (Json × List Char)
  | 0, _ => .error .malformed
  | fuel + 1, input =>
    match input with
    | '\x22' :: rest => do
      let (pieces, rest) ← orMalformed (quotedRest? rest)
      return (.ofPieces pieces, rest)
    | '[' :: rest =>
      match skipBlanks rest with
      | ']' :: rest => .ok (array [], rest)
      | rest => do
        let (items, rest) ← items fuel rest
        return (array items, rest)
    | '\x7b' :: rest =>
      match skipBlanks rest with
      | '\x7d' :: rest => .ok (object [], rest)
      | rest => do
        let (members, rest) ← members fuel rest
        return (object (Entries.ofList members), rest)
    | input => scalar d input

/-- One item or more, up to and with the closing bracket. -/
def items : Nat → List Char → Except ReadError (List Json × List Char)
  | 0, _ => .error .malformed
  | fuel + 1, input => do
    let (item, rest) ← value fuel input
    match skipBlanks rest with
    | ']' :: rest => return ([item], rest)
    | ',' :: rest =>
      let (others, rest) ← items fuel (skipBlanks rest)
      return (item :: others, rest)
    | _ => throw .malformed

/-- One member or more, up to and with the closing brace. -/
def members : Nat → List Char → Except ReadError (List (String × Json) × List Char)
  | 0, _ => .error .malformed
  | fuel + 1, input => do
    let (key, rest) ← orMalformed (key? input)
    let (value, rest) ← value fuel rest
    match skipBlanks rest with
    | '\x7d' :: rest => return ([(key, value)], rest)
    | ',' :: rest =>
      let (others, rest) ← members fuel (skipBlanks rest)
      return ((key, value) :: others, rest)
    | _ => throw .malformed

end

/-- A bracket costs two calls, all else at most one for each character. -/
def fuelFor (input : List Char) : Nat :=
  2 * input.length + 2

/-- The value of a whole text. -/
def readIn (input : String) : Except ReadError Json := do
  let chars := skipBlanks input.toList
  let (found, rest) ← value d (fuelFor chars) chars
  if (skipBlanks rest).isEmpty then return found else throw .malformed

/-- The value of a text out of a file. -/
def read (input : String) : Except ReadError Json :=
  readIn .lenient input

end DotGraph.Json
