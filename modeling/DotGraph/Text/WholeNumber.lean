import DotGraph.Text.Digits
import DotGraph.Text.Quoted

/-!
Whole numbers as they are typed: blanks around them, a sign in front and single underscores between
digits are allowed, and the digits may be those of any script.
-/

namespace DotGraph.Text

/-- The zeros of the decimal digit rows; the other nine digits of a row follow its zero. -/
def zeros : List Nat :=
  [
   0x30, 0x660, 0x6F0, 0x7C0, 0x966, 0x9E6, 0xA66, 0xAE6, 0xB66, 0xBE6, 0xC66, 0xCE6, 0xD66, 0xDE6,
   0xE50, 0xED0, 0xF20, 0x1040, 0x1090, 0x17E0, 0x1810, 0x1946, 0x19D0, 0x1A80, 0x1A90, 0x1B50,
   0x1BB0, 0x1C40, 0x1C50, 0xA620, 0xA8D0, 0xA900, 0xA9D0, 0xA9F0, 0xAA50, 0xABF0, 0xFF10, 0x104A0,
   0x10D30, 0x11066, 0x110F0, 0x11136, 0x111D0, 0x112F0, 0x11450, 0x114D0, 0x11650, 0x116C0,
   0x11730, 0x118E0, 0x11950, 0x11C50, 0x11D50, 0x11DA0, 0x16A60, 0x16AC0, 0x16B50, 0x1D7CE,
   0x1D7D8, 0x1D7E2, 0x1D7EC, 0x1D7F6, 0x1E140, 0x1E2F0, 0x1E950, 0x1FBF0
  ]

def digit? (c : Char) : Option Nat :=
  (zeros.find? fun first => first ≤ c.toNat && c.toNat < first + 10).map fun first =>
    c.toNat - first

/-- First and last code point of each run of blanks; the four separators of ASCII are none. -/
def blankRuns : List (Nat × Nat) :=
  [(0x9, 0xD), (0x20, 0x20), (0x85, 0x85), (0xA0, 0xA0), (0x1680, 0x1680), (0x2000, 0x200A),
    (0x2028, 0x2029), (0x202F, 0x202F), (0x205F, 0x205F), (0x3000, 0x3000)]

def isBlank (c : Char) : Bool :=
  blankRuns.any fun run => run.1 ≤ c.toNat && c.toNat ≤ run.2

def trim (text : List Char) : List Char :=
  ((text.dropWhile isBlank).reverse.dropWhile isBlank).reverse

/-- Why a text is not read as a number. -/
inductive NumeralError where
  | notWhole (text : String)
  | notNumber (text : String)
  | tooManyDigits (count : Nat)
  deriving DecidableEq

/-- Of a text that is no whole number no more than the beginning is shown. -/
def NumeralError.message : NumeralError → String
  | notWhole text =>
    "invalid literal for int() with base 10: " ++ String.ofList ((quoted text).toList.take 200)
  | notNumber text => "could not convert string to float: " ++ quoted text
  | tooManyDigits count => tooManyDigitsMessage count

/-- Digits behind those that have been read; an underscore has a digit on either side. -/
def digitsFrom? (read : Nat) : List Char → Option Nat
  | [] => some read
  | '_' :: c :: rest =>
    match digit? c with
    | some d => digitsFrom? (10 * read + d) rest
    | none => none
  | c :: rest =>
    match digit? c with
    | some d => digitsFrom? (10 * read + d) rest
    | none => none

/-- Whether a character can stand in a run of digits. -/
def isNumeral (c : Char) : Bool :=
  c == '_' || (digit? c).isSome

/-- How many digits a run has; underscores do not count, zeros in front do. -/
def digitCount (run : List Char) : Nat :=
  run.countP (· ≠ '_')

/-- The run of digits at the front is looked at first, whether it is written as it should be and
then how long it is; a text with anything behind the run is no whole number. -/
def natural (text : List Char) (whole : String) : Except NumeralError Nat :=
  match text.span isNumeral with
  | ([], _) => .error (.notWhole whole)
  | (c :: digits, rest) =>
    match (digit? c).bind fun d => digitsFrom? d digits with
    | none => .error (.notWhole whole)
    | some n =>
      if digitLimit < digitCount (c :: digits) then
        .error (.tooManyDigits (digitCount (c :: digits)))
      else if rest.isEmpty then .ok n
      else .error (.notWhole whole)

def wholeNumber (text : String) : Except NumeralError Int :=
  match trim text.toList with
  | '-' :: digits => (natural digits text).map fun n => -(n : Int)
  | '+' :: digits => (natural digits text).map fun n => n
  | digits => (natural digits text).map fun n => n

end DotGraph.Text
