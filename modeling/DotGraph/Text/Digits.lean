/-! Rows of decimal digits. -/

namespace DotGraph.Text

/-- Only the ten digits of ASCII count. -/
def isDigit (c : Char) : Bool :=
  48 ≤ c.toNat && c.toNat ≤ 57

/-- A longer row of digits is neither read nor written as one whole number. -/
def digitLimit : Nat := 4300

def limitMessage (detail : String) : String :=
  "Exceeds the limit (" ++ toString digitLimit ++ " digits) for integer string conversion" ++
    detail ++ "; use sys.set_int_max_str_digits() to increase the limit"

/-- What is said of a row of so many digits that is not read. -/
def tooManyDigitsMessage (count : Nat) : String :=
  limitMessage (": value has " ++ toString count ++ " digits")

/-- The number that a row of digits denotes. -/
def digitsValue (digits : List Char) : Nat :=
  digits.foldl (fun n c => 10 * n + (c.toNat - 48)) 0

/-- The digits at the front of a text, and the rest. -/
def takeDigits (text : List Char) : List Char × List Char :=
  (text.takeWhile isDigit, text.dropWhile isDigit)

theorem takeDigits_append (text : List Char) :
    (takeDigits text).1 ++ (takeDigits text).2 = text :=
  List.takeWhile_append_dropWhile

theorem isDigit_of_mem_takeDigits {text : List Char} {c : Char} (h : c ∈ (takeDigits text).1) :
    isDigit c = true :=
  List.all_eq_true.1 (List.all_takeWhile) c h

end DotGraph.Text
