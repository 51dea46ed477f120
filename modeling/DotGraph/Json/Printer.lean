import DotGraph.Binary64.Shortest
import DotGraph.Json
import DotGraph.Text.Hex
import DotGraph.Text.Indentation

/-!
The text of a JSON value, all in ASCII.  It stands either on one line, or with one line for each
item and each member.
-/

namespace DotGraph.Json

open Text

/-- How a value is laid out; the text of `broken` is the unit of its indentation. -/
inductive Layout where
  | line
  | broken (unit : String)
  deriving DecidableEq

namespace Layout

def lineBreak (level : Nat) : Layout → String
  | line => ""
  | broken unit => "\n" ++ times level unit

def separator (level : Nat) : Layout → String
  | line => ", "
  | broken unit => "," ++ lineBreak level (broken unit)

end Layout

/-! ### Quoted texts -/

/-- The code units of a character in the 16-bit encoding: two beyond U+FFFF, else one. -/
def units16 (c : Char) : List Nat :=
  let n := c.toNat
  if n < 0x10000 then [n]
  else [0xD800 + (n - 0x10000) / 0x400, 0xDC00 + (n - 0x10000) % 0x400]

def escapedUnit (n : Nat) : List Char :=
  '\x5c' :: 'u' :: hex 4 n

/-- Characters from the space to the tilde stand for themselves, but for two. -/
def escaped (c : Char) : List Char :=
  if c = '\x22' ∨ c = '\x5c' then ['\x5c', c]
  else if 32 ≤ c.toNat ∧ c.toNat ≤ 126 then [c]
  else if c = '\n' then ['\x5c', 'n']
  else if c = '\r' then ['\x5c', 'r']
  else if c = '\t' then ['\x5c', 't']
  else if c.toNat = 8 then ['\x5c', 'b']
  else if c.toNat = 12 then ['\x5c', 'f']
  else (units16 c).flatMap escapedUnit

def quoted (text : String) : String :=
  String.ofList ('\x22' :: text.toList.flatMap escaped ++ ['\x22'])

def escapedPiece : Piece → List Char
  | .char c => escaped c
  | .unit n => escapedUnit n

def quotedTorn (pieces : List Piece) : String :=
  String.ofList ('\x22' :: pieces.flatMap escapedPiece ++ ['\x22'])

/-- Numbers without a value have a word here too, which strict readers refuse. -/
def floatText : Binary64 → String
  | .finite x => x.shown
  | .infinite false => "Infinity"
  | .infinite true => "-Infinity"
  | .undefined => "NaN"

/-! ### Values -/

/-- The pieces between two brackets; nothing at all, not even a line break, if there are none. -/
def enclosed (layout : Layout) (level : Nat) (left right : String) : List String → String
  | [] => left ++ right
  | pieces =>
    left ++ layout.lineBreak (level + 1) ++ (layout.separator (level + 1)).intercalate pieces ++
      layout.lineBreak level ++ right

mutual

def print (layout : Layout) (level : Nat) : Json → String
  | null => "null"
  | flag b => if b then "true" else "false"
  | integer n => toString n
  | float x => floatText x
  | text s => quoted s
  | torn pieces => quotedTorn pieces
  | array items => enclosed layout level "[" "]" (printItems layout (level + 1) items)
  | object members =>
    enclosed layout level "\x7b" "\x7d" (printMembers layout (level + 1) members)

def printItems (layout : Layout) (level : Nat) : List Json → List String
  | [] => []
  | item :: rest => print layout level item :: printItems layout level rest

def printMembers (layout : Layout) (level : Nat) : List (String × Json) → List String
  | [] => []
  | (key, value) :: rest =>
    (quoted key ++ ": " ++ print layout level value) :: printMembers layout level rest

end

/-- The text of a whole value. -/
def toText (layout : Layout) (value : Json) : String :=
  value.print layout 0

end DotGraph.Json
