import DotGraph.Text.Hex
import DotGraph.Text.Piece
import DotGraph.Text.Printable

/-!
Quoted literals, the form in which messages show a text.  The quote is single unless the text
holds single quotes and no double ones; what cannot be printed is written by its code point.
-/

namespace DotGraph.Text

/-- The escape of a character by its code point, in the shortest of three widths that fits. -/
def escapedCode (c : Char) : List Char :=
  let n := c.toNat
  if n < 0x100 then '\x5c' :: 'x' :: hex 2 n
  else if n < 0x10000 then '\x5c' :: 'u' :: hex 4 n
  else '\x5c' :: 'U' :: hex 8 n

/-- One character inside a literal that stands in the given quotes. -/
def escapedChar (quote c : Char) : List Char :=
  if c = '\x5c' ∨ c = quote then ['\x5c', c]
  else if c = '\n' then ['\x5c', 'n']
  else if c = '\r' then ['\x5c', 'r']
  else if c = '\t' then ['\x5c', 't']
  else if isPrintable c then [c]
  else escapedCode c

def quoteFor (text : List Char) : Char :=
  if text.contains '\x27' && !text.contains '\x22' then '\x22' else '\x27'

def quoted (text : String) : String :=
  let quote := quoteFor text.toList
  String.ofList (quote :: text.toList.flatMap (escapedChar quote) ++ [quote])

/-- Half of a surrogate pair is never printed. -/
def escapedPiece (quote : Char) : Piece → List Char
  | .char c => escapedChar quote c
  | .unit n => '\x5c' :: 'u' :: hex 4 n

/-- The literal of a torn text. -/
def quotedTorn (pieces : List Piece) : String :=
  let quote := quoteFor (pieces.filterMap Piece.char?)
  String.ofList (quote :: pieces.flatMap (escapedPiece quote) ++ [quote])

/-- A text that is not torn has the same literal either way. -/
theorem quotedTorn_char (text : List Char) :
    quotedTorn (text.map .char) = quoted (String.ofList text) := by
  have filtered (text : List Char) : (text.map Piece.char).filterMap Piece.char? = text := by
    induction text with
    | nil => rfl
    | cons c rest ih => simp_all [Piece.char?]
  have escaped (quote : Char) (text : List Char) :
      (text.map Piece.char).flatMap (escapedPiece quote) = text.flatMap (escapedChar quote) := by
    induction text with
    | nil => rfl
    | cons c rest ih => simp [escapedPiece, ih]
  simp [quotedTorn, quoted, filtered, escaped]

end DotGraph.Text
