/-!
Texts that are given by 16-bit units.  Two units that belong together make one character; half of
such a pair makes none, and a text that holds one is torn.
-/

namespace DotGraph.Text

/-- What a text is made of: characters, and 16-bit units given by their code. -/
inductive Piece where
  | char (c : Char)
  | unit (n : Nat)
  deriving DecidableEq

def isHighUnit (n : Nat) : Bool :=
  0xD800 ≤ n && n < 0xDC00

def isLowUnit (n : Nat) : Bool :=
  0xDC00 ≤ n && n < 0xE000

def ofPair (high low : Nat) : Char :=
  Char.ofNat (0x10000 + (high - 0xD800) * 0x400 + (low - 0xDC00))

namespace Piece

/-- A unit on its own is a character, unless it is half of a pair. -/
def ofUnit (n : Nat) : Piece :=
  if isHighUnit n || isLowUnit n then unit n else char (Char.ofNat n)

/-- Units give way to characters wherever they make some. -/
def assemble : List Piece → List Piece
  | [] => []
  | char c :: rest => char c :: assemble rest
  | unit high :: unit low :: rest =>
    if isHighUnit high && isLowUnit low then char (ofPair high low) :: assemble rest
    else ofUnit high :: assemble (unit low :: rest)
  | unit n :: rest => ofUnit n :: assemble rest

def char? : Piece → Option Char
  | char c => some c
  | unit _ => none

/-- The text, if it is not torn. -/
def text? (pieces : List Piece) : Option String :=
  (pieces.mapM char?).map String.ofList

/-- The text in which each half of a pair is replaced. -/
def mended (pieces : List Piece) : String :=
  String.ofList (pieces.map fun piece => piece.char?.getD '\ufffd')

theorem mapM_char? (text : List Char) : (text.map char).mapM char? = some text := by
  induction text with
  | nil => rfl
  | cons c rest ih => simp [char?, ih]

@[simp] theorem text?_char (text : List Char) :
    text? (text.map char) = some (String.ofList text) := by
  rw [text?, mapM_char?]
  rfl

@[simp] theorem assemble_char (text : List Char) : assemble (text.map char) = text.map char := by
  induction text with
  | nil => rfl
  | cons c rest ih => simp [assemble, ih]

end Piece

end DotGraph.Text
