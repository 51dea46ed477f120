import DotGraph.Text.Digits

/-!
Identifiers: the names that a graph text holds without quotes.  They are either names (letters,
digits, underscores and the characters from U+0080 to U+FFFF, no digit first) or numerals without
an exponent; the keywords of the graph language are excluded in every letter case.
-/

namespace DotGraph

open Text

namespace Identifier

def keywords : List String :=
  ["node", "edge", "graph", "digraph", "subgraph", "strict"]

def isKeyword (text : List Char) : Bool :=
  keywords.any fun word => text.map Char.toLower == word.toList

def isNameStart (c : Char) : Bool :=
  (65 ≤ c.toNat && c.toNat ≤ 90) || (97 ≤ c.toNat && c.toNat ≤ 122) || c == '_' ||
    (0x80 ≤ c.toNat && c.toNat ≤ 0xFFFF)

def isNamePart (c : Char) : Bool :=
  isNameStart c || isDigit c

def isName : List Char → Bool
  | [] => false
  | c :: rest => isNameStart c && rest.all isNamePart

/-- Digits, with a point anywhere among them or none, but not a point alone. -/
def isUnsignedNumeral (text : List Char) : Bool :=
  match takeDigits text with
  | ([], '.' :: fraction) => !fraction.isEmpty && fraction.all isDigit
  | (_ :: _, []) => true
  | (_ :: _, '.' :: fraction) => fraction.all isDigit
  | _ => false

def isNumeral : List Char → Bool
  | '-' :: rest => isUnsignedNumeral rest
  | text => isUnsignedNumeral text

end Identifier

def isIdentifier (text : String) : Bool :=
  !Identifier.isKeyword text.toList &&
    (Identifier.isName text.toList || Identifier.isNumeral text.toList)

structure Identifier where
  text : String
  wellFormed : isIdentifier text = true
  deriving DecidableEq

namespace Identifier

theorem text_inj {name name' : Identifier} (h : name.text = name'.text) : name = name' := by
  cases name
  cases name'
  cases h
  rfl

def ofText? (text : String) : Option Identifier :=
  if h : isIdentifier text = true then some ⟨text, h⟩ else none

@[simp] theorem ofText?_text (name : Identifier) : ofText? name.text = some name := by
  simp [ofText?, name.wellFormed]

theorem ofText?_eq_none_iff (text : String) : ofText? text = none ↔ isIdentifier text = false := by
  by_cases h : isIdentifier text = true <;> simp_all [ofText?]

end Identifier

end DotGraph
