import DotGraph.Text.Quoted

/-! Closed vocabularies: the words an attribute may be restricted to. -/

namespace DotGraph

/-- A word of a vocabulary: it has a name there, and a value under which it is written. -/
structure Token where
  vocabulary : String
  name : String
  value : String
  deriving DecidableEq

namespace Token

def qualifiedName (t : Token) : String :=
  t.vocabulary ++ "." ++ t.name

def shown (t : Token) : String :=
  "<" ++ t.qualifiedName ++ ": " ++ Text.quoted t.value ++ ">"

end Token

/-- The words in the order in which a message lists them; no value stands for two words. -/
structure Vocabulary where
  name : String
  words : List (String × String)
  distinct : (words.map Prod.snd).Nodup
  deriving DecidableEq

namespace Vocabulary

def tokens (v : Vocabulary) : List Token :=
  v.words.map fun word => ⟨v.name, word.1, word.2⟩

def values (v : Vocabulary) : List String :=
  v.words.map Prod.snd

def token? (v : Vocabulary) (value : String) : Option Token :=
  v.tokens.find? fun t => t.value == value

def named? (v : Vocabulary) (name : String) : Option Token :=
  v.tokens.find? fun t => t.name == name

end Vocabulary

end DotGraph
