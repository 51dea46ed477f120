import DotGraph.Identifier
import DotGraph.Vocabulary

/-! Node ids: a node's name and, possibly, the side of the node at which an edge ends. -/

namespace DotGraph

/-- The sides of a node, its centre, and the choice left to the layout. -/
inductive CompassPoint where
  | n
  | ne
  | e
  | se
  | s
  | sw
  | w
  | nw
  | c
  | free
  deriving DecidableEq

namespace CompassPoint

def all : List CompassPoint :=
  [n, ne, e, se, s, sw, w, nw, c, free]

def name : CompassPoint → String
  | n => "N"
  | ne => "NE"
  | e => "E"
  | se => "SE"
  | s => "S"
  | sw => "SW"
  | w => "W"
  | nw => "NW"
  | c => "C"
  | free => "DEFAULT"

def text : CompassPoint → String
  | n => "n"
  | ne => "ne"
  | e => "e"
  | se => "se"
  | s => "s"
  | sw => "sw"
  | w => "w"
  | nw => "nw"
  | c => "c"
  | free => "_"

def vocabulary : Vocabulary where
  name := "CompassPoint"
  words := all.map fun p => (p.name, p.text)
  distinct := by decide

def token (p : CompassPoint) : Token :=
  ⟨"CompassPoint", p.name, p.text⟩

def ofText? (text : String) : Option CompassPoint :=
  all.find? fun p => p.text == text

def ofToken? (t : Token) : Option CompassPoint :=
  all.find? fun p => p.token == t

theorem mem_all (p : CompassPoint) : p ∈ all := by
  cases p <;> decide

@[simp] theorem ofText?_text (p : CompassPoint) : ofText? p.text = some p := by
  cases p <;> decide

end CompassPoint

structure NodeId where
  name : Identifier
  port : Option CompassPoint
  deriving DecidableEq

namespace NodeId

/-- The name, and behind the separator the port if there is one. -/
def written (separator : String) (id : NodeId) : String :=
  match id.port with
  | none => id.name.text
  | some port => id.name.text ++ separator ++ port.text

def shown (id : NodeId) : String :=
  "NodeId(name=" ++ Text.quoted id.name.text ++ ", port=" ++
    (match id.port with
      | none => "None"
      | some port => port.token.shown) ++ ")"

end NodeId

end DotGraph
