import DotGraph.Datum

/-! Names and ports out of what a caller gives, and the ways in which one is refused. -/

namespace DotGraph

inductive NamingError where
  | nodeName (given : Datum)
  | port (given : Datum)
  | graphName (given : Datum)

namespace NamingError

def message : NamingError → String
  | nodeName given => "Invalid node name: " ++ given.shown
  | port given => "Invalid port: " ++ given.shown
  | graphName given => "Invalid graph name: " ++ given.shown

/-- Whether all that the message shows has a text. -/
def isTold : NamingError → Bool
  | nodeName given => given.isShown
  | port given => given.isShown
  | graphName given => given.isShown

end NamingError

namespace Identifier

/-- Only a text can be an identifier. -/
def ofDatum? : Datum → Option Identifier
  | .text s => ofText? s
  | _ => none

end Identifier

namespace CompassPoint

/-- A port is left out, or a point of the compass, or the text of one. -/
def ofDatum : Datum → Except NamingError (Option CompassPoint)
  | .absent => .ok none
  | .token t =>
    match ofToken? t with
    | some point => .ok (some point)
    | none => .error (.port (.token t))
  | .text word =>
    match ofText? word with
    | some point => .ok (some point)
    | none => .error (.port (.text word))
  | given => .error (.port given)

end CompassPoint

namespace NodeId

/-- The name is looked at first. -/
def ofDatum (name port : Datum) : Except NamingError NodeId :=
  match Identifier.ofDatum? name with
  | none => .error (.nodeName name)
  | some name => return ⟨name, ← CompassPoint.ofDatum port⟩

end NodeId

/-- A graph may go without a name. -/
def graphName : Datum → Except NamingError (Option Identifier)
  | .absent => .ok none
  | given =>
    match Identifier.ofDatum? given with
    | some name => .ok (some name)
    | none => .error (.graphName given)

end DotGraph
