import DotGraph.Store.Operation

/-!
Runs of the construction interface.  A call asks for an operation; one that takes a callback comes
with all that the callback does: the calls it makes, in their order and whether or not they are
refused, and the error with which it ends, if it ends with one.  A callback may call anything on any
body, also on the one that it fills.
-/

namespace DotGraph

/-- The name of a graph as a caller gives it. -/
def Datum.ofName : Option String → Datum
  | none => absent
  | some s => text s

def Argument.ofVertex : Vertex → Argument
  | .node id => datum (.nodeId id)
  | .subgraph s => object (.subgraph s)

inductive Call where
  | ask (op : Operation)
  /-- A root graph and the callback on it. -/
  | graph (name : Datum) (strict directed : Bool) (inner : List Call)
      (raised : Option BuildError)
  /-- A subgraph of a body, the callback on it, and whether it is appended in the end. -/
  | subgraph (b : BodyRef) (name : Datum) (appended : Bool) (inner : List Call)
      (raised : Option BuildError)

namespace Build

variable {α : Type}

/-- The store that a step leaves, refused or not. -/
def after (x : Build α) (σ : Store) : Store :=
  (x.run.run σ).2

def raise : Option BuildError → Build Unit
  | none => pure ()
  | some e => throw e

/-- A step whose refusal is caught. -/
def attempt (x : Build α) : Build Unit :=
  tryCatch (x >>= fun _ => pure ()) fun _ => pure ()

end Build

namespace Call

mutual

def run : Call → Build Object
  | ask op => op.run
  | graph name strict directed inner raised => do
    let r ← Build.newRoot name (.flag strict) (.ofDirected directed)
    runAll inner
    Build.raise raised
    return .root r
  | subgraph b name appended inner raised => do
    return .subgraph (← Build.subgraph b name appended fun _ => do
      runAll inner
      Build.raise raised)

/-- Runs calls one after the other, going on behind one that is refused. -/
def runAll : List Call → Build Unit
  | [] => pure ()
  | call :: rest => do
    Build.attempt call.run
    runAll rest

end

end Call

namespace Store

/-- The store after a run of calls. -/
def after (σ : Store) (calls : List Call) : Store :=
  (Call.runAll calls).after σ

/-- A store that some run of calls comes to. -/
def Reachable (σ : Store) : Prop :=
  ∃ calls, empty.after calls = σ

end Store

end DotGraph
