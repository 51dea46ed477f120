import DotGraph.Session.Query

/-!
Sessions: a store, and the names that a script has given to what is in it.  A step that is refused
binds no name, but what it wrote before it was refused stays.  Steps inside a step see the new
body under the name of the outer step; the first of them that is refused makes the outer step fail
in the same way.
-/

namespace DotGraph

structure Session where
  store : Store
  names : Names

/-- A step's answer, the session after it, and the entries of the steps inside it if their turn
came. -/
inductive Entry where
  | mk (outcome : Except ScriptError Answer) (after : Session) (inner : Option (List Entry))

namespace Entry

def outcome : Entry → Except ScriptError Answer
  | mk outcome _ _ => outcome

def after : Entry → Session
  | mk _ after _ => after

def inner : Entry → Option (List Entry)
  | mk _ _ inner => inner

end Entry

namespace Session

def empty : Session :=
  ⟨.empty, []⟩

def bind (s : Session) (x : Option String) (a : Argument) : Session :=
  match x with
  | none => s
  | some x => { s with names := s.names.put x a }

/-- Runs a part of a step on the store. -/
def exec {α : Type} (s : Session) (part : Scripting α) : Except ScriptError α × Session :=
  let (result, σ) := part.run.run s.store
  (result.mapError ScriptError.told, { s with store := σ })

/-- A name for what was made, if the step gives it one. -/
def bindMade (s : Session) (x : Option String) : Answer → Session
  | .made a => s.bind x a
  | _ => s

def runEdit (s : Session) (e : Edit) (x : Option String) : Entry :=
  match s.exec (e.run s.names) with
  | (.ok answer, after) => ⟨.ok answer, after.bindMade x answer, none⟩
  | (.error e, after) => ⟨.error e, after, none⟩

def runQuery (s : Session) (q : Query) : Entry :=
  ⟨(q.run s.store s.names).mapError ScriptError.told, s, none⟩

/-- What is left to do once the steps inside have been run. -/
def finish (s : Session) (x : Option String) (o : Object) (inner : Option (List Entry))
    (close : Scripting Unit) : Entry :=
  match s.exec close with
  | (.ok _, after) => ⟨.ok (.made (.object o)), after.bind x (.object o), inner⟩
  | (.error e, after) => ⟨.error e, after, inner⟩

def openRoot (s : Session) (operator : EdgeOperator) (name strict : Expr) :
    Except ScriptError RootId × Session :=
  s.exec do
    let name ← Scripting.reading fun σ => name.evalDatum σ s.names
    let strict ← Scripting.reading fun σ => strict.evalDatum σ s.names
    Scripting.building (Build.newRoot name strict operator)

/-- The body, the new subgraph, and whether it is to be appended. -/
def openSubgraph (s : Session) (on : String) (name appended : Expr) :
    Except ScriptError (BodyRef × SubgraphId × Bool) × Session :=
  s.exec do
    let b ← Scripting.reading fun _ => s.names.body? on
    let name ← Scripting.reading fun σ => name.evalDatum σ s.names
    let appended ← Scripting.reading fun σ => appended.evalDatum σ s.names
    return (b, ← Scripting.building (Build.openSubgraph b name), appended.counts)

def closeSubgraph (b : BodyRef) (sub : SubgraphId) (appended : Bool) : Scripting Unit :=
  Scripting.building (Build.closeSubgraph b sub appended)

/-- The session after some entries, and the refusal that ended them. -/
def outcomeOf (s : Session) : List Entry → Session × Option ScriptError
  | [] => (s, none)
  | [entry] =>
    (entry.after, match entry.outcome with
      | .ok _ => none
      | .error e => some e)
  | _ :: rest => s.outcomeOf rest

mutual

def run (s : Session) : Step → Entry
  | .edit e x => s.runEdit e x
  | .query q => s.runQuery q
  | .root operator name strict inner x =>
    match s.openRoot operator name strict with
    | (.error e, s) => ⟨.error e, s, none⟩
    | (.ok r, s) =>
      match inner with
      | none => s.finish x (.root r) none (pure ())
      | some steps =>
        let s := s.bind x (.object (.root r))
        let entries := s.runWhileOk steps
        match s.outcomeOf entries with
        | (s, some e) => ⟨.error e, s, some entries⟩
        | (s, none) => s.finish x (.root r) (some entries) (pure ())
  | .subgraph on name appended inner x =>
    match s.openSubgraph on name appended with
    | (.error e, s) => ⟨.error e, s, none⟩
    | (.ok (b, sub, appended), s) =>
      match inner with
      | none => s.finish x (.subgraph sub) none (closeSubgraph b sub appended)
      | some steps =>
        let s := s.bind x (.object (.subgraph sub))
        let entries := s.runWhileOk steps
        match s.outcomeOf entries with
        | (s, some e) => ⟨.error e, s, some entries⟩
        | (s, none) =>
          s.finish x (.subgraph sub) (some entries) (closeSubgraph b sub appended)

/-- Runs steps up to the first that is refused, which is the last entry. -/
def runWhileOk (s : Session) : List Step → List Entry
  | [] => []
  | step :: rest =>
    let entry := s.run step
    match entry.outcome with
    | .ok _ => entry :: entry.after.runWhileOk rest
    | .error _ => [entry]

end

/-- Runs all steps, also those behind one that is refused. -/
def runAll (s : Session) : Script → List Entry
  | [] => []
  | step :: rest =>
    let entry := s.run step
    entry :: entry.after.runAll rest

end Session

end DotGraph
