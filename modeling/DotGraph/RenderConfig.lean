import DotGraph.Datum

/-! How a graph text is laid out: the unit of indentation, and what stands before a port. -/

namespace DotGraph

inductive PortSeparator where
  | space
  | colon
  deriving DecidableEq

namespace PortSeparator

def text : PortSeparator → String
  | space => " "
  | colon => ":"

def ofText? (text : String) : Option PortSeparator :=
  [space, colon].find? fun p => p.text == text

@[simp] theorem ofText?_text (p : PortSeparator) : ofText? p.text = some p := by
  cases p <;> decide

end PortSeparator

/-- Spaces and tabs only; nothing at all is blank too. -/
def isBlank (text : String) : Bool :=
  text.toList.all fun c => c == ' ' || c == '\t'

structure RenderConfig where
  indent : String
  portSeparator : PortSeparator
  blank : isBlank indent = true
  deriving DecidableEq

namespace RenderConfig

/-- An option as it is given: its text, if it is one, and what a message shows of it. -/
structure Given where
  text? : Option String
  shown? : Option String

namespace Given

def ofText (s : String) : Given :=
  ⟨some s, some (Text.quoted s)⟩

def ofDatum : Datum → Given
  | .text s => ofText s
  | given => ⟨none, given.shown?⟩

end Given

inductive Error where
  | indent (given : Given)
  | portSeparator (given : Given)

def Error.message : Error → String
  | .indent given => "Indent must be spaces or tabs: " ++ given.shown?.getD ""
  | .portSeparator given => "Invalid port separator: " ++ given.shown?.getD ""

/-- Whether all that the message shows has a text. -/
def Error.isTold : Error → Bool
  | .indent given => given.shown?.isSome
  | .portSeparator given => given.shown?.isSome

/-- Two spaces, and a space before a port. -/
def default : RenderConfig :=
  ⟨"  ", .space, by decide⟩

def portSeparatorOf (given : Given) : Except Error PortSeparator :=
  match given.text?.bind PortSeparator.ofText? with
  | some p => .ok p
  | none => .error (.portSeparator given)

@[simp] theorem portSeparatorOf_text (p : PortSeparator) :
    portSeparatorOf (.ofText p.text) = .ok p := by
  simp [portSeparatorOf, Given.ofText]

/-- The indent is looked at first. -/
def ofGiven (indent portSeparator : Given) : Except Error RenderConfig :=
  match indent.text? with
  | some s =>
    if h : isBlank s = true then do
      let p ← portSeparatorOf portSeparator
      return ⟨s, p, h⟩
    else .error (.indent indent)
  | none => .error (.indent indent)

/-- What is not given is taken from the default. -/
def ofOptions (indent portSeparator : Option Given) : Except Error RenderConfig :=
  ofGiven (indent.getD (.ofText default.indent))
    (portSeparator.getD (.ofText default.portSeparator.text))

def shown (c : RenderConfig) : String :=
  "RenderConfig(indent=" ++ Text.quoted c.indent ++ ", port_separator=" ++
    Text.quoted c.portSeparator.text ++ ")"

@[simp] theorem ofGiven_text (c : RenderConfig) :
    ofGiven (.ofText c.indent) (.ofText c.portSeparator.text) = .ok c := by
  simp only [ofGiven, Given.ofText, dif_pos c.blank]
  rw [show portSeparatorOf ⟨some c.portSeparator.text, _⟩ = .ok c.portSeparator from
    portSeparatorOf_text c.portSeparator]
  rfl

end RenderConfig

end DotGraph
