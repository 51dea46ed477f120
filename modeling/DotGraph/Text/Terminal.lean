/-!
Control sequences of a terminal: an escape and a bracket, parameters, intermediate characters, and
the final character that says what to do.  A text that is printed goes without them.
-/

namespace DotGraph.Text

/-- From the digit zero to the question mark. -/
def isParameter (c : Char) : Bool :=
  0x30 ≤ c.toNat && c.toNat ≤ 0x3F

/-- From the blank to the slash. -/
def isIntermediate (c : Char) : Bool :=
  0x20 ≤ c.toNat && c.toNat ≤ 0x2F

/-- From the at sign to the tilde: such a character ends a sequence. -/
def isFinal (c : Char) : Bool :=
  0x40 ≤ c.toNat && c.toNat ≤ 0x7E

/-- What stands behind a sequence whose escape and bracket have been read.  No character is of two
classes, so that there is one way only to read on. -/
def afterSequence? (text : List Char) : Option (List Char) :=
  match (text.dropWhile isParameter).dropWhile isIntermediate with
  | [] => none
  | c :: rest => if isFinal c then some rest else none

theorem length_lt_of_afterSequence? {text rest : List Char} (h : afterSequence? text = some rest) :
    rest.length < text.length := by
  have hle := (List.dropWhile_suffix (l := text.dropWhile isParameter) isIntermediate).length_le
  have hle' := (List.dropWhile_suffix (l := text) isParameter).length_le
  unfold afterSequence? at h
  split at h
  · simp at h
  · rename_i heq
    rw [heq] at hle
    simp only [Option.ite_none_right_eq_some, Option.some.injEq] at h
    rw [← h.2]
    exact Nat.lt_of_lt_of_le (Nat.lt_succ_self _) (Nat.le_trans hle hle')

/-- A text without its control sequences.  What is left is not looked at again, and an escape that
begins no sequence stays. -/
def withoutSequences : List Char → List Char
  | [] => []
  | '\x1b' :: '[' :: rest =>
    match _h : afterSequence? rest with
    | some rest' => withoutSequences rest'
    | none => '\x1b' :: withoutSequences ('[' :: rest)
  | c :: rest => c :: withoutSequences rest
termination_by text => text.length
decreasing_by
  · have := length_lt_of_afterSequence? _h
    simp only [List.length_cons]
    omega
  · simp
  · simp

def printed (text : String) : String :=
  String.ofList (withoutSequences text.toList)

end DotGraph.Text
