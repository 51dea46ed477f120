import DotGraph.Json

/-! Equality of JSON values, which can be decided.  The order of the members of an object counts. -/

namespace DotGraph.Json

mutual

def equals : Json → Json → Bool
  | null, null => true
  | flag b, flag c => b == c
  | integer m, integer n => m == n
  | float x, float y => x == y
  | text s, text t => s == t
  | torn p, torn q => p == q
  | array xs, array ys => equalItems xs ys
  | object xs, object ys => equalMembers xs ys
  | _, _ => false

def equalItems : List Json → List Json → Bool
  | [], [] => true
  | x :: xs, y :: ys => equals x y && equalItems xs ys
  | _, _ => false

def equalMembers : List (String × Json) → List (String × Json) → Bool
  | [], [] => true
  | (k, x) :: xs, (l, y) :: ys => k == l && equals x y && equalMembers xs ys
  | _, _ => false

end

mutual

theorem equals_iff : ∀ a b : Json, equals a b = true ↔ a = b
  | null, b => by cases b <;> simp [equals]
  | flag c, b => by cases b <;> simp [equals]
  | integer n, b => by cases b <;> simp [equals]
  | float x, b => by cases b <;> simp [equals]
  | text s, b => by cases b <;> simp [equals]
  | torn p, b => by cases b <;> simp [equals]
  | array xs, b => by cases b <;> simp [equals, equalItems_iff xs]
  | object xs, b => by cases b <;> simp [equals, equalMembers_iff xs]

theorem equalItems_iff : ∀ xs ys : List Json, equalItems xs ys = true ↔ xs = ys
  | [], ys => by cases ys <;> simp [equalItems]
  | x :: xs, ys => by cases ys <;> simp [equalItems, equals_iff x, equalItems_iff xs]

theorem equalMembers_iff : ∀ xs ys : List (String × Json), equalMembers xs ys = true ↔ xs = ys
  | [], ys => by cases ys <;> simp [equalMembers]
  | (k, x) :: xs, [] => by simp [equalMembers]
  | (k, x) :: xs, (l, y) :: ys => by simp [equalMembers, equals_iff x, equalMembers_iff xs]

end

instance : DecidableEq Json :=
  fun a b => decidable_of_iff _ (equals_iff a b)

end DotGraph.Json
