import DotGraph.Datum

/-!
Equality of values, which can be decided.  It is finer than the comparison of values: a flag is not
equal to the whole number that it counts as.
-/

namespace DotGraph.Datum

mutual

def equals : Datum → Datum → Bool
  | absent, absent => true
  | text s, text t => s == t
  | flag b, flag c => b == c
  | integer m, integer n => m == n
  | float x, float y => x == y
  | token t, token u => t == u
  | nodeId i, nodeId j => i == j
  | list xs, list ys => equalItems xs ys
  | tuple xs, tuple ys => equalItems xs ys
  | record xs, record ys => equalFields xs ys
  | object o s, object p t => o == p && s == t
  | _, _ => false

def equalItems : List Datum → List Datum → Bool
  | [], [] => true
  | x :: xs, y :: ys => equals x y && equalItems xs ys
  | _, _ => false

def equalFields : List (Datum × Datum) → List (Datum × Datum) → Bool
  | [], [] => true
  | (k, x) :: xs, (l, y) :: ys => equals k l && equals x y && equalFields xs ys
  | _, _ => false

end

mutual

theorem equals_iff : ∀ a b : Datum, equals a b = true ↔ a = b
  | absent, b => by cases b <;> simp [equals]
  | text s, b => by cases b <;> simp [equals]
  | flag x, b => by cases b <;> simp [equals]
  | integer n, b => by cases b <;> simp [equals]
  | float x, b => by cases b <;> simp [equals]
  | token t, b => by cases b <;> simp [equals]
  | nodeId i, b => by cases b <;> simp [equals]
  | list xs, b => by cases b <;> simp [equals, equalItems_iff xs]
  | tuple xs, b => by cases b <;> simp [equals, equalItems_iff xs]
  | record xs, b => by cases b <;> simp [equals, equalFields_iff xs]
  | object o s, b => by cases b <;> simp [equals]

theorem equalItems_iff : ∀ xs ys : List Datum, equalItems xs ys = true ↔ xs = ys
  | [], ys => by cases ys <;> simp [equalItems]
  | x :: xs, ys => by cases ys <;> simp [equalItems, equals_iff x, equalItems_iff xs]

theorem equalFields_iff : ∀ xs ys : List (Datum × Datum), equalFields xs ys = true ↔ xs = ys
  | [], ys => by cases ys <;> simp [equalFields]
  | (k, x) :: xs, [] => by simp [equalFields]
  | (k, x) :: xs, (l, y) :: ys => by
    simp [equalFields, equals_iff k, equals_iff x, equalFields_iff xs]

end

instance : DecidableEq Datum :=
  fun a b => decidable_of_iff _ (equals_iff a b)

end DotGraph.Datum
