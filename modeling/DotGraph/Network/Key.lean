import DotGraph.Datum

/-!
Keys: the values that can stand for a node of a network.  Two keys are the same node if they are
equal as values, so a whole number, the floating-point number of the same value and a flag of the
same value are one; the form in which a node was entered first is the one that is kept.
-/

namespace DotGraph

inductive Key where
  | absent
  | text (s : String)
  | flag (b : Bool)
  | integer (n : Int)
  | float (x : Finite64)
  | infinite (negative : Bool)
  /-- Equal to no other key; the mark tells two of them apart. -/
  | undefined (mark : Nat)
  | token (t : Token)
  | nodeId (id : NodeId)
  | tuple (items : List Key)

namespace Key

/-- What two equal keys have in common, read from left to right. -/
inductive Atom where
  | absent
  | text (s : String)
  | number (units : Int)
  | infinite (negative : Bool)
  | undefined (mark : Nat)
  | token (t : Token)
  | nodeId (id : NodeId)
  | tuple (size : Nat)
  deriving DecidableEq

mutual

/-- Numbers are counted in units of `2 ^ -1074`. -/
def identity : Key → List Atom
  | absent => [.absent]
  | text s => [.text s]
  | flag b => [.number (if b then Finite64.unitsPerOne else 0)]
  | integer n => [.number (n * Finite64.unitsPerOne)]
  | float x => [.number x.units]
  | infinite negative => [.infinite negative]
  | undefined mark => [.undefined mark]
  | token t => [.token t]
  | nodeId id => [.nodeId id]
  | tuple items => .tuple items.length :: identities items

def identities : List Key → List Atom
  | [] => []
  | item :: rest => item.identity ++ identities rest

end

/-- Two texts, and two whole numbers, are compared as they stand. -/
def same : Key → Key → Bool
  | text s, text s' => s == s'
  | integer m, integer n => m == n
  | k, l => k.identity == l.identity

instance : BEq Key := ⟨same⟩

theorem integer_eq_of_identity {m n : Int} (h : (integer m).identity = (integer n).identity) :
    m = n := by
  simp only [identity, List.cons.injEq, Atom.number.injEq, and_true] at h
  exact Int.eq_of_mul_eq_mul_right
    (Int.natCast_ne_zero.2 (Nat.ne_of_gt Finite64.unitsPerOne_pos)) h

theorem beq_iff {k l : Key} : (k == l) = true ↔ k.identity = l.identity := by
  change same k l = true ↔ _
  unfold same
  split
  · simp only [identity, beq_iff_eq, List.cons.injEq, Atom.text.injEq, and_true]
  · rename_i m n
    rw [beq_iff_eq]
    exact ⟨fun h => h ▸ rfl, integer_eq_of_identity⟩
  · exact beq_iff_eq

mutual

/-- A value as a key, all undefined numbers in it under one mark.  Lists and records have none. -/
def ofDatum? (mark : Nat) : Datum → Option Key
  | .absent => some absent
  | .text s => some (text s)
  | .flag b => some (flag b)
  | .integer n => some (integer n)
  | .float (.finite x) => some (float x)
  | .float (.infinite negative) => some (infinite negative)
  | .float .undefined => some (undefined mark)
  | .token t => some (token t)
  | .nodeId id => some (nodeId id)
  | .tuple items => (ofData? mark items).map tuple
  | .list _ => none
  | .record _ => none
  | .object _ _ => none

def ofData? (mark : Nat) : List Datum → Option (List Key)
  | [] => some []
  | item :: rest =>
    match ofDatum? mark item, ofData? mark rest with
    | some key, some keys => some (key :: keys)
    | _, _ => none

end

mutual

def toDatum : Key → Datum
  | absent => .absent
  | text s => .text s
  | flag b => .flag b
  | integer n => .integer n
  | float x => .float (.finite x)
  | infinite negative => .float (.infinite negative)
  | undefined _ => .float .undefined
  | token t => .token t
  | nodeId id => .nodeId id
  | tuple items => .tuple (toData items)

def toData : List Key → List Datum
  | [] => []
  | item :: rest => item.toDatum :: toData rest

end

mutual

/-- Whether two keys are the same and in the same form. -/
def equals : Key → Key → Bool
  | absent, absent => true
  | text s, text t => s == t
  | flag b, flag c => b == c
  | integer m, integer n => m == n
  | float x, float y => x == y
  | infinite x, infinite y => x == y
  | undefined m, undefined n => m == n
  | token t, token u => t == u
  | nodeId i, nodeId j => i == j
  | tuple ks, tuple ls => equalItems ks ls
  | _, _ => false

def equalItems : List Key → List Key → Bool
  | [], [] => true
  | k :: ks, l :: ls => equals k l && equalItems ks ls
  | _, _ => false

end

mutual

theorem equals_iff : ∀ k l : Key, equals k l = true ↔ k = l
  | absent, l => by cases l <;> simp [equals]
  | text s, l => by cases l <;> simp [equals]
  | flag b, l => by cases l <;> simp [equals]
  | integer n, l => by cases l <;> simp [equals]
  | float x, l => by cases l <;> simp [equals]
  | infinite x, l => by cases l <;> simp [equals]
  | undefined m, l => by cases l <;> simp [equals]
  | token t, l => by cases l <;> simp [equals]
  | nodeId i, l => by cases l <;> simp [equals]
  | tuple ks, l => by cases l <;> simp [equals, equalItems_iff ks]

theorem equalItems_iff : ∀ ks ls : List Key, equalItems ks ls = true ↔ ks = ls
  | [], ls => by cases ls <;> simp [equalItems]
  | k :: ks, ls => by cases ls <;> simp [equalItems, equals_iff k, equalItems_iff ks]

end

instance : DecidableEq Key :=
  fun k l => decidable_of_iff _ (equals_iff k l)

/-- The name under which a node goes into a graph. -/
def name (k : Key) : String :=
  k.toDatum.name

end Key

end DotGraph
