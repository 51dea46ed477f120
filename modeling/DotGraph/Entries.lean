/-!
Insertion-ordered maps, kept as lists of pairs.  A key keeps the place of its first entry and the
form in which it was first entered; a later entry only replaces the value.
-/

namespace DotGraph

abbrev Entries (κ ν : Type) := List (κ × ν)

namespace Entries

variable {κ ν : Type} [BEq κ]

def get? (k : κ) : Entries κ ν → Option ν
  | [] => none
  | (k', v) :: rest => if k' == k then some v else get? k rest

def has (k : κ) (entries : Entries κ ν) : Bool :=
  (entries.get? k).isSome

def put (k : κ) (v : ν) : Entries κ ν → Entries κ ν
  | [] => [(k, v)]
  | (k', v') :: rest => if k' == k then (k', v) :: rest else (k', v') :: put k v rest

def erase (k : κ) : Entries κ ν → Entries κ ν
  | [] => []
  | (k', v') :: rest => if k' == k then rest else (k', v') :: erase k rest

/-- All of the second list entered into the first, in order. -/
def merge (entries more : Entries κ ν) : Entries κ ν :=
  more.foldl (fun entries pair => entries.put pair.1 pair.2) entries

def ofList (pairs : List (κ × ν)) : Entries κ ν :=
  merge [] pairs

omit [BEq κ] in
def keys (entries : Entries κ ν) : List κ :=
  entries.map Prod.fst

@[simp] theorem get?_nil (k : κ) : get? k ([] : Entries κ ν) = none := rfl

theorem get?_cons (k k' : κ) (v : ν) (rest : Entries κ ν) :
    get? k ((k', v) :: rest) = if k' == k then some v else get? k rest := rfl

@[simp] theorem put_nil (k : κ) (v : ν) : put k v ([] : Entries κ ν) = [(k, v)] := rfl

@[simp] theorem merge_nil (entries : Entries κ ν) : merge entries [] = entries := rfl

@[simp] theorem merge_cons (entries : Entries κ ν) (pair : κ × ν) (more : Entries κ ν) :
    merge entries (pair :: more) = merge (entries.put pair.1 pair.2) more := rfl

theorem get?_put_self [LawfulBEq κ] (k : κ) (v : ν) (entries : Entries κ ν) :
    (entries.put k v).get? k = some v := by
  induction entries with
  | nil => simp [put, get?]
  | cons pair rest ih =>
    by_cases h : pair.1 == k <;> simp [put, get?, h, ih]

theorem get?_put_of_ne [LawfulBEq κ] {k k' : κ} (h : k ≠ k') (v : ν) (entries : Entries κ ν) :
    (entries.put k v).get? k' = entries.get? k' := by
  induction entries with
  | nil => simp [put, get?, h]
  | cons pair rest ih =>
    by_cases hk : pair.1 == k
    · obtain rfl := eq_of_beq hk
      simp [put, get?, h]
    · simp [put, get?, hk, ih]

end Entries

end DotGraph
