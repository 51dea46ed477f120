/-! Repeated text, and the indentation made of it. -/

namespace DotGraph.Text

/-- So many copies of a unit; of an empty one no copy is made, however many are asked for. -/
def times (n : Nat) (unit : String) : String :=
  if unit = "" then "" else String.join (List.replicate n unit)

theorem times_eq_join (n : Nat) (unit : String) :
    times n unit = String.join (List.replicate n unit) := by
  unfold times
  split
  · rename_i h
    subst h
    induction n with
    | zero => rfl
    | succ n ih => rw [List.replicate_succ, String.join_cons, ← ih]; rfl
  · rfl

@[simp] theorem times_zero (unit : String) : times 0 unit = "" := by
  rw [times_eq_join]
  rfl

theorem times_succ (n : Nat) (unit : String) : times (n + 1) unit = unit ++ times n unit := by
  rw [times_eq_join, times_eq_join, List.replicate_succ, String.join_cons]

theorem times_add (m n : Nat) (unit : String) :
    times (m + n) unit = times m unit ++ times n unit := by
  rw [times_eq_join, times_eq_join, times_eq_join, ← String.join_append,
    List.replicate_append_replicate]

/-- The indentation of a level; a level below zero is written like level zero. -/
def indentation (level : Int) (unit : String) : String :=
  times level.toNat unit

end DotGraph.Text
