import DotGraph.Binary64

/-! Products of floating-point numbers: the exact product, rounded once. -/

namespace DotGraph

def Finite64.mul (x y : Finite64) : Binary64 :=
  let (num, den) := x.ratio
  let (num', den') := y.ratio
  .ofRatio (x.negative != y.negative) (num * num') (den * den')

namespace Binary64

/-- A number without bound times zero is undefined. -/
def mul : Binary64 → Binary64 → Binary64
  | .finite x, .finite y => x.mul y
  | .finite x, .infinite negative =>
    if x.significand = 0 then .undefined else .infinite (x.negative != negative)
  | .infinite negative, .finite y =>
    if y.significand = 0 then .undefined else .infinite (negative != y.negative)
  | .infinite negative, .infinite negative' => .infinite (negative != negative')
  | _, _ => .undefined

/-- The nearest number to a whole number, unless that is beyond all finite ones. -/
def ofInt? (n : Int) : Option Binary64 :=
  match ofRatio (decide (n < 0)) n.natAbs 1 with
  | .finite x => some (.finite x)
  | _ => none

@[simp] theorem undefined_mul (x : Binary64) : mul .undefined x = .undefined := by
  cases x <;> rfl

@[simp] theorem mul_undefined (x : Binary64) : mul x .undefined = .undefined := by
  cases x <;> rfl

end Binary64

end DotGraph
