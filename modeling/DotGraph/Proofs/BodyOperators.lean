import DotGraph.Proofs.Uniformity

/-!
The operators of bodies.  A body gets its operator when it is made: from the direction that a caller
asks for, or from a body that is there.  So in every reachable store it is one of the two, whether
or not the body is linked from anywhere.
-/

namespace DotGraph.Store

variable {σ σ' : Store}

/-- Every body has one of the two operators. -/
def Directional (σ : Store) : Prop :=
  ∀ b operator, σ.HasOperator b operator → ∃ directed, operator = .ofDirected directed

theorem Directional.of_operators_eq (h : σ.Directional)
    (hb : ∀ b, (σ'.body? b).map Body.operator = (σ.body? b).map Body.operator) :
    σ'.Directional := by
  intro b operator ho
  exact h b operator ((hb b).symm.trans ho)

theorem Change.directional (h : Change σ σ') (hd : σ.Directional) : σ'.Directional := by
  cases h with
  | table fresh => exact hd.of_operators_eq fun b => by simp
  | root name strict directed found =>
    intro b operator ho
    unfold HasOperator at ho
    rw [body?_pushRoot] at ho
    split at ho
    · exact ⟨directed, (Option.some.inj ho).symm⟩
    · exact hd b operator ho
  | subgraph name found chosen =>
    intro b operator ho
    unfold HasOperator at ho
    rw [body?_pushSubgraph] at ho
    split at ho
    · obtain rfl := Option.some.inj ho
      rcases chosen with hchosen | ⟨b', body, hb', rfl⟩
      · exact hchosen
      · exact hd b' _ (by simp [HasOperator, hb'])
    · exact hd b operator ho
  | statement clause found own => exact hd.of_operators_eq fun b => by simp
  | edge => exact hd.of_operators_eq fun b => by cases b <;> rfl
  | attrs found entered => exact hd.of_operators_eq fun b => by simp
  | attach allowed =>
    refine hd.of_operators_eq fun b => ?_
    rw [body?_attach, Option.map_map]
    congr 1
    funext body
    simp only [Function.comp_apply]
    split <;> rfl
  | note creations => exact hd.of_operators_eq fun b => by cases b <;> rfl

theorem Reachable.directional (h : σ.Reachable) : σ.Directional := by
  refine h.induction (P := Directional) ?_ fun hd hc => hc.directional hd
  intro b operator ho
  simp [HasOperator, body?_empty] at ho

end DotGraph.Store
