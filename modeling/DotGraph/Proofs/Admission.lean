import DotGraph.Proofs.Contents
import DotGraph.Proofs.LinkSearch

/-!
What may be appended to a body.  The checks before an append accept exactly the statements without
an owner that fit the operator of the body and write nothing that writes the body.
-/

namespace DotGraph

theorem bind_eq_error_iff {ε α β : Type} {x : Except ε α} {f : α → Except ε β} {e : ε} :
    (x >>= f) = .error e ↔ x = .error e ∨ ∃ a, x = .ok a ∧ f a = .error e := by
  cases x <;> simp [bind, Except.bind]

theorem bind_eq_ok_iff {ε α β : Type} {x : Except ε α} {f : α → Except ε β} {b : β} :
    (x >>= f) = .ok b ↔ ∃ a, x = .ok a ∧ f a = .ok b := by
  cases x <;> simp [bind, Except.bind]

theorem eq_ok_of_toOption {ε α : Type} {x : Except ε α} {a : α} (h : x.toOption = some a) :
    x = .ok a := by
  cases x with
  | error e => cases h
  | ok a' =>
    cases h
    rfl

namespace Store

variable {σ : Store} {b : BodyRef} {operator : EdgeOperator}

/-- Every body has the operator that it was made with. -/
def HasOperator (σ : Store) (b : BodyRef) (operator : EdgeOperator) : Prop :=
  (σ.body? b).map Body.operator = some operator

instance : Decidable (σ.HasOperator b operator) :=
  inferInstanceAs (Decidable (_ = _))

/-- A subgraph that may be linked from a body of this operator. -/
def Fits (σ : Store) (b : BodyRef) (operator : EdgeOperator) (s : SubgraphId) : Prop :=
  σ.HasOperator (.subgraph s) operator ∧ σ.renders s b = false

/-- What a statement has to say to stand in a body of this operator, all but that it must not lead
back to the body. -/
def ClauseSuits (σ : Store) (operator : EdgeOperator) : Clause → Prop
  | .node _ => True
  | .edge e =>
    e.operator = operator ∧
      ∀ s ∈ e.tail.links ++ e.head.links, σ.HasOperator (.subgraph s) operator
  | .defaults _ standalone => standalone.counts = true
  | .noEdge _ => False

def Suits (σ : Store) (operator : EdgeOperator) : Member → Prop
  | .statement i => ∃ clause, σ.clause? i = some clause ∧ σ.ClauseSuits operator clause
  | .subgraph s => σ.HasOperator (.subgraph s) operator

theorem checkLink_ok_iff (s : SubgraphId) :
    σ.checkLink b operator s = .ok () ↔ σ.Fits b operator s := by
  cases hs : σ.subgraph? s with
  | none => simp [checkLink, Fits, HasOperator, body?, hs]
  | some g =>
    by_cases ho : g.body.operator = operator
    · cases hr : σ.renders s b <;> simp [checkLink, Fits, HasOperator, body?, hs, ho, hr]
    · simp [checkLink, Fits, HasOperator, body?, hs, ho]

theorem checkEnd_ok_iff (v : Vertex) :
    σ.checkEnd b operator v = .ok () ↔ ∀ s ∈ v.links, σ.Fits b operator s := by
  cases v with
  | node id => simp [checkEnd, Vertex.links]
  | subgraph s => simp [checkEnd, Vertex.links, checkLink_ok_iff]

theorem checkUnowned_ok_iff (m : Member) : σ.checkUnowned m = .ok () ↔ σ.parent? m = none := by
  unfold checkUnowned
  cases σ.parent? m <;> simp

theorem bind_ok_iff {ε : Type} {x y : Except ε Unit} :
    (x >>= fun _ => y) = .ok () ↔ x = .ok () ∧ y = .ok () := by
  rw [bind_eq_ok_iff]
  constructor
  · rintro ⟨⟨⟩, hx, hy⟩
    exact ⟨hx, hy⟩
  · rintro ⟨hx, hy⟩
    exact ⟨(), hx, hy⟩

theorem forall_fits_iff (ss : List SubgraphId) :
    (∀ s ∈ ss, σ.Fits b operator s) ↔
      (∀ s ∈ ss, σ.HasOperator (.subgraph s) operator) ∧ ∀ s ∈ ss, σ.renders s b = false := by
  simp only [Fits, forall_and]

theorem checkClause_ok_iff (clause : Clause) :
    (clause.checkStandalone = .ok () ∧ σ.checkClause b operator clause = .ok ()) ↔
      σ.ClauseSuits operator clause ∧ ∀ s ∈ clause.links, σ.renders s b = false := by
  cases clause with
  | node id => simp [Clause.checkStandalone, checkClause, ClauseSuits, Clause.links]
  | edge e =>
    have hc : σ.checkClause b operator (.edge e) =
        if e.operator ≠ operator then .error (.edgeOperator e.operator operator)
        else (do σ.checkEnd b operator e.tail; σ.checkEnd b operator e.head) := by
      simp only [checkClause]
      split <;> rfl
    by_cases ho : e.operator = operator
    · simp only [Clause.checkStandalone, hc, ho, ne_eq, not_true_eq_false, if_false, bind_ok_iff,
        checkEnd_ok_iff, ClauseSuits, Clause.links, true_and]
      rw [← forall_fits_iff, List.forall_mem_append]
    · simp [hc, ClauseSuits, ho]
  | defaults kind standalone =>
    cases hs : standalone.counts <;>
      simp [Clause.checkStandalone, checkClause, ClauseSuits, Clause.links, hs]
  | noEdge given =>
    have hc : σ.checkClause b operator (.noEdge given) ≠ .ok () := by
      cases hg : σ.operator? given with
      | none => simp [checkClause, hg, throw, throwThe, MonadExceptOf.throw]
      | some other =>
        by_cases ho : other = operator <;>
          simp [checkClause, hg, ho, throw, throwThe, MonadExceptOf.throw, bind, Except.bind]
    simp [hc, ClauseSuits]

/-- A statement is taken exactly if it has no owner, suits the body, and leads to nothing that
writes the body. -/
theorem checkMember_ok_iff (m : Member) :
    σ.checkMember b m = .ok () ↔
      σ.parent? m = none ∧ (∃ operator, σ.HasOperator b operator ∧ σ.Suits operator m) ∧
        ∀ s ∈ σ.memberLinks m, σ.renders s b = false := by
  unfold checkMember HasOperator
  cases hb : σ.body? b with
  | none => cases m <;> simp
  | some body =>
    cases m with
    | subgraph s =>
      simp [bind_ok_iff, checkUnowned_ok_iff, checkLink_ok_iff, Fits, Suits]
    | statement i =>
      have hi : (σ.statement? i).map Statement.clause = σ.clause? i := rfl
      simp only [hi, Suits, memberLinks_statement]
      cases σ.clause? i with
      | none => simp
      | some clause =>
        have h : (clause.checkStandalone = .ok () ∧
            σ.checkClause b body.operator clause = .ok ()) ↔ _ := checkClause_ok_iff clause
        simp only [bind_ok_iff, checkUnowned_ok_iff, Option.map_some, Option.some.injEq,
          exists_eq_left', Option.getD_some]
        rw [and_left_comm, h]

/-- A root graph takes every statement without an owner that suits it. -/
theorem checkMember_root_ok_iff (r : RootId) (m : Member) :
    σ.checkMember (.root r) m = .ok () ↔
      σ.parent? m = none ∧ ∃ operator, σ.HasOperator (.root r) operator ∧ σ.Suits operator m := by
  simp [checkMember_ok_iff, renders_root]

theorem checkMember_root_edge {r : RootId} {i : StatementId} {e : Edge}
    (hfree : σ.parent? (.statement i) = none) (hi : σ.edge? i = some e)
    (hroot : σ.HasOperator (.root r) e.operator)
    (hends : ∀ s ∈ e.tail.links ++ e.head.links, σ.HasOperator (.subgraph s) e.operator) :
    σ.checkMember (.root r) (.statement i) = .ok () :=
  (checkMember_root_ok_iff r _).2
    ⟨hfree, e.operator, hroot, .edge e, σ.clause?_of_edge? hi, rfl, hends⟩

theorem checkMember_edge_of_links_eq_nil {b : BodyRef} {i : StatementId} {e : Edge}
    (hfree : σ.parent? (.statement i) = none) (hi : σ.edge? i = some e)
    (hb : σ.HasOperator b e.operator)
    (hends : ∀ s ∈ e.tail.links ++ e.head.links, σ.HasOperator (.subgraph s) e.operator)
    (hnil : ∀ s ∈ e.tail.links ++ e.head.links, σ.links (.subgraph s) = [] ∧ .subgraph s ≠ b) :
    σ.checkMember b (.statement i) = .ok () := by
  have hc := σ.clause?_of_edge? hi
  refine (checkMember_ok_iff _).2 ⟨hfree, ⟨e.operator, hb, .edge e, hc, rfl, hends⟩, ?_⟩
  rw [memberLinks_statement, hc]
  exact fun s hs => renders_of_links_eq_nil σ (hnil s hs).1 (hnil s hs).2

theorem checkMember_root_subgraph {r : RootId} {s : SubgraphId} (operator : EdgeOperator)
    (hfree : σ.parent? (.subgraph s) = none) (hroot : σ.HasOperator (.root r) operator)
    (hs : σ.HasOperator (.subgraph s) operator) :
    σ.checkMember (.root r) (.subgraph s) = .ok () :=
  (checkMember_root_ok_iff r _).2 ⟨hfree, operator, hroot, hs⟩

end Store

end DotGraph
