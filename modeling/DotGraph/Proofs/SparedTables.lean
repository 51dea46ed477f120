import DotGraph.Proofs.Frame

/-!
One attribute table among the rest of a store.  Operators, owners, statement lists and links are the
same whatever a table says, and so is which tables are held.  A write of anything else does the same
before the table is written anew and after it.
-/

namespace DotGraph.Store

variable (σ : Store) (t : TableId) (u : AttrTable)

/-! ### What is looked at -/

theorem links_setTable (b : BodyRef) : (σ.setTable t u).links b = σ.links b := by
  rw [links, links, members_setTable]
  rfl

theorem searchLinks_congr {σ σ' : Store} (h : ∀ b, σ.links b = σ'.links b) (target : BodyRef)
    (unseen work : List SubgraphId) :
    σ.searchLinks target unseen work = σ'.searchLinks target unseen work := by
  fun_induction σ.searchLinks target unseen work with
  | case1 unseen => rw [searchLinks]
  | case2 unseen current work ht => rw [searchLinks, if_pos ht]
  | case3 unseen current work ht hc ih => rw [searchLinks, if_neg ht, dif_pos hc, ← h, ih]
  | case4 unseen current work ht hc ih => rw [searchLinks, if_neg ht, dif_neg hc, ih]

theorem renders_setTable (s : SubgraphId) (b : BodyRef) :
    (σ.setTable t u).renders s b = σ.renders s b := by
  have hids : (σ.setTable t u).subgraphIds = σ.subgraphIds := rfl
  rw [renders, renders, hids]
  exact searchLinks_congr (σ.links_setTable t u) b σ.subgraphIds [s]

theorem operator?_setTable (given : Argument) :
    (σ.setTable t u).operator? given = σ.operator? given := by
  cases given with
  | datum d => rfl
  | object o => cases o <;> rfl

/-- Which table an object holds, and whether it is there, is no matter of what a table says. -/
theorem tableOf_setTable (o : Object) :
    ((σ.setTable t u).held? o).map Prod.fst = (σ.held? o).map Prod.fst := by
  simp only [held?, tableId?_setTable, table?_setTable]
  cases σ.tableId? o with
  | none => rfl
  | some t' => cases hv : σ.table? t' <;> simp [hv]

theorem isSome_shownWith?_setTable {inner inner' : StatementId → Option String}
    (h : ∀ i, (inner' i).isSome = (inner i).isSome) (o : Object) :
    ((σ.setTable t u).shownWith? inner' o).isSome = (σ.shownWith? inner o).isSome := by
  cases o with
  | statement i => exact h i
  | _ => rfl

/-- A statement shows its table, but whether it shows a text is no matter of the table. -/
theorem isSome_statementShown?_setTable (depth : Nat) (i : StatementId) :
    ((σ.setTable t u).statementShown? depth i).isSome = (σ.statementShown? depth i).isSome := by
  induction depth generalizing i with
  | zero => rfl
  | succ depth ih =>
    have hclause (clause : Clause) :
        ((σ.setTable t u).clauseShown? ((σ.setTable t u).statementShown? depth) clause).isSome =
          (σ.clauseShown? (σ.statementShown? depth) clause).isSome := by
      cases clause with
      | noEdge given =>
        cases given with
        | datum d => simp only [clauseShown?]
        | object o =>
          simp only [clauseShown?, Option.isSome_map]
          exact isSome_shownWith?_setTable σ t u ih o
      | _ => simp only [clauseShown?, Option.isSome_some, Option.isSome_map]
    simp only [statementShown?, statement?_setTable]
    cases σ.statement? i with
    | none => rfl
    | some s =>
      have hbehind (x : Option String) (f : String → String) :
          (x.bind fun text => some (f text)).isSome = x.isSome := by
        cases x <;> rfl
      simp only [Option.bind_eq_bind, Option.bind_some, Option.pure_def, hbehind]
      exact hclause s.clause

theorem isSome_shown?_setTable (o : Object) :
    ((σ.setTable t u).shown? o).isSome = (σ.shown? o).isSome :=
  isSome_shownWith?_setTable σ t u (fun i => σ.isSome_statementShown?_setTable t u _ i) o

theorem size_tables_setTable : (σ.setTable t u).tables.size = σ.tables.size := by
  simp [setTable]

/-- A table that is there. -/
def HasTable (σ : Store) (t : TableId) : Prop :=
  ∃ v, σ.table? t = some v

/-- A write leaves a table alone and writes the same whatever the table says. -/
structure Spares (t : TableId) (write : Store → Store) (σ : Store) : Prop where
  kept : (write σ).table? t = σ.table? t
  swapped : ∀ u, write (σ.setTable t u) = (write σ).setTable t u

variable {σ t}

/-! ### Writes -/

theorem spares_pushTable (h : σ.HasTable t) (v : AttrTable) :
    Spares t (fun σ => σ.pushTable v) σ := by
  obtain ⟨v', hv⟩ := h
  obtain ⟨hlt, -⟩ := Array.getElem?_eq_some_iff.1 hv
  refine ⟨?_, fun u => ?_⟩
  · rw [table?_pushTable, if_neg (ne_size_of_table? hv)]
  · simp only [setTable, pushTable]
    congr 1
    have hpush : t.index < (σ.tables.push v).size := by
      rw [Array.size_push]
      omega
    rw [Array.setIfInBounds_def, Array.setIfInBounds_def, dif_pos hlt, dif_pos hpush,
      Array.set_push, dif_pos hlt]

theorem spares_setTable {t' : TableId} (h : t' ≠ t) (v : AttrTable) :
    Spares t (fun σ => σ.setTable t' v) σ := by
  obtain ⟨n⟩ := t
  obtain ⟨n'⟩ := t'
  have hne : n ≠ n' := fun he => h (congrArg TableId.mk he.symm)
  refine ⟨?_, fun u => ?_⟩
  · simp [table?_setTable, h]
  · simp only [setTable]
    congr 1
    exact Array.setIfInBounds_comm _ _ hne

theorem spares_pushRoot (g : Root) : Spares t (fun σ => σ.pushRoot g) σ :=
  ⟨rfl, fun _ => rfl⟩

theorem spares_pushSubgraph (g : Subgraph) : Spares t (fun σ => σ.pushSubgraph g) σ :=
  ⟨rfl, fun _ => rfl⟩

theorem spares_pushStatement (s : Statement) : Spares t (fun σ => σ.pushStatement s) σ :=
  ⟨rfl, fun _ => rfl⟩

theorem spares_edgeCount : Spares t (fun σ => { σ with edgeCount := σ.edgeCount + 1 }) σ :=
  ⟨rfl, fun _ => rfl⟩

theorem spares_attach (b : BodyRef) (m : Member) : Spares t (fun σ => σ.attach b m) σ where
  kept := table?_attach b m t
  swapped u := by cases b <;> cases m <;> rfl

/-- What closing a subgraph writes in the end: its name, and how many statements it has. -/
def noted (s : SubgraphId) (appended : Bool) (σ : Store) : Store :=
  match σ.subgraph? s with
  | none => σ
  | some g =>
    { σ with creations := σ.creations ++ [⟨g.body.name, g.body.members.length, appended⟩] }

theorem spares_noted (s : SubgraphId) (appended : Bool) : Spares t (noted s appended) σ := by
  cases hs : σ.subgraph? s with
  | none => exact ⟨by simp only [noted, hs], fun u => by simp only [noted, subgraph?_setTable, hs]⟩
  | some g =>
    refine ⟨?_, fun u => ?_⟩
    · simp only [noted, hs]
      rfl
    · simp only [noted, subgraph?_setTable, hs]
      rfl

end DotGraph.Store
