import DotGraph.Proofs.Admission

/-!
Outcomes of single steps.  A step comes to an answer or is refused, and leaves a store either way;
steps in a row are taken apart and put together by what each of them comes to.
-/

namespace DotGraph

namespace Build

variable {α β : Type} {x : Build α} {f : α → Build β} {σ σ' σ'' : Store} {a : α} {b : β}

/-- A step that is not refused, with its answer and the store that it leaves. -/
def Yields (x : Build α) (σ : Store) (a : α) (σ' : Store) : Prop :=
  x.run.run σ = (.ok a, σ')

/-- A step that is refused, with the error and the store that it leaves all the same. -/
def Fails (x : Build α) (σ : Store) (e : BuildError) (σ' : Store) : Prop :=
  x.run.run σ = (.error e, σ')

theorem Yields.after_eq (h : x.Yields σ a σ') : x.after σ = σ' :=
  congrArg Prod.snd h

theorem Fails.after_eq {e : BuildError} (h : x.Fails σ e σ') : x.after σ = σ' :=
  congrArg Prod.snd h

theorem Yields.after_bind (hx : x.Yields σ a σ') (f : α → Build β) :
    (x >>= f).after σ = (f a).after σ' := by
  unfold Yields at hx
  rw [Build.after_bind, hx]

theorem Yields.run_eq (hx : x.Yields σ a σ') (f : α → Build β) :
    (x >>= f).run.run σ = (f a).run.run σ' := by
  unfold Yields at hx
  rw [run_bind, hx]

theorem Yields.unique {a' : α} (hx : x.Yields σ a σ') (hx' : x.Yields σ a' σ'') :
    a' = a ∧ σ'' = σ' := by
  have hsame : (Except.ok a', σ'') = (Except.ok a, σ') := hx'.symm.trans hx
  cases hsame
  exact ⟨rfl, rfl⟩

theorem Yields.bind (hx : x.Yields σ a σ') (hf : (f a).Yields σ' b σ'') :
    (x >>= f).Yields σ b σ'' := by
  unfold Yields at hf ⊢
  rw [hx.run_eq, hf]

theorem yields_bind_iff :
    (x >>= f).Yields σ b σ' ↔ ∃ a σ₁, x.Yields σ a σ₁ ∧ (f a).Yields σ₁ b σ' := by
  constructor
  · intro h
    unfold Yields at h
    rw [run_bind] at h
    rcases hx : x.run.run σ with ⟨e | a, σ₁⟩
    · rw [hx] at h
      cases h
    · rw [hx] at h
      exact ⟨a, σ₁, hx, h⟩
  · rintro ⟨a, σ₁, hx, hf⟩
    exact hx.bind hf

theorem fails_bind_iff {e : BuildError} :
    (x >>= f).Fails σ e σ' ↔
      x.Fails σ e σ' ∨ ∃ a σ₁, x.Yields σ a σ₁ ∧ (f a).Fails σ₁ e σ' := by
  unfold Fails Yields
  rw [run_bind]
  rcases x.run.run σ with ⟨e' | a, σ₁⟩
  · constructor
    · intro h
      cases h
      exact .inl rfl
    · rintro (h | ⟨a, σ₂, hy, -⟩)
      · cases h
        rfl
      · cases hy
  · constructor
    · intro h
      exact .inr ⟨a, σ₁, rfl, h⟩
    · rintro (h | ⟨a', σ₂, hy, h⟩)
      · cases h
      · cases hy
        exact h

theorem Yields.fails_bind {e : BuildError} (hx : x.Yields σ a σ')
    (h : (x >>= f).Fails σ e σ'') : (f a).Fails σ' e σ'' := by
  unfold Fails at h ⊢
  rwa [hx.run_eq] at h

theorem Yields.not_fails {e : BuildError} (hx : x.Yields σ a σ') : ¬ x.Fails σ e σ'' := by
  intro h
  have hne : (Except.ok a, σ') = (Except.error e, σ'') := hx.symm.trans h
  cases hne

theorem yields_pure (a : α) (σ : Store) : (pure a : Build α).Yields σ a σ := rfl

/-- What only makes an answer of another one is refused for nothing of its own. -/
theorem Fails.of_map {e : BuildError} {g : α → β} (h : (x >>= fun a => pure (g a)).Fails σ e σ') :
    x.Fails σ e σ' := by
  rcases fails_bind_iff.1 h with h | ⟨a, σ₁, -, h⟩
  · exact h
  · exact absurd h (yields_pure (g a) σ₁).not_fails

theorem yields_modify (g : Store → Store) (σ : Store) :
    (modify g : Build Unit).Yields σ () (g σ) := rfl

theorem yields_get (σ : Store) : (get : Build Store).Yields σ σ σ := rfl

theorem not_yields_throw {e : BuildError} : ¬ (throw e : Build α).Yields σ a σ' := by
  intro h
  cases h

theorem yields_newStatement (clause : Clause) (σ : Store) :
    (newStatement clause none).Yields σ ⟨σ.statements.size⟩ (σ.makeStatement clause) := by
  have hnone : givenTable? σ none clause = none := by cases clause <;> rfl
  rw [Yields, run_newStatement, hnone]

theorem yields_editTable {edit : TableEdit Unit} {given : Entries Datum Datum} {o : Object}
    {t : TableId} {u u' : AttrTable} (h : edit.Enters given) (ht : σ.held? o = some (t, u))
    (hu : u.assignAll given = .ok u') : (editTable o edit).Yields σ () (σ.setTable t u') := by
  rw [Yields, run_editTable h, ht]
  dsimp only
  rw [hu]

theorem yields_setAttrs {o : Object} {t : TableId} {u u' : AttrTable}
    {attrs : Entries String Datum} (ht : σ.held? o = some (t, u)) (hu : u.update attrs = .ok u') :
    (setAttrs o attrs).Yields σ () (σ.setTable t u') :=
  yields_editTable (TableEdit.enters_enter _) ht ((u.assignAll_underNames attrs).trans hu)

theorem yields_attach {b : BodyRef} {m : Member} (h : σ.checkMember b m = .ok ()) :
    (attach b m).Yields σ () (σ.attach b m) := by
  refine (yields_get σ).bind ?_
  rw [h]
  rfl

theorem yields_nodeIdOf (name : Identifier) (σ : Store) :
    (nodeIdOf (.text name.text) .absent).Yields σ ⟨name, none⟩ σ := by
  simp only [nodeIdOf, NodeId.ofDatum, Identifier.ofDatum?, Identifier.ofText?_text]
  rfl

theorem yields_vertexLike (name : Identifier) (σ : Store) :
    (vertexLike (.datum (.text name.text))).Yields σ (.datum (.nodeId ⟨name, none⟩)) σ := by
  simp only [vertexLike, NodeId.ofDatum, Identifier.ofDatum?, Identifier.ofText?_text]
  rfl

theorem yields_edgeEnd {operator : EdgeOperator} {v : Vertex} {σ : Store}
    (h : ∀ s ∈ v.links, σ.HasOperator (.subgraph s) operator) :
    (edgeEnd operator (.ofVertex v)).Yields σ v σ := by
  cases v with
  | node id => exact yields_pure _ σ
  | subgraph s =>
    obtain ⟨body, hbody, ho⟩ := Option.map_eq_some_iff.1 (h s (by simp [Vertex.links]))
    obtain ⟨g, hg, rfl⟩ := Option.map_eq_some_iff.1 hbody
    refine (yields_get σ).bind ?_
    simp only [Argument.ofVertex, hg, ho, ne_eq, not_true_eq_false, if_false]
    exact yields_pure _ σ

theorem yields_newEdge {tail head : Vertex} {operator : EdgeOperator} {σ : Store}
    (h : ∀ s ∈ tail.links ++ head.links, σ.HasOperator (.subgraph s) operator) :
    (newEdge (.ofVertex tail) (.ofVertex head) operator).Yields σ
      ⟨σ.edgeCount, tail, head, operator⟩ { σ with edgeCount := σ.edgeCount + 1 } := by
  refine (yields_edgeEnd fun s hs => h s (by simp [hs])).bind ?_
  refine (yields_edgeEnd fun s hs => h s (by simp [hs])).bind ?_
  rfl

theorem yields_newRoot {name strict : Datum} {nm : Option Identifier} (operator : EdgeOperator)
    (h : graphName name = .ok nm) (σ : Store) :
    (newRoot name strict operator).Yields σ ⟨σ.roots.size⟩ (σ.makeRoot nm operator strict) := by
  simp only [newRoot, h]
  rfl

theorem yields_newSubgraph {name : Datum} {nm : Option Identifier} (operator : EdgeOperator)
    (h : graphName name = .ok nm) (σ : Store) :
    (newSubgraph name operator).Yields σ ⟨σ.subgraphs.size⟩ (σ.makeSubgraph nm operator) := by
  simp only [newSubgraph, h]
  rfl

theorem yields_operatorOf {b : BodyRef} {operator : EdgeOperator} (h : σ.HasOperator b operator) :
    (operatorOf b).Yields σ operator σ := by
  refine (yields_get σ).bind ?_
  rw [show (σ.body? b).map Body.operator = some operator from h]
  exact yields_pure operator σ

end Build

theorem Object.member?_ofMember (m : Member) : (Object.ofMember m).member? = some m := by
  cases m <;> rfl

namespace Build

theorem yields_add {σ : Store} {b : BodyRef} {m : Member} (h : σ.checkMember b m = .ok ()) :
    (add b (.object (.ofMember m))).Yields σ (.ofMember m) (σ.attach b m) := by
  simp only [add, Object.member?_ofMember]
  exact (yields_attach h).bind (yields_pure _ _)

theorem fails_add {σ : Store} {b : BodyRef} {m : Member} {e : StructureError}
    (h : σ.checkMember b m = .error e) :
    (add b (.object (.ofMember m))).Fails σ (.structural e) σ := by
  have hattach : (attach b m).Fails σ (.structural e) σ := by
    refine fails_bind_iff.2 (.inr ⟨σ, σ, yields_get σ, ?_⟩)
    rw [h]
    rfl
  simp only [add, Object.member?_ofMember]
  exact fails_bind_iff.2 (.inl hattach)

end Build

theorem Store.after_add_statement {σ : Store} {b : BodyRef} {i : StatementId}
    (h : σ.checkMember b (.statement i) = .ok ()) :
    σ.after [.ask (.add b (.object (.statement i)))] = σ.attach b (.statement i) :=
  (σ.after_ask _).trans (Build.yields_add h).after_eq

theorem Store.after_add_subgraph {σ : Store} {b : BodyRef} {s : SubgraphId}
    (h : σ.checkMember b (.subgraph s) = .ok ()) :
    σ.after [.ask (.add b (.object (.subgraph s)))] = σ.attach b (.subgraph s) :=
  (σ.after_ask _).trans (Build.yields_add h).after_eq

end DotGraph
