import DotGraph.Proofs.Outcomes
import DotGraph.Proofs.Ownership
import DotGraph.Proofs.Tables

/-!
Refused operations.  Whatever an operation is refused for, everything that was there is as it was
before; and around a callback, everything is as the callback left it.
-/

namespace DotGraph

namespace Store

/-- Every body, every statement and every table is as it was, every list holds what it held, and
every owner is the same.  What has been made since stands in no list and has no owner. -/
structure Untouched (σ σ' : Store) : Prop where
  bodies : ∀ b body, σ.body? b = some body → σ'.body? b = some body
  statements : ∀ i s, σ.statement? i = some s → σ'.statement? i = some s
  tables : ∀ t u, σ.table? t = some u → σ'.table? t = some u
  members : ∀ b, σ'.members b = σ.members b
  parents : ∀ m, σ'.parent? m = σ.parent? m

variable {σ σ' : Store}

theorem untouched_refl (σ : Store) : σ.Untouched σ :=
  ⟨fun _ _ h => h, fun _ _ h => h, fun _ _ h => h, fun _ => rfl, fun _ => rfl⟩

theorem Untouched.trans {σ'' : Store} (h : σ.Untouched σ') (h' : σ'.Untouched σ'') :
    σ.Untouched σ'' where
  bodies b body hb := h'.bodies b body (h.bodies b body hb)
  statements i s hs := h'.statements i s (h.statements i s hs)
  tables t u ht := h'.tables t u (h.tables t u ht)
  members b := (h'.members b).trans (h.members b)
  parents m := (h'.parents m).trans (h.parents m)

theorem untouched_edgeCount (σ : Store) (count : Nat) :
    σ.Untouched { σ with edgeCount := count } where
  bodies b body hb := by cases b <;> exact hb
  statements _ _ h := h
  tables _ _ h := h
  members b := by cases b <;> rfl
  parents m := by cases m <;> rfl

theorem untouched_pushTable (σ : Store) (u : AttrTable) : σ.Untouched (σ.pushTable u) where
  bodies b body hb := by rwa [body?_pushTable]
  statements _ _ h := h
  tables t v ht := by rw [table?_pushTable, if_neg (ne_size_of_table? ht), ht]
  members := σ.members_pushTable u
  parents := σ.parent?_pushTable u

theorem untouched_pushSubgraph (σ : Store) {g : Subgraph} (hg : g.body.members = [])
    (hp : g.parent = none) : σ.Untouched (σ.pushSubgraph g) where
  bodies b body hb := by
    have hne : b ≠ .subgraph ⟨σ.subgraphs.size⟩ := by
      rintro rfl
      simp [body?, subgraph?] at hb
    rw [body?_pushSubgraph, if_neg hne, hb]
  statements _ _ h := h
  tables _ _ h := h
  members := σ.members_pushSubgraph hg
  parents := σ.parent?_pushSubgraph hp

theorem untouched_makeSubgraph (σ : Store) (name : Option Identifier) (operator : EdgeOperator) :
    σ.Untouched (σ.makeSubgraph name operator) :=
  (σ.untouched_pushTable _).trans (untouched_pushSubgraph _ rfl rfl)

theorem untouched_pushStatement (σ : Store) {s : Statement} (hp : s.parent = none) :
    σ.Untouched (σ.pushStatement s) where
  bodies b body hb := by rwa [body?_pushStatement]
  statements i s' hs := by
    have hne : i.index ≠ σ.statements.size := by
      intro he
      simp [statement?, he] at hs
    rw [statement?_pushStatement, if_neg hne, hs]
  tables _ _ h := h
  members b := by simp [members]
  parents := σ.parent?_pushStatement hp

theorem untouched_makeStatement (σ : Store) (clause : Clause) :
    σ.Untouched (σ.makeStatement clause) :=
  (σ.untouched_pushTable _).trans (untouched_pushStatement _ rfl)

theorem Untouched.setTable_new (h : σ.Untouched σ') {t : TableId} (ht : σ.table? t = none)
    (u : AttrTable) : σ.Untouched (σ'.setTable t u) where
  bodies b body hb := by simp [h.bodies b body hb]
  statements i s hs := by simp [h.statements i s hs]
  tables t' v hv := by
    have hne : t ≠ t' := by
      rintro rfl
      simp [ht] at hv
    simp [table?_setTable, h.tables t' v hv, hne]
  members b := by rw [members_setTable, h.members]
  parents m := by rw [parent?_setTable, h.parents]

end Store

namespace Build

variable {α β : Type} {σ σ' : Store} {e : BuildError}

/-! ### Steps that only look -/

/-- A step that writes nothing, refused or not. -/
def Still (x : Build α) : Prop :=
  ∀ σ, x.after σ = σ

theorem Still.eq_of_fails {x : Build α} (hx : Still x) (h : x.Fails σ e σ') : σ' = σ :=
  h.after_eq.symm.trans (hx σ)

theorem Still.eq_of_yields {x : Build α} {a : α} (hx : Still x) (h : x.Yields σ a σ') : σ' = σ :=
  h.after_eq.symm.trans (hx σ)

theorem still_pure (a : α) : Still (pure a : Build α) :=
  fun _ => rfl

theorem still_throw (e : BuildError) : Still (throw e : Build α) :=
  fun _ => rfl

theorem Fails.eq_of_throw {e' : BuildError} (h : (throw e' : Build α).Fails σ e σ') : σ' = σ :=
  (still_throw e').eq_of_fails h

theorem still_get {f : Store → Build α} (hf : ∀ σ, Still (f σ)) : Still (get >>= f) :=
  fun σ => hf σ σ

theorem Still.bind {x : Build α} {f : α → Build β} (hx : Still x) (hf : ∀ a, Still (f a)) :
    Still (x >>= f) :=
  fun σ => (after_bind_of_still (fun a σ => hf a σ) σ).trans (hx σ)

theorem Still.fails_bind {x : Build α} {f : α → Build β} (hx : Still x)
    (h : (x >>= f).Fails σ e σ') : σ' = σ ∨ ∃ a, (f a).Fails σ e σ' := by
  rcases fails_bind_iff.1 h with h | ⟨a, σ₁, hy, h⟩
  · exact .inl (hx.eq_of_fails h)
  · rw [hx.eq_of_yields hy] at h
    exact .inr ⟨a, h⟩

theorem Still.after_bind {x : Build α} (hx : Still x) (f : α → Build β) (σ : Store) :
    (x >>= f).after σ = σ ∨ ∃ a, (x >>= f).after σ = (f a).after σ := by
  rw [Build.after_bind]
  rcases hr : x.run.run σ with ⟨e | a, σ₁⟩
  · exact .inl (hx.eq_of_fails hr)
  · rw [hx.eq_of_yields hr]
    exact .inr ⟨a, rfl⟩

theorem still_liftNaming (x : Except NamingError α) : Still (liftNaming x) := by
  cases x with
  | error e => exact still_throw _
  | ok a => exact still_pure a

theorem still_liftStructure (x : Except StructureError α) : Still (liftStructure x) := by
  cases x with
  | error e => exact still_throw _
  | ok a => exact still_pure a

theorem still_nodeIdOf (name port : Datum) : Still (nodeIdOf name port) := by
  unfold nodeIdOf
  split
  · exact still_pure _
  · exact still_throw _
  · exact still_liftNaming _

theorem still_vertexLike (given : Argument) : Still (vertexLike given) := by
  unfold vertexLike
  split
  · exact (still_liftNaming _).bind fun _ => still_pure _
  · exact still_pure _
  · exact still_pure _
  · exact still_get fun _ => still_throw _

theorem still_operatorOf (b : BodyRef) : Still (operatorOf b) :=
  still_get fun _ => still_pure _

theorem still_edgeEnd (operator : EdgeOperator) (given : Argument) :
    Still (edgeEnd operator given) := by
  refine still_get fun σ => ?_
  split
  · exact still_pure _
  · split
    · split
      · exact (still_throw _).bind fun _ => still_pure _
      · exact still_pure _
    · exact still_throw _
  · exact still_throw _

/-! ### Where a refusal leaves the store -/

/-- All that an edit of a table writes is the table that is held. -/
theorem after_editTable {edit : TableEdit Unit} {given : Entries Datum Datum}
    (h : edit.Enters given) (o : Object) (σ : Store) :
    (editTable o edit).after σ = σ ∨
      ∃ t u u', σ.held? o = some (t, u) ∧ (editTable o edit).after σ = σ.setTable t u' := by
  rw [Build.after, run_editTable h]
  cases hheld : σ.held? o with
  | none => exact .inl rfl
  | some held =>
    obtain ⟨t, u⟩ := held
    dsimp only
    cases u.assignAll given with
    | error e => exact .inl rfl
    | ok u' => exact .inr ⟨t, u, u', rfl, rfl⟩

theorem after_setAttrs (o : Object) (attrs : Entries String Datum) (σ : Store) :
    (setAttrs o attrs).after σ = σ ∨
      ∃ t u u', σ.held? o = some (t, u) ∧ (setAttrs o attrs).after σ = σ.setTable t u' :=
  after_editTable (TableEdit.enters_enter _) o σ

theorem eq_of_fails_editTable {o : Object} {edit : TableEdit Unit} {given : Entries Datum Datum}
    (hedit : edit.Enters given) (h : (editTable o edit).Fails σ e σ') : σ' = σ := by
  rw [Fails, run_editTable hedit] at h
  split at h
  · cases h
  · split at h
    · cases h
      rfl
    · cases h

theorem eq_of_fails_setAttrs {o : Object} {attrs : Entries String Datum}
    (h : (setAttrs o attrs).Fails σ e σ') : σ' = σ :=
  eq_of_fails_editTable (TableEdit.enters_enter _) h

theorem run_setAttrs (o : Object) (attrs : Entries String Datum) (σ : Store) :
    (setAttrs o attrs).run.run σ =
      match σ.held? o with
      | none => (.ok (), σ)
      | some (t, u) =>
        match u.update attrs with
        | .error e => (.error (.attr e), σ)
        | .ok u' => (.ok (), σ.setTable t u') := by
  rw [setAttrs, run_editTable (TableEdit.enters_enter _)]
  rcases σ.held? o with _ | ⟨t, u⟩
  · rfl
  · cases hu : u.update attrs <;> simp [AttrTable.assignAll_underNames, hu]

theorem eq_of_fails_attach {b : BodyRef} {m : Member} (h : (attach b m).Fails σ e σ') :
    σ' = σ := by
  unfold attach at h
  replace h := (yields_get σ).fails_bind h
  rcases (still_liftStructure _).fails_bind h with h | ⟨-, h⟩
  · exact h
  · exact absurd h (yields_modify _ σ).not_fails

theorem eq_of_fails_add {b : BodyRef} {given : Argument} (h : (add b given).Fails σ e σ') :
    σ' = σ := by
  unfold add at h
  split at h
  · split at h
    · exact eq_of_fails_attach h.of_map
    · exact (still_get fun _ => still_throw _).eq_of_fails h
  · exact (still_throw _).eq_of_fails h

/-- A new statement may have been made and its attributes set, but then nobody owns it. -/
theorem untouched_of_fails_append {b : BodyRef} {clause : Clause} {attrs : Entries String Datum}
    (h : (append b clause attrs).Fails σ e σ') : σ.Untouched σ' := by
  have hmade := σ.untouched_makeStatement clause
  have hfresh : σ.table? ⟨σ.tables.size⟩ = none := by simp [Store.table?]
  -- Behind the new statement, its attributes can be refused, or else its place in the body.
  rcases fails_bind_iff.1 ((yields_newStatement clause σ).fails_bind h) with h | ⟨u, σ₂, hset, h⟩
  · rw [eq_of_fails_setAttrs h]
    exact hmade
  · rw [eq_of_fails_attach h.of_map, ← hset.after_eq]
    rcases after_setAttrs (.statement ⟨σ.statements.size⟩) attrs (σ.makeStatement clause) with
      he | ⟨t, v, u', hheld, he⟩
    · rw [he]
      exact hmade
    · cases hheld.symm.trans (σ.held?_makeStatement clause)
      rw [he]
      exact hmade.setTable_new hfresh u'

theorem untouched_of_fails_node {b : BodyRef} {name port : Datum}
    {attrs : Entries String Datum} (h : (node b name port attrs).Fails σ e σ') :
    σ.Untouched σ' := by
  unfold node at h
  rcases (still_nodeIdOf name port).fails_bind h with h | ⟨id, h⟩
  · rw [h]
    exact σ.untouched_refl
  · exact untouched_of_fails_append h

theorem untouched_after_newEdge (tail head : Argument) (operator : EdgeOperator) (σ : Store) :
    σ.Untouched ((newEdge tail head operator).after σ) := by
  unfold newEdge
  rcases (still_edgeEnd operator tail).after_bind _ σ with he | ⟨tail, he⟩
  · rw [he]
    exact σ.untouched_refl
  rw [he]
  rcases (still_edgeEnd operator head).after_bind _ σ with he | ⟨head, he⟩
  · rw [he]
    exact σ.untouched_refl
  · rw [he]
    exact σ.untouched_edgeCount (σ.edgeCount + 1)

theorem untouched_of_fails_edge {b : BodyRef} {tail head : Argument}
    {attrs : Entries String Datum} (h : (edge b tail head attrs).Fails σ e σ') :
    σ.Untouched σ' := by
  unfold edge at h
  rcases (still_vertexLike tail).fails_bind h with h | ⟨tail, h⟩
  · exact h ▸ σ.untouched_refl
  rcases (still_vertexLike head).fails_bind h with h | ⟨head, h⟩
  · exact h ▸ σ.untouched_refl
  rcases (still_operatorOf b).fails_bind h with h | ⟨operator, h⟩
  · exact h ▸ σ.untouched_refl
  have hnew := untouched_after_newEdge tail head operator σ
  rcases fails_bind_iff.1 h with h | ⟨made, σ₁, hmade, h⟩
  · rwa [h.after_eq] at hnew
  · rw [hmade.after_eq] at hnew
    exact hnew.trans (untouched_of_fails_append h)

/-! ### Subgraphs -/

theorem untouched_after_openSubgraph (b : BodyRef) (name : Datum) (σ : Store) :
    σ.Untouched ((openSubgraph b name).after σ) := by
  unfold openSubgraph newSubgraph
  rcases (still_operatorOf b).after_bind _ σ with he | ⟨operator, he⟩
  · rw [he]
    exact σ.untouched_refl
  rw [he]
  rcases (still_liftNaming (graphName name)).after_bind _ σ with he | ⟨name, he⟩
  · rw [he]
    exact σ.untouched_refl
  · rw [he]
    exact σ.untouched_makeSubgraph name operator

theorem eq_of_fails_newSubgraph {name : Datum} {operator : EdgeOperator}
    (h : (newSubgraph name operator).Fails σ e σ') : σ' = σ := by
  cases hname : graphName name with
  | ok nm => exact absurd h (yields_newSubgraph operator hname σ).not_fails
  | error e =>
    simp only [newSubgraph, hname] at h
    exact Fails.eq_of_throw h

theorem eq_of_fails_openSubgraph {b : BodyRef} {name : Datum}
    (h : (openSubgraph b name).Fails σ e σ') : σ' = σ := by
  unfold openSubgraph at h
  rcases (still_operatorOf b).fails_bind h with h | ⟨operator, h⟩
  · exact h
  · exact eq_of_fails_newSubgraph h

theorem not_fails_newStatement {clause : Clause} {given : Option Object} :
    ¬ (newStatement clause given).Fails σ e σ' := by
  intro h
  rw [Fails, run_newStatement] at h
  split at h <;> cases h

theorem eq_of_fails_closeSubgraph {b : BodyRef} {s : SubgraphId} {appended : Bool}
    (h : (closeSubgraph b s appended).Fails σ e σ') : σ' = σ := by
  unfold closeSubgraph at h
  cases appended with
  | false => exact absurd h (yields_modify _ σ).not_fails
  | true =>
    rcases fails_bind_iff.1 h with h | ⟨u, σ₁, -, h⟩
    · exact eq_of_fails_attach h
    · exact absurd h (yields_modify _ σ₁).not_fails

/-- A refusal around a callback leaves what the callback left, unless it never ran. -/
theorem fails_subgraph {b : BodyRef} {name : Datum} {appended : Bool}
    {build : SubgraphId → Build Unit} (h : (subgraph b name appended build).Fails σ e σ') :
    ((openSubgraph b name).Fails σ e σ' ∧ σ' = σ) ∨
      ∃ s σ₁, (openSubgraph b name).Yields σ s σ₁ ∧ σ' = (build s).after σ₁ := by
  unfold subgraph at h
  rcases fails_bind_iff.1 h with h | ⟨s, σ₁, hopen, h⟩
  · exact .inl ⟨h, eq_of_fails_openSubgraph h⟩
  refine .inr ⟨s, σ₁, hopen, ?_⟩
  rcases fails_bind_iff.1 h with h | ⟨u, σ₂, hbuild, h⟩
  · exact h.after_eq.symm
  · rw [eq_of_fails_closeSubgraph h.of_map, hbuild.after_eq]

theorem untouched_of_fails_subgraph {b : BodyRef} {name : Datum} {appended : Bool}
    (h : (subgraph b name appended fun _ => pure ()).Fails σ e σ') : σ.Untouched σ' := by
  rcases fails_subgraph h with ⟨-, he⟩ | ⟨s, σ₁, hopen, he⟩
  · rw [he]
    exact σ.untouched_refl
  · rw [he, ← hopen.after_eq]
    exact untouched_after_openSubgraph b name σ

theorem eq_of_fails_newRoot {name strict : Datum} {operator : EdgeOperator}
    (h : (newRoot name strict operator).Fails σ e σ') : σ' = σ := by
  cases hname : graphName name with
  | ok nm => exact absurd h (yields_newRoot operator hname σ).not_fails
  | error e =>
    simp only [newRoot, hname] at h
    exact Fails.eq_of_throw h

end Build

/-! ### The interface -/

theorem Operation.untouched_of_fails {op : Operation} {σ σ' : Store} {e : BuildError}
    (h : op.run.Fails σ e σ') : σ.Untouched σ' := by
  have hsame : σ' = σ → σ.Untouched σ' := by
    rintro rfl
    exact σ'.untouched_refl
  cases op with
  | newRoot name strict directed => exact hsame (Build.eq_of_fails_newRoot h.of_map)
  | newSubgraph name directed => exact hsame (Build.eq_of_fails_newSubgraph h.of_map)
  | newStatement clause given => exact (Build.not_fails_newStatement h.of_map).elim
  | newEdge tail head directed =>
    exact h.of_map.after_eq ▸ Build.untouched_after_newEdge tail head _ σ
  | insert b what attrs =>
    replace h := h.of_map
    cases what with
    | node name port => exact Build.untouched_of_fails_node h
    | edge tail head => exact Build.untouched_of_fails_edge h
    | defaults kind => exact Build.untouched_of_fails_append h
  | subgraph b name appended => exact Build.untouched_of_fails_subgraph h.of_map
  | add b given => exact hsame (Build.eq_of_fails_add h)
  | set o attrs => exact hsame (Build.eq_of_fails_setAttrs h.of_map)
  | edit o call => exact hsame (Build.eq_of_fails_editTable call.enters_perform h.of_map)

/-- Nothing that is refused changes anything.  Entries are written into a table one after the other,
yet a refused entry leaves none behind, since all are tried first.  Around a callback, whether it
raises or the append after it is refused, the store is the one in which the callback stopped. -/
theorem Store.refused_changes_nothing :
    (∀ (op : Operation) (σ σ' : Store) (e : BuildError),
      op.run.Fails σ e σ' → σ.Untouched σ') ∧
    (∀ (o : Object) (attrs : Entries String Datum) (σ : Store),
      (Build.setAttrs o attrs).run.run σ =
        match σ.held? o with
        | none => (.ok (), σ)
        | some (t, u) =>
          match u.update attrs with
          | .error e => (.error (.attr e), σ)
          | .ok u' => (.ok (), σ.setTable t u')) ∧
    (∀ (o : Object) (call : TableCall) (σ : Store),
      (Build.editTable o call.perform).run.run σ =
        match σ.held? o with
        | none => (.ok (), σ)
        | some (t, u) =>
          match u.assignAll call.entries with
          | .error e => (.error (.attr e), σ)
          | .ok u' => (.ok (), σ.setTable t u')) ∧
    ∀ (b : BodyRef) (name : Datum) (appended : Bool) (build : SubgraphId → Build Unit)
      (σ σ' : Store) (e : BuildError), (Build.subgraph b name appended build).Fails σ e σ' →
      ((Build.openSubgraph b name).Fails σ e σ' ∧ σ' = σ) ∨
        ∃ s σ₁, (Build.openSubgraph b name).Yields σ s σ₁ ∧ σ' = (build s).after σ₁ :=
  ⟨fun _ _ _ _ => Operation.untouched_of_fails, Build.run_setAttrs,
    fun o call => Build.run_editTable call.enters_perform o,
    fun _ _ _ _ _ _ _ => Build.fails_subgraph⟩

/-- A graph with defaults for its edges. -/
def preparedRun : List Call :=
  [.ask (.newRoot .absent false true), .ask (.insert (.root ⟨0⟩) (.defaults .edge) [])]

/-- A defaults statement is not appended if its second attribute is refused. -/
theorem Store.refused_changes_nothing_second_attribute :
    ∃ e σ', (Operation.insert (.root ⟨0⟩) (.defaults .node)
        [("label", .text "A"), ("peripheries", .text "many")]).run.Fails
          (empty.after preparedRun) e σ' ∧
      (empty.after preparedRun).Untouched σ' := by
  have hfail : ∃ e σ', (Operation.insert (.root ⟨0⟩) (.defaults .node)
      [("label", .text "A"), ("peripheries", .text "many")]).run.Fails
        (empty.after preparedRun) e σ' :=
    ⟨_, _, rfl⟩
  obtain ⟨e, σ', h⟩ := hfail
  exact ⟨e, σ', h, refused_changes_nothing.1 _ _ _ _ h⟩

end DotGraph
