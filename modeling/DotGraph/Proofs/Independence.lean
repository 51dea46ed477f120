import DotGraph.Proofs.SparedTables

/-!
Steps that take no notice of one attribute table.  An operation that does not edit a table comes
out alike whatever the table says, whoever holds it, and leaves the same store but for that table.
Only the texts in which its refusal shows objects may differ.
-/

namespace DotGraph

/-! ### Refusals apart from those texts -/

/-- A value without the text that it shows, if it is an object that shows one. -/
def Datum.bare : Datum → Datum
  | object o shown => object o (shown.map fun _ => "")
  | d => d

theorem Argument.bare_toDatum (given : Argument) (σ : Store) (t : TableId) (u : AttrTable) :
    (given.toDatum (σ.setTable t u)).bare = (given.toDatum σ).bare := by
  cases given with
  | datum d => rfl
  | object o =>
    have hshown := σ.isSome_shown?_setTable t u o
    simp only [toDatum, Datum.bare]
    generalize (σ.setTable t u).shown? o = x, σ.shown? o = y at hshown
    cases x <;> cases y <;> first | rfl | cases hshown

def StructureError.bare : StructureError → StructureError
  | vertex given => vertex given.bare
  | vertexLike given => vertexLike given.bare
  | notStatement given => notStatement given.bare
  | owned parent => owned parent.bare
  | noEdge given => noEdge given.bare
  | e => e

/-- The kind of a refusal: all that it says and which objects show a text in it, but not their
texts. -/
def BuildError.kind : BuildError → BuildError
  | structural e => structural e.bare
  | e => e

/-- What a check comes to, apart from the texts that objects show. -/
def StructureError.checked (x : Except StructureError Unit) : Except StructureError Unit :=
  x.mapError bare

namespace StructureError

theorem checked_error (e : StructureError) : checked (.error e) = .error e.bare := rfl

theorem checked_throw (e : StructureError) : checked (throw e) = .error e.bare := rfl

theorem checked_throw_bind (e : StructureError) (y : Except StructureError Unit) :
    checked ((throw e : Except StructureError Unit) >>= fun _ => y) = .error e.bare := rfl

theorem checked_bind (x y : Except StructureError Unit) :
    checked (x >>= fun _ => y) = (checked x >>= fun _ => checked y) := by
  cases x <;> rfl

end StructureError

namespace Store

open StructureError

variable (σ : Store) (t : TableId) (u : AttrTable)

/-! ### What is checked -/

theorem checked_checkLink (b : BodyRef) (operator : EdgeOperator) (s : SubgraphId) :
    checked ((σ.setTable t u).checkLink b operator s) = checked (σ.checkLink b operator s) := by
  unfold checkLink
  rw [renders_setTable, subgraph?_setTable]
  cases σ.subgraph? s with
  | none => simp only [checked_error, StructureError.bare, Argument.bare_toDatum]
  | some g => rfl

theorem checked_checkUnowned (m : Member) :
    checked ((σ.setTable t u).checkUnowned m) = checked (σ.checkUnowned m) := by
  unfold checkUnowned
  rw [parent?_setTable]
  cases σ.parent? m with
  | none => rfl
  | some owner => simp only [checked_error, StructureError.bare, Argument.bare_toDatum]

theorem checked_checkEnd (b : BodyRef) (operator : EdgeOperator) (v : Vertex) :
    checked ((σ.setTable t u).checkEnd b operator v) = checked (σ.checkEnd b operator v) := by
  cases v with
  | node id => rfl
  | subgraph s => exact σ.checked_checkLink t u b operator s

theorem checked_checkClause (b : BodyRef) (operator : EdgeOperator) (clause : Clause) :
    checked ((σ.setTable t u).checkClause b operator clause) =
      checked (σ.checkClause b operator clause) := by
  cases clause with
  | node id => rfl
  | defaults kind standalone => rfl
  | edge e =>
    simp only [checkClause]
    split
    · rw [checked_throw_bind, checked_throw_bind]
    · rw [checked_bind, checked_bind, checked_checkEnd, checked_checkEnd]
  | noEdge given =>
    have hlast : checked (throw (.noEdge (given.toDatum (σ.setTable t u)))) =
        checked (throw (.noEdge (given.toDatum σ))) := by
      simp only [checked_throw, StructureError.bare, Argument.bare_toDatum]
    simp only [checkClause, operator?_setTable]
    cases σ.operator? given with
    | none =>
      dsimp only
      rw [hlast]
    | some other =>
      dsimp only
      split
      · rw [checked_throw_bind, checked_throw_bind]
      · rw [hlast]

theorem checked_checkMember (b : BodyRef) (m : Member) :
    checked ((σ.setTable t u).checkMember b m) = checked (σ.checkMember b m) := by
  unfold checkMember
  rw [body?_setTable]
  cases σ.body? b with
  | none => simp only [checked_error, StructureError.bare, Argument.bare_toDatum]
  | some body =>
    cases m with
    | subgraph s =>
      dsimp only
      rw [checked_bind, checked_bind, checked_checkUnowned, checked_checkLink]
    | statement i =>
      dsimp only
      rw [statement?_setTable]
      cases (σ.statement? i).map Statement.clause with
      | none => simp only [checked_error, StructureError.bare, Argument.bare_toDatum]
      | some clause =>
        dsimp only
        rw [checked_bind, checked_bind, checked_bind, checked_bind, checked_checkUnowned,
          checked_checkClause]

end Store

namespace Build

open Store

variable {α β : Type} {x y : Build α} {t : TableId} {u : AttrTable} {σ σ' : Store}

/-- What a step comes to: its answer, or the kind of its refusal. -/
def outcome (x : Build α) (σ : Store) : Except BuildError α :=
  (x.run.run σ).1.mapError BuildError.kind

theorem Yields.outcome_eq {a : α} (hx : x.Yields σ a σ') : x.outcome σ = .ok a :=
  congrArg (fun r : Except BuildError α × Store => r.1.mapError BuildError.kind) hx

theorem Fails.outcome_eq {e : BuildError} (hx : x.Fails σ e σ') : x.outcome σ = .error e.kind :=
  congrArg (fun r : Except BuildError α × Store => r.1.mapError BuildError.kind) hx

/-- From a store and from the same store in which a table says something else, two steps come to the
same answer or to refusals of one kind, and to the same store but for that table. -/
inductive Alike (t : TableId) (u : AttrTable) (σ : Store) (x y : Build α) : Prop
  | yields {a : α} {σ' : Store} (left : x.Yields σ a σ')
    (right : y.Yields (σ.setTable t u) a (σ'.setTable t u)) (kept : σ'.table? t = σ.table? t)
  | fails {e e' : BuildError} {σ' : Store} (left : x.Fails σ e σ')
    (right : y.Fails (σ.setTable t u) e' (σ'.setTable t u)) (kept : σ'.table? t = σ.table? t)
    (kind : e'.kind = e.kind)

namespace Alike

theorem outcome (hxy : Alike t u σ x y) : y.outcome (σ.setTable t u) = x.outcome σ := by
  cases hxy with
  | yields left right kept => rw [left.outcome_eq, right.outcome_eq]
  | fails left right kept kind => rw [left.outcome_eq, right.outcome_eq, kind]

theorem after (hxy : Alike t u σ x y) :
    y.after (σ.setTable t u) = (x.after σ).setTable t u := by
  cases hxy with
  | yields left right kept => rw [left.after_eq, right.after_eq]
  | fails left right kept kind => rw [left.after_eq, right.after_eq]

theorem kept (hxy : Alike t u σ x y) : (x.after σ).table? t = σ.table? t := by
  cases hxy with
  | yields left right kept => rw [left.after_eq, kept]
  | fails left right kept kind => rw [left.after_eq, kept]

theorem bind {f g : α → Build β} (hxy : Alike t u σ x y)
    (hfg : ∀ a σ', x.Yields σ a σ' → σ'.table? t = σ.table? t → Alike t u σ' (f a) (g a)) :
    Alike t u σ (x >>= f) (y >>= g) := by
  cases hxy with
  | fails left right kept kind =>
    exact .fails (fails_bind_iff.2 (.inl left)) (fails_bind_iff.2 (.inl right)) kept kind
  | yields left right kept =>
    cases hfg _ _ left kept with
    | yields left' right' kept' =>
      exact .yields (left.bind left') (right.bind right') (kept'.trans kept)
    | fails left' right' kept' kind =>
      exact .fails (fails_bind_iff.2 (.inr ⟨_, _, left, left'⟩))
        (fails_bind_iff.2 (.inr ⟨_, _, right, right'⟩)) (kept'.trans kept) kind

end Alike

/-- A step that neither edits a table nor looks at what it says. -/
def Ignores (t : TableId) (x : Build α) : Prop :=
  ∀ (σ : Store) (u : AttrTable), σ.HasTable t → Alike t u σ x x

theorem alike_pure (a : α) : Alike t u σ (pure a) (pure a) :=
  .yields (yields_pure a σ) (yields_pure a _) rfl

theorem alike_throw {e e' : BuildError} (he : e'.kind = e.kind) :
    Alike t u σ (throw e : Build α) (throw e') :=
  .fails rfl rfl rfl he

theorem alike_throw_toDatum (given : Argument) {e : Datum → StructureError}
    (he : ∀ d, (e d).bare = e d.bare) :
    Alike t u σ (throw (.structural (e (given.toDatum σ))) : Build α)
      (throw (.structural (e (given.toDatum (σ.setTable t u))))) := by
  refine alike_throw ?_
  simp only [BuildError.kind, he, Argument.bare_toDatum]

theorem alike_get {f g : Store → Build α} (hfg : Alike t u σ (f σ) (g (σ.setTable t u))) :
    Alike t u σ (get >>= f) (get >>= g) := by
  cases hfg with
  | yields left right kept =>
    exact .yields ((yields_get σ).bind left) ((yields_get _).bind right) kept
  | fails left right kept kind =>
    exact .fails (fails_bind_iff.2 (.inr ⟨_, _, yields_get σ, left⟩))
      (fails_bind_iff.2 (.inr ⟨_, _, yields_get _, right⟩)) kept kind

theorem alike_liftStructure {x y : Except StructureError Unit}
    (hxy : StructureError.checked y = StructureError.checked x) :
    Alike t u σ (liftStructure x) (liftStructure y) := by
  cases x with
  | ok u =>
    cases y with
    | ok u' => exact alike_pure ()
    | error e => cases hxy
  | error e =>
    cases y with
    | ok u => cases hxy
    | error e' => exact alike_throw (congrArg BuildError.structural (Except.error.inj hxy))

/-- A step that is not refused ignores a table if its write spares it and its answer is the same. -/
theorem alike_of_yields {answer : Store → α} {write : Store → Store}
    (hx : ∀ σ, x.Yields σ (answer σ) (write σ)) (hw : Spares t write σ)
    (ha : answer (σ.setTable t u) = answer σ) : Alike t u σ x x := by
  have right := hx (σ.setTable t u)
  rw [ha, hw.swapped] at right
  exact .yields (hx σ) right hw.kept

theorem Ignores.bind {f : α → Build β} (hx : Ignores t x) (hf : ∀ a, Ignores t (f a)) :
    Ignores t (x >>= f) := fun σ u hh =>
  (hx σ u hh).bind fun a _ _ hk => hf a _ u (by rwa [HasTable, hk])

theorem ignores_pure (a : α) : Ignores t (pure a : Build α) :=
  fun _ _ _ => alike_pure a

theorem ignores_throw (e : BuildError) : Ignores t (throw e : Build α) :=
  fun _ _ _ => alike_throw rfl

theorem ignores_liftNaming (x : Except NamingError α) : Ignores t (liftNaming x) := by
  cases x with
  | error e => exact ignores_throw _
  | ok a => exact ignores_pure a

theorem ignores_raise (e : Option BuildError) : Ignores t (raise e) := by
  cases e with
  | none => exact ignores_pure ()
  | some e => exact ignores_throw e

theorem Alike.attempt (hxx : Alike t u σ x x) : Alike t u σ (attempt x) (attempt x) := by
  have right := run_attempt x (σ.setTable t u)
  rw [hxx.after] at right
  exact .yields (run_attempt x σ) right hxx.kept

/-! ### Making things -/

theorem ignores_newTable (v : AttrTable) : Ignores t (newTable v) :=
  fun σ u hh =>
    alike_of_yields (fun _ => rfl) (spares_pushTable hh v)
      (congrArg TableId.mk (σ.size_tables_setTable t u))

theorem ignores_newRoot (name strict : Datum) (operator : EdgeOperator) :
    Ignores t (newRoot name strict operator) :=
  (ignores_liftNaming _).bind fun name =>
    (ignores_newTable _).bind fun table _ _ _ =>
      alike_of_yields (fun _ => rfl) (spares_pushRoot ⟨⟨name, operator, table, []⟩, strict⟩) rfl

theorem ignores_newSubgraph (name : Datum) (operator : EdgeOperator) :
    Ignores t (newSubgraph name operator) :=
  (ignores_liftNaming _).bind fun name =>
    (ignores_newTable _).bind fun table _ _ _ =>
      alike_of_yields (fun _ => rfl)
        (spares_pushSubgraph ⟨⟨name, operator, table, []⟩, none⟩) rfl

theorem givenTable?_setTable (σ : Store) (t : TableId) (u : AttrTable) (given : Option Object)
    (clause : Clause) :
    givenTable? (σ.setTable t u) given clause = givenTable? σ given clause := by
  unfold givenTable?
  split
  · rfl
  · cases given with
    | none => rfl
    | some o => exact σ.tableOf_setTable t u o

theorem ignores_newStatement (clause : Clause) (given : Option Object) :
    Ignores t (newStatement clause given) := by
  have htable : Ignores t (tableFor clause given) := by
    intro σ u hh
    refine alike_get ?_
    rw [givenTable?_setTable]
    cases givenTable? σ given clause with
    | some table => exact alike_pure table
    | none => exact ignores_newTable _ σ u hh
  exact htable.bind fun table _ _ _ =>
    alike_of_yields (fun _ => rfl) (spares_pushStatement ⟨clause, table, none⟩) rfl

theorem ignores_edgeEnd (operator : EdgeOperator) (given : Argument) :
    Ignores t (edgeEnd operator given) := by
  intro σ u hh
  refine alike_get ?_
  cases given with
  | datum d =>
    cases d with
    | nodeId id => exact alike_pure _
    | _ => exact alike_throw_toDatum _ fun _ => rfl
  | object o =>
    cases o with
    | subgraph s =>
      dsimp only
      rw [subgraph?_setTable]
      cases σ.subgraph? s with
      | none => exact alike_throw_toDatum _ fun _ => rfl
      | some g =>
        dsimp only
        split
        · exact (ignores_throw _).bind (fun _ => ignores_pure _) σ u hh
        · exact alike_pure _
    | _ => exact alike_throw_toDatum _ fun _ => rfl

theorem ignores_newEdge (tail head : Argument) (operator : EdgeOperator) :
    Ignores t (newEdge tail head operator) :=
  (ignores_edgeEnd operator tail).bind fun _ =>
    (ignores_edgeEnd operator head).bind fun _ _ _ _ =>
      alike_of_yields (fun _ => rfl) spares_edgeCount rfl

/-! ### Operations on what is there -/

theorem alike_editTable {edit : TableEdit Unit} {given : Entries Datum Datum}
    (hedit : edit.Enters given) {o : Object} (ho : σ.tableId? o ≠ some t) :
    Alike t u σ (editTable o edit) (editTable o edit) := by
  have hleft := run_editTable hedit o σ
  have hright := run_editTable hedit o (σ.setTable t u)
  cases hheld : σ.held? o with
  | none =>
    have hheld' : (σ.setTable t u).held? o = none := by
      have hnone := σ.tableOf_setTable t u o
      rw [hheld] at hnone
      simpa using hnone
    rw [hheld] at hleft
    rw [hheld'] at hright
    exact .yields hleft hright rfl
  | some held =>
    obtain ⟨t', v⟩ := held
    obtain ⟨htable, hv⟩ := held?_eq_some_iff.1 hheld
    have hne : t' ≠ t := fun he => ho (he ▸ htable)
    have hheld' : (σ.setTable t u).held? o = some (t', v) := by
      refine held?_eq_some_iff.2 ⟨by simpa using htable, ?_⟩
      simp [table?_setTable, hv, hne.symm]
    rw [hheld] at hleft
    rw [hheld'] at hright
    dsimp only at hleft hright
    cases hu : v.assignAll given with
    | error e =>
      rw [hu] at hleft hright
      exact .fails hleft hright rfl rfl
    | ok v' =>
      rw [hu] at hleft hright
      have hspares := spares_setTable (σ := σ) hne v'
      dsimp only at hright
      rw [hspares.swapped] at hright
      exact .yields hleft hright hspares.kept

theorem alike_setAttrs {o : Object} (ho : σ.tableId? o ≠ some t) (attrs : Entries String Datum) :
    Alike t u σ (setAttrs o attrs) (setAttrs o attrs) :=
  alike_editTable (TableEdit.enters_enter _) ho

theorem ignores_attach (b : BodyRef) (m : Member) : Ignores t (attach b m) := by
  intro σ u hh
  refine alike_get (Alike.bind ?_ fun _ _ _ _ => ?_)
  · exact alike_liftStructure (σ.checked_checkMember t u b m)
  · exact alike_of_yields (yields_modify _) (spares_attach b m) rfl

theorem ignores_add (b : BodyRef) (given : Argument) : Ignores t (add b given) := by
  unfold add
  cases given with
  | datum d => exact ignores_throw _
  | object o =>
    dsimp only
    cases o.member? with
    | some m => exact (ignores_attach b m).bind fun _ => ignores_pure o
    | none => exact fun σ u _ => alike_get (alike_throw_toDatum _ fun _ => rfl)

/-- The statement that is made here has a table of its own, which is none that was there. -/
theorem ignores_append (b : BodyRef) (clause : Clause) (attrs : Entries String Datum) :
    Ignores t (append b clause attrs) := by
  intro σ u hh
  refine (ignores_newStatement clause none σ u hh).bind fun i σ' hi hk => ?_
  have hne : σ'.tableId? (.statement i) ≠ some t := by
    obtain ⟨rfl, rfl⟩ := (yields_newStatement clause σ).unique hi
    rw [(held?_eq_some_iff.1 (σ.held?_makeStatement clause)).1]
    rintro he
    obtain ⟨v, hv⟩ := hh
    exact ne_size_of_table? hv (congrArg TableId.index (Option.some.inj he)).symm
  refine (alike_setAttrs hne attrs).bind fun _ σ'' _ hk' => ?_
  refine ((ignores_attach b _).bind fun _ => ignores_pure i) σ'' u ?_
  rwa [HasTable, hk', hk]

theorem ignores_nodeIdOf (name port : Datum) : Ignores t (nodeIdOf name port) := by
  unfold nodeIdOf
  split
  · exact ignores_pure _
  · exact ignores_throw _
  · exact ignores_liftNaming _

theorem ignores_vertexLike (given : Argument) : Ignores t (vertexLike given) := by
  unfold vertexLike
  split
  · exact (ignores_liftNaming _).bind fun _ => ignores_pure _
  · exact ignores_pure _
  · exact ignores_pure _
  · exact fun σ u _ => alike_get (alike_throw_toDatum given fun _ => rfl)

theorem ignores_operatorOf (b : BodyRef) : Ignores t (operatorOf b) := by
  intro σ u _
  refine alike_get ?_
  rw [body?_setTable]
  exact alike_pure _

theorem ignores_insertion (b : BodyRef) (attrs : Entries String Datum) (what : Insertion) :
    Ignores t (what.run b attrs) := by
  cases what with
  | node name port =>
    exact (ignores_nodeIdOf name port).bind fun _ => ignores_append b _ attrs
  | edge tail head =>
    exact (ignores_vertexLike tail).bind fun _ => (ignores_vertexLike head).bind fun _ =>
      (ignores_operatorOf b).bind fun _ => (ignores_newEdge _ _ _).bind fun _ =>
        ignores_append b _ attrs
  | defaults kind => exact ignores_append b _ attrs

theorem ignores_openSubgraph (b : BodyRef) (name : Datum) : Ignores t (openSubgraph b name) :=
  (ignores_operatorOf b).bind fun _ => ignores_newSubgraph name _

theorem ignores_closeSubgraph (b : BodyRef) (s : SubgraphId) (appended : Bool) :
    Ignores t (closeSubgraph b s appended) := by
  have hnoted : Ignores t (modify (noted s appended)) := fun _ _ _ =>
    alike_of_yields (yields_modify _) (spares_noted s appended) rfl
  cases appended with
  | true => exact (ignores_attach b (.subgraph s)).bind fun _ => hnoted
  | false => exact hnoted

theorem alike_subgraph (b : BodyRef) (name : Datum) (appended : Bool)
    {build : SubgraphId → Build Unit} (hh : σ.HasTable t)
    (hbuild : ∀ s σ', (openSubgraph b name).Yields σ s σ' → σ'.HasTable t →
      Alike t u σ' (build s) (build s)) :
    Alike t u σ (subgraph b name appended build) (subgraph b name appended build) := by
  refine (ignores_openSubgraph b name σ u hh).bind fun s σ₁ hs hk => ?_
  refine (hbuild s σ₁ hs (by rwa [HasTable, hk])).bind fun _ σ₂ _ hk' => ?_
  refine ((ignores_closeSubgraph b s appended).bind fun _ => ignores_pure s) σ₂ u ?_
  rwa [HasTable, hk', hk]

end Build

end DotGraph
