import DotGraph.Proofs.Construction
import DotGraph.Proofs.TableEdits
import Mathlib.Logic.Relation

/-!
Changes of the store.  Whatever a call does, nested calls and refusals included, it does by a
sequence of a few kinds of change; what each of them keeps is kept by every run.
-/

namespace DotGraph

open Relation

namespace Store

def pushTable (σ : Store) (u : AttrTable) : Store :=
  { σ with tables := σ.tables.push u }

def pushRoot (σ : Store) (g : Root) : Store :=
  { σ with roots := σ.roots.push g }

def pushSubgraph (σ : Store) (g : Subgraph) : Store :=
  { σ with subgraphs := σ.subgraphs.push g }

def pushStatement (σ : Store) (s : Statement) : Store :=
  { σ with statements := σ.statements.push s }

/-- A new root graph with its table. -/
def makeRoot (σ : Store) (name : Option Identifier) (operator : EdgeOperator) (strict : Datum) :
    Store :=
  (σ.pushTable .ofRoot).pushRoot ⟨⟨name, operator, ⟨σ.tables.size⟩, []⟩, strict⟩

/-- A new subgraph with its table. -/
def makeSubgraph (σ : Store) (name : Option Identifier) (operator : EdgeOperator) : Store :=
  (σ.pushTable .ofSubgraph).pushSubgraph ⟨⟨name, operator, ⟨σ.tables.size⟩, []⟩, none⟩

/-- A new statement with a table of its own. -/
def makeStatement (σ : Store) (clause : Clause) : Store :=
  (σ.pushTable (Build.clauseAttrs clause)).pushStatement ⟨clause, ⟨σ.tables.size⟩, none⟩

theorem table?_pushTable_new (σ : Store) (u : AttrTable) :
    (σ.pushTable u).table? ⟨σ.tables.size⟩ = some u := by
  simp [table?, pushTable]

theorem held?_eq_some_iff {σ : Store} {o : Object} {t : TableId} {u : AttrTable} :
    σ.held? o = some (t, u) ↔ σ.tableId? o = some t ∧ σ.table? t = some u := by
  unfold held?
  constructor
  · intro h
    obtain ⟨t', ht, h⟩ := Option.bind_eq_some_iff.1 h
    obtain ⟨u', hu, h⟩ := Option.bind_eq_some_iff.1 h
    cases h
    exact ⟨ht, hu⟩
  · rintro ⟨ht, hu⟩
    simp [ht, hu]

theorem setTable_self {σ : Store} {t : TableId} {u : AttrTable} (h : σ.table? t = some u) :
    σ.setTable t u = σ := by
  obtain ⟨hlt, rfl⟩ := Array.getElem?_eq_some_iff.1 h
  simp [setTable, Array.setIfInBounds, hlt]

/-- The table with which a body or a statement starts, if it makes its own. -/
inductive IsFresh : AttrTable → Prop
  | root : IsFresh .ofRoot
  | subgraph : IsFresh .ofSubgraph
  | statement (clause : Clause) : IsFresh (Build.clauseAttrs clause)

/-- One change of a store.  A root graph starts with one of the two operators, and a subgraph with
one of them or with that of a body.  Bodies and defaults start with an empty table of their own kind
and other statements with any table that is there.  A table changes by accepted entries, and a
statement is attached only where that is allowed. -/
inductive Change (σ : Store) : Store → Prop
  | table {u : AttrTable} (fresh : IsFresh u) : Change σ (σ.pushTable u)
  | root (name : Option Identifier) (strict directed : Bool) {t : TableId}
    (found : σ.table? t = some .ofRoot) :
    Change σ (σ.pushRoot ⟨⟨name, .ofDirected directed, t, []⟩, .flag strict⟩)
  | subgraph (name : Option Identifier) {operator : EdgeOperator} {t : TableId}
    (found : σ.table? t = some .ofSubgraph)
    (chosen : (∃ directed, operator = .ofDirected directed) ∨
      ∃ b body, σ.body? b = some body ∧ body.operator = operator) :
    Change σ (σ.pushSubgraph ⟨⟨name, operator, t, []⟩, none⟩)
  | statement (clause : Clause) {t : TableId} {u : AttrTable} (found : σ.table? t = some u)
    (own : ∀ kind standalone, clause = .defaults kind standalone → u = .ofDefaults kind) :
    Change σ (σ.pushStatement ⟨clause, t, none⟩)
  | edge : Change σ { σ with edgeCount := σ.edgeCount + 1 }
  | attrs {t : TableId} {u u' : AttrTable} {given : Entries Datum Datum}
    (found : σ.table? t = some u) (entered : u.assignAll given = .ok u') :
    Change σ (σ.setTable t u')
  | attach {b : BodyRef} {m : Member} (allowed : σ.checkMember b m = .ok ()) :
    Change σ (σ.attach b m)
  | note (creations : List Creation) : Change σ { σ with creations }

end Store

namespace Build

open Store

variable {α β : Type}

/-- All that a step does to a store is a sequence of changes. -/
def Changing (x : Build α) : Prop :=
  ∀ σ, ReflTransGen Change σ (x.after σ)

theorem run_bind (x : Build α) (f : α → Build β) (σ : Store) :
    (x >>= f).run.run σ =
      match x.run.run σ with
      | (.ok a, σ') => (f a).run.run σ'
      | (.error e, σ') => (.error e, σ') := by
  simp only [ExceptT.run_bind, StateT.run_bind]
  rcases x.run.run σ with ⟨e | a, σ'⟩ <;> rfl

theorem after_bind (x : Build α) (f : α → Build β) (σ : Store) :
    (x >>= f).after σ =
      match x.run.run σ with
      | (.ok a, σ') => (f a).after σ'
      | (.error _, σ') => σ' := by
  rw [Build.after, run_bind]
  rcases x.run.run σ with ⟨e | a, σ'⟩ <;> rfl

theorem after_bind_of_still {x : Build α} {f : α → Build β} (h : ∀ a σ, (f a).after σ = σ)
    (σ : Store) : (x >>= f).after σ = x.after σ := by
  rw [after_bind, Build.after]
  rcases x.run.run σ with ⟨e | a, σ'⟩
  · rfl
  · exact h a σ'

theorem changing_pure (a : α) : Changing (pure a) :=
  fun _ => .refl

theorem changing_throw (e : BuildError) : Changing (throw e : Build α) :=
  fun _ => .refl

theorem changing_get (f : Store → Build α)
    (h : ∀ σ, ReflTransGen Change σ ((f σ).after σ)) : Changing (get >>= f) :=
  fun σ => h σ

theorem changing_bind {x : Build α} {f : α → Build β} (hx : Changing x)
    (hf : ∀ a, Changing (f a)) : Changing (x >>= f) := by
  intro σ
  have h := hx σ
  rw [after_bind]
  unfold Build.after at h
  split
  · rename_i a σ' hr
    rw [hr] at h
    exact h.trans (hf a σ')
  · rename_i e σ' hr
    rw [hr] at h
    exact h

theorem run_attempt (x : Build α) (σ : Store) :
    (attempt x).run.run σ = (.ok (), x.after σ) := by
  simp only [Build.after, attempt, ExceptT.run_tryCatch, StateT.run_bind, ExceptT.run_bind]
  rcases x.run.run σ with ⟨e | a, σ'⟩ <;> rfl

theorem changing_attempt {x : Build α} (hx : Changing x) : Changing (attempt x) := by
  intro σ
  have h := hx σ
  have he : (attempt x).after σ = x.after σ := by rw [Build.after, run_attempt]
  rw [he]
  exact h

theorem changing_raise (e : Option BuildError) : Changing (raise e) := by
  cases e with
  | none => exact changing_pure ()
  | some e => exact changing_throw e

theorem changing_liftNaming (x : Except NamingError α) : Changing (liftNaming x) := by
  cases x with
  | error e => exact changing_throw _
  | ok a => exact changing_pure a

/-! ### Making things -/

theorem after_newTable_bind (u : AttrTable) (f : TableId → Build α) (σ : Store) :
    (newTable u >>= f).after σ = (f ⟨σ.tables.size⟩).after (σ.pushTable u) := rfl

theorem changing_newTable_bind {u : AttrTable} (fresh : IsFresh u) {f : TableId → Build α}
    (h : ∀ (σ : Store) t, σ.table? t = some u → ReflTransGen Change σ ((f t).after σ)) :
    Changing (newTable u >>= f) := by
  intro σ
  rw [after_newTable_bind]
  exact .head (.table fresh) (h _ _ (σ.table?_pushTable_new u))

theorem changing_newRoot (name : Datum) (strict directed : Bool) :
    Changing (newRoot name (.flag strict) (.ofDirected directed)) :=
  changing_bind (changing_liftNaming _) fun name =>
    changing_newTable_bind .root fun _ _ found => .single (.root name strict directed found)

theorem changes_newSubgraph {σ : Store} (name : Datum) {operator : EdgeOperator}
    (chosen : (∃ directed, operator = .ofDirected directed) ∨
      ∃ b body, σ.body? b = some body ∧ body.operator = operator) :
    ReflTransGen Change σ ((newSubgraph name operator).after σ) := by
  cases hname : graphName name with
  | error e =>
    simp only [newSubgraph, hname]
    exact .refl
  | ok nm =>
    simp only [newSubgraph, hname]
    refine .head (.table .subgraph) (.single (.subgraph nm (σ.table?_pushTable_new _) ?_))
    rcases chosen with ⟨directed, rfl⟩ | ⟨b, body, hb, rfl⟩
    · exact .inl ⟨directed, rfl⟩
    · exact .inr ⟨b, body, by cases b <;> exact hb, rfl⟩

theorem exists_of_givenTable? {σ : Store} {given : Option Object} {clause : Clause} {t : TableId}
    (h : givenTable? σ given clause = some t) :
    ∃ o u, given = some o ∧ σ.held? o = some (t, u) ∧
      ∀ kind standalone, clause ≠ .defaults kind standalone := by
  unfold givenTable? at h
  split at h
  · cases h
  · rename_i hne
    obtain ⟨⟨t', u⟩, hheld, rfl⟩ := Option.map_eq_some_iff.1 h
    obtain ⟨o, rfl, hheld⟩ := Option.bind_eq_some_iff.1 hheld
    exact ⟨o, u, rfl, hheld, fun kind standalone => hne kind standalone⟩

theorem run_newStatement (clause : Clause) (given : Option Object) (σ : Store) :
    (newStatement clause given).run.run σ =
      match givenTable? σ given clause with
      | some t => (.ok ⟨σ.statements.size⟩, σ.pushStatement ⟨clause, t, none⟩)
      | none => (.ok ⟨σ.statements.size⟩, σ.makeStatement clause) := by
  unfold newStatement tableFor
  show ((match givenTable? σ given clause with | some t => _ | none => _ : Build TableId) >>=
    fun _ => _ : Build StatementId).run.run σ = _
  cases givenTable? σ given clause <;> rfl

theorem changing_newStatement (clause : Clause) (given : Option Object) :
    Changing (newStatement clause given) := by
  intro σ
  rw [Build.after, run_newStatement]
  cases ht : givenTable? σ given clause with
  | some t =>
    obtain ⟨o, u, -, hheld, hne⟩ := exists_of_givenTable? ht
    obtain ⟨-, found⟩ := held?_eq_some_iff.1 hheld
    exact .single (.statement clause found fun kind standalone he => (hne kind standalone he).elim)
  | none =>
    refine .head (.table (.statement clause))
      (.single (.statement clause (table?_pushTable_new σ _) ?_))
    rintro kind standalone rfl
    rfl

theorem changing_edgeEnd (operator : EdgeOperator) (given : Argument) :
    Changing (edgeEnd operator given) := by
  apply changing_get
  intro σ
  split
  · exact changing_pure _ σ
  · split
    · split
      · exact changing_bind (changing_throw _) (fun _ => changing_pure _) σ
      · exact changing_pure _ σ
    · exact changing_throw _ σ
  · exact changing_throw _ σ

theorem changing_newEdge (tail head : Argument) (operator : EdgeOperator) :
    Changing (newEdge tail head operator) :=
  changing_bind (changing_edgeEnd operator tail) fun _ =>
    changing_bind (changing_edgeEnd operator head) fun _ _ => .single .edge

/-! ### Operations on what is there -/

/-- An edit that comes to all of its entries or to none writes the table that is held or nothing. -/
theorem run_editTable {edit : TableEdit Unit} {attrs : Entries Datum Datum}
    (h : edit.Enters attrs) (o : Object) (σ : Store) :
    (editTable o edit).run.run σ =
      match σ.held? o with
      | none => (.ok (), σ)
      | some (t, u) =>
        match u.assignAll attrs with
        | .error e => (.error (.attr e), σ)
        | .ok u' => (.ok (), σ.setTable t u') := by
  show (match σ.held? o with | none => _ | some (t, u) => _ : Build Unit).run.run σ = _
  cases hheld : σ.held? o with
  | none => rfl
  | some held =>
    obtain ⟨t, u⟩ := held
    dsimp only
    cases hu : u.assignAll attrs with
    | error e =>
      rw [h.run_of_error hu]
      show (_, σ.setTable t u) = _
      rw [setTable_self (held?_eq_some_iff.1 hheld).2]
    | ok u' =>
      rw [h.run_of_ok hu]
      rfl

theorem changing_editTable {edit : TableEdit Unit} {attrs : Entries Datum Datum}
    (h : edit.Enters attrs) (o : Object) : Changing (editTable o edit) := by
  intro σ
  rw [Build.after, run_editTable h]
  cases hheld : σ.held? o with
  | none => exact .refl
  | some held =>
    obtain ⟨t, u⟩ := held
    dsimp only
    cases hu : u.assignAll attrs with
    | error e => exact .refl
    | ok u' => exact .single (.attrs (held?_eq_some_iff.1 hheld).2 hu)

theorem changing_setAttrs (o : Object) (attrs : Entries String Datum) :
    Changing (setAttrs o attrs) :=
  changing_editTable (TableEdit.enters_enter _) o

theorem changing_attach (b : BodyRef) (m : Member) : Changing (attach b m) := by
  apply changing_get
  intro σ
  cases hc : σ.checkMember b m with
  | error e => exact .refl
  | ok u => exact .single (.attach hc)

theorem changing_add (b : BodyRef) (given : Argument) : Changing (add b given) := by
  unfold add
  split
  · split
    · exact changing_bind (changing_attach _ _) fun _ => changing_pure _
    · exact changing_get _ fun σ => .refl
  · exact changing_throw _

theorem changing_append (b : BodyRef) (clause : Clause) (attrs : Entries String Datum) :
    Changing (append b clause attrs) :=
  changing_bind (changing_newStatement clause none) fun _ =>
    changing_bind (changing_setAttrs _ attrs) fun _ =>
      changing_bind (changing_attach b _) fun _ => changing_pure _

theorem changing_nodeIdOf (name port : Datum) : Changing (nodeIdOf name port) := by
  unfold nodeIdOf
  split
  · exact changing_pure _
  · exact changing_throw _
  · exact changing_liftNaming _

theorem changing_node (b : BodyRef) (name port : Datum) (attrs : Entries String Datum) :
    Changing (node b name port attrs) :=
  changing_bind (changing_nodeIdOf name port) fun _ => changing_append b _ attrs

theorem changing_vertexLike (given : Argument) : Changing (vertexLike given) := by
  unfold vertexLike
  split
  · exact changing_bind (changing_liftNaming _) fun _ => changing_pure _
  · exact changing_pure _
  · exact changing_pure _
  · exact changing_get _ fun σ => .refl

theorem changing_operatorOf (b : BodyRef) : Changing (operatorOf b) :=
  changing_get _ fun _ => .refl

theorem changing_edge (b : BodyRef) (tail head : Argument) (attrs : Entries String Datum) :
    Changing (edge b tail head attrs) :=
  changing_bind (changing_vertexLike tail) fun _ =>
    changing_bind (changing_vertexLike head) fun _ =>
      changing_bind (changing_operatorOf b) fun _ =>
        changing_bind (changing_newEdge _ _ _) fun _ => changing_append b _ attrs

/-- A subgraph takes the operator of the body in which it is made. -/
theorem changing_openSubgraph (b : BodyRef) (name : Datum) : Changing (openSubgraph b name) := by
  intro σ
  have heq : (openSubgraph b name).after σ =
      (newSubgraph name (((σ.body? b).map Body.operator).getD .undirected)).after σ := by
    rw [openSubgraph, after_bind]
    rfl
  rw [heq]
  refine changes_newSubgraph name ?_
  cases hb : σ.body? b with
  | none => exact .inl ⟨false, rfl⟩
  | some body => exact .inr ⟨b, body, hb, rfl⟩

theorem changing_modify {f : Store → Store} (h : ∀ σ, ReflTransGen Change σ (f σ)) :
    Changing (modify f) := h

theorem closeSubgraph_eq (b : BodyRef) (s : SubgraphId) (appended : Bool) :
    ∃ note : Store → Store, (∀ σ : Store, ∃ creations, note σ = { σ with creations }) ∧
      closeSubgraph b s appended =
        if appended then attach b (.subgraph s) >>= fun _ => modify note else modify note := by
  refine ⟨_, fun σ => ?_, rfl⟩
  split
  · exact ⟨σ.creations, rfl⟩
  · exact ⟨_, rfl⟩

theorem changing_closeSubgraph (b : BodyRef) (s : SubgraphId) (appended : Bool) :
    Changing (closeSubgraph b s appended) := by
  obtain ⟨note, hnote, hclose⟩ := closeSubgraph_eq b s appended
  have hnoted : Changing (modify note) := by
    refine changing_modify fun σ => ?_
    obtain ⟨creations, heq⟩ := hnote σ
    rw [heq]
    exact .single (.note creations)
  rw [hclose]
  cases appended with
  | true => exact changing_bind (changing_attach b _) fun _ => hnoted
  | false => exact hnoted

theorem changing_subgraph (b : BodyRef) (name : Datum) (appended : Bool)
    {build : SubgraphId → Build Unit} (h : ∀ s, Changing (build s)) :
    Changing (subgraph b name appended build) :=
  changing_bind (changing_openSubgraph b name) fun s =>
    changing_bind (h s) fun _ =>
      changing_bind (changing_closeSubgraph b s appended) fun _ => changing_pure _

end Build

/-! ### Whole runs -/

namespace Build

theorem changing_insertion (b : BodyRef) (attrs : Entries String Datum) (what : Insertion) :
    Changing (what.run b attrs) := by
  cases what with
  | node name port => exact changing_node b name port attrs
  | edge tail head => exact changing_edge b tail head attrs
  | defaults kind => exact changing_append b _ attrs

end Build

namespace Operation

open Build

theorem changing_run (op : Operation) : Changing op.run := by
  cases op with
  | newRoot name strict directed =>
    exact changing_bind (changing_newRoot name strict directed) fun _ => changing_pure _
  | newSubgraph name directed =>
    exact changing_bind (fun _ => changes_newSubgraph name (.inl ⟨directed, rfl⟩))
      fun _ => changing_pure _
  | newStatement clause given =>
    exact changing_bind (changing_newStatement clause given) fun _ => changing_pure _
  | newEdge tail head directed =>
    exact changing_bind (changing_newEdge tail head _) fun _ => changing_pure _
  | insert b what attrs =>
    exact changing_bind (changing_insertion b attrs what) fun _ => changing_pure _
  | subgraph b name appended =>
    exact changing_bind (changing_subgraph b name appended fun _ => changing_pure ())
      fun _ => changing_pure _
  | add b given => exact changing_add b given
  | set o attrs => exact changing_bind (changing_setAttrs o attrs) fun _ => changing_pure _
  | edit o call =>
    exact changing_bind (changing_editTable call.enters_perform o) fun _ => changing_pure _

end Operation

namespace Call

open Build

mutual

theorem changing_run : ∀ call : Call, Changing call.run
  | ask op => op.changing_run
  | graph name strict directed inner raised =>
    changing_bind (changing_newRoot name strict directed) fun _ =>
      changing_bind (changing_runAll inner) fun _ =>
        changing_bind (changing_raise raised) fun _ => changing_pure _
  | subgraph b name appended inner raised =>
    changing_bind
      (changing_subgraph b name appended fun _ =>
        changing_bind (changing_runAll inner) fun _ => changing_raise raised)
      fun _ => changing_pure _

theorem changing_runAll : ∀ calls : List Call, Changing (runAll calls)
  | [] => changing_pure ()
  | call :: rest =>
    changing_bind (changing_attempt (changing_run call)) fun _ => changing_runAll rest

end

end Call

namespace Store

/-- What holds at the start and through every change holds in every store that a run comes to. -/
theorem Reachable.induction {P : Store → Prop} {σ : Store} (h : σ.Reachable) (start : P empty)
    (change : ∀ {σ σ' : Store}, P σ → Change σ σ' → P σ') : P σ := by
  obtain ⟨calls, rfl⟩ := h
  have hs : ReflTransGen Change empty (empty.after calls) := Call.changing_runAll calls empty
  generalize empty.after calls = σ at hs
  induction hs with
  | refl => exact start
  | tail _ hc ih => exact change ih hc

@[simp] theorem after_nil (σ : Store) : σ.after [] = σ := rfl

theorem after_cons (σ : Store) (call : Call) (rest : List Call) :
    σ.after (call :: rest) = (call.run.after σ).after rest := by
  rw [after, Call.runAll, Build.after_bind, Build.run_attempt]
  rfl

theorem after_append (σ : Store) (calls more : List Call) :
    σ.after (calls ++ more) = (σ.after calls).after more := by
  induction calls generalizing σ with
  | nil => rfl
  | cons call calls ih => rw [List.cons_append, after_cons, after_cons, ih]

theorem after_ask (σ : Store) (op : Operation) : σ.after [.ask op] = op.run.after σ := by
  rw [after_cons, after_nil, Call.run]

theorem Reachable.after {σ : Store} (h : σ.Reachable) (calls : List Call) :
    (σ.after calls).Reachable := by
  obtain ⟨before, rfl⟩ := h
  exact ⟨before ++ calls, after_append empty before calls⟩

/-- The store that a callback finds, at its start and behind any calls of its own, is one that a
run comes to: the run in which the callback breaks off there. -/
theorem Reachable.within {σ : Store} (h : σ.Reachable) (b : BodyRef) (name : Datum)
    (inner : List Call) :
    ((Build.openSubgraph b name >>= fun _ => Call.runAll inner).after σ).Reachable := by
  have hb := h.after [.subgraph b name true inner (some (.structural .notStandalone))]
  rw [after_cons, after_nil, Call.run, Build.after_bind_of_still fun _ _ => rfl] at hb
  have he : (Build.subgraph b name true fun _ => do
      Call.runAll inner
      Build.raise (some (.structural .notStandalone))).after σ =
      (Build.openSubgraph b name >>= fun _ => Call.runAll inner).after σ := by
    simp only [Build.subgraph, Build.after_bind _ _ σ, bind_assoc]
    split
    · exact Build.after_bind_of_still (fun _ _ => rfl) _
    · rfl
  exact he ▸ hb

end Store

end DotGraph
