import DotGraph.Dot
import DotGraph.Proofs.Independence

/-!
Attributes set sooner or later.  Nothing but an edit of the same table depends on what a table
says.  So attributes may be set before or behind any run of calls that leaves their table alone, and
just as well by the call that appends a statement or on the statement that it returns.
-/

namespace DotGraph

open Store

variable {h : Object} {t : TableId} {v v' : AttrTable} {σ : Store}

/-! ### Courses of runs -/

/-- What is seen from where a step has come to, if it is not refused. -/
def Build.thereupon {α β : Type} (x : Build α) (look : Store → List β) (σ : Store) : List β :=
  match x.outcome σ with
  | .ok _ => look (x.after σ)
  | .error _ => []

/-- What a call of a run comes to, and the table that it is to edit, if it edits one. -/
structure Course where
  edited : Option TableId
  outcome : Except BuildError Object

namespace Call

def edited? (σ : Store) : Call → Option TableId
  | ask op => op.edited? σ
  | _ => none

mutual

/-- What the calls of a callback come to, if it is called. -/
def coursesWithin : Call → Store → List Course
  | ask _, _ => []
  | graph name strict directed inner _, σ =>
    (Build.newRoot name (.flag strict) (.ofDirected directed)).thereupon (courses inner) σ
  | subgraph b name _ inner _, σ => (Build.openSubgraph b name).thereupon (courses inner) σ

/-- What calls come to one after the other, each behind those of its callback. -/
def courses : List Call → Store → List Course
  | [], _ => []
  | call :: rest, σ =>
    call.coursesWithin σ ++ ⟨call.edited? σ, call.run.outcome σ⟩ :: courses rest (call.run.after σ)

end

/-- No call is to edit the table, through whatever holds it. -/
def Spare (t : TableId) (courses : List Course) : Prop :=
  ∀ c ∈ courses, c.edited ≠ some t

instance (t : TableId) (courses : List Course) : Decidable (Spare t courses) :=
  inferInstanceAs (Decidable (∀ c ∈ courses, c.edited ≠ some t))

end Call

/-! ### Runs that leave a table alone -/

theorem Operation.alike_run (op : Operation) (u : AttrTable) (hh : σ.HasTable t)
    (hop : op.edited? σ ≠ some t) : Build.Alike t u σ op.run op.run := by
  have hmap {α : Type} {x : Build α} (hx : Build.Alike t u σ x x) (f : α → Object) :
      Build.Alike t u σ (x >>= fun a => pure (f a)) (x >>= fun a => pure (f a)) :=
    hx.bind fun _ _ _ _ => Build.alike_pure _
  cases op with
  | newRoot name strict directed => exact hmap (Build.ignores_newRoot _ _ _ σ u hh) _
  | newSubgraph name directed => exact hmap (Build.ignores_newSubgraph _ _ σ u hh) _
  | newStatement clause given => exact hmap (Build.ignores_newStatement _ _ σ u hh) _
  | newEdge tail head directed => exact hmap (Build.ignores_newEdge _ _ _ σ u hh) _
  | insert b what attrs => exact hmap (Build.ignores_insertion b attrs what σ u hh) _
  | subgraph b name appended =>
    exact hmap (Build.alike_subgraph b name appended hh fun _ _ _ _ => Build.alike_pure ()) _
  | add b given => exact Build.ignores_add b given σ u hh
  | set o attrs => exact hmap (Build.alike_setAttrs hop attrs) _
  | edit o call => exact hmap (Build.alike_editTable call.enters_perform hop) _

namespace Build

variable {α β : Type} {x : Build α} {look : Store → List β}

theorem Yields.thereupon_eq {a : α} {σ' : Store} (hx : x.Yields σ a σ') :
    x.thereupon look σ = look σ' := by
  rw [thereupon, hx.outcome_eq, hx.after_eq]

theorem Fails.thereupon_eq {e : BuildError} {σ' : Store} (hx : x.Fails σ e σ') :
    x.thereupon look σ = [] := by
  rw [thereupon, hx.outcome_eq]

/-- What is seen behind a step that ignores a table is as little a matter of it, if what is looked
at is not. -/
theorem Ignores.thereupon {u : AttrTable} (hx : Ignores t x) (hh : σ.HasTable t)
    (hlook : ∀ a σ', x.Yields σ a σ' → σ'.HasTable t → look (σ'.setTable t u) = look σ') :
    x.thereupon look (σ.setTable t u) = x.thereupon look σ := by
  cases hx σ u hh with
  | yields left right kept =>
    rw [left.thereupon_eq, right.thereupon_eq]
    exact hlook _ _ left (by rwa [HasTable, kept])
  | fails left right kept kind => rw [left.thereupon_eq, right.thereupon_eq]

end Build

namespace Call

open Build

theorem spare_cons {call : Call} {rest : List Call} (hs : Spare t (courses (call :: rest) σ)) :
    Spare t (call.coursesWithin σ) ∧ call.edited? σ ≠ some t ∧
      Spare t (courses rest (call.run.after σ)) := by
  rw [courses] at hs
  refine ⟨fun c hc => hs c (List.mem_append_left _ hc), ?_, fun c hc => ?_⟩
  · exact hs _ (List.mem_append_right _ List.mem_cons_self)
  · exact hs c (List.mem_append_right _ (List.mem_cons_of_mem _ hc))

mutual

theorem alike_run : ∀ (call : Call) (σ : Store) (u : AttrTable), σ.HasTable t →
    Spare t (call.coursesWithin σ) → call.edited? σ ≠ some t → Alike t u σ call.run call.run
  | ask op, _, u, hh, _, hop => op.alike_run u hh hop
  | graph name strict directed inner raised, σ, u, hh, hs, _ => by
    refine (ignores_newRoot name _ _ σ u hh).bind fun r σ₁ hr hk => ?_
    rw [coursesWithin, hr.thereupon_eq] at hs
    refine (alike_runAll inner σ₁ u (by rwa [HasTable, hk]) hs).bind fun _ σ₂ _ hk' => ?_
    refine ((ignores_raise raised).bind fun _ => ignores_pure _) σ₂ u ?_
    rwa [HasTable, hk', hk]
  | subgraph b name appended inner raised, σ, u, hh, hs, _ => by
    refine (alike_subgraph b name appended hh fun s σ₁ hy hh₁ => ?_).bind
      fun _ _ _ _ => alike_pure _
    rw [coursesWithin, hy.thereupon_eq] at hs
    refine (alike_runAll inner σ₁ u hh₁ hs).bind fun _ σ₂ _ hk => ?_
    exact ignores_raise raised σ₂ u (by rwa [HasTable, hk])

theorem alike_runAll : ∀ (calls : List Call) (σ : Store) (u : AttrTable), σ.HasTable t →
    Spare t (courses calls σ) → Alike t u σ (runAll calls) (runAll calls)
  | [], _, _, _, _ => alike_pure ()
  | call :: rest, σ, u, hh, hs => by
    obtain ⟨hwithin, hedited, hrest⟩ := spare_cons hs
    refine (alike_run call σ u hh hwithin hedited).attempt.bind fun _ σ' hy hk => ?_
    obtain ⟨-, rfl⟩ := (show (attempt call.run).Yields σ () _ from run_attempt call.run σ).unique hy
    exact alike_runAll rest _ u (by rwa [HasTable, hk]) hrest

end

theorem edited?_setTable (call : Call) (σ : Store) (t : TableId) (u : AttrTable) :
    call.edited? (σ.setTable t u) = call.edited? σ := by
  cases call with
  | ask op => cases op <;> simp [edited?, Operation.edited?]
  | _ => rfl

mutual

theorem coursesWithin_setTable : ∀ (call : Call) (σ : Store) (u : AttrTable), σ.HasTable t →
    Spare t (call.coursesWithin σ) → call.coursesWithin (σ.setTable t u) = call.coursesWithin σ
  | ask _, _, _, _, _ => rfl
  | graph name strict directed inner _, σ, u, hh, hs => by
    refine (ignores_newRoot name _ _).thereupon hh fun r σ₁ hr hh₁ => ?_
    rw [coursesWithin, hr.thereupon_eq] at hs
    exact courses_setTable inner σ₁ u hh₁ hs
  | subgraph b name _ inner _, σ, u, hh, hs => by
    refine (ignores_openSubgraph b name).thereupon hh fun s σ₁ hy hh₁ => ?_
    rw [coursesWithin, hy.thereupon_eq] at hs
    exact courses_setTable inner σ₁ u hh₁ hs

theorem courses_setTable : ∀ (calls : List Call) (σ : Store) (u : AttrTable), σ.HasTable t →
    Spare t (courses calls σ) → courses calls (σ.setTable t u) = courses calls σ
  | [], _, _, _, _ => rfl
  | call :: rest, σ, u, hh, hs => by
    obtain ⟨hwithin, hedited, hrest⟩ := spare_cons hs
    have hrun := call.alike_run σ u hh hwithin hedited
    rw [courses, courses, coursesWithin_setTable call σ u hh hwithin, edited?_setTable,
      hrun.outcome, hrun.after,
      courses_setTable rest _ u (by rwa [HasTable, hrun.kept]) hrest]

end

theorem courses_append (σ : Store) (calls more : List Call) :
    courses (calls ++ more) σ = courses calls σ ++ courses more (σ.after calls) := by
  induction calls generalizing σ with
  | nil => rfl
  | cons call calls ih =>
    rw [List.cons_append, courses, courses, ih, after_cons, List.append_assoc, List.cons_append]

/-! ### Setting attributes later -/

theorem yields_set {attrs : Entries String Datum} (hh : σ.held? h = some (t, v))
    (hv : v.update attrs = .ok v') :
    (ask (.set h attrs)).run.Yields σ h (σ.setTable t v') :=
  (yields_setAttrs hh hv).bind (yields_pure h _)

theorem courses_set {attrs : Entries String Datum} (hh : σ.held? h = some (t, v))
    (hv : v.update attrs = .ok v') (rest : List Call) :
    courses (.ask (.set h attrs) :: rest) σ =
      ⟨some t, .ok h⟩ :: courses rest (σ.setTable t v') := by
  have hset := yields_set hh hv
  rw [courses, hset.outcome_eq, hset.after_eq, edited?, Operation.edited?,
    (held?_eq_some_iff.1 hh).1]
  rfl

theorem held?_setTable (hh : σ.held? h = some (t, v)) (u : AttrTable) :
    (σ.setTable t u).held? h = some (t, u) := by
  obtain ⟨ht, hv⟩ := held?_eq_some_iff.1 hh
  exact held?_eq_some_iff.2 ⟨by simpa using ht, by simp [table?_setTable, hv]⟩

/-- Attributes that can be set now can be set behind calls that spare their table, and to the same
end. -/
theorem set_behind {attrs : Entries String Datum} {calls : List Call}
    (hh : σ.held? h = some (t, v)) (hv : v.update attrs = .ok v')
    (hs : Spare t (courses calls σ)) :
    σ.after (calls ++ [.ask (.set h attrs)]) = (σ.setTable t v').after calls ∧
      ((σ.setTable t v').after calls).held? h = some (t, v') ∧
      courses (calls ++ [.ask (.set h attrs)]) σ =
        courses calls (σ.setTable t v') ++ [⟨some t, .ok h⟩] := by
  obtain ⟨ht, hu⟩ := held?_eq_some_iff.1 hh
  have hrun := alike_runAll calls σ v' ⟨v, hu⟩ hs
  have hafter : (σ.setTable t v').after calls = (σ.after calls).setTable t v' := hrun.after
  have hlater : (σ.after calls).held? h = some (t, v) :=
    held?_eq_some_iff.2 ⟨tableId?_of_changes (changing_runAll calls σ) ht, hrun.kept.trans hu⟩
  rw [courses_append, courses_set hlater hv, courses_setTable calls σ v' ⟨v, hu⟩ hs, after_append,
    after_cons, (yields_set hlater hv).after_eq, hafter]
  exact ⟨rfl, held?_setTable hlater v', rfl⟩

end Call

/-! ### Statements that are appended with attributes -/

namespace Insertion

open Build

/-- The table with which the statement starts. -/
def table : Insertion → AttrTable
  | node _ _ => .ofNode
  | edge _ _ => .ofEdge
  | defaults kind => .ofDefaults kind

/-- What the statement says, once it is known. -/
def clause (b : BodyRef) : Insertion → Build Clause
  | node name port => do return .node (← nodeIdOf name port)
  | edge tail head => do
    let tail ← vertexLike tail
    let head ← vertexLike head
    return .edge (← newEdge tail head (← operatorOf b))
  | defaults kind => return .defaults kind (.flag true)

theorem run_eq (b : BodyRef) (attrs : Entries String Datum) (what : Insertion) :
    what.run b attrs = what.clause b >>= fun clause => append b clause attrs := by
  cases what <;> simp [run, clause, Build.node, Build.edge, Build.defaults]

theorem clauseAttrs_of_clause {b : BodyRef} {what : Insertion} {c : Clause} {σ' : Store}
    (hc : (what.clause b).Yields σ c σ') : clauseAttrs c = what.table := by
  cases what with
  | node name port =>
    obtain ⟨id, σ₁, -, hc⟩ := yields_bind_iff.1 hc
    obtain ⟨rfl, -⟩ := (yields_pure _ _).unique hc
    rfl
  | edge tail head =>
    obtain ⟨tail, σ₁, -, hc⟩ := yields_bind_iff.1 hc
    obtain ⟨head, σ₂, -, hc⟩ := yields_bind_iff.1 hc
    obtain ⟨operator, σ₃, -, hc⟩ := yields_bind_iff.1 hc
    obtain ⟨e, σ₄, -, hc⟩ := yields_bind_iff.1 hc
    obtain ⟨rfl, -⟩ := (yields_pure _ _).unique hc
    rfl
  | defaults kind =>
    obtain ⟨rfl, -⟩ := (yields_pure _ _).unique hc
    rfl

end Insertion

namespace Build

/-- From a store, two steps are refused alike, or both make the same statement and leave the same
store but for its table, which says one thing behind the first and another behind the second. -/
inductive AlikeBut (v v' : AttrTable) (σ : Store) (x y : Build StatementId) : Prop
  | yields {i : StatementId} {t : TableId} {σ' : Store} (left : x.Yields σ i σ')
    (right : y.Yields σ i (σ'.setTable t v')) (held : σ'.held? (.statement i) = some (t, v))
  | fails {e e' : BuildError} {σ' σ'' : Store} (left : x.Fails σ e σ') (right : y.Fails σ e' σ'')
    (kind : e'.kind = e.kind)

theorem AlikeBut.behind {α : Type} {z : Build α} {f g : α → Build StatementId}
    (hfg : ∀ a σ', z.Yields σ a σ' → AlikeBut v v' σ' (f a) (g a)) :
    AlikeBut v v' σ (z >>= f) (z >>= g) := by
  rcases hz : z.run.run σ with ⟨e | a, σ'⟩
  · exact .fails (fails_bind_iff.2 (.inl hz)) (fails_bind_iff.2 (.inl hz)) rfl
  · have hyields : z.Yields σ a σ' := hz
    cases hfg a σ' hz with
    | yields left right held => exact .yields (hyields.bind left) (hyields.bind right) held
    | fails left right kind =>
      exact .fails (fails_bind_iff.2 (.inr ⟨a, σ', hz, left⟩))
        (fails_bind_iff.2 (.inr ⟨a, σ', hz, right⟩)) kind

theorem run_append {attrs : Entries String Datum} {clause : Clause}
    (hv : (clauseAttrs clause).update attrs = .ok v') (b : BodyRef) (σ : Store) :
    (append b clause attrs).run.run σ =
      (attach b (.statement ⟨σ.statements.size⟩) >>= fun _ =>
        pure (⟨σ.statements.size⟩ : StatementId)).run.run
        ((σ.makeStatement clause).setTable ⟨σ.tables.size⟩ v') := by
  rw [append, (yields_newStatement clause σ).run_eq,
    (yields_setAttrs (σ.held?_makeStatement clause) hv).run_eq]

/-- Whether a new statement is appended is no matter of its attributes, if it can take them. -/
theorem alikeBut_append {attrs : Entries String Datum} {clause : Clause}
    (hv : (clauseAttrs clause).update attrs = .ok v') (b : BodyRef) (σ : Store) :
    AlikeBut (clauseAttrs clause) v' σ (append b clause []) (append b clause attrs) := by
  have hnew := σ.held?_makeStatement clause
  obtain ⟨ht, hu⟩ := held?_eq_some_iff.1 hnew
  have hwith := run_append hv b σ
  have hwithout := run_append (AttrTable.update_nil (clauseAttrs clause)) b σ
  rw [setTable_self hu] at hwithout
  have halike := (ignores_attach b (.statement ⟨σ.statements.size⟩)).bind
    (fun _ => ignores_pure (⟨σ.statements.size⟩ : StatementId)) _ v' ⟨_, hu⟩
  cases halike with
  | fails left right kept kind => exact .fails (hwithout.trans left) (hwith.trans right) kind
  | @yields i σ' left right kept =>
    obtain ⟨_, σ₁, hattach, hi⟩ := yields_bind_iff.1 left
    obtain ⟨rfl, rfl⟩ := (yields_pure _ _).unique hi
    have ht' : σ'.tableId? (.statement ⟨σ.statements.size⟩) = some ⟨σ.tables.size⟩ := by
      rw [← hattach.after_eq]
      exact tableId?_of_changes (changing_attach b _ _) ht
    exact .yields (hwithout.trans left) (hwith.trans right)
      (held?_eq_some_iff.2 ⟨ht', kept.trans hu⟩)

end Build

theorem Insertion.alikeBut_run {what : Insertion} {attrs : Entries String Datum}
    (hv : what.table.update attrs = .ok v') (b : BodyRef) (σ : Store) :
    Build.AlikeBut what.table v' σ (what.run b []) (what.run b attrs) := by
  rw [run_eq, run_eq]
  refine Build.AlikeBut.behind fun c σ' hc => ?_
  rw [← clauseAttrs_of_clause hc] at hv ⊢
  exact Build.alikeBut_append hv b σ'

/-- A call for a statement is refused alike with attributes that its table can take, or makes the same
statement and leaves the same store but for them. -/
theorem Call.insert_cases {what : Insertion} {attrs : Entries String Datum}
    (hv : what.table.update attrs = .ok v') (b : BodyRef) (σ : Store) :
    (∃ i t σ', (ask (.insert b what [])).run.Yields σ (.statement i) σ' ∧
      (ask (.insert b what attrs)).run.Yields σ (.statement i) (σ'.setTable t v') ∧
      σ'.held? (.statement i) = some (t, what.table)) ∨
    ∃ e e' σ' σ'', (ask (.insert b what [])).run.Fails σ e σ' ∧
      (ask (.insert b what attrs)).run.Fails σ e' σ'' ∧ e'.kind = e.kind := by
  cases Insertion.alikeBut_run hv b σ with
  | @yields i t σ' left right held =>
    exact .inl ⟨i, t, σ', left.bind (Build.yields_pure _ _), right.bind (Build.yields_pure _ _),
      held⟩
  | @fails e e' σ' σ'' left right kind =>
    exact .inr ⟨e, e', σ', σ'', Build.fails_bind_iff.2 (.inl left),
      Build.fails_bind_iff.2 (.inl right), kind⟩

/-! ### The order of setting -/

/-- Setting attributes commutes with all that leaves their table alone.  From any store, attributes
that the table of a body or statement can take are set before a run of calls or behind it, and
either way every call comes to the same, those of callbacks included, and so does the store, and
with it the text of every root graph.  A node, an edge or defaults appended with attributes are
refused if they are without them; and if not, whatever is asked for next, it is the same to set the
attributes in the end, on the statement that was returned. -/
theorem Call.setting_commutes :
    (∀ (σ : Store) (h : Object) (t : TableId) (v v' : AttrTable) (attrs : Entries String Datum)
        (calls : List Call),
      σ.held? h = some (t, v) → v.update attrs = .ok v' →
        Spare t (courses calls σ) →
          σ.after (ask (.set h attrs) :: calls) = σ.after (calls ++ [ask (.set h attrs)]) ∧
            (σ.after (calls ++ [ask (.set h attrs)])).held? h = some (t, v') ∧
            (∀ r c, (σ.after (ask (.set h attrs) :: calls)).dot? r c =
              (σ.after (calls ++ [ask (.set h attrs)])).dot? r c) ∧
            courses (ask (.set h attrs) :: calls) σ = ⟨some t, .ok h⟩ :: courses calls σ ∧
            courses (calls ++ [ask (.set h attrs)]) σ = courses calls σ ++ [⟨some t, .ok h⟩]) ∧
    ∀ (σ : Store) (b : BodyRef) (what : Insertion) (v' : AttrTable) (attrs : Entries String Datum),
      what.table.update attrs = .ok v' →
        (ask (.insert b what attrs)).run.outcome σ = (ask (.insert b what [])).run.outcome σ ∧
          ∀ i, (ask (.insert b what [])).run.outcome σ = .ok (.statement i) →
            ∃ t, (σ.after [ask (.insert b what [])]).held? (.statement i) = some (t, what.table) ∧
              ∀ calls, Spare t (courses calls (σ.after [ask (.insert b what [])])) →
                  σ.after (ask (.insert b what attrs) :: calls) =
                      σ.after (ask (.insert b what []) :: calls ++
                        [ask (.set (.statement i) attrs)]) ∧
                    (σ.after (ask (.insert b what attrs) :: calls)).held? (.statement i) =
                      some (t, v') ∧
                    (∀ r c, (σ.after (ask (.insert b what attrs) :: calls)).dot? r c =
                      (σ.after (ask (.insert b what []) :: calls ++
                        [ask (.set (.statement i) attrs)])).dot? r c) ∧
                    courses (ask (.insert b what []) :: calls ++
                        [ask (.set (.statement i) attrs)]) σ =
                      courses (ask (.insert b what attrs) :: calls) σ ++
                        [⟨some t, .ok (.statement i)⟩] := by
  constructor
  · intro σ h t v v' attrs calls hh hv hs
    obtain ⟨hafter, hheld, hlast⟩ := set_behind hh hv hs
    have hu : σ.HasTable t := ⟨v, (held?_eq_some_iff.1 hh).2⟩
    have hset := (yields_set hh hv).after_eq
    have hsame := courses_setTable calls σ v' hu hs
    have hstore : σ.after (ask (.set h attrs) :: calls) =
        σ.after (calls ++ [ask (.set h attrs)]) := by
      rw [hafter, after_cons, hset]
    refine ⟨hstore, hafter ▸ hheld, fun r c => by rw [hstore], ?_, ?_⟩
    · rw [courses_set hh hv, hsame]
    · rw [hlast, hsame]
  · intro σ b what v' attrs hv
    rcases insert_cases hv b σ with
      ⟨i, t, σ', hwithout, hwith, held⟩ | ⟨e, e', σ', σ'', hwithout, hwith, hkind⟩
    · have hout := hwithout.outcome_eq
      refine ⟨hwith.outcome_eq.trans hout.symm, fun i' hi => ?_⟩
      cases hout.symm.trans hi
      have hbare : σ.after [ask (.insert b what [])] = σ' := by
        rw [after_cons, after_nil, hwithout.after_eq]
      rw [hbare]
      refine ⟨t, held, fun calls hs => ?_⟩
      obtain ⟨hafter, hheld, hlast⟩ := set_behind held hv hs
      have hset : σ.after (ask (.insert b what attrs) :: calls) =
          (σ'.setTable t v').after calls := by
        rw [after_cons, hwith.after_eq]
      have hstore : σ.after (ask (.insert b what attrs) :: calls) =
          σ.after (ask (.insert b what []) :: calls ++ [ask (.set (.statement i) attrs)]) := by
        rw [hset, List.cons_append, after_cons, hwithout.after_eq, hafter]
      refine ⟨hstore, hset ▸ hheld, fun r c => by rw [hstore], ?_⟩
      rw [List.cons_append, courses, courses, hout, hwith.outcome_eq, hwithout.after_eq,
        hwith.after_eq, hlast]
      rfl
    · have hout := hwithout.outcome_eq
      refine ⟨by rw [hout, hwith.outcome_eq, hkind], fun i hi => ?_⟩
      cases hout.symm.trans hi

/-- A run that shares the table of a node, shows it in a refusal, and asks for a node in a
callback. -/
def Call.sharingRun : List Call :=
  [.ask (.newStatement (.node ⟨⟨"twin", by decide⟩, none⟩) (some (.statement ⟨0⟩))),
    .ask (.insert (.root ⟨0⟩) (.edge (.object (.statement ⟨0⟩)) (.datum (.text "b"))) []),
    .subgraph (.root ⟨0⟩) .absent true
      [.ask (.insert (.subgraph ⟨0⟩) (.node (.text "c") .absent) [])] none]

/-- The colour of a node can be set before or behind such a run.  An edge can get its label in the
end, behind an edit of that table. -/
theorem Call.setting_commutes_sharedTable :
    let σ := empty.after
      [.ask (.newRoot .absent false true),
        .ask (.insert (.root ⟨0⟩) (.node (.text "a") .absent) [])]
    let red := ask (.set (.statement ⟨0⟩) [("color", .text "red")])
    let edge (attrs : Entries String Datum) :=
      ask (.insert (.root ⟨0⟩) (.edge (.datum (.text "a")) (.datum (.text "b"))) attrs)
    σ.after (red :: sharingRun) = σ.after (sharingRun ++ [red]) ∧
      (σ.after [edge [("label", .text "ab")], red]).dot? ⟨0⟩ .default =
        some "digraph \x7b\n  a[color=\"red\"]\n  a -> b[label=\"ab\"]\n\x7d\n" ∧
      σ.after [edge [("label", .text "ab")], red] =
        σ.after [edge [], red, ask (.set (.statement ⟨1⟩) [("label", .text "ab")])] := by
  intro σ red edge
  have hheld : σ.held? (.statement ⟨0⟩) = some (⟨1⟩, .ofNode) := rfl
  have hrun := (setting_commutes.1 σ (.statement ⟨0⟩) ⟨1⟩ .ofNode _ [("color", .text "red")]
    sharingRun hheld rfl (by decide +kernel)).1
  refine ⟨hrun, by decide +kernel, ?_⟩
  obtain ⟨t, ht, hlater⟩ := (setting_commutes.2 σ (.root ⟨0⟩)
    (.edge (.datum (.text "a")) (.datum (.text "b"))) _ [("label", .text "ab")] rfl).2 ⟨1⟩ rfl
  obtain rfl : t = ⟨2⟩ := Option.some.inj ((held?_eq_some_iff.1 ht).1.symm.trans rfl)
  exact (hlater [red] (by decide +kernel)).1

end DotGraph
