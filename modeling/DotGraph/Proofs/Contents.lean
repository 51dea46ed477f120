import DotGraph.Proofs.Change

/-! What a store holds after each kind of change, read off body by body and statement by
statement. -/

namespace DotGraph.Store

variable (σ : Store)

/-- What a statement of the store says. -/
def clause? (i : StatementId) : Option Clause :=
  (σ.statement? i).map Statement.clause

/-- The edge that a statement of the store is about. -/
def edge? (i : StatementId) : Option Edge :=
  (σ.clause? i).bind fun clause =>
    match clause with
    | .edge e => some e
    | _ => none

theorem clause?_of_edge? {i : StatementId} {e : Edge} (h : σ.edge? i = some e) :
    σ.clause? i = some (.edge e) := by
  obtain ⟨clause, hc, he⟩ := Option.bind_eq_some_iff.1 h
  cases clause with
  | edge e' =>
    cases he
    exact hc
  | node id => cases he
  | defaults kind standalone => cases he
  | noEdge given => cases he

/-- The node that a statement of the store is about. -/
def node? (i : StatementId) : Option NodeId :=
  (σ.clause? i).bind fun clause =>
    match clause with
    | .node id => some id
    | _ => none

theorem clause?_of_node? {i : StatementId} {id : NodeId} (h : σ.node? i = some id) :
    σ.clause? i = some (.node id) := by
  obtain ⟨clause, hc, he⟩ := Option.bind_eq_some_iff.1 h
  cases clause with
  | node id' =>
    cases he
    exact hc
  | edge e => cases he
  | defaults kind standalone => cases he
  | noEdge given => cases he

/-- What a statement says; a subgraph says nothing but what it lists. -/
def memberClause? (σ : Store) : Member → Option Clause
  | .subgraph _ => none
  | .statement i => σ.clause? i

theorem memberLinks_statement (i : StatementId) :
    σ.memberLinks (.statement i) = ((σ.clause? i).map Clause.links).getD [] := by
  simp [memberLinks, clause?, Function.comp_def]

@[simp] theorem memberLinks_subgraph (s : SubgraphId) : σ.memberLinks (.subgraph s) = [s] := rfl

/-! ### New things -/

@[simp] theorem statement?_pushRoot (g : Root) (i : StatementId) :
    (σ.pushRoot g).statement? i = σ.statement? i := rfl

@[simp] theorem subgraph?_pushRoot (g : Root) (s : SubgraphId) :
    (σ.pushRoot g).subgraph? s = σ.subgraph? s := rfl

theorem root?_pushRoot (g : Root) (r : RootId) :
    (σ.pushRoot g).root? r = if r.index = σ.roots.size then some g else σ.root? r := by
  simp only [root?, pushRoot, Array.getElem?_push]

theorem body?_pushRoot (g : Root) (b : BodyRef) :
    (σ.pushRoot g).body? b = if b = .root ⟨σ.roots.size⟩ then some g.body else σ.body? b := by
  cases b with
  | root r =>
    obtain ⟨n⟩ := r
    by_cases h : n = σ.roots.size <;> simp [body?, root?_pushRoot, h]
  | subgraph s => simp [body?]

@[simp] theorem statement?_pushSubgraph (g : Subgraph) (i : StatementId) :
    (σ.pushSubgraph g).statement? i = σ.statement? i := rfl

@[simp] theorem root?_pushSubgraph (g : Subgraph) (r : RootId) :
    (σ.pushSubgraph g).root? r = σ.root? r := rfl

theorem subgraph?_pushSubgraph (g : Subgraph) (s : SubgraphId) :
    (σ.pushSubgraph g).subgraph? s =
      if s.index = σ.subgraphs.size then some g else σ.subgraph? s := by
  simp only [subgraph?, pushSubgraph, Array.getElem?_push]

theorem body?_pushSubgraph (g : Subgraph) (b : BodyRef) :
    (σ.pushSubgraph g).body? b =
      if b = .subgraph ⟨σ.subgraphs.size⟩ then some g.body else σ.body? b := by
  cases b with
  | root r => simp [body?]
  | subgraph s =>
    obtain ⟨n⟩ := s
    by_cases h : n = σ.subgraphs.size <;> simp [body?, subgraph?_pushSubgraph, h]

@[simp] theorem root?_pushStatement (s : Statement) (r : RootId) :
    (σ.pushStatement s).root? r = σ.root? r := rfl

@[simp] theorem subgraph?_pushStatement (s : Statement) (g : SubgraphId) :
    (σ.pushStatement s).subgraph? g = σ.subgraph? g := rfl

@[simp] theorem body?_pushStatement (s : Statement) (b : BodyRef) :
    (σ.pushStatement s).body? b = σ.body? b := by
  cases b <;> rfl

theorem statement?_pushStatement (s : Statement) (i : StatementId) :
    (σ.pushStatement s).statement? i =
      if i.index = σ.statements.size then some s else σ.statement? i := by
  simp only [statement?, pushStatement, Array.getElem?_push]

/-! ### Written things -/

theorem root?_modifyBody (b : BodyRef) (f : Body → Body) (r : RootId) :
    (σ.modifyBody b f).root? r =
      (σ.root? r).map fun g => if b = .root r then { g with body := f g.body } else g := by
  cases b with
  | root r' =>
    obtain ⟨n⟩ := r
    obtain ⟨n'⟩ := r'
    by_cases h : n' = n <;> simp [root?, modifyBody, Array.getElem?_modify, h]
  | subgraph s => simp [root?, modifyBody]

theorem subgraph?_modifyBody (b : BodyRef) (f : Body → Body) (s : SubgraphId) :
    (σ.modifyBody b f).subgraph? s =
      (σ.subgraph? s).map fun g => if b = .subgraph s then { g with body := f g.body } else g := by
  cases b with
  | root r => simp [subgraph?, modifyBody]
  | subgraph s' =>
    obtain ⟨n⟩ := s
    obtain ⟨n'⟩ := s'
    by_cases h : n' = n <;> simp [subgraph?, modifyBody, Array.getElem?_modify, h]

theorem body?_modifyBody (b : BodyRef) (f : Body → Body) (b' : BodyRef) :
    (σ.modifyBody b f).body? b' =
      (σ.body? b').map fun body => if b = b' then f body else body := by
  cases b' with
  | root r =>
    simp only [body?, root?_modifyBody, Option.map_map]
    congr 1
    funext g
    by_cases h : b = .root r <;> simp [h]
  | subgraph s =>
    simp only [body?, subgraph?_modifyBody, Option.map_map]
    congr 1
    funext g
    by_cases h : b = .subgraph s <;> simp [h]

@[simp] theorem statement?_modifyBody (b : BodyRef) (f : Body → Body) (i : StatementId) :
    (σ.modifyBody b f).statement? i = σ.statement? i := by
  cases b <;> rfl

@[simp] theorem root?_modifyStatement (i : StatementId) (f : Statement → Statement) (r : RootId) :
    (σ.modifyStatement i f).root? r = σ.root? r := rfl

@[simp] theorem subgraph?_modifyStatement (i : StatementId) (f : Statement → Statement)
    (s : SubgraphId) : (σ.modifyStatement i f).subgraph? s = σ.subgraph? s := rfl

@[simp] theorem body?_modifyStatement (i : StatementId) (f : Statement → Statement)
    (b : BodyRef) : (σ.modifyStatement i f).body? b = σ.body? b := by
  cases b <;> rfl

theorem statement?_modifyStatement (i : StatementId) (f : Statement → Statement)
    (i' : StatementId) :
    (σ.modifyStatement i f).statement? i' =
      (σ.statement? i').map fun s => if i = i' then f s else s := by
  obtain ⟨n⟩ := i
  obtain ⟨n'⟩ := i'
  by_cases h : n = n' <;> simp [statement?, modifyStatement, Array.getElem?_modify, h]

/-! ### Tables -/

@[simp] theorem root?_pushTable (u : AttrTable) (r : RootId) :
    (σ.pushTable u).root? r = σ.root? r := rfl

@[simp] theorem subgraph?_pushTable (u : AttrTable) (s : SubgraphId) :
    (σ.pushTable u).subgraph? s = σ.subgraph? s := rfl

@[simp] theorem statement?_pushTable (u : AttrTable) (i : StatementId) :
    (σ.pushTable u).statement? i = σ.statement? i := rfl

@[simp] theorem body?_pushTable (u : AttrTable) (b : BodyRef) :
    (σ.pushTable u).body? b = σ.body? b := by
  cases b <;> rfl

@[simp] theorem root?_setTable (t : TableId) (u : AttrTable) (r : RootId) :
    (σ.setTable t u).root? r = σ.root? r := rfl

@[simp] theorem subgraph?_setTable (t : TableId) (u : AttrTable) (s : SubgraphId) :
    (σ.setTable t u).subgraph? s = σ.subgraph? s := rfl

@[simp] theorem statement?_setTable (t : TableId) (u : AttrTable) (i : StatementId) :
    (σ.setTable t u).statement? i = σ.statement? i := rfl

@[simp] theorem body?_setTable (t : TableId) (u : AttrTable) (b : BodyRef) :
    (σ.setTable t u).body? b = σ.body? b := by
  cases b <;> rfl

@[simp] theorem tableId?_setTable (t : TableId) (u : AttrTable) (o : Object) :
    (σ.setTable t u).tableId? o = σ.tableId? o := by
  cases o <;> rfl

theorem table?_pushTable (u : AttrTable) (t : TableId) :
    (σ.pushTable u).table? t = if t.index = σ.tables.size then some u else σ.table? t := by
  simp only [table?, pushTable, Array.getElem?_push]

theorem table?_setTable (t : TableId) (u : AttrTable) (t' : TableId) :
    (σ.setTable t u).table? t' = (σ.table? t').map fun v => if t = t' then u else v := by
  obtain ⟨n⟩ := t
  obtain ⟨n'⟩ := t'
  simp only [table?, setTable, Array.getElem?_setIfInBounds, TableId.mk.injEq]
  by_cases h : n = n'
  · subst h
    by_cases hlt : n < σ.tables.size <;> simp [hlt]
  · simp [h]

/-- What is there is where new tables will not be. -/
theorem ne_size_of_table? {σ : Store} {t : TableId} {u : AttrTable} (h : σ.table? t = some u) :
    t.index ≠ σ.tables.size :=
  Nat.ne_of_lt (Array.getElem?_eq_some_iff.1 h).1

theorem attrsAt_eq {σ : Store} {t : TableId} {u : AttrTable} (h : σ.table? t = some u) :
    σ.attrsAt t = u := by
  simp [attrsAt, h]

theorem attrs?_statement {σ : Store} {i : StatementId} {s : Statement}
    (hs : σ.statement? i = some s) : σ.attrs? (.statement i) = σ.table? s.table := by
  cases hu : σ.table? s.table <;> simp [attrs?, held?, tableId?, hs, hu]

theorem held?_makeStatement (clause : Clause) :
    (σ.makeStatement clause).held? (.statement ⟨σ.statements.size⟩) =
      some (⟨σ.tables.size⟩, Build.clauseAttrs clause) := by
  refine held?_eq_some_iff.2 ⟨?_, σ.table?_pushTable_new _⟩
  simp [tableId?, makeStatement, statement?_pushStatement, pushTable]

/-! ### Attached statements -/

theorem body?_setParent (m : Member) (b b' : BodyRef) :
    (σ.setParent m b).body? b' = σ.body? b' := by
  cases m with
  | statement i => simp [setParent]
  | subgraph s =>
    cases b' with
    | root r => rfl
    | subgraph s' =>
      simp only [setParent, body?, subgraph?, Array.getElem?_modify]
      by_cases h : s.index = s'.index <;> simp [h, Function.comp_def]

theorem body?_attach (b : BodyRef) (m : Member) (b' : BodyRef) :
    (σ.attach b m).body? b' =
      (σ.body? b').map fun body =>
        if b = b' then { body with members := body.members ++ [m] } else body := by
  simp only [attach, body?_modifyBody, body?_setParent]

theorem statement?_attach (b : BodyRef) (m : Member) (i : StatementId) :
    (σ.attach b m).statement? i =
      (σ.statement? i).map fun s =>
        if m = .statement i then { s with parent := some b } else s := by
  cases m with
  | statement i' => simp [attach, setParent, statement?_modifyStatement]
  | subgraph s =>
    simp only [attach, setParent, statement?_modifyBody, reduceCtorEq, if_false, Option.map_id']
    rfl

theorem root?_attach (b : BodyRef) (m : Member) (r : RootId) :
    (σ.attach b m).root? r =
      (σ.root? r).map fun g =>
        if b = .root r then { g with body := { g.body with members := g.body.members ++ [m] } }
        else g := by
  cases m <;> simp only [attach, root?_modifyBody] <;> rfl

/-! ### Members, operators and clauses -/

theorem members_eq_of_body? {σ : Store} {b : BodyRef} {body : Body} (h : σ.body? b = some body) :
    σ.members b = body.members := by
  simp [members, h]

@[simp] theorem clause?_pushTable (u : AttrTable) (i : StatementId) :
    (σ.pushTable u).clause? i = σ.clause? i := rfl

@[simp] theorem clause?_setTable (t : TableId) (u : AttrTable) (i : StatementId) :
    (σ.setTable t u).clause? i = σ.clause? i := rfl

@[simp] theorem clause?_attach (b : BodyRef) (m : Member) (i : StatementId) :
    (σ.attach b m).clause? i = σ.clause? i := by
  simp only [clause?, statement?_attach, Option.map_map]
  congr 1
  funext s
  simp only [Function.comp_apply]
  split <;> rfl

@[simp] theorem members_pushTable (u : AttrTable) (b : BodyRef) :
    (σ.pushTable u).members b = σ.members b := by
  simp [members]

@[simp] theorem members_setTable (t : TableId) (u : AttrTable) (b : BodyRef) :
    (σ.setTable t u).members b = σ.members b := by
  simp [members]

theorem members_attach {σ : Store} {b : BodyRef} {body : Body} (h : σ.body? b = some body)
    (m : Member) (b' : BodyRef) :
    (σ.attach b m).members b' = if b = b' then σ.members b ++ [m] else σ.members b' := by
  by_cases hb : b = b'
  · subst hb
    simp [members, body?_attach, h]
  · simp [members, body?_attach, hb]

theorem members_pushRoot {g : Root} (hg : g.body.members = []) (b : BodyRef) :
    (σ.pushRoot g).members b = σ.members b := by
  by_cases hb : b = .root ⟨σ.roots.size⟩
  · have hn : σ.body? b = none := by simp [hb, body?, root?]
    simp only [members, body?_pushRoot, if_pos hb, hn, Option.map_some, Option.getD_some, hg]
    rfl
  · simp [members, body?_pushRoot, hb]

theorem members_pushSubgraph {g : Subgraph} (hg : g.body.members = []) (b : BodyRef) :
    (σ.pushSubgraph g).members b = σ.members b := by
  by_cases hb : b = .subgraph ⟨σ.subgraphs.size⟩
  · have hn : σ.body? b = none := by simp [hb, body?, subgraph?]
    simp only [members, body?_pushSubgraph, if_pos hb, hn, Option.map_some, Option.getD_some, hg]
    rfl
  · simp [members, body?_pushSubgraph, hb]

end DotGraph.Store
