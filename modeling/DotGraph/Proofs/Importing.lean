import DotGraph.Network.Export
import DotGraph.Network.Import
import DotGraph.Proofs.Outcomes
import DotGraph.Proofs.Tables
import DotGraph.Proofs.Unfolding

/-!
The graph of a network.  Its outline holds an item for each node and behind those an item for each
edge, in the order of the network's listing.
-/

namespace DotGraph

namespace Build

variable {α : Type}

theorem yields_forM {step : α → Build Unit} {R : α → Item → Prop} {P : List Item → Store → Prop}
    (hstep : ∀ a x items σ, R a x → P items σ →
      ∃ σ', (step a).Yields σ () σ' ∧ P (items ++ [x]) σ')
    {as : List α} {xs items : List Item} {σ : Store} (hxs : List.Forall₂ R as xs)
    (h : P items σ) : ∃ σ', (as.forM step).Yields σ () σ' ∧ P (items ++ xs) σ' := by
  induction hxs generalizing items σ with
  | nil => exact ⟨σ, yields_pure () σ, by simpa using h⟩
  | cons hx _ ih =>
    obtain ⟨σ₁, hrun, h₁⟩ := hstep _ _ items σ hx h
    obtain ⟨σ', hrest, h'⟩ := ih h₁
    exact ⟨σ', hrun.bind hrest, by simpa using h'⟩

end Build

namespace Store

variable {σ : Store} {r : RootId} {header : Header} {strict : Datum} {items : List Item}

/-- A statement of the store that is written as this item, with no subgraph in it. -/
def Shows (σ : Store) (m : Member) (x : Item) : Prop :=
  ∃ i s u, m = .statement i ∧ σ.statement? i = some s ∧ σ.table? s.table = some u ∧
    clauseWith? (fun _ => none) u s.clause = some x

/-- A root graph whose statements are written as these items, none with a subgraph in it. -/
def Writes (σ : Store) (r : RootId) (header : Header) (strict : Datum) (items : List Item) : Prop :=
  ∃ g u, σ.root? r = some g ∧ g.strict = strict ∧ σ.table? g.body.table = some u ∧
    header = ⟨.root r, g.body.name, g.body.operator, u⟩ ∧
    List.Forall₂ σ.Shows g.body.members items

theorem clauseWith?_of_none {inner : SubgraphId → Option Outline} {u : AttrTable}
    {clause : Clause} {x : Item} (h : clauseWith? (fun _ => none) u clause = some x) :
    clauseWith? inner u clause = some x := by
  cases clause with
  | edge e =>
    obtain ⟨serial, tail, head, operator⟩ := e
    cases tail with
    | subgraph s => cases h
    | node id =>
      cases head with
      | subgraph s => cases h
      | node id' => exact h
  | node id => exact h
  | defaults kind standalone => exact h
  | noEdge given => exact h

theorem Shows.itemWith? {m : Member} {x : Item} (h : σ.Shows m x)
    (inner : SubgraphId → Option Outline) : σ.itemWith? inner m = some x := by
  obtain ⟨i, s, u, rfl, hs, hu, hx⟩ := h
  simp only [Store.itemWith?, hs, attrsAt_eq hu, Option.bind_eq_bind, Option.bind_some]
  exact clauseWith?_of_none hx

theorem map_itemWith?_of_shows {ms : List Member} (h : List.Forall₂ σ.Shows ms items)
    (inner : SubgraphId → Option Outline) : ms.map (σ.itemWith? inner) = items.map some := by
  induction h with
  | nil => rfl
  | cons hx _ ih => rw [List.map_cons, List.map_cons, hx.itemWith? inner, ih]

theorem Writes.outline? (h : σ.Writes r header strict items) :
    σ.outline? (.root r) = some ⟨header, items⟩ := by
  obtain ⟨g, u, hg, rfl, hu, rfl, hitems⟩ := h
  have hbody : σ.body? (.root r) = some g.body := by simp [body?, hg]
  have hmap (inner : SubgraphId → Option Outline) :
      g.body.members.mapM (σ.itemWith? inner) = some items :=
    mapM_eq_some_iff.2 (map_itemWith?_of_shows hitems inner)
  show σ.bodyWith? (fun s => σ.outlineTo? σ.subgraphs.size (.subgraph s)) (.root r) = _
  simp [bodyWith?, hbody, hmap, headerOf, attrsAt_eq hu]

/-! ### Appending a statement and setting its attributes -/

/-- The store in which a new statement has its attributes and is not appended yet. -/
def withLooseStatement (σ : Store) (clause : Clause) (u : AttrTable) : Store :=
  (σ.makeStatement clause).setTable ⟨σ.tables.size⟩ u

/-- The store behind a new statement that is appended with these attributes. -/
def withNewStatement (σ : Store) (b : BodyRef) (clause : Clause) (u : AttrTable) : Store :=
  (σ.withLooseStatement clause u).attach b (.statement ⟨σ.statements.size⟩)

/-- The store behind a new statement whose attributes are set after it is appended. -/
def withStatement (σ : Store) (r : RootId) (clause : Clause) (u : AttrTable) : Store :=
  (σ.withNewStatement (.root r) clause (Build.clauseAttrs clause)).setTable ⟨σ.tables.size⟩ u

variable {b : BodyRef} {operator : EdgeOperator} {clause : Clause} {u : AttrTable}

theorem table?_withLooseStatement (t : TableId) :
    (σ.withLooseStatement clause u).table? t =
      if t.index = σ.tables.size then some u else σ.table? t := by
  obtain ⟨n⟩ := t
  have hmake : (σ.makeStatement clause).table? ⟨n⟩ =
      (σ.pushTable (Build.clauseAttrs clause)).table? ⟨n⟩ := rfl
  rw [withLooseStatement, table?_setTable, hmake, table?_pushTable]
  by_cases hn : n = σ.tables.size
  · simp [hn]
  · have hne : ¬ σ.tables.size = n := fun h => hn h.symm
    simp [hn, hne]

theorem statement?_withLooseStatement (i : StatementId) :
    (σ.withLooseStatement clause u).statement? i =
      if i.index = σ.statements.size then some ⟨clause, ⟨σ.tables.size⟩, none⟩
      else σ.statement? i :=
  statement?_pushStatement _ _ i

theorem clause?_withLooseStatement :
    (σ.withLooseStatement clause u).clause? ⟨σ.statements.size⟩ = some clause := by
  simp [clause?, statement?_withLooseStatement]

theorem HasOperator.withLooseStatement (h : σ.HasOperator b operator) (clause : Clause)
    (u : AttrTable) : (σ.withLooseStatement clause u).HasOperator b operator := by
  cases b <;> exact h

/-- A new statement that suits a body may be appended to it, if it links to nothing or if the body
is a root graph. -/
theorem checkMember_withLooseStatement (hb : σ.HasOperator b operator)
    (hs : σ.ClauseSuits operator clause) (hback : clause.links = [] ∨ ∃ r, b = .root r) :
    (σ.withLooseStatement clause u).checkMember b (.statement ⟨σ.statements.size⟩) = .ok () := by
  refine (checkMember_ok_iff _).2 ⟨?_, ⟨operator, hb.withLooseStatement clause u, clause,
    clause?_withLooseStatement, ?_⟩, ?_⟩
  · simp [parent?, statement?_withLooseStatement]
  · cases clause with
    | node id => trivial
    | edge e => exact ⟨hs.1, fun s hm => HasOperator.withLooseStatement (hs.2 s hm) _ u⟩
    | defaults kind standalone => exact hs
    | noEdge given => exact hs
  · rw [memberLinks_statement, clause?_withLooseStatement]
    rcases hback with hl | ⟨r, rfl⟩
    · simp [hl]
    · exact fun s _ => renders_root _ s r

theorem held?_withLooseStatement :
    (σ.withLooseStatement clause u).held? (.statement ⟨σ.statements.size⟩) =
      some (⟨σ.tables.size⟩, u) :=
  held?_eq_some_iff.2 ⟨by simp [tableId?, statement?_withLooseStatement],
    by simp [table?_withLooseStatement]⟩

theorem held?_withNewStatement :
    (σ.withNewStatement b clause u).held? (.statement ⟨σ.statements.size⟩) =
      some (⟨σ.tables.size⟩, u) := by
  rw [withNewStatement, held?_attach, held?_withLooseStatement]

theorem yields_append (hb : σ.HasOperator b operator) (clause : Clause)
    (hs : σ.ClauseSuits operator clause) (hback : clause.links = [] ∨ ∃ r, b = .root r)
    {attrs : Entries String Datum} (hu : (Build.clauseAttrs clause).update attrs = .ok u) :
    (Build.append b clause attrs).Yields σ ⟨σ.statements.size⟩
      (σ.withNewStatement b clause u) := by
  refine (Build.yields_newStatement clause σ).bind ?_
  refine (Build.yields_setAttrs (held?_makeStatement σ clause) hu).bind ?_
  have hattach := Build.yields_attach (checkMember_withLooseStatement (u := u) hb hs hback)
  exact hattach.bind (Build.yields_pure _ _)

theorem root?_withStatement (clause : Clause) (u : AttrTable) :
    (σ.withStatement r clause u).root? r =
      (σ.root? r).map fun g =>
        { g with body := { g.body with
            members := g.body.members ++ [.statement ⟨σ.statements.size⟩] } } := by
  rw [withStatement, root?_setTable, withNewStatement, root?_attach]
  simp only [if_pos]
  rfl

theorem table?_withStatement (t : TableId) :
    (σ.withStatement r clause u).table? t =
      if t.index = σ.tables.size then some u else σ.table? t := by
  obtain ⟨n⟩ := t
  rw [withStatement, table?_setTable, withNewStatement, table?_attach, table?_withLooseStatement]
  by_cases hn : n = σ.tables.size
  · simp [hn]
  · have hne : ¬ σ.tables.size = n := fun h => hn h.symm
    simp [hn, hne]

theorem statement?_withStatement (i : StatementId) :
    (σ.withStatement r clause u).statement? i =
      if i.index = σ.statements.size then some ⟨clause, ⟨σ.tables.size⟩, some (.root r)⟩
      else σ.statement? i := by
  obtain ⟨n⟩ := i
  rw [withStatement, statement?_setTable, withNewStatement, statement?_attach,
    statement?_withLooseStatement]
  by_cases hn : n = σ.statements.size
  · simp [hn]
  · have hne : ¬ σ.statements.size = n := fun h => hn h.symm
    simp [hn, hne]

theorem Shows.withStatement {m : Member} {x : Item} (h : σ.Shows m x) (r : RootId)
    (clause : Clause) (u : AttrTable) : (σ.withStatement r clause u).Shows m x := by
  obtain ⟨i, s, v, rfl, hs, hv, hx⟩ := h
  have hi : i.index ≠ σ.statements.size := Nat.ne_of_lt (Array.getElem?_eq_some_iff.1 hs).1
  exact ⟨i, s, v, rfl, by rw [statement?_withStatement, if_neg hi, hs],
    by rw [table?_withStatement, if_neg (ne_size_of_table? hv), hv], hx⟩

theorem Writes.withStatement (h : σ.Writes r header strict items) (clause : Clause)
    {u : AttrTable} {x : Item} (hx : clauseWith? (fun _ => none) u clause = some x) :
    (σ.withStatement r clause u).Writes r header strict (items ++ [x]) := by
  obtain ⟨g, v, hg, rfl, hv, rfl, hitems⟩ := h
  let g' : Root := { g with body := { g.body with
    members := g.body.members ++ [.statement ⟨σ.statements.size⟩] } }
  have hg' : (σ.withStatement r clause u).root? r = some g' := by
    rw [root?_withStatement, hg]
    rfl
  have hv' : (σ.withStatement r clause u).table? g.body.table = some v := by
    rw [table?_withStatement, if_neg (ne_size_of_table? hv), hv]
  have hnew : (σ.withStatement r clause u).Shows (.statement ⟨σ.statements.size⟩) x :=
    ⟨_, ⟨clause, ⟨σ.tables.size⟩, some (.root r)⟩, u, rfl, by simp [statement?_withStatement],
      by simp [table?_withStatement], hx⟩
  have hold := hitems.imp fun _ _ hm => Shows.withStatement hm r clause u
  exact ⟨g', v, hg', rfl, hv', rfl, List.rel_append hold (.cons hnew .nil)⟩

/-! ### What is written -/

theorem Writes.hasOperator (h : σ.Writes r header strict items) :
    σ.HasOperator (.root r) header.operator := by
  obtain ⟨g, v, hg, -, -, rfl, -⟩ := h
  simp [HasOperator, body?, hg]

theorem Writes.withEdgeCount (h : σ.Writes r header strict items) (count : Nat) :
    { σ with edgeCount := count }.Writes r header strict items := h

theorem writes_makeRoot (σ : Store) (name : Option Identifier) (operator : EdgeOperator)
    (strict : Datum) :
    (σ.makeRoot name operator strict).Writes ⟨σ.roots.size⟩
      ⟨.root ⟨σ.roots.size⟩, name, operator, .ofRoot⟩ strict [] :=
  ⟨⟨⟨name, operator, ⟨σ.tables.size⟩, []⟩, strict⟩, .ofRoot,
    by simp [makeRoot, root?_pushRoot, pushTable], rfl, σ.table?_pushTable_new _, rfl, .nil⟩

theorem Writes.setTable (h : σ.Writes r header strict []) :
    ∃ t, σ.held? (.root r) = some (t, header.attrs) ∧
      ∀ u, (σ.setTable t u).Writes r { header with attrs := u } strict [] := by
  obtain ⟨g, v, hg, rfl, hv, rfl, hitems⟩ := h
  refine ⟨g.body.table, held?_eq_some_iff.2 ⟨by simp [tableId?, hg], hv⟩, fun u => ?_⟩
  have hnil : g.body.members = [] := List.forall₂_nil_right_iff.1 hitems
  exact ⟨g, u, hg, rfl, by simp [table?_setTable, hv], rfl, hnil ▸ .nil⟩

end Store

namespace Network

variable {σ : Store} {r : RootId} {header : Header} {strict : Datum} {items : List Item}

/-- The statement that is written for a node: it has the node's text for its name. -/
def NodeWritten (node : Key × NetData) (x : Item) : Prop :=
  ∃ (id : Identifier) (t : AttrTable), node.1.name = id.text ∧
    AttrTable.ofNode.update (declared Schema.node node.2) = .ok t ∧ x = .node ⟨id, none⟩ t

/-- The statement that is written for an edge: it joins nodes with the texts of its ends. -/
def EdgeWritten (operator : EdgeOperator) (e : NetEdge) (x : Item) : Prop :=
  ∃ (u v : Identifier) (t : AttrTable), e.tail.name = u.text ∧ e.head.name = v.text ∧
    AttrTable.ofEdge.update (declared Schema.edge e.data) = .ok t ∧
    x = .edge (.node ⟨u, none⟩) (.node ⟨v, none⟩) operator t

/-- The statement that is written for a node that is a text. -/
def NodeItem (node : Key × NetData) (x : Item) : Prop :=
  ∃ id t, node.1 = Identifier.key id ∧
    AttrTable.ofNode.update (declared Schema.node node.2) = .ok t ∧ x = .node ⟨id, none⟩ t

/-- The statement that is written for an edge between texts. -/
def EdgeItem (operator : EdgeOperator) (e : NetEdge) (x : Item) : Prop :=
  ∃ u v t, e.tail = Identifier.key u ∧ e.head = Identifier.key v ∧
    AttrTable.ofEdge.update (declared Schema.edge e.data) = .ok t ∧
    x = .edge (.node ⟨u, none⟩) (.node ⟨v, none⟩) operator t

theorem NodeItem.written {node : Key × NetData} {x : Item} (h : NodeItem node x) :
    NodeWritten node x := by
  obtain ⟨id, t, hid, ht, hx⟩ := h
  exact ⟨id, t, by rw [hid]; rfl, ht, hx⟩

theorem EdgeItem.written {operator : EdgeOperator} {e : NetEdge} {x : Item}
    (h : EdgeItem operator e x) : EdgeWritten operator e x := by
  obtain ⟨u, v, t, hu, hv, ht, hx⟩ := h
  exact ⟨u, v, t, by rw [hu]; rfl, by rw [hv]; rfl, ht, hx⟩

theorem importNode_eq {k : Key} {id : Identifier} (hid : k.name = id.text) (data : NetData)
    {operator : EdgeOperator} (hr : σ.HasOperator (.root r) operator) :
    (importNode r k data).run.run σ =
      (Build.setAttrs (.statement ⟨σ.statements.size⟩) (declared Schema.node data)).run.run
        (σ.withNewStatement (.root r) (.node ⟨id, none⟩) .ofNode) := by
  have hnode : (Build.node (.root r) (.text k.name) .absent []).Yields σ ⟨σ.statements.size⟩
      (σ.withNewStatement (.root r) (.node ⟨id, none⟩) .ofNode) := by
    rw [hid]
    exact (Build.yields_nodeIdOf id σ).bind
      (Store.yields_append hr (.node ⟨id, none⟩) trivial (.inl rfl) rfl)
  exact hnode.run_eq _

theorem importEdge_eq {e : NetEdge} {u v : Identifier} (hu : e.tail.name = u.text)
    (hv : e.head.name = v.text) {operator : EdgeOperator}
    (hr : σ.HasOperator (.root r) operator) :
    let edge : Edge := ⟨σ.edgeCount, .node ⟨u, none⟩, .node ⟨v, none⟩, operator⟩
    (importEdge r e).run.run σ =
      (Build.setAttrs (.statement ⟨σ.statements.size⟩) (declared Schema.edge e.data)).run.run
        ({ σ with edgeCount := σ.edgeCount + 1 }.withNewStatement (.root r) (.edge edge)
          .ofEdge) := by
  intro edge
  let σ₁ : Store := { σ with edgeCount := σ.edgeCount + 1 }
  have hends : ∀ s ∈ edge.tail.links ++ edge.head.links, σ.HasOperator (.subgraph s) operator :=
    fun s hs => by cases hs
  have hr₁ : σ₁.HasOperator (.root r) operator := hr
  have hedge : (Build.edge (.root r) (.datum (.text e.tail.name)) (.datum (.text e.head.name))
      []).Yields σ ⟨σ.statements.size⟩ (σ₁.withNewStatement (.root r) (.edge edge) .ofEdge) := by
    rw [hu, hv]
    refine (Build.yields_vertexLike u σ).bind ((Build.yields_vertexLike v σ).bind ?_)
    refine (Build.yields_operatorOf hr).bind ?_
    exact (Build.yields_newEdge hends).bind
      (Store.yields_append hr₁ (.edge edge) ⟨rfl, hends⟩ (.inl rfl) rfl)
  exact hedge.run_eq _

theorem importNode_writes {node : Key × NetData} {x : Item} (hx : NodeWritten node x)
    (h : σ.Writes r header strict items) :
    ∃ σ', (importNode r node.1 node.2).Yields σ () σ' ∧
      σ'.Writes r header strict (items ++ [x]) := by
  obtain ⟨id, t, hid, ht, rfl⟩ := hx
  refine ⟨σ.withStatement r (.node ⟨id, none⟩) t, ?_, h.withStatement _ rfl⟩
  unfold Build.Yields
  rw [importNode_eq hid node.2 h.hasOperator]
  exact Build.yields_setAttrs Store.held?_withNewStatement ht

theorem importEdge_writes {e : NetEdge} {x : Item} (hx : EdgeWritten header.operator e x)
    (h : σ.Writes r header strict items) :
    ∃ σ', (importEdge r e).Yields σ () σ' ∧ σ'.Writes r header strict (items ++ [x]) := by
  obtain ⟨u, v, t, hu, hv, ht, rfl⟩ := hx
  let edge : Edge := ⟨σ.edgeCount, .node ⟨u, none⟩, .node ⟨v, none⟩, header.operator⟩
  have hcount := h.withEdgeCount (σ.edgeCount + 1)
  refine ⟨_, ?_, hcount.withStatement (.edge edge) rfl⟩
  unfold Build.Yields
  rw [importEdge_eq hu hv h.hasOperator]
  exact Build.yields_setAttrs Store.held?_withNewStatement ht

theorem importNodes_writes {nodes : Entries Key NetData} {xs : List Item}
    (hxs : List.Forall₂ NodeWritten nodes xs) (h : σ.Writes r header strict items) :
    ∃ σ', (nodes.forM fun node => importNode r node.1 node.2).Yields σ () σ' ∧
      σ'.Writes r header strict (items ++ xs) :=
  Build.yields_forM (P := fun items σ => σ.Writes r header strict items)
    (fun _ _ _ _ hx h => importNode_writes hx h) hxs h

theorem importEdges_writes {es : List NetEdge} {xs : List Item}
    (hxs : List.Forall₂ (EdgeWritten header.operator) es xs)
    (h : σ.Writes r header strict items) :
    ∃ σ', (es.forM (importEdge r)).Yields σ () σ' ∧ σ'.Writes r header strict (items ++ xs) :=
  Build.yields_forM (P := fun items σ => σ.Writes r header strict items)
    (fun _ _ _ _ hx h => importEdge_writes hx h) hxs h

theorem run_building {α : Type} {x : Build α} {σ' : Store} {a : α} (h : x.Yields σ a σ') :
    (building x).run.run σ = (.ok a, σ') := by
  have hx : x.run.run σ = (.ok a, σ') := h
  show (do let r ← x.run; pure (r.mapError ImportError.build) : StateM Store _).run σ = _
  rw [StateT.run_bind, hx]
  rfl

/-- The graph that is built where no step is refused: it has the name and the data of the network
and writes its nodes, then its edges. -/
theorem toGraph_of_written {n : Network} {name : Datum} {nm : Option Identifier} {data : NetData}
    {t : AttrTable} {operator : EdgeOperator} {xs ys : List Item} (strict : Datum)
    (hop : operator = if n.directed then .directed else .undirected)
    (hname : graphName name = .ok nm) (hdata : n.data = some data)
    (ht : AttrTable.ofRoot.update (declared Schema.rootGraph data) = .ok t)
    (hxs : List.Forall₂ NodeWritten n.nodes xs)
    (hys : List.Forall₂ (EdgeWritten operator) n.edges ys) :
    ∃ σ r, n.toGraph name strict = .ok (σ, r) ∧
      σ.Writes r ⟨.root r, nm, operator, t⟩ strict (xs ++ ys) := by
  let r : RootId := ⟨Store.empty.roots.size⟩
  let σ₀ := Store.empty.makeRoot nm operator strict
  let header : Header := ⟨.root r, nm, operator, t⟩
  have hroot : (Build.newRoot name strict operator).Yields Store.empty r σ₀ :=
    Build.yields_newRoot operator hname _
  have hempty : σ₀.Writes r { header with attrs := .ofRoot } strict [] :=
    Store.writes_makeRoot Store.empty nm operator strict
  obtain ⟨t₀, hheld, hwrites⟩ := hempty.setTable
  have hset := Build.yields_setAttrs hheld ht
  have h₁ : (σ₀.setTable t₀ t).Writes r header strict [] := hwrites t
  obtain ⟨σ₂, hnodesRun, h₂⟩ := importNodes_writes hxs h₁
  obtain ⟨σ₃, hedgesRun, h₃⟩ := importEdges_writes hys h₂
  refine ⟨σ₃, r, ?_, h₃⟩
  have hsteps : (do
      Build.setAttrs (.root r) (declared Schema.rootGraph data)
      n.nodes.forM fun node => importNode r node.1 node.2
      n.edges.forM (importEdge r) : Build Unit).Yields σ₀ () σ₃ :=
    hset.bind (hnodesRun.bind hedgesRun)
  have hbuild := run_building hsteps
  have himport : (n.importing name strict).run.run Store.empty = (.ok r, σ₃) := by
    rw [importing, ← hop, hdata, ExceptT.run_bind, StateT.run_bind, run_building hroot]
    show ((building _ >>= fun _ => pure r).run.run σ₀ : Except ImportError RootId × Store) = _
    rw [ExceptT.run_bind, StateT.run_bind, hbuild]
    rfl
  rw [toGraph, himport]

theorem exists_forall₂ {α β : Type} {R : α → β → Prop} {as : List α}
    (h : ∀ a ∈ as, ∃ b, R a b) : ∃ bs, List.Forall₂ R as bs := by
  induction as with
  | nil => exact ⟨[], .nil⟩
  | cons a rest ih =>
    obtain ⟨b, hb⟩ := h a List.mem_cons_self
    obtain ⟨bs, hbs⟩ := ih fun a' ha' => h a' (List.mem_cons_of_mem _ ha')
    exact ⟨b :: bs, .cons hb hbs⟩

theorem toGraph_writes {n : Network} {name : Datum} {nm : Option Identifier} {data : NetData}
    {t : AttrTable} {operator : EdgeOperator} (strict : Datum)
    (hop : operator = if n.directed then .directed else .undirected)
    (hname : graphName name = .ok nm) (hdata : n.data = some data)
    (ht : AttrTable.ofRoot.update (declared Schema.rootGraph data) = .ok t)
    (hnodes : ∀ node ∈ n.nodes, ∃ x, NodeItem node x)
    (hedges : ∀ e ∈ n.edges, ∃ x, EdgeItem operator e x) :
    ∃ σ r xs ys, n.toGraph name strict = .ok (σ, r) ∧ List.Forall₂ NodeItem n.nodes xs ∧
      List.Forall₂ (EdgeItem operator) n.edges ys ∧
      σ.Writes r ⟨.root r, nm, operator, t⟩ strict (xs ++ ys) := by
  obtain ⟨xs, hxs⟩ := exists_forall₂ hnodes
  obtain ⟨ys, hys⟩ := exists_forall₂ hedges
  obtain ⟨σ, r, hgraph, hwrites⟩ := toGraph_of_written strict hop hname hdata ht
    (hxs.imp fun _ _ hx => hx.written) (hys.imp fun _ _ hx => hx.written)
  exact ⟨σ, r, xs, ys, hgraph, hxs, hys, hwrites⟩

end Network

end DotGraph
