import DotGraph.Proofs.ImportedGraphs
import DotGraph.Proofs.Importing
import DotGraph.Proofs.NetworkListing

/-!
The statements of the graph of a network.  A node is named by the text of its key, and an edge names
the nodes at its ends by the texts of the keys that the listing has for them.  These are equal as
keys to those of the nodes, but their texts need not be.
-/

namespace DotGraph

theorem Identifier.text_of_ofText? {s : String} {id : Identifier}
    (h : Identifier.ofText? s = some id) : s = id.text := by
  unfold ofText? at h
  split at h
  · cases h
    rfl
  · cases h

namespace Build

variable {α β : Type} {x : Build α} {f : α → Build β} {σ σ' : Store} {a : α}

/-- A step that is refused, for whatever reason. -/
def Refused (x : Build α) (σ : Store) : Prop :=
  ∃ e σ', x.Fails σ e σ'

theorem Refused.bind (h : x.Refused σ) (f : α → Build β) : (x >>= f).Refused σ := by
  obtain ⟨e, σ', h⟩ := h
  exact ⟨e, σ', fails_bind_iff.2 (.inl h)⟩

theorem Yields.refused_bind (hx : x.Yields σ a σ') (h : (f a).Refused σ') :
    (x >>= f).Refused σ := by
  obtain ⟨e, σ'', h⟩ := h
  exact ⟨e, σ'', fails_bind_iff.2 (.inr ⟨a, σ', hx, h⟩)⟩

theorem Yields.not_refused (hx : x.Yields σ a σ') : ¬ x.Refused σ :=
  fun ⟨_, _, h⟩ => hx.not_fails h

theorem refused_setAttrs {o : Object} {t : TableId} {u : AttrTable}
    {attrs : Entries String Datum} {e : AttrError} (ht : σ.held? o = some (t, u))
    (hu : u.update attrs = .error e) : (setAttrs o attrs).Refused σ := by
  refine ⟨.attr e, σ, ?_⟩
  rw [Fails, setAttrs, run_editTable (TableEdit.enters_enter _), ht]
  dsimp only
  rw [u.assignAll_underNames attrs, hu]

theorem refused_nodeIdOf {name : String} (h : Identifier.ofText? name = none) (σ : Store) :
    (nodeIdOf (.text name) .absent).Refused σ := by
  refine ⟨.naming (.nodeName (.text name)), σ, ?_⟩
  simp only [nodeIdOf, NodeId.ofDatum, Identifier.ofDatum?, h]
  rfl

theorem refused_vertexLike {name : String} (h : Identifier.ofText? name = none) (σ : Store) :
    (vertexLike (.datum (.text name))).Refused σ := by
  refine ⟨.naming (.nodeName (.text name)), σ, ?_⟩
  simp only [vertexLike, NodeId.ofDatum, Identifier.ofDatum?, h]
  rfl

/-- Steps in a row, of which each writes an item or has none to write and is refused: either all of
them write their items, or one has none and all is refused. -/
theorem forM_cases {step : α → Build Unit} {R : α → Item → Prop} {P : List Item → Store → Prop}
    (hstep : ∀ a items σ, P items σ →
      (∃ x σ', R a x ∧ (step a).Yields σ () σ' ∧ P (items ++ [x]) σ') ∨
        (¬ ∃ x, R a x) ∧ (step a).Refused σ)
    (as : List α) {items : List Item} (h : P items σ) :
    (∃ xs σ', List.Forall₂ R as xs ∧ (as.forM step).Yields σ () σ' ∧ P (items ++ xs) σ') ∨
      (∃ a ∈ as, ¬ ∃ x, R a x) ∧ (as.forM step).Refused σ := by
  induction as generalizing items σ with
  | nil => exact .inl ⟨[], σ, .nil, yields_pure () σ, by simpa using h⟩
  | cons a rest ih =>
    rcases hstep a items σ h with ⟨x, σ₁, hx, hrun, h₁⟩ | ⟨hnone, hrefused⟩
    · rcases ih h₁ with ⟨xs, σ', hxs, hrest, h'⟩ | ⟨⟨a', ha', hnone⟩, hrefused⟩
      · exact .inl ⟨x :: xs, σ', .cons hx hxs, hrun.bind hrest, by simpa using h'⟩
      · exact .inr ⟨⟨a', .tail _ ha', hnone⟩, hrun.refused_bind hrefused⟩
    · exact .inr ⟨⟨a, .head _, hnone⟩, hrefused.bind _⟩

end Build

namespace Network

variable {σ σ' : Store} {r : RootId} {header : Header} {strict : Datum} {items : List Item}

/-! ### One node, one edge -/

theorem setAttrs_cases (σ : Store) (r : RootId) (clause : Clause) (data : NetData) :
    (∃ t, (Build.clauseAttrs clause).update data = .ok t ∧
      (Build.setAttrs (.statement ⟨σ.statements.size⟩) data).Yields
        (σ.withNewStatement (.root r) clause (Build.clauseAttrs clause)) ()
        (σ.withStatement r clause t)) ∨
    (¬ ∃ t, (Build.clauseAttrs clause).update data = .ok t) ∧
      (Build.setAttrs (.statement ⟨σ.statements.size⟩) data).Refused
        (σ.withNewStatement (.root r) clause (Build.clauseAttrs clause)) := by
  have hheld : (σ.withNewStatement (.root r) clause (Build.clauseAttrs clause)).held?
      (.statement ⟨σ.statements.size⟩) = some (⟨σ.tables.size⟩, Build.clauseAttrs clause) :=
    Store.held?_withNewStatement
  cases ht : (Build.clauseAttrs clause).update data with
  | ok t => exact .inl ⟨t, rfl, Build.yields_setAttrs hheld ht⟩
  | error e => exact .inr ⟨by simp, Build.refused_setAttrs hheld ht⟩

theorem importNode_cases (node : Key × NetData) (h : σ.Writes r header strict items) :
    (∃ x σ', NodeWritten node x ∧ (importNode r node.1 node.2).Yields σ () σ' ∧
        σ'.Writes r header strict (items ++ [x])) ∨
      (¬ ∃ x, NodeWritten node x) ∧ (importNode r node.1 node.2).Refused σ := by
  cases hid : Identifier.ofText? node.1.name with
  | none =>
    have hnone : ¬ ∃ x, NodeWritten node x := by
      rintro ⟨x, id, t, hname, -⟩
      simp [hname] at hid
    exact .inr ⟨hnone, ((Build.refused_nodeIdOf hid σ).bind _).bind _⟩
  | some id =>
    have hname : node.1.name = id.text := Identifier.text_of_ofText? hid
    have hrun := importNode_eq hname node.2 h.hasOperator
    rcases setAttrs_cases σ r (.node ⟨id, none⟩) (declared Schema.node node.2) with
      ⟨t, ht, hset⟩ | ⟨hnone, e, σ', hset⟩
    · exact .inl ⟨_, _, ⟨id, t, hname, ht, rfl⟩, hrun.trans hset, h.withStatement _ rfl⟩
    · refine .inr ⟨?_, e, σ', hrun.trans hset⟩
      rintro ⟨x, id', t, hname', ht, -⟩
      exact hnone ⟨t, ht⟩

theorem importEdge_cases (e : NetEdge) (h : σ.Writes r header strict items) :
    (∃ x σ', EdgeWritten header.operator e x ∧ (importEdge r e).Yields σ () σ' ∧
        σ'.Writes r header strict (items ++ [x])) ∨
      (¬ ∃ x, EdgeWritten header.operator e x) ∧ (importEdge r e).Refused σ := by
  cases hu : Identifier.ofText? e.tail.name with
  | none =>
    have hnone : ¬ ∃ x, EdgeWritten header.operator e x := by
      rintro ⟨x, u, v, t, hname, -⟩
      simp [hname] at hu
    exact .inr ⟨hnone, ((Build.refused_vertexLike hu σ).bind _).bind _⟩
  | some u =>
    have htail : e.tail.name = u.text := Identifier.text_of_ofText? hu
    have hlook := Build.yields_vertexLike u σ
    rw [← htail] at hlook
    cases hv : Identifier.ofText? e.head.name with
    | none =>
      have hnone : ¬ ∃ x, EdgeWritten header.operator e x := by
        rintro ⟨x, u', v, t, -, hname, -⟩
        simp [hname] at hv
      exact .inr ⟨hnone, (hlook.refused_bind ((Build.refused_vertexLike hv σ).bind _)).bind _⟩
    | some v =>
      have hhead : e.head.name = v.text := Identifier.text_of_ofText? hv
      have hrun := importEdge_eq htail hhead h.hasOperator
      have hcount := h.withEdgeCount (σ.edgeCount + 1)
      rcases setAttrs_cases { σ with edgeCount := σ.edgeCount + 1 } r
        (.edge ⟨σ.edgeCount, .node ⟨u, none⟩, .node ⟨v, none⟩, header.operator⟩)
        (declared Schema.edge e.data) with ⟨t, ht, hset⟩ | ⟨hnone, err, σ', hset⟩
      · exact .inl ⟨_, _, ⟨u, v, t, htail, hhead, ht, rfl⟩, hrun.trans hset,
          hcount.withStatement _ rfl⟩
      · refine .inr ⟨?_, err, σ', hrun.trans hset⟩
        rintro ⟨x, u', v', t, -, -, ht, -⟩
        exact hnone ⟨t, ht⟩

/-! ### The whole graph -/

theorem filling_cases (n : Network) {data : NetData} (h : σ.Writes r header strict [])
    (hattrs : header.attrs = .ofRoot) :
    (∃ t xs ys σ', AttrTable.ofRoot.update (declared Schema.rootGraph data) = .ok t ∧
      List.Forall₂ NodeWritten n.nodes xs ∧
      List.Forall₂ (EdgeWritten header.operator) n.edges ys ∧
      (n.filling r data).Yields σ () σ' ∧
      σ'.Writes r { header with attrs := t } strict (xs ++ ys)) ∨
    (n.filling r data).Refused σ := by
  obtain ⟨t₀, hheld, hwrites⟩ := h.setTable
  rw [hattrs] at hheld
  cases ht : AttrTable.ofRoot.update (declared Schema.rootGraph data) with
  | error e => exact .inr ((Build.refused_setAttrs hheld ht).bind _)
  | ok t =>
    let P : List Item → Store → Prop := fun items σ =>
      σ.Writes r { header with attrs := t } strict items
    have hset := Build.yields_setAttrs hheld ht
    have h₁ : P [] (σ.setTable t₀ t) := hwrites t
    rcases Build.forM_cases (P := P) (fun node _ _ => importNode_cases node) n.nodes h₁ with
      ⟨xs, σ₂, hxs, hnodes, h₂⟩ | ⟨-, hrefused⟩
    · rcases Build.forM_cases (P := P) (fun e _ _ => importEdge_cases e) n.edges h₂ with
        ⟨ys, σ₃, hys, hedges, h₃⟩ | ⟨-, hrefused⟩
      · have hrun : (n.filling r data).Yields σ () σ₃ := hset.bind (hnodes.bind hedges)
        exact .inl ⟨t, xs, ys, σ₃, rfl, hxs, hys, hrun, h₃⟩
      · exact .inr (hset.refused_bind (hnodes.refused_bind hrefused))
    · exact .inr (hset.refused_bind (hrefused.bind _))

/-- A network that is made a graph has all its nodes written, and then all its edges. -/
theorem written_of_toGraph {n : Network} {name : Datum}
    (h : n.toGraph name strict = .ok (σ, r)) :
    ∃ nm data t xs ys, graphName name = .ok nm ∧ n.data = some data ∧
      AttrTable.ofRoot.update (declared Schema.rootGraph data) = .ok t ∧
      List.Forall₂ NodeWritten n.nodes xs ∧
      List.Forall₂ (EdgeWritten (.ofDirected n.directed)) n.edges ys ∧
      σ.Writes r ⟨.root r, nm, .ofDirected n.directed, t⟩ strict (xs ++ ys) := by
  rcases n.toGraph_cases name strict with
    ⟨e, he⟩ | ⟨-, he⟩ | ⟨data, r', σ₁, σ₂, hdata, hroot, hfill, he⟩
  · cases h.symm.trans he
  · cases h.symm.trans he
  cases h.symm.trans he
  cases hname : graphName name with
  | error e =>
    have hrefused : (Build.newRoot name strict (.ofDirected n.directed)).Refused Store.empty := by
      refine ⟨.naming e, Store.empty, ?_⟩
      simp only [Build.newRoot, hname]
      rfl
    exact absurd hrefused hroot.not_refused
  | ok nm =>
    obtain ⟨rfl, rfl⟩ := (Build.yields_newRoot _ hname Store.empty).unique hroot
    have hempty := Store.writes_makeRoot Store.empty nm (.ofDirected n.directed) strict
    rcases n.filling_cases hempty rfl with
      ⟨t, xs, ys, σ', ht, hxs, hys, hrun, hwrites⟩ | hrefused
    · obtain ⟨-, rfl⟩ := hrun.unique hfill
      exact ⟨nm, data, t, xs, ys, rfl, hdata, ht, hxs, hys, hwrites⟩
    · exact absurd hrefused hfill.not_refused

end Network

/-! ### What statements name -/

/-- What a statement names: its node, or the nodes at the two ends of its edge. -/
inductive Naming where
  | node (name : String)
  | edge (tail head : String)
  deriving DecidableEq

/-- Defaults name nothing, and neither does an edge with a subgraph at an end. -/
def Clause.naming? : Clause → Option Naming
  | .node id => some (.node id.name.text)
  | .edge ⟨_, .node u, .node v, _⟩ => some (.edge u.name.text v.name.text)
  | _ => none

/-- The same of an item. -/
def Item.naming? : Item → Option Naming
  | .node id _ => some (.node id.name.text)
  | .edge (.node u) (.node v) _ _ => some (.edge u.name.text v.name.text)
  | _ => none

namespace Store

variable {σ : Store} {r : RootId} {header : Header} {strict : Datum} {items : List Item}

/-- What the statements in the list of a body name, in order. -/
def namings (σ : Store) (b : BodyRef) : List (Option Naming) :=
  (σ.members b).map fun m => (σ.memberClause? m).bind Clause.naming?

theorem naming?_of_clauseWith? {inner : SubgraphId → Option Outline} {attrs : AttrTable}
    {clause : Clause} {x : Item} (h : clauseWith? inner attrs clause = some x) :
    clause.naming? = x.naming? := by
  cases clause with
  | node id =>
    cases h
    rfl
  | defaults kind standalone =>
    cases h
    rfl
  | noEdge given => cases h
  | edge e =>
    obtain ⟨serial, tail, head, operator⟩ := e
    obtain ⟨tail', htail, h⟩ := Option.bind_eq_some_iff.1 h
    obtain ⟨head', hhead, h⟩ := Option.bind_eq_some_iff.1 h
    cases h
    cases tail with
    | subgraph s =>
      obtain ⟨o, -, rfl⟩ := Option.map_eq_some_iff.1 htail
      rfl
    | node u =>
      cases htail
      cases head with
      | subgraph s =>
        obtain ⟨o, -, rfl⟩ := Option.map_eq_some_iff.1 hhead
        rfl
      | node v =>
        cases hhead
        rfl

theorem naming?_of_itemWith? {inner : SubgraphId → Option Outline} {m : Member} {x : Item}
    (h : σ.itemWith? inner m = some x) :
    (σ.memberClause? m).bind Clause.naming? = x.naming? := by
  cases m with
  | subgraph s =>
    obtain ⟨o, -, rfl⟩ := Option.map_eq_some_iff.1 h
    rfl
  | statement i =>
    obtain ⟨s, hs, h⟩ := Option.bind_eq_some_iff.1 h
    have hi : σ.memberClause? (.statement i) = some s.clause := by simp [memberClause?, clause?, hs]
    rw [hi]
    exact naming?_of_clauseWith? h

theorem Writes.namings_eq (h : σ.Writes r header strict items) :
    σ.namings (.root r) = items.map Item.naming? := by
  obtain ⟨g, v, hg, -, -, -, hitems⟩ := h
  have hmembers : σ.members (.root r) = g.body.members := by simp [members, body?, hg]
  rw [namings, hmembers]
  generalize g.body.members = ms at hitems
  induction hitems with
  | nil => rfl
  | cons hx _ ih =>
    rw [List.map_cons, List.map_cons, ih, naming?_of_itemWith? (hx.itemWith? fun _ => none)]

end Store

namespace Network

variable {n n' : Network} {P : Key → Prop}

/-! ### Nodes and ends of edges -/

/-- Networks with or without parallel edges, as additions build them: no node stands twice, the ends
of links are nodes, and all keys are of a kind. -/
structure Formed (P : Key → Prop) (n : Network) : Prop where
  nodes : Distinct n.nodes.keys
  nodeKeys : ∀ k ∈ n.nodes.keys, P k
  ends : ∀ p ∈ n.links.map Link.ends, n.nodes.has p.1 = true ∧ n.nodes.has p.2 = true
  endKeys : ∀ p ∈ n.links.map Link.ends, P p.1 ∧ P p.2

theorem Formed.addNode (h : n.Formed P) {k : Key} (hk : P k) (data : NetData) :
    (n.addNode k data).Formed P where
  nodes := distinct_enter h.nodes
  nodeKeys l hl := by
    simp only [Network.addNode, keys_enter] at hl
    split at hl
    · exact h.nodeKeys l hl
    · rcases List.mem_append.1 hl with hl | hl
      · exact h.nodeKeys l hl
      · exact List.mem_singleton.1 hl ▸ hk
  ends p hp := ⟨has_enter_of_has (h.ends p hp).1, has_enter_of_has (h.ends p hp).2⟩
  endKeys := h.endKeys

theorem Formed.addEdge (h : n.Formed P) {u v : Key} (hu : P u) (hv : P v) (strand : Option Key)
    (data : NetData) : (n.addEdge u v strand data).Formed P := by
  let m : Network := (n.addNode u []).addNode v []
  have hm : m.Formed P := (h.addNode hu []).addNode hv []
  have hasU : m.nodes.has u = true := has_enter_of_has (has_enter_self u [] n.nodes)
  have hasV : m.nodes.has v = true := has_enter_self v [] _
  have hends : ∀ p ∈ (m.joinLinks u v strand data m.links).map Link.ends,
      p ∈ m.links.map Link.ends ∨ p = (u, v) := by
    intro p hp
    rcases m.ends_joinLinks u v strand data m.links with he | ⟨-, he⟩
    · exact .inl (he ▸ hp)
    · rw [he] at hp
      exact (List.mem_append.1 hp).imp_right List.mem_singleton.1
  refine ⟨hm.nodes, hm.nodeKeys, fun p hp => ?_, fun p hp => ?_⟩
  · rcases hends p hp with hp | rfl
    · exact hm.ends p hp
    · exact ⟨hasU, hasV⟩
  · rcases hends p hp with hp | rfl
    · exact hm.endKeys p hp
    · exact ⟨hu, hv⟩

/-- The keys of the nodes that one addition names. -/
def Addition.keys (position : Nat) : Addition → List Key
  | .node id _ => (nodeKey (2 * position) id).toOption.toList
  | .edge tail head _ =>
    (nodeKey (2 * position) tail).toOption.toList ++
      (nodeKey (2 * position + 1) head).toOption.toList

/-- The keys of all nodes that additions in a row name. -/
def givenKeys (position : Nat) : List Addition → List Key
  | [] => []
  | step :: rest => step.keys position ++ givenKeys (position + 1) rest

theorem Formed.add (h : n.Formed P) {position : Nat} {step : Addition}
    (hs : n.add position step = .ok n') (hP : ∀ k ∈ step.keys position, P k) : n'.Formed P := by
  cases step with
  | node id data =>
    obtain ⟨k, hk, hs⟩ := bind_eq_ok_iff.1 hs
    cases hs
    exact h.addNode (hP k (by simp [Addition.keys, hk, Except.toOption])) data
  | edge tail head data =>
    obtain ⟨u, hu, hs⟩ := bind_eq_ok_iff.1 hs
    obtain ⟨v, hv, hs⟩ := bind_eq_ok_iff.1 hs
    cases hs
    exact h.addEdge (hP u (by simp [Addition.keys, hu, Except.toOption]))
      (hP v (by simp [Addition.keys, hv, Except.toOption])) none data

theorem Formed.addAll {position : Nat} {steps : List Addition} (h : n.Formed P)
    (hs : n.addAll position steps = .ok n') (hP : ∀ k ∈ givenKeys position steps, P k) :
    n'.Formed P := by
  induction steps generalizing n position with
  | nil =>
    cases hs
    exact h
  | cons step rest ih =>
    obtain ⟨n₁, hadd, hs⟩ := bind_eq_ok_iff.1 hs
    have h₁ : n₁.Formed P := h.add hadd fun k hk => hP k (List.mem_append_left _ hk)
    exact ih h₁ hs fun k hk => hP k (List.mem_append_right _ hk)

/-- Whatever is added in whatever order, all keys are of the nodes that the additions name. -/
theorem formed_ofAdditions {directed parallel : Bool} {data : NetData} {steps : List Addition}
    (h : ofAdditions directed parallel data steps = .ok n) :
    n.Formed (· ∈ givenKeys 0 steps) := by
  refine Formed.addAll ?_ h fun k hk => hk
  exact ⟨.nil, by simp [empty], by simp [empty], by simp [empty]⟩

theorem Formed.ends_of_edge (h : n.Formed P) {e : NetEdge} (he : e ∈ n.edges) :
    e.tail ∈ n.nodes.keys ∧ n.nodes.has e.head = true ∧ P e.head := by
  obtain ⟨ht, -, l, hl, ho, -⟩ := mem_edgesFrom he
  have hends := h.ends _ (List.mem_map_of_mem (f := Link.ends) hl)
  have hkeys := h.endKeys _ (List.mem_map_of_mem (f := Link.ends) hl)
  refine ⟨ht, ?_⟩
  rcases Link.other?_eq_some_iff.1 ho with ⟨-, hh⟩ | ⟨-, -, -, hh⟩
  · exact hh ▸ ⟨hends.2, hkeys.2⟩
  · exact hh ▸ ⟨hends.1, hkeys.1⟩

/-! ### Names -/

theorem map_eq_map_of_forall₂ {α β γ : Type} {R : α → β → Prop} {f : β → γ} {g : α → γ}
    (hfg : ∀ a b, R a b → f b = g a) {as : List α} {bs : List β} (h : List.Forall₂ R as bs) :
    bs.map f = as.map g := by
  induction h with
  | nil => rfl
  | cons hab _ ih => rw [List.map_cons, List.map_cons, hfg _ _ hab, ih]

/-- The statements of a graph name the nodes of the network and then the ends of its edges. -/
theorem namings_of_toGraph {name strict : Datum} {σ : Store} {r : RootId}
    (h : n.toGraph name strict = .ok (σ, r)) :
    σ.namings (.root r) = n.nodes.keys.map (fun k => some (.node k.name)) ++
      n.edges.map fun e => some (.edge e.tail.name e.head.name) := by
  obtain ⟨nm, data, t, xs, ys, -, -, -, hxs, hys, hwrites⟩ := written_of_toGraph h
  have hnodes : xs.map Item.naming? = n.nodes.map fun node => some (.node node.1.name) := by
    refine map_eq_map_of_forall₂ ?_ hxs
    rintro node x ⟨id, t, hid, -, rfl⟩
    rw [hid]
    rfl
  have hedges : ys.map Item.naming? =
      n.edges.map fun e => some (.edge e.tail.name e.head.name) := by
    refine map_eq_map_of_forall₂ ?_ hys
    rintro e x ⟨u, v, t, hu, hv, -, rfl⟩
    rw [hu, hv]
    rfl
  rw [hwrites.namings_eq, List.map_append, hnodes, hedges, Entries.keys, List.map_map]
  rfl

/-- However a network was built, its graph has one statement for each node, named by the text of the
node, and behind these one statement for each listed edge, from a node to a key that equals a node.
The names are distinct unless two nodes that were named have the same text, and every edge joins the
names of its nodes unless two equal keys that were named have different texts. -/
theorem names_of_toGraph {directed parallel : Bool} {data : NetData} {steps : List Addition}
    (hn : ofAdditions directed parallel data steps = .ok n) {name strict : Datum} {σ : Store}
    {r : RootId} (h : n.toGraph name strict = .ok (σ, r)) :
    σ.namings (.root r) = n.nodes.keys.map (fun k => some (.node k.name)) ++
        n.edges.map (fun e => some (.edge e.tail.name e.head.name)) ∧
      (∀ e ∈ n.edges, e.tail ∈ n.nodes.keys ∧ ∃ v ∈ n.nodes.keys, (v == e.head) = true) ∧
      ((∀ k ∈ givenKeys 0 steps, ∀ l ∈ givenKeys 0 steps, k.name = l.name → (k == l) = true) →
        (n.nodes.keys.map Key.name).Nodup) ∧
      ((∀ k ∈ givenKeys 0 steps, ∀ l ∈ givenKeys 0 steps, (k == l) = true → k.name = l.name) →
        ∀ e ∈ n.edges, ∀ v ∈ n.nodes.keys, (v == e.head) = true → e.head.name = v.name) := by
  have hformed := formed_ofAdditions hn
  refine ⟨namings_of_toGraph h, fun e he => ?_, fun hsame => ?_, fun hsame e he v hv heq => ?_⟩
  · obtain ⟨ht, hhead, -⟩ := hformed.ends_of_edge he
    rw [Entries.has_eq_any, List.any_eq_true] at hhead
    exact ⟨ht, hhead⟩
  · refine List.pairwise_map.2 (hformed.nodes.imp_of_mem fun {k l} hk hl hne heq => ?_)
    have hequal := hsame k (hformed.nodeKeys k hk) l (hformed.nodeKeys l hl) heq
    rw [hne] at hequal
    cases hequal
  · obtain ⟨-, -, hhead⟩ := hformed.ends_of_edge he
    exact (hsame v (hformed.nodeKeys v hv) e.head hhead heq).symm

/-- What the statements of the graph of a network name, if additions make one and it a graph. -/
def graphNamings? (directed parallel : Bool) (steps : List Addition) :
    Option (List (Option Naming)) := do
  let n ← (ofAdditions directed parallel [] steps).toOption
  let (σ, r) ← (n.toGraph .absent (.flag false)).toOption
  return σ.namings (.root r)

theorem exists_graph_of_namings {directed parallel : Bool} {steps : List Addition}
    {names : List (Option Naming)} (h : graphNamings? directed parallel steps = some names) :
    ∃ n σ r, ofAdditions directed parallel [] steps = .ok n ∧
      n.toGraph .absent (.flag false) = .ok (σ, r) ∧ σ.namings (.root r) = names := by
  obtain ⟨n, hn, h⟩ := Option.bind_eq_some_iff.1 h
  obtain ⟨⟨σ, r⟩, hgraph, h⟩ := Option.bind_eq_some_iff.1 h
  cases h
  exact ⟨n, σ, r, eq_ok_of_toOption hn, eq_ok_of_toOption hgraph, rfl⟩

/-- Nodes of three kinds, and two edges that are parallel. -/
def mixedSteps : List Addition :=
  [.node (.integer 2) [], .edge (.text "a") (.integer 2) [], .edge (.flag true) (.text "a") [],
    .edge (.integer 2) (.text "a") []]

theorem names_of_toGraph_mixed :
    ∃ (n : Network) (σ : Store) (r : RootId), n.toGraph .absent (.flag false) = .ok (σ, r) ∧
      σ.namings (.root r) = [some (.node "2"), some (.node "a"), some (.node "True"),
        some (.edge "2" "a"), some (.edge "2" "a"), some (.edge "a" "True")] ∧
      (n.nodes.keys.map Key.name).Nodup ∧
      ∀ e ∈ n.edges, ∀ v ∈ n.nodes.keys, (v == e.head) = true → e.head.name = v.name := by
  have hnames : graphNamings? false true mixedSteps =
      some [some (.node "2"), some (.node "a"), some (.node "True"), some (.edge "2" "a"),
        some (.edge "2" "a"), some (.edge "a" "True")] := by
    decide +kernel
  obtain ⟨n, σ, r, hn, hgraph, hnamings⟩ := exists_graph_of_namings hnames
  obtain ⟨-, -, hdistinct, hattached⟩ := names_of_toGraph hn hgraph
  refine ⟨n, σ, r, hgraph, hnamings, hdistinct ?_, hattached ?_⟩
  · decide +kernel
  · decide +kernel

/-- The node that is there as a flag is named by the flag, and the edge that comes to it as the
equal number names another node; and a number and its text are two nodes of one name. -/
theorem names_not_told_apart :
    (∃ n σ r, ofAdditions true false [] [.node (.flag true) [],
        .edge (.text "a") (.integer 1) []] = .ok n ∧
      n.toGraph .absent (.flag false) = .ok (σ, r) ∧
      σ.namings (.root r) = [some (.node "True"), some (.node "a"), some (.edge "a" "1")]) ∧
    ∃ n σ r, ofAdditions false false [] [.node (.integer 1) [], .node (.text "1") []] = .ok n ∧
      n.toGraph .absent (.flag false) = .ok (σ, r) ∧
      σ.namings (.root r) = [some (.node "1"), some (.node "1")] :=
  ⟨exists_graph_of_namings (by decide +kernel), exists_graph_of_namings (by decide +kernel)⟩

end Network

end DotGraph
