import DotGraph.Proofs.Coercion
import DotGraph.Proofs.Importing
import DotGraph.Proofs.NetworkListing

/-!
A network, its graph and the network of that graph.  The graph writes the nodes and then the edges
as they are listed, so the second network is entered in the order in which the first one lists.
-/

namespace DotGraph

namespace AttrTable

theorem netData_of_update {schema : Schema} {owner : String} {data : NetData} {t : AttrTable}
    (h : schema.Accepts data) (hn : data.keys.Nodup)
    (ht : (empty schema owner).update (Network.declared schema data) = .ok t) :
    t.netData = NetData.plain data := by
  obtain ⟨t', ht', hdata⟩ := exists_update (t := empty schema owner) h (by simpa [empty] using hn)
  rw [declared_eq h, ht'] at ht
  cases ht
  exact hdata

theorem exists_update_declared {schema : Schema} {owner : String} {data : NetData}
    (h : schema.Accepts data) (hn : data.keys.Nodup) :
    ∃ t, (empty schema owner).update (Network.declared schema data) = .ok t := by
  obtain ⟨t, ht, -⟩ := exists_update (t := empty schema owner) h (by simpa [empty] using hn)
  exact ⟨t, by rwa [declared_eq h]⟩

end AttrTable

namespace Network

variable {n m : Network}

/-- A network that can be a graph as it stands: every node is named by an identifier, and all data
are declared attributes with values that these accept. -/
structure Importable (n : Network) : Prop where
  data : ∀ data, n.data = some data → Schema.rootGraph.Accepts data
  names : ∀ node ∈ n.nodes, ∃ id, node.1 = Identifier.key id
  nodes : ∀ node ∈ n.nodes, Schema.node.Accepts node.2
  edges : ∀ e ∈ n.edges, Schema.edge.Accepts e.data

/-- What equals the key of a node is a name if nodes have names, for only a text equals a text. -/
theorem name_of_has (h : ∀ k ∈ n.nodes.keys, ∃ id, k = Identifier.key id) {k : Key}
    (hk : n.nodes.has k = true) : ∃ id, k = Identifier.key id := by
  rw [Entries.has_eq_any] at hk
  obtain ⟨k', hk', heq⟩ := List.any_eq_true.1 hk
  obtain ⟨id, hid⟩ := h k' hk'
  rw [hid, Key.beq_comm] at heq
  exact ⟨id, Key.eq_text_of_beq heq⟩

theorem Importable.names_keys (h : n.Importable) :
    ∀ k ∈ n.nodes.keys, ∃ id, k = Identifier.key id := by
  intro k hk
  obtain ⟨node, hnode, rfl⟩ := List.mem_map.1 hk
  exact h.names node hnode

/-! ### The items of the graph -/

theorem exists_nodeItem (h : n.Importable) (hb : n.Built) :
    ∀ node ∈ n.nodes, ∃ x, NodeItem node x := by
  intro node hm
  obtain ⟨id, hid⟩ := h.names node hm
  obtain ⟨t, ht⟩ := AttrTable.exists_update_declared (h.nodes node hm) (hb.nodeData node hm)
  exact ⟨_, id, t, hid, ht, rfl⟩

theorem exists_edgeItem (h : n.Importable) (hb : n.Built) (operator : EdgeOperator) :
    ∀ e ∈ n.edges, ∃ x, EdgeItem operator e x := by
  intro e hm
  obtain ⟨htail, hhead⟩ := has_ends_edges hb e hm
  obtain ⟨u, hu⟩ := name_of_has h.names_keys htail
  obtain ⟨v, hv⟩ := name_of_has h.names_keys hhead
  obtain ⟨t, ht⟩ := AttrTable.exists_update_declared (h.edges e hm) (nodup_data_edges hb e hm)
  exact ⟨_, u, v, t, hu, hv, ht, rfl⟩

theorem addItem_of_nodeItem {node : Key × NetData} {x : Item} (hx : NodeItem node x)
    (ha : Schema.node.Accepts node.2) (hn : node.2.keys.Nodup) :
    m.addItem x = m.addNode node.1 (NetData.plain node.2) := by
  obtain ⟨id, t, hid, ht, rfl⟩ := hx
  rw [addItem, hid, AttrTable.netData_of_update ha hn ht]

theorem addItem_of_edgeItem {operator : EdgeOperator} {e : NetEdge} {x : Item}
    (hx : EdgeItem operator e x) (ha : Schema.edge.Accepts e.data) (hn : e.data.keys.Nodup) :
    m.addItem x = m.addEdge e.tail e.head none (NetData.plain e.data) := by
  obtain ⟨u, v, t, hu, hv, ht, rfl⟩ := hx
  rw [addItem, hu, hv, AttrTable.netData_of_update ha hn ht]
  rfl

theorem addItems_append (m : Network) (xs ys : List Item) :
    m.addItems (xs ++ ys) = (m.addItems xs).addItems ys := by
  induction xs generalizing m with
  | nil => rfl
  | cons x rest ih => rw [List.cons_append, addItems, addItems, ih]

theorem addItems_of_forall₂ {α : Type} {R : α → Item → Prop} {add : Network → α → Network}
    {as : List α} {xs : List Item} (hxs : List.Forall₂ R as xs)
    (hadd : ∀ a ∈ as, ∀ x, R a x → ∀ m : Network, m.addItem x = add m a) (m : Network) :
    m.addItems xs = as.foldl add m := by
  induction hxs generalizing m with
  | nil => rfl
  | @cons a x as xs hx _ ih =>
    rw [addItems, hadd a (by simp) x hx, List.foldl_cons]
    exact ih (fun a ha => hadd a (by simp [ha])) _

/-! ### The network of the graph -/

/-- The nodes in plain values. -/
def plainNodes (nodes : Entries Key NetData) : Entries Key NetData :=
  nodes.map fun node => (node.1, NetData.plain node.2)

theorem keys_plainNodes (nodes : Entries Key NetData) : (plainNodes nodes).keys = nodes.keys := by
  simp [plainNodes, Entries.keys]

theorem addItems_relisted (h : n.Importable) (hb : n.Built) {operator : EdgeOperator}
    {xs ys : List Item} (hxs : List.Forall₂ NodeItem n.nodes xs)
    (hys : List.Forall₂ (EdgeItem operator) n.edges ys) (data : Option NetData) :
    { empty n.directed false with data := data }.addItems (xs ++ ys) =
      ⟨n.directed, false, data, plainNodes n.nodes, n.edges.map (linkOf NetData.plain)⟩ := by
  have hkeys : ∀ data : NetData, data.keys.Nodup → (NetData.plain data).keys.Nodup :=
    fun data hn => by rwa [NetData.keys_plain]
  have hnodes : ∀ m : Network, m.addItems xs =
      (plainNodes n.nodes).foldl (fun m node => m.addNode node.1 node.2) m := by
    intro m
    rw [plainNodes, List.foldl_map]
    exact addItems_of_forall₂ hxs (fun node hm x hx m =>
      addItem_of_nodeItem hx (h.nodes node hm) (hb.nodeData node hm)) m
  have hedges : ∀ m : Network, m.addItems ys =
      (n.edges.map (withData NetData.plain)).foldl
        (fun m e => m.addEdge e.tail e.head none e.data) m := by
    intro m
    rw [List.foldl_map]
    exact addItems_of_forall₂ hys (fun e hm x hx m =>
      addItem_of_edgeItem hx (h.edges e hm) (nodup_data_edges hb e hm)) m
  rw [addItems_append, hnodes, hedges, addNodes_eq, addEdges_eq]
  · simp [empty, Function.comp_def, linkOf_withData]
  · rfl
  · intro e' he'
    obtain ⟨e, he, rfl⟩ := List.mem_map.1 he'
    have hends := has_ends_edges hb e he
    simpa [empty, Entries.has_eq_any, keys_plainNodes, withData] using hends
  · have hapart : n.edges.Pairwise fun e e' => Apart n.directed e.ends e'.ends :=
      apart_edgesFrom hb hb.nodes
    simpa [empty, List.pairwise_map, withData, NetEdge.ends] using hapart
  · intro e' he'
    obtain ⟨e, he, rfl⟩ := List.mem_map.1 he'
    exact hkeys _ (nodup_data_edges hb e he)
  · simpa [empty, keys_plainNodes] using hb.nodes
  · intro node' hm'
    obtain ⟨node, hm, rfl⟩ := List.mem_map.1 hm'
    exact hkeys _ (hb.nodeData node hm)

/-- A network that was built by additions, in whatever order, can be made a graph, and the network
of this graph lists the same nodes and edges in the same order, all data in plain values. -/
theorem network?_toGraph {directed : Bool} {pairs : NetData} {steps : List Addition}
    (hn : ofAdditions directed false (Entries.ofList pairs) steps = .ok n) (h : n.Importable)
    {name : Datum} {nm : Option Identifier} (hname : graphName name = .ok nm) (strict : Datum) :
    ∃ σ r n', n.toGraph name strict = .ok (σ, r) ∧ σ.network? (.root r) = some n' ∧
      n'.directed = n.directed ∧ n'.data = n.data.map NetData.plain ∧
      n'.nodes = plainNodes n.nodes ∧ n'.edges = n.edges.map (withData NetData.plain) := by
  have hb : n.Built := built_ofAdditions hn
  obtain ⟨data, hdata, hkeys⟩ := hb.data
  have ha := h.data data hdata
  let operator : EdgeOperator := if n.directed then .directed else .undirected
  have hoperator : operator = if n.directed then .directed else .undirected := rfl
  have hop : (operator == EdgeOperator.directed) = n.directed := by
    simp only [operator]
    cases n.directed <;> rfl
  obtain ⟨t, ht⟩ := AttrTable.exists_update_declared ha hkeys
  obtain ⟨σ, r, xs, ys, hgraph, hxs, hys, hwrites⟩ := toGraph_writes strict hoperator
    hname hdata ht (exists_nodeItem h hb) (exists_edgeItem h hb operator)
  have hnetwork : σ.network? (.root r) = some
      ⟨n.directed, false, some (NetData.plain data), plainNodes n.nodes,
        n.edges.map (linkOf NetData.plain)⟩ := by
    rw [Store.network?, hwrites.outline?, Option.map_some, Outline.network]
    simp only [Outline.header, Outline.items, hop, AttrTable.netData_of_update ha hkeys ht]
    rw [addItems_relisted h hb hxs hys]
  refine ⟨σ, r, _, hgraph, hnetwork, rfl, by simp [hdata], rfl, ?_⟩
  exact edges_relisted hb.nodes rfl (keys_plainNodes n.nodes) rfl

/-- A triangle without directions.  Its edges are listed as `b c`, `b a` and `c a`, so that `a` has
its neighbours the other way round in the network of the graph. -/
def triangle : Network :=
  ⟨false, false, some [("rankdir", .token ⟨"RankDir", "LR", "LR"⟩)],
    [(.text "b", []), (.text "c", []), (.text "a", [("shape", .text "box")])],
    [⟨.text "b", .text "c", [(.integer 0, [("dir", .text "back")])]⟩,
      ⟨.text "c", .text "a", [(.integer 0, [("weight", .integer 2)])]⟩,
      ⟨.text "a", .text "b", [(.integer 0, [])]⟩]⟩

theorem ofAdditions_triangle :
    ofAdditions false false (Entries.ofList [("rankdir", .token ⟨"RankDir", "LR", "LR"⟩)])
      [.edge (.text "b") (.text "c") [("dir", .text "back")],
        .edge (.text "c") (.text "a") [("weight", .integer 2)],
        .edge (.text "a") (.text "b") [], .node (.text "a") [("shape", .text "box")]] =
      .ok triangle := by
  rfl

theorem edges_triangle :
    triangle.edges = [⟨.text "b", .text "c", [("dir", .text "back")]⟩, ⟨.text "b", .text "a", []⟩,
      ⟨.text "c", .text "a", [("weight", .integer 2)]⟩] := by
  rfl

theorem importable_triangle : triangle.Importable where
  data := by
    intro data hd
    cases hd
    decide +kernel
  names := by
    intro node hm
    simp only [triangle, List.mem_cons, List.not_mem_nil, or_false] at hm
    rcases hm with rfl | rfl | rfl
    · exact ⟨⟨"b", by decide⟩, rfl⟩
    · exact ⟨⟨"c", by decide⟩, rfl⟩
    · exact ⟨⟨"a", by decide⟩, rfl⟩
  nodes := by decide +kernel
  edges := by decide +kernel

theorem triangle_listed_again :
    ∃ σ r n', triangle.toGraph .absent (.flag false) = .ok (σ, r) ∧
      σ.network? (.root r) = some n' ∧ n'.directed = false ∧
      n'.data = some [("rankdir", .text "LR")] ∧ n'.nodes = plainNodes triangle.nodes ∧
      n'.edges = [⟨.text "b", .text "c", [("dir", .text "back")]⟩, ⟨.text "b", .text "a", []⟩,
        ⟨.text "c", .text "a", [("weight", .integer 2)]⟩] := by
  have hname : graphName .absent = .ok none := rfl
  obtain ⟨σ, r, n', hgraph, hnetwork, hdirected, hdata, hnodes, hedges⟩ :=
    network?_toGraph ofAdditions_triangle importable_triangle hname (.flag false)
  exact ⟨σ, r, n', hgraph, hnetwork, hdirected, hdata, hnodes, by rw [hedges, edges_triangle]; rfl⟩

end Network

end DotGraph
