import DotGraph.Proofs.Exports
import DotGraph.Proofs.NetworkRoundTrip
import DotGraph.Proofs.ShownData

/-!
The network of a graph as a normal form.  Nesting, ports, defaults and repeated statements are gone
from it; what is left can be made a graph again, and the network of that graph is the same.
-/

namespace DotGraph

namespace Network

variable {n : Network}

/-! ### Networks that graphs show can be graphs -/

theorem Shown.shows_edges (h : n.Shown) : ∀ e ∈ n.edges, Schema.edge.Shows e.data := by
  intro e he
  obtain ⟨-, -, l, hl, -, strand, hs, hdata⟩ := mem_edgesFrom he
  exact hdata ▸ h.strands l hl strand hs

theorem Shown.importable (h : n.Shown) : n.Importable where
  data data hd := (h.data data hd).accepts
  names node hm := h.names node.1 (List.mem_map_of_mem hm)
  nodes node hm := (h.nodes node hm).accepts
  edges e he := (h.shows_edges e he).accepts

theorem Shown.plainNodes_eq (h : n.Shown) : plainNodes n.nodes = n.nodes := by
  refine map_eq_self fun node hm => ?_
  rw [(h.nodes node hm).plain_eq]

theorem Shown.withData_plain_eq (h : n.Shown) :
    n.edges.map (withData NetData.plain) = n.edges := by
  refine map_eq_self fun e he => ?_
  rw [withData, (h.shows_edges e he).plain_eq]

theorem Shown.data_plain_eq (h : n.Shown) : n.data.map NetData.plain = n.data := by
  cases hd : n.data with
  | none => rfl
  | some data => rw [Option.map_some, (h.data data hd).plain_eq]

/-! ### The graph of such a network -/

/-- The network of the graph of a network: what is listed, with links in the order of the
listing. -/
theorem exists_network?_toGraph (hb : n.Built) (h : n.Importable) {name : Datum}
    {nm : Option Identifier} (hname : graphName name = .ok nm) (strict : Datum) :
    ∃ σ r, n.toGraph name strict = .ok (σ, r) ∧ σ.network? (.root r) = some
      ⟨n.directed, false, n.data.map NetData.plain, plainNodes n.nodes,
        n.edges.map (linkOf NetData.plain)⟩ := by
  obtain ⟨data, hdata, hkeys⟩ := hb.data
  have ha := h.data data hdata
  obtain ⟨t, ht⟩ := AttrTable.exists_update_declared ha hkeys
  obtain ⟨σ, r, xs, ys, hgraph, hxs, hys, hwrites⟩ := toGraph_writes strict rfl hname hdata ht
    (exists_nodeItem h hb) (exists_edgeItem h hb _)
  refine ⟨σ, r, hgraph, ?_⟩
  have hop : ((if n.directed then EdgeOperator.directed else .undirected) ==
      EdgeOperator.directed) = n.directed := by
    cases n.directed <;> rfl
  rw [Store.network?, hwrites.outline?, Option.map_some, Outline.network]
  simp only [Outline.header, Outline.items, hop, AttrTable.netData_of_update ha hkeys ht]
  rw [addItems_relisted h hb hxs hys, hdata, Option.map_some]

/-- A network that a graph shows comes back as it is listed. -/
theorem Shown.exists_toGraph (h : n.Shown) (hb : n.Built) {name : Datum} {nm : Option Identifier}
    (hname : graphName name = .ok nm) (strict : Datum) :
    ∃ σ r n', n.toGraph name strict = .ok (σ, r) ∧ σ.network? (.root r) = some n' ∧
      n'.directed = n.directed ∧ n'.parallel = n.parallel ∧ n'.data = n.data ∧
      n'.nodes = n.nodes ∧ n'.edges = n.edges := by
  -- The links need not be those of `n`, nor in their order; only the listing is the same.
  let n' : Network := ⟨n.directed, false, n.data.map NetData.plain, plainNodes n.nodes,
    n.edges.map (linkOf NetData.plain)⟩
  have hedges : n'.edges = n.edges.map (withData NetData.plain) :=
    edges_relisted hb.nodes rfl (keys_plainNodes n.nodes) rfl
  obtain ⟨σ, r, hgraph, hnetwork⟩ := exists_network?_toGraph hb h.importable hname strict
  exact ⟨σ, r, n', hgraph, hnetwork, rfl, hb.plain.symm, h.data_plain_eq, h.plainNodes_eq,
    hedges.trans h.withData_plain_eq⟩

end Network

theorem graphName_ofName (name : Option Identifier) :
    graphName (.ofName (name.map Identifier.text)) = .ok name := by
  cases name with
  | none => rfl
  | some name => simp [Datum.ofName, graphName, Identifier.ofDatum?]

namespace Store

variable {σ : Store}

/-- Whatever calls built a graph, its network can be made a graph of the same name and strictness,
if each statement that is part of the graph has a table of its own kind, be it shared or not; and
the network of this graph is the same: in its direction, its data, and its nodes and edges as they
are listed, with the same data in the same order on each. -/
theorem Reachable.network_again (h : σ.Reachable) {r : RootId} {g : Root}
    (hg : σ.root? r = some g) (hf : σ.Fitted r) :
    ∃ n σ' r' n', σ.network? (.root r) = some n ∧
      n.toGraph (.ofName (g.body.name.map Identifier.text)) g.strict = .ok (σ', r') ∧
      σ'.network? (.root r') = some n' ∧
      n'.directed = n.directed ∧ n'.parallel = n.parallel ∧ n'.data = n.data ∧
      n'.nodes = n.nodes ∧ n'.edges = n.edges := by
  obtain ⟨o, ho, hroot⟩ := h.exists_rootOutline? hg
  obtain ⟨strict, directed, hproper⟩ := h.proper hroot
  have hshown := hproper.shown (hf.rootOutline hroot)
  obtain ⟨σ', r', n', hgraph, hnetwork, hsame⟩ :=
    hshown.exists_toGraph hproper.built (graphName_ofName g.body.name) g.strict
  exact ⟨o.network, σ', r', n', by simp [network?, ho], hgraph, hnetwork, hsame⟩

/-- A graph without directions, a floating subgraph of two nodes, one of them with a port, and an
edge from the subgraph. -/
def mergedRun : List Call :=
  [.ask (.newRoot .absent true false),
    .subgraph (.root ⟨0⟩) .absent false
      [.ask (.insert (.subgraph ⟨0⟩) (.node (.nodeId ⟨⟨"left", by decide⟩, some .n⟩) .absent)
          [("shape", .text "box")]),
        .ask (.insert (.subgraph ⟨0⟩) (.node (.nodeId ⟨⟨"right", by decide⟩, none⟩) .absent) [])]
      none,
    .ask (.newStatement (.edge ⟨0, .subgraph ⟨0⟩, .node ⟨⟨"top", by decide⟩, none⟩,
      .undirected⟩) none)]

/-- Once the edge is there it gets data, one of its nodes is given again with data of its own, and
so is one of the two edges that the network has for it. -/
def mergedMore : List Call :=
  [.ask (.set (.statement ⟨2⟩) [("weight", .integer 2)]),
    .ask (.insert (.root ⟨0⟩) (.node (.nodeId ⟨⟨"left", by decide⟩, none⟩) .absent)
      [("color", .text "red")]),
    .ask (.insert (.root ⟨0⟩) (.edge (.datum (.nodeId ⟨⟨"top", by decide⟩, none⟩))
      (.datum (.nodeId ⟨⟨"left", by decide⟩, none⟩))) [("style", .text "dashed")])]

/-- The second network has the merged data, and lists each of the two edges once. -/
theorem network_again_merged :
    let σ := empty.after (mergedRun ++ [.ask (.add (.root ⟨0⟩) (.object (.statement ⟨2⟩)))] ++
      mergedMore)
    ∃ (g : Root) (n : Network) (σ' : Store) (r' : RootId) (n' : Network), σ.root? ⟨0⟩ = some g ∧
      n.toGraph (.ofName (g.body.name.map Identifier.text)) g.strict = .ok (σ', r') ∧
      σ'.network? (.root r') = some n' ∧
      n'.nodes = [(.text "left", [("color", .text "red")]), (.text "top", []),
        (.text "right", [])] ∧
      n'.edges = [⟨.text "left", .text "top", [("weight", .integer 2), ("style", .text "dashed")]⟩,
        ⟨.text "top", .text "right", [("weight", .integer 2)]⟩] := by
  have hadd : (empty.after mergedRun).checkMember (.root ⟨0⟩) (.statement ⟨2⟩) = .ok () :=
    checkMember_root_edge
      (e := ⟨0, .subgraph ⟨0⟩, .node ⟨⟨"top", by decide⟩, none⟩, .undirected⟩)
      (by decide +kernel) (by decide +kernel) (by decide +kernel) (by decide +kernel)
  intro σ
  have hσ : σ = ((empty.after mergedRun).attach (.root ⟨0⟩) (.statement ⟨2⟩)).after mergedMore := by
    simp only [σ]
    rw [after_append, after_append, after_add_statement hadd]
  have hreach : σ.Reachable := ⟨_, rfl⟩
  obtain ⟨g, hg⟩ : ∃ g, σ.root? ⟨0⟩ = some g := by
    rw [hσ]
    exact Option.isSome_iff_exists.1 (by decide +kernel)
  have hfitted : σ.Fitted ⟨0⟩ := by
    rw [hσ]
    exact fitted_of_forall (by decide +kernel) ⟨0⟩
  obtain ⟨n, σ', r', n', hn, hgraph, hnetwork, -, -, -, hnodes, hedges⟩ :=
    hreach.network_again hg hfitted
  have hlisting : (σ.network? (.root ⟨0⟩)).map (fun n => (n.nodes, n.edges)) =
      some ([(.text "left", [("color", .text "red")]), (.text "top", []), (.text "right", [])],
        [⟨.text "left", .text "top", [("weight", .integer 2), ("style", .text "dashed")]⟩,
          ⟨.text "top", .text "right", [("weight", .integer 2)]⟩]) := by
    rw [hσ]
    decide +kernel
  rw [hn] at hlisting
  obtain ⟨hnodes', hedges'⟩ := Prod.mk.inj (Option.some.inj hlisting)
  exact ⟨g, n, σ', r', n', hg, hgraph, hnetwork, hnodes.trans hnodes', hedges.trans hedges'⟩

/-- An edge with a weight, and a statement about a node with the table of the edge. -/
def edgeTableRun : List Call :=
  [.ask (.newRoot .absent false true),
    .ask (.insert (.root ⟨0⟩) (.edge (.datum (.text "left")) (.datum (.text "right")))
      [("weight", .integer 2)]),
    .ask (.newStatement (.node ⟨⟨"left", by decide⟩, none⟩) (some (.statement ⟨0⟩))),
    .ask (.add (.root ⟨0⟩) (.object (.statement ⟨1⟩)))]

/-- The node has a weight in the network of the graph, and none in the network of that network's
graph. -/
theorem network_again_edgeTable :
    let σ := empty.after edgeTableRun
    ∃ (g : Root) (n : Network) (σ' : Store) (r' : RootId) (n' : Network), σ.root? ⟨0⟩ = some g ∧
      σ.network? (.root ⟨0⟩) = some n ∧
      n.toGraph (.ofName (g.body.name.map Identifier.text)) g.strict = .ok (σ', r') ∧
      σ'.network? (.root r') = some n' ∧
      n.nodes = [(.text "left", [("weight", .integer 2)]), (.text "right", [])] ∧
      n'.nodes = [(.text "left", []), (.text "right", [])] := by
  intro σ
  have hboth : (σ.root? ⟨0⟩).bind (fun g => (σ.network? (.root ⟨0⟩)).bind fun n =>
      (n.toGraph (.ofName (g.body.name.map Identifier.text)) g.strict).toOption.bind fun made =>
        (made.1.network? (.root made.2)).map fun n' => (n.nodes, n'.nodes)) =
      some ([(.text "left", [("weight", .integer 2)]), (.text "right", [])],
        [(.text "left", []), (.text "right", [])]) := by
    decide +kernel
  obtain ⟨g, hg, hrest⟩ := Option.bind_eq_some_iff.1 hboth
  obtain ⟨n, hn, hrest⟩ := Option.bind_eq_some_iff.1 hrest
  obtain ⟨⟨σ', r'⟩, hgraph, hrest⟩ := Option.bind_eq_some_iff.1 hrest
  obtain ⟨n', hn', hpair⟩ := Option.map_eq_some_iff.1 hrest
  obtain ⟨hnodes, hnodes'⟩ := Prod.mk.inj hpair
  refine ⟨g, n, σ', r', n', hg, hn, ?_, hn', hnodes, hnodes'⟩
  cases hmade : n.toGraph (.ofName (g.body.name.map Identifier.text)) g.strict with
  | error e =>
    rw [hmade] at hgraph
    cases hgraph
  | ok made =>
    rw [hmade] at hgraph
    cases hgraph
    rfl

end Store

end DotGraph
