import DotGraph.Example
import DotGraph.Proofs.Numerals
import DotGraph.Proofs.Success

/-!
The graphs that come with the library.  Whatever count is asked for, none of the steps that build
one is refused; each is a root graph that can be called for, and no text in it holds an escape.
-/

namespace DotGraph

open Text

/-! ### Numbered names -/

theorem isIdentifier_toString (n : Nat) : isIdentifier (toString n) = true :=
  (Numeral.ofInt n).isIdentifier_text (Numeral.text_ofInt n)

/-! ### Steps of the examples -/

namespace Example

open Build Store

/-- Texts that a schema takes, none of them with an escape. -/
def Suitable (schema : Schema) (attrs : List (String × String)) : Prop :=
  schema.Accepts (texts attrs) ∧ ∀ entry ∈ attrs, escape ∉ entry.2.toList

instance (schema : Schema) (attrs : List (String × String)) : Decidable (Suitable schema attrs) :=
  inferInstanceAs (Decidable (_ ∧ _))

theorem Suitable.takes {schema : Schema} {attrs : List (String × String)}
    (h : Suitable schema attrs) : schema.Takes escape (texts attrs) := by
  refine ⟨h.1, fun entry he => ?_⟩
  obtain ⟨entry', he', rfl⟩ := List.mem_map.1 he
  exact h.2 entry' he'

/-- A store in which a directed graph is filled. -/
abbrev Filling (bs : List BodyRef) (ss : List SubgraphId) (σ : Store) : Prop :=
  σ.Ready .directed escape bs ss

section

variable {bs : List BodyRef} {ss : List SubgraphId} {b : BodyRef}
  {attrs : List (String × String)}

theorem succeeds_nodeNamed (hb : b ∈ bs) {name : String} (hname : isIdentifier name = true)
    (ha : Suitable Schema.node attrs) :
    Succeeds (Filling bs ss) (nodeNamed b name attrs) fun _ => Filling bs ss :=
  (succeeds_node hb hname ha.takes).discard

theorem succeeds_edgeFrom (hb : b ∈ bs) {tail head : String} (ht : isIdentifier tail = true)
    (hh : isIdentifier head = true) (ha : Suitable Schema.edge attrs) :
    Succeeds (Filling bs ss) (edgeFrom b tail head attrs) fun _ => Filling bs ss := by
  have hv : endVertex? (.datum (.text tail)) = some (.node ⟨⟨tail, ht⟩, none⟩) := by
    simp [endVertex?, Identifier.ofText?, ht]
  have hw : endVertex? (.datum (.text head)) = some (.node ⟨⟨head, hh⟩, none⟩) := by
    simp [endVertex?, Identifier.ofText?, hh]
  have hends : ∀ s ∈ Vertex.links (.node ⟨⟨tail, ht⟩, none⟩) ++
      Vertex.links (.node ⟨⟨head, hh⟩, none⟩), BodyRef.subgraph s ∈ bs := by simp [Vertex.links]
  exact (succeeds_edge hb hv hw hends (.inl rfl) ha.takes).discard

theorem succeeds_nodeDefaults (hb : b ∈ bs) (ha : Suitable Schema.node attrs) :
    Succeeds (Filling bs ss) (nodeDefaults b attrs) fun _ => Filling bs ss :=
  (succeeds_defaults hb .node ha.takes).discard

theorem succeeds_subgraphAttrs {s : SubgraphId} (hs : .subgraph s ∈ bs)
    (ha : Suitable Schema.subgraph attrs) :
    Succeeds (Filling bs ss) (setAttrs (.subgraph s) (texts attrs)) fun _ => Filling bs ss :=
  succeeds_setAttrs hs ha.takes

theorem succeeds_digraph {name : Datum} {nm : Option Identifier}
    (hname : graphName name = .ok nm) :
    Succeeds (Filling [] []) (digraph name) fun g => Filling [.root g] [] :=
  succeeds_newRoot hname false true

end

/-! ### The examples -/

/-- The steps that build an example come to a root graph. -/
def Builds (x : Build RootId) : Prop :=
  Succeeds (Filling [] []) x fun g => Filling [.root g] []

theorem builds_basic : Builds buildBasic := by
  refine (succeeds_digraph rfl).bind fun g => ?_
  have hg : BodyRef.root g ∈ [BodyRef.root g] := by simp
  refine (succeeds_nodeDefaults hg (by decide)).bind fun _ => ?_
  refine (succeeds_nodeNamed hg (by decide) (by decide)).bind fun _ => ?_
  refine (succeeds_edgeFrom hg (by decide) (by decide) (by decide)).bind fun _ => ?_
  refine (succeeds_edgeFrom hg (by decide) (by decide) (by decide)).bind fun _ => ?_
  refine (succeeds_subgraph hg rfl true fun s => ?_).bind fun s => ?_
  · have hs : BodyRef.subgraph s ∈ [BodyRef.subgraph s, .root g] := by simp
    refine (succeeds_nodeDefaults hs (by decide)).bind fun _ => ?_
    exact succeeds_edgeFrom hs (by decide) (by decide) (by decide)
  · exact succeeds_pure fun _ h => h.mono (by simp)

theorem succeeds_row (g : RootId) {names : List String}
    (hnames : ∀ name ∈ names, isIdentifier name = true) :
    Succeeds (Filling [.root g] []) (row g names) fun _ => Filling [.root g] [] := by
  have hg : BodyRef.root g ∈ [BodyRef.root g] := by simp
  have hempty : ∀ s : SubgraphId, Succeeds (Filling [.subgraph s, .root g] [s])
      (pure () : Build Unit) fun _ => Filling [.subgraph s, .root g] [s] :=
    fun s => succeeds_pure fun _ h => h
  refine (succeeds_subgraph hg rfl true hempty).bind fun s => ?_
  have hs : BodyRef.subgraph s ∈ [BodyRef.subgraph s, .root g] := by simp
  have hfilled : Succeeds (Filling [.subgraph s, .root g] [])
      (names.forM fun name => nodeNamed (.subgraph s) name [])
      fun _ => Filling [.subgraph s, .root g] [] :=
    .forM fun name hm => succeeds_nodeNamed hs (hnames name hm) (by decide)
  refine (succeeds_subgraphAttrs hs (by decide)).bind fun _ => ?_
  exact hfilled.weaken fun _ h => h.mono (by simp)

theorem builds_commutative : Builds buildCommutative := by
  refine (succeeds_digraph rfl).bind fun g => ?_
  have hg : BodyRef.root g ∈ [BodyRef.root g] := by simp
  refine (succeeds_nodeDefaults hg (by decide)).bind fun _ => ?_
  refine (succeeds_edgeFrom hg (by decide) (by decide) (by decide)).bind fun _ => ?_
  refine (succeeds_edgeFrom hg (by decide) (by decide) (by decide)).bind fun _ => ?_
  refine (succeeds_edgeFrom hg (by decide) (by decide) (by decide)).bind fun _ => ?_
  refine (succeeds_edgeFrom hg (by decide) (by decide) (by decide)).bind fun _ => ?_
  refine (succeeds_edgeFrom hg (by decide) (by decide) (by decide)).bind fun _ => ?_
  refine (succeeds_edgeFrom hg (by decide) (by decide) (by decide)).bind fun _ => ?_
  refine (succeeds_edgeFrom hg (by decide) (by decide) (by decide)).bind fun _ => ?_
  refine (succeeds_row g (by decide)).bind fun _ => ?_
  refine (succeeds_row g (by decide)).bind fun _ => ?_
  exact succeeds_pure fun _ h => h

theorem builds_clusters : Builds buildClusters := by
  refine (succeeds_digraph rfl).bind fun g => ?_
  refine (succeeds_subgraph (by simp) rfl true fun s => ?_).bind
    fun s => ?_
  · have hs : BodyRef.subgraph s ∈ [BodyRef.subgraph s, .root g] := by simp
    refine (succeeds_subgraphAttrs hs (by decide)).bind fun _ => ?_
    refine (succeeds_nodeDefaults hs (by decide)).bind fun _ => ?_
    refine (succeeds_edgeFrom hs (by decide) (by decide) (by decide)).bind fun _ => ?_
    refine (succeeds_edgeFrom hs (by decide) (by decide) (by decide)).bind fun _ => ?_
    exact succeeds_edgeFrom hs (by decide) (by decide) (by decide)
  refine (succeeds_subgraph (by simp) rfl true fun t => ?_).bind
    fun t => ?_
  · have ht : BodyRef.subgraph t ∈ [BodyRef.subgraph t, .subgraph s, .root g] := by simp
    refine (succeeds_subgraphAttrs ht (by decide)).bind fun _ => ?_
    refine (succeeds_nodeDefaults ht (by decide)).bind fun _ => ?_
    refine (succeeds_edgeFrom ht (by decide) (by decide) (by decide)).bind fun _ => ?_
    refine (succeeds_edgeFrom ht (by decide) (by decide) (by decide)).bind fun _ => ?_
    exact succeeds_edgeFrom ht (by decide) (by decide) (by decide)
  have hg : BodyRef.root g ∈ [BodyRef.subgraph t, .subgraph s, .root g] := by simp
  have hends : ∀ ends ∈ [("start", "a0"), ("start", "b0"), ("a1", "b3"), ("b2", "a3"),
      ("a3", "a0"), ("a3", "end"), ("b3", "end")],
      isIdentifier ends.1 = true ∧ isIdentifier ends.2 = true := by decide
  refine (Succeeds.forM fun ends hm => ?_).bind fun _ => ?_
  · exact succeeds_edgeFrom hg (hends ends hm).1 (hends ends hm).2 (by decide)
  refine (succeeds_nodeNamed hg (by decide) (by decide)).bind fun _ => ?_
  refine (succeeds_nodeNamed hg (by decide) (by decide)).bind fun _ => ?_
  exact succeeds_pure fun _ h => h.mono (by simp)

theorem builds_subgraphEdge : Builds buildSubgraphEdge := by
  refine (succeeds_digraph rfl).bind fun g => ?_
  refine (succeeds_subgraph (by simp) rfl false fun s => ?_).bind fun s => ?_
  · have hs : BodyRef.subgraph s ∈ [BodyRef.subgraph s, .root g] := by simp
    refine (succeeds_nodeDefaults hs (by decide)).bind fun _ => ?_
    refine (succeeds_nodeNamed hs (by decide) (by decide)).bind fun _ => ?_
    exact succeeds_nodeNamed hs (by decide) (by decide)
  have hhead : endVertex? (.datum (.text "a")) = some (.node ⟨⟨"a", by decide⟩, none⟩) := rfl
  have hedge : Succeeds (Filling [.subgraph s, .root g] [])
      (Build.edge (.root g) (.object (.subgraph s)) (.datum (.text "a")) [])
      fun _ => Filling [.subgraph s, .root g] [] :=
    succeeds_edge (by simp) rfl hhead (by simp [Vertex.links])
      (.inr ⟨g, rfl⟩) ⟨by simp [Schema.Accepts], by simp⟩
  refine hedge.bind fun _ => ?_
  exact succeeds_pure fun _ h => h.mono (by simp)

theorem builds_numbered (count : Nat) : Builds (buildNumbered count) := by
  refine (succeeds_digraph rfl).bind fun g => ?_
  refine (Succeeds.forM fun i _ => ?_).bind fun _ => ?_
  · exact succeeds_nodeNamed (by simp) (isIdentifier_toString i) (by decide)
  exact succeeds_pure fun _ h => h

theorem builds (e : Example) (count : Nat) : Builds (e.build count) := by
  cases e with
  | basic => exact builds_basic
  | commutative => exact builds_commutative
  | clusters => exact builds_clusters
  | subgraphEdge => exact builds_subgraphEdge
  | numbered => exact builds_numbered count

/-- Every example is there, whatever the count: a root graph of a store that some run of calls comes
to, with no escape in any text. -/
theorem exists_graph (e : Example) (count : Nat) :
    ∃ σ r, e.graph count = .ok (σ, r) ∧ σ.Reachable ∧ σ.Lacks escape ∧
      ∃ g, σ.root? r = some g := by
  obtain ⟨hcalled, hyields⟩ := e.builds count
  obtain ⟨r, σ, hrun, hready⟩ := hyields Store.empty ready_empty
  obtain ⟨calls, hcalls⟩ := hcalled Store.empty
  rw [hrun.after_eq] at hcalls
  obtain ⟨body, hbody, -⟩ := Option.map_eq_some_iff.1 (hready.hasOperator (.root r) (by simp))
  obtain ⟨g, hg, -⟩ := Option.map_eq_some_iff.1 hbody
  refine ⟨σ, r, ?_, ⟨calls, hcalls.symm⟩, hready.lacks, g, hg⟩
  unfold Build.Yields at hrun
  rw [graph, hrun]

end Example

end DotGraph
