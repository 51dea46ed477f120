import DotGraph.Proofs.DeclaredData
import DotGraph.Proofs.ImportedStatements
import DotGraph.Proofs.TableUpdates

/-!
Which networks have a graph, and what the graph says.  It takes identifiers for the graph, for the
nodes and for the ends of the listed edges, and values that the declared attributes accept.  The
graph then carries these values, in the order of the network's listing.
-/

namespace DotGraph

namespace Schema

variable {schema : Schema} {owner : String} {data : NetData}

/-- Whether each attribute that is declared has nothing for a value, or one that it accepts. -/
def Tolerates (schema : Schema) (data : NetData) : Prop :=
  ∀ entry ∈ data, ∀ spec, schema.get? entry.1 = some spec →
    entry.2 = .absent ∨ ∃ value, spec.coerce entry.2 = .ok value

/-- An entry of data as a table holds it, if it is declared and has a value. -/
def carried? (schema : Schema) (entry : String × Datum) : Option (String × AttrValue) :=
  match schema.get? entry.1 with
  | none => none
  | some spec => (spec.coerce entry.2).toOption.map fun value => (entry.1, value)

/-- The declared data that have a value, as a table holds them. -/
def carried (schema : Schema) (data : NetData) : Entries String AttrValue :=
  data.filterMap schema.carried?

theorem Tolerates.not_refuses (h : schema.Tolerates data) {entry : Datum × Datum}
    (he : entry ∈ AttrTable.underNames (Network.declared schema data)) (e : AttrError) :
    ¬schema.Refuses owner entry e := by
  obtain ⟨⟨name, given⟩, hmem, rfl⟩ := List.mem_map.1 he
  obtain ⟨hdata, hhas⟩ := List.mem_filter.1 hmem
  obtain ⟨spec, hspec⟩ := Option.isSome_iff_exists.1 hhas
  intro hrefused
  cases hrefused with
  | undeclared hashable unknown =>
    rw [unknown name rfl] at hspec
    cases hspec
  | notAKey unhashable => cases unhashable
  | value declared present refused =>
    rcases h (name, given) hdata _ declared with habsent | ⟨value, hvalue⟩
    · exact present habsent
    · rw [hvalue] at refused
      cases refused

theorem added_change? (schema : Schema) (entry : String × Datum) :
    ((schema.change? (.text entry.1, entry.2)).bind
        (Entries.added ([] : Entries String AttrValue))) = schema.carried? entry := by
  obtain ⟨name, given⟩ := entry
  cases hspec : schema.get? name with
  | none => simp [change?, carried?, hspec]
  | some spec =>
    cases hv : spec.coerce given with
    | ok value =>
      have hchange : schema.change? (.text name, given) = some (name, some value) :=
        change?_eq_some_iff.2 ⟨rfl, spec, hspec, hv⟩
      simp [hchange, carried?, hspec, hv, Entries.added, Entries.has, Except.toOption]
    | error e =>
      cases given <;>
        simp [change?, carried?, hspec, hv, Entries.added, Except.toOption]

theorem carried_declared (schema : Schema) (data : NetData) :
    schema.carried (Network.declared schema data) = schema.carried data := by
  rw [carried, Network.declared, List.filterMap_filter]
  refine List.filterMap_congr fun entry _ => ?_
  split
  · rfl
  · rename_i hhas
    have hnone : schema.get? entry.1 = none := by simpa [Entries.has] using hhas
    simp [carried?, hnone]

end Schema

namespace AttrTable

variable {schema : Schema} {data : NetData} {changes : Entries String (Option AttrValue)}

theorem changed_empty (owner : String) (hn : data.keys.Nodup)
    (h : (underNames (Network.declared schema data)).map schema.change? = changes.map some) :
    (empty schema owner).changed changes =
      { empty schema owner with entries := schema.carried data } := by
  have hkeys : changes.keys = (Network.declared schema data).keys := by
    have htexts := keys_of_changes h
    rw [keys_underNames] at htexts
    exact (List.map_inj_right fun _ _ => Datum.text.inj).1 htexts.symm
  have hnames : changes.keys.Nodup :=
    hkeys ▸ hn.sublist (List.filter_sublist.map Prod.fst)
  have hentries : Entries.changeAll [] changes = schema.carried data :=
    calc Entries.changeAll [] changes
        = changes.filterMap (Entries.added []) := Entries.changeAll_eq .nil hnames
      _ = ((underNames (Network.declared schema data)).filterMap schema.change?).filterMap
            (Entries.added []) := by rw [Schema.filterMap_of_changes h]
      _ = (Network.declared schema data).filterMap schema.carried? := by
        simp only [underNames, List.filterMap_map, List.filterMap_filterMap, Function.comp_def,
          Schema.added_change?]
      _ = schema.carried data := Schema.carried_declared schema data
  exact congrArg (AttrTable.mk schema owner) hentries

theorem update_declared_eq_ok_iff (schema : Schema) (owner : String) (hn : data.keys.Nodup)
    {t : AttrTable} :
    (empty schema owner).update (Network.declared schema data) = .ok t ↔
      schema.Tolerates data ∧ t = { empty schema owner with entries := schema.carried data } := by
  rw [← assignAll_underNames, assignAll_eq_ok_iff]
  constructor
  · rintro ⟨changes, hchanges, rfl⟩
    refine ⟨fun entry hmem spec hspec => ?_, changed_empty owner hn hchanges⟩
    have hdeclared : entry ∈ Network.declared schema data :=
      List.mem_filter.2 ⟨hmem, by simp [Entries.has, hspec]⟩
    have hchange : schema.change? (.text entry.1, entry.2) ∈ changes.map some := by
      rw [← hchanges]
      exact List.mem_map.2 ⟨_, List.mem_map.2 ⟨entry, hdeclared, rfl⟩, rfl⟩
    obtain ⟨⟨name, value⟩, -, hc⟩ := List.mem_map.1 hchange
    obtain ⟨hname, spec', hspec', hvalue⟩ := Schema.change?_eq_some_iff.1 hc.symm
    obtain rfl := Datum.text.inj hname
    obtain rfl := Option.some.inj (hspec.symm.trans hspec')
    cases value with
    | none => exact .inl hvalue
    | some v => exact .inr ⟨v, hvalue⟩
  · rintro ⟨htolerates, rfl⟩
    have hnone : ¬∃ e, schema.FirstRefusal owner (underNames (Network.declared schema data)) e := by
      rw [Schema.exists_firstRefusal_iff]
      rintro ⟨entry, hmem, e, he⟩
      exact htolerates.not_refuses hmem e he
    obtain ⟨changes, hchanges⟩ :=
      (Schema.changes_or_firstRefusal schema owner _).resolve_right hnone
    exact ⟨changes, hchanges, (changed_empty owner hn hchanges).symm⟩

end AttrTable

namespace Network

variable {n : Network} {name : Option String} {strict : Datum} {σ : Store} {r : RootId}

/-- The statement of a node: it is named by the text of the node and has what the node's data
carry. -/
def NodeCarried (node : Key × NetData) (x : Item) : Prop :=
  ∃ id : Identifier, id.text = node.1.name ∧
    x = .node ⟨id, none⟩ { AttrTable.ofNode with entries := Schema.node.carried node.2 }

/-- The statement of an edge: it joins nodes named by the texts of its ends and has what the edge's
data carry. -/
def EdgeCarried (operator : EdgeOperator) (e : NetEdge) (x : Item) : Prop :=
  ∃ u v : Identifier, u.text = e.tail.name ∧ v.text = e.head.name ∧
    x = .edge (.node ⟨u, none⟩) (.node ⟨v, none⟩) operator
      { AttrTable.ofEdge with entries := Schema.edge.carried e.data }

/-- What a network and a name for its graph have to be for the graph to be made. -/
structure Admissible (n : Network) (name : Option String) : Prop where
  name : ∀ s, name = some s → isIdentifier s = true
  nodes : ∀ node ∈ n.nodes, isIdentifier node.1.name = true
  edges : ∀ e ∈ n.edges, isIdentifier e.tail.name = true ∧ isIdentifier e.head.name = true
  data : ∃ data, n.data = some data ∧ Schema.rootGraph.Tolerates data
  nodeData : ∀ node ∈ n.nodes, Schema.node.Tolerates node.2
  edgeData : ∀ e ∈ n.edges, Schema.edge.Tolerates e.data

theorem nodeWritten_iff {node : Key × NetData} (hn : node.2.keys.Nodup) {x : Item} :
    NodeWritten node x ↔ Schema.node.Tolerates node.2 ∧ NodeCarried node x := by
  have hupdate := fun t => AttrTable.update_declared_eq_ok_iff Schema.node "node" hn (t := t)
  constructor
  · rintro ⟨id, t, hid, ht, rfl⟩
    obtain ⟨htolerates, rfl⟩ := (hupdate t).1 ht
    exact ⟨htolerates, id, hid.symm, rfl⟩
  · rintro ⟨htolerates, id, hid, rfl⟩
    exact ⟨id, _, hid.symm, (hupdate _).2 ⟨htolerates, rfl⟩, rfl⟩

theorem edgeWritten_iff {e : NetEdge} (hn : e.data.keys.Nodup) {operator : EdgeOperator}
    {x : Item} :
    EdgeWritten operator e x ↔ Schema.edge.Tolerates e.data ∧ EdgeCarried operator e x := by
  have hupdate := fun t => AttrTable.update_declared_eq_ok_iff Schema.edge "edge" hn (t := t)
  constructor
  · rintro ⟨u, v, t, hu, hv, ht, rfl⟩
    obtain ⟨htolerates, rfl⟩ := (hupdate t).1 ht
    exact ⟨htolerates, u, v, hu.symm, hv.symm, rfl⟩
  · rintro ⟨htolerates, u, v, hu, hv, rfl⟩
    exact ⟨u, v, _, hu.symm, hv.symm, (hupdate _).2 ⟨htolerates, rfl⟩, rfl⟩

theorem graphName_ofName_eq_ok_iff {nm : Option Identifier} :
    graphName (.ofName name) = .ok nm ↔ nm.map Identifier.text = name := by
  cases name with
  | none =>
    have hnone : graphName (.ofName none) = .ok none := rfl
    simp [hnone, eq_comm]
  | some s =>
    cases hs : Identifier.ofText? s with
    | none =>
      have hrefused : graphName (.ofName (some s)) = .error (.graphName (.text s)) := by
        simp [Datum.ofName, graphName, Identifier.ofDatum?, hs]
      rw [hrefused]
      constructor
      · intro h
        cases h
      · intro h
        obtain ⟨id, -, rfl⟩ := Option.map_eq_some_iff.1 h
        simp at hs
    | some id =>
      have hname : graphName (.ofName (some s)) = .ok (some id) := by
        simp [Datum.ofName, graphName, Identifier.ofDatum?, hs]
      obtain rfl := Identifier.text_of_ofText? hs
      rw [hname]
      constructor
      · rintro ⟨⟩
        rfl
      · intro h
        obtain ⟨id', rfl, hid⟩ := Option.map_eq_some_iff.1 h
        rw [Identifier.text_inj hid]

theorem Admissible.exists_graph (h : n.Admissible name) (htidy : n.Tidy) (strict : Datum) :
    ∃ σ r, n.toGraph (.ofName name) strict = .ok (σ, r) := by
  obtain ⟨nm, hname⟩ : ∃ nm : Option Identifier, nm.map Identifier.text = name := by
    cases name with
    | none => exact ⟨none, rfl⟩
    | some s => exact ⟨some ⟨s, h.name s rfl⟩, rfl⟩
  obtain ⟨data, hdata, htolerates⟩ := h.data
  have ht := (AttrTable.update_declared_eq_ok_iff Schema.rootGraph "graph"
    (htidy.data data hdata)).2 ⟨htolerates, rfl⟩
  obtain ⟨xs, hxs⟩ : ∃ xs, List.Forall₂ NodeWritten n.nodes xs :=
    exists_forall₂ fun node hnode => ⟨_, (nodeWritten_iff (htidy.nodes node hnode)).2
      ⟨h.nodeData node hnode, ⟨node.1.name, h.nodes node hnode⟩, rfl, rfl⟩⟩
  obtain ⟨ys, hys⟩ : ∃ ys, List.Forall₂ (EdgeWritten (.ofDirected n.directed)) n.edges ys :=
    exists_forall₂ fun e he => ⟨_, (edgeWritten_iff (htidy.edges e he)).2
      ⟨h.edgeData e he, ⟨e.tail.name, (h.edges e he).1⟩, ⟨e.head.name, (h.edges e he).2⟩,
        rfl, rfl, rfl⟩⟩
  obtain ⟨σ, r, hgraph, -⟩ := toGraph_of_written strict rfl (graphName_ofName_eq_ok_iff.2 hname)
    hdata ht hxs hys
  exact ⟨σ, r, hgraph⟩

/-- Only what is admissible is made a graph, and the graph carries it. -/
theorem carried_of_toGraph (htidy : n.Tidy)
    (h : n.toGraph (.ofName name) strict = .ok (σ, r)) :
    n.Admissible name ∧ ∃ nm data xs ys, nm.map Identifier.text = name ∧ n.data = some data ∧
      List.Forall₂ NodeCarried n.nodes xs ∧
      List.Forall₂ (EdgeCarried (.ofDirected n.directed)) n.edges ys ∧
      σ.Writes r ⟨.root r, nm, .ofDirected n.directed,
        { AttrTable.ofRoot with entries := Schema.rootGraph.carried data }⟩ strict (xs ++ ys) := by
  obtain ⟨nm, data, t, xs, ys, hname, hdata, ht, hxs, hys, hwrites⟩ := written_of_toGraph h
  obtain ⟨htolerates, rfl⟩ := (AttrTable.update_declared_eq_ok_iff Schema.rootGraph "graph"
    (htidy.data data hdata)).1 ht
  have hnm := graphName_ofName_eq_ok_iff.1 hname
  obtain ⟨hnodes, hxs⟩ : (∀ node ∈ n.nodes, isIdentifier node.1.name = true ∧
      Schema.node.Tolerates node.2) ∧ List.Forall₂ NodeCarried n.nodes xs := by
    refine (List.forall₂_and_left _ _).1 (((List.forall₂_and_left _ _).2 ⟨htidy.nodes, hxs⟩).imp ?_)
    rintro node x ⟨hn, hx⟩
    obtain ⟨hdata, hcarried⟩ := (nodeWritten_iff hn).1 hx
    obtain ⟨id, hid, -⟩ := id hcarried
    exact ⟨⟨hid ▸ id.wellFormed, hdata⟩, hcarried⟩
  obtain ⟨hedges, hys⟩ : (∀ e ∈ n.edges, (isIdentifier e.tail.name = true ∧
      isIdentifier e.head.name = true) ∧ Schema.edge.Tolerates e.data) ∧
      List.Forall₂ (EdgeCarried (.ofDirected n.directed)) n.edges ys := by
    refine (List.forall₂_and_left _ _).1 (((List.forall₂_and_left _ _).2 ⟨htidy.edges, hys⟩).imp ?_)
    rintro e x ⟨hn, hx⟩
    obtain ⟨hdata, hcarried⟩ := (edgeWritten_iff hn).1 hx
    obtain ⟨u, v, hu, hv, -⟩ := id hcarried
    exact ⟨⟨⟨hu ▸ u.wellFormed, hv ▸ v.wellFormed⟩, hdata⟩, hcarried⟩
  refine ⟨⟨fun s hs => ?_, fun node hnode => (hnodes node hnode).1, fun e he => (hedges e he).1,
    ⟨data, hdata, htolerates⟩, fun node hnode => (hnodes node hnode).2,
    fun e he => (hedges e he).2⟩, nm, data, xs, ys, hnm, hdata, hxs, hys, hwrites⟩
  obtain ⟨id, -, rfl⟩ := Option.map_eq_some_iff.1 (hnm.trans hs)
  exact id.wellFormed

/-- Whatever additions build a network, it is made a graph if and only if it is admissible.  The
graph then has one statement for each node and behind these one for each listed edge, each with what
its data carry.  Data that no attribute declares change nothing, whether they are left out of the
network or of the additions. -/
theorem toGraph_grown (directed parallel : Bool) (growths : List Growth) (name : Option String)
    (strict : Datum) :
    ((∃ σ r, (grown directed parallel growths).toGraph (.ofName name) strict = .ok (σ, r)) ↔
        (grown directed parallel growths).Admissible name) ∧
      (∀ σ r, (grown directed parallel growths).toGraph (.ofName name) strict = .ok (σ, r) →
        ∃ nm data xs ys, nm.map Identifier.text = name ∧
          (grown directed parallel growths).data = some data ∧
          List.Forall₂ NodeCarried (grown directed parallel growths).nodes xs ∧
          List.Forall₂ (EdgeCarried (.ofDirected directed))
            (grown directed parallel growths).edges ys ∧
          σ.Writes r ⟨.root r, nm, .ofDirected directed,
            { AttrTable.ofRoot with entries := Schema.rootGraph.carried data }⟩ strict
            (xs ++ ys)) ∧
      (∀ n : Network, n.stripped = (grown directed parallel growths).stripped →
        n.toGraph (.ofName name) strict =
          (grown directed parallel growths).toGraph (.ofName name) strict) ∧
      ∀ growths' : List Growth, growths'.map Growth.stripped = growths.map Growth.stripped →
        (grown directed parallel growths').toGraph (.ofName name) strict =
          (grown directed parallel growths).toGraph (.ofName name) strict := by
  have htidy := tidy_grown directed parallel growths
  have hsame : ∀ n : Network, n.stripped = (grown directed parallel growths).stripped →
      n.toGraph (.ofName name) strict =
        (grown directed parallel growths).toGraph (.ofName name) strict := by
    intro n hn
    rw [← toGraph_stripped n, hn, toGraph_stripped]
  refine ⟨⟨?_, fun h => h.exists_graph htidy strict⟩, ?_, hsame, ?_⟩
  · rintro ⟨σ, r, h⟩
    exact (carried_of_toGraph htidy h).1
  · intro σ r h
    obtain ⟨-, hcarried⟩ := carried_of_toGraph htidy h
    rwa [directed_grown] at hcarried
  · intro growths' hgrowths
    exact hsame _ (by rw [stripped_grown, stripped_grown, hgrowths])

end Network

end DotGraph
