import DotGraph.Network.Import
import DotGraph.Proofs.Admission
import DotGraph.Proofs.NetworkListing

/-!
Networks without the data that no attribute declares.  Leaving these out can be done before or after
data are merged, nodes and edges added and edges listed, and the graph of a network is the same
without them.
-/

namespace DotGraph

namespace Entries

variable {κ : Type} [BEq κ] {f : NetData → NetData}

omit [BEq κ] in
/-- The same keys with other data. -/
def mapData (f : NetData → NetData) (entries : Entries κ NetData) : Entries κ NetData :=
  entries.map fun entry => (entry.1, f entry.2)

omit [BEq κ] in
@[simp] theorem keys_mapData (entries : Entries κ NetData) :
    (entries.mapData f).keys = entries.keys := by
  simp [mapData, keys]

theorem has_mapData (k : κ) (entries : Entries κ NetData) :
    (entries.mapData f).has k = entries.has k := by
  rw [has_eq_any, has_eq_any, keys_mapData]

theorem get?_mapData (k : κ) (entries : Entries κ NetData) :
    (entries.mapData f).get? k = (entries.get? k).map f := by
  induction entries with
  | nil => rfl
  | cons entry rest ih =>
    have hcons : mapData f (entry :: rest) = (entry.1, f entry.2) :: mapData f rest := rfl
    rw [hcons, get?_cons, get?_cons, ih]
    split <;> rfl

theorem put_mapData (k : κ) (data : NetData) (entries : Entries κ NetData) :
    (entries.put k data).mapData f = (entries.mapData f).put k (f data) := by
  induction entries with
  | nil => rfl
  | cons entry rest ih =>
    by_cases hk : (entry.1 == k) = true
    · simp [put, mapData, hk]
    · simp only [mapData] at ih
      simp [put, mapData, hk, ih]

end Entries

namespace Network

variable {schema : Schema}

/-! ### Data -/

@[simp] theorem declared_nil (schema : Schema) : declared schema [] = [] := rfl

@[simp] theorem declared_declared (schema : Schema) (data : NetData) :
    declared schema (declared schema data) = declared schema data := by
  simp [declared, List.filter_filter]

theorem declared_put (schema : Schema) (data : NetData) (name : String) (given : Datum) :
    declared schema (data.put name given) =
      if schema.has name then (declared schema data).put name given else declared schema data := by
  induction data with
  | nil => cases h : schema.has name <;> simp [declared, h]
  | cons entry rest ih =>
    obtain ⟨name', given'⟩ := entry
    simp only [declared] at ih
    by_cases hname : name' = name
    · subst hname
      cases h : schema.has name' <;> simp [declared, Entries.put, h]
    · cases h' : schema.has name' <;> cases h : schema.has name <;>
        simp_all [declared, Entries.put]

theorem declared_merge (schema : Schema) (data more : NetData) :
    declared schema (data.merge more) = (declared schema data).merge (declared schema more) := by
  induction more generalizing data with
  | nil => rfl
  | cons entry rest ih =>
    rw [Entries.merge_cons, ih, declared_put]
    cases h : schema.has entry.1 <;> simp [declared, h]

end Network

/-! ### Networks -/

/-- The link with declared data alone. -/
def Link.stripped (l : Link) : Link :=
  { l with strands := l.strands.mapData (Network.declared Schema.edge) }

@[simp] theorem Link.joins_stripped (l : Link) (directed : Bool) (u v : Key) :
    l.stripped.joins directed u v = l.joins directed u v := rfl

@[simp] theorem Link.other?_stripped (l : Link) (directed : Bool) (u : Key) :
    l.stripped.other? directed u = l.other? directed u := rfl

/-- The edge with declared data alone. -/
def NetEdge.stripped (e : NetEdge) : NetEdge :=
  { e with data := Network.declared Schema.edge e.data }

namespace Network

variable {schema : Schema}

/-- The network with declared data alone. -/
def stripped (n : Network) : Network where
  directed := n.directed
  parallel := n.parallel
  data := n.data.map (declared Schema.rootGraph)
  nodes := n.nodes.mapData (declared Schema.node)
  links := n.links.map Link.stripped

theorem enter_mapData (k : Key) (data : NetData) (entries : Entries Key NetData) :
    (enter k data entries).mapData (declared schema) =
      enter k (declared schema data) (entries.mapData (declared schema)) := by
  rw [enter, enter, Entries.put_mapData, Entries.get?_mapData, declared_merge]
  cases entries.get? k <;> rfl

theorem freshStrand_mapData (f : NetData → NetData) (strands : Entries Key NetData) :
    freshStrand (strands.mapData f) = freshStrand strands := by
  simp only [freshStrand, Entries.has_mapData]
  simp [Entries.mapData]

theorem addStrand_mapData (n : Network) (strand : Option Key) (data : NetData)
    (strands : Entries Key NetData) :
    (n.addStrand strand data strands).mapData (declared Schema.edge) =
      n.stripped.addStrand strand (declared Schema.edge data)
        (strands.mapData (declared Schema.edge)) := by
  simp only [addStrand, strandFor, freshStrand_mapData, enter_mapData]
  rfl

theorem stripped_addNode (n : Network) (k : Key) (data : NetData) :
    (n.addNode k data).stripped = n.stripped.addNode k (declared Schema.node data) := by
  simp only [stripped, addNode, enter_mapData]

theorem stripped_joinLinks (n : Network) (u v : Key) (strand : Option Key) (data : NetData)
    (links : List Link) :
    (n.joinLinks u v strand data links).map Link.stripped =
      n.stripped.joinLinks u v strand (declared Schema.edge data) (links.map Link.stripped) := by
  induction links with
  | nil =>
    have hnew := addStrand_mapData n strand data []
    simp only [joinLinks, List.map_cons, List.map_nil, Link.stripped, hnew]
    rfl
  | cons l rest ih =>
    have hdirected : n.stripped.directed = n.directed := rfl
    have hstrands := addStrand_mapData n strand data l.strands
    simp only [joinLinks, List.map_cons, Link.joins_stripped, hdirected]
    split
    · simp only [List.map_cons, Link.stripped, hstrands]
    · simp only [List.map_cons, ih]

theorem stripped_addEdge (n : Network) (u v : Key) (strand : Option Key) (data : NetData) :
    (n.addEdge u v strand data).stripped =
      n.stripped.addEdge u v strand (declared Schema.edge data) := by
  have hends : ((n.addNode u []).addNode v []).stripped =
      (n.stripped.addNode u []).addNode v [] := by
    rw [stripped_addNode, stripped_addNode, declared_nil]
  have hlinks := stripped_joinLinks ((n.addNode u []).addNode v []) u v strand data n.links
  rw [hends] at hlinks
  have hnodes := congrArg Network.nodes hends
  simp only [stripped] at hnodes
  simp only [addEdge, stripped, hnodes]
  exact congrArg _ hlinks

theorem stripped_listed (n : Network) (done : List Key) (u : Key) (l : Link) :
    n.stripped.listed done u l.stripped = (n.listed done u l).map NetEdge.stripped := by
  have hdirected : n.stripped.directed = n.directed := rfl
  simp only [listed, Link.other?_stripped, hdirected]
  split
  · rfl
  · split
    · rfl
    · simp [Link.stripped, NetEdge.stripped, Entries.mapData, Function.comp_def]

theorem stripped_edgesFrom (n : Network) (done us : List Key) :
    n.stripped.edgesFrom done us = (n.edgesFrom done us).map NetEdge.stripped := by
  induction us generalizing done with
  | nil => rfl
  | cons u rest ih =>
    have hat : n.stripped.edgesAt done u = (n.edgesAt done u).map NetEdge.stripped := by
      rw [edgesAt_eq, edgesAt_eq, List.map_flatMap]
      simp [stripped, List.flatMap_map, ← stripped_listed]
    rw [edgesFrom, edgesFrom, List.map_append, hat, ih]

theorem stripped_edges (n : Network) : n.stripped.edges = n.edges.map NetEdge.stripped := by
  have hkeys : n.stripped.nodes.keys = n.nodes.keys := Entries.keys_mapData n.nodes
  rw [edges, edges, hkeys, stripped_edgesFrom]

theorem importNode_declared (r : RootId) (k : Key) (data : NetData) :
    importNode r k (declared Schema.node data) = importNode r k data := by
  simp only [importNode, declared_declared]

theorem importEdge_stripped (r : RootId) (e : NetEdge) :
    importEdge r e.stripped = importEdge r e := by
  simp only [importEdge, NetEdge.stripped, declared_declared]

/-- The graph of a network does not depend on data that no attribute declares. -/
theorem toGraph_stripped (n : Network) (name strict : Datum) :
    n.stripped.toGraph name strict = n.toGraph name strict := by
  have hnodes (r : RootId) : (n.stripped.nodes.forM fun node => importNode r node.1 node.2) =
      n.nodes.forM fun node => importNode r node.1 node.2 := by
    simp only [stripped, Entries.mapData, List.forM_eq_forM, List.forM_map, importNode_declared]
  have hedges (r : RootId) :
      n.stripped.edges.forM (importEdge r) = n.edges.forM (importEdge r) := by
    simp only [stripped_edges, List.forM_eq_forM, List.forM_map, importEdge_stripped]
  have himport : n.stripped.importing name strict = n.importing name strict := by
    unfold importing
    simp only [hnodes, hedges]
    cases hdata : n.data <;> simp [stripped, hdata]
  rw [toGraph, toGraph, himport]

/-! ### Networks as additions build them -/

/-- One addition to a network: data of its own, a node, or an edge, on a strand of its own choice or
on one that is named. -/
inductive Growth where
  | data (more : NetData)
  | node (k : Key) (more : NetData)
  | edge (u v : Key) (strand : Option Key) (more : NetData)

/-- The addition with declared data alone. -/
def Growth.stripped : Growth → Growth
  | .data more => .data (declared Schema.rootGraph more)
  | .node k more => .node k (declared Schema.node more)
  | .edge u v strand more => .edge u v strand (declared Schema.edge more)

def grow (n : Network) : Growth → Network
  | .data more => { n with data := n.data.map fun data => data.merge more }
  | .node k more => n.addNode k more
  | .edge u v strand more => n.addEdge u v strand more

/-- The network that additions build, one after the other. -/
def grown (directed parallel : Bool) (growths : List Growth) : Network :=
  growths.foldl grow (empty directed parallel)

@[simp] theorem directed_grown (directed parallel : Bool) (growths : List Growth) :
    (grown directed parallel growths).directed = directed :=
  List.foldlRecOn (motive := fun n : Network => n.directed = directed) growths grow rfl
    fun n h growth _ => by cases growth <;> exact h

theorem exists_growth_of_add {n n' : Network} {position : Nat} {step : Addition}
    (h : n.add position step = .ok n') : ∃ growth, n' = n.grow growth := by
  cases step with
  | node id data =>
    obtain ⟨k, -, h⟩ := bind_eq_ok_iff.1 h
    cases h
    exact ⟨.node k data, rfl⟩
  | edge tail head data =>
    obtain ⟨u, -, h⟩ := bind_eq_ok_iff.1 h
    obtain ⟨v, -, h⟩ := bind_eq_ok_iff.1 h
    cases h
    exact ⟨.edge u v none data, rfl⟩

theorem exists_growths_of_addAll {n n' : Network} {position : Nat} {steps : List Addition}
    (h : n.addAll position steps = .ok n') :
    ∃ growths : List Growth, n' = growths.foldl grow n := by
  induction steps generalizing n position with
  | nil =>
    cases h
    exact ⟨[], rfl⟩
  | cons step rest ih =>
    obtain ⟨n₁, hadd, h⟩ := bind_eq_ok_iff.1 h
    obtain ⟨growth, rfl⟩ := exists_growth_of_add hadd
    obtain ⟨growths, rfl⟩ := ih h
    exact ⟨growth :: growths, rfl⟩

theorem exists_growths {directed parallel : Bool} {data : NetData} {steps : List Addition}
    {n : Network} (hdata : data.keys.Nodup)
    (h : ofAdditions directed parallel data steps = .ok n) :
    ∃ growths, n = grown directed parallel growths := by
  obtain ⟨growths, rfl⟩ := exists_growths_of_addAll h
  have hgrow : (empty directed parallel).grow (.data data) =
      { empty directed parallel with data := some data } := by
    have hmerge : Entries.merge [] data = data := Entries.ofList_eq hdata
    simp [grow, empty, hmerge]
  exact ⟨.data data :: growths, by rw [grown, List.foldl_cons, hgrow]⟩

theorem stripped_grow (n : Network) (growth : Growth) :
    (n.grow growth).stripped = n.stripped.grow growth.stripped := by
  cases growth with
  | data more =>
    have hdata : (n.data.map fun data => data.merge more).map (declared Schema.rootGraph) =
        (n.data.map (declared Schema.rootGraph)).map fun data =>
          data.merge (declared Schema.rootGraph more) := by
      cases n.data <;> simp [declared_merge]
    simp only [grow, Growth.stripped, stripped, hdata]
  | node k more => exact stripped_addNode n k more
  | edge u v strand more => exact stripped_addEdge n u v strand more

theorem stripped_grown (directed parallel : Bool) (growths : List Growth) :
    (grown directed parallel growths).stripped =
      grown directed parallel (growths.map Growth.stripped) := by
  have hfold : ∀ n : Network, (growths.foldl grow n).stripped =
      (growths.map Growth.stripped).foldl grow n.stripped := by
    induction growths with
    | nil => exact fun n => rfl
    | cons growth rest ih =>
      intro n
      rw [List.map_cons, List.foldl_cons, List.foldl_cons, ih, stripped_grow]
  exact hfold (empty directed parallel)

/-- Where all data of a network have distinct keys. -/
structure Tidy (n : Network) : Prop where
  data : ∀ data, n.data = some data → data.keys.Nodup
  nodes : ∀ node ∈ n.nodes, node.2.keys.Nodup
  strands : ∀ l ∈ n.links, ∀ strand ∈ l.strands, strand.2.keys.Nodup

theorem Tidy.addNode {n : Network} (h : n.Tidy) (k : Key) (data : NetData) :
    (n.addNode k data).Tidy where
  data := h.data
  nodes := nodup_data_enter h.nodes
  strands := h.strands

theorem Tidy.grow {n : Network} (h : n.Tidy) (growth : Growth) : (n.grow growth).Tidy := by
  cases growth with
  | data more =>
    refine ⟨fun data hdata => ?_, h.nodes, h.strands⟩
    obtain ⟨old, hold, rfl⟩ := Option.map_eq_some_iff.1 hdata
    exact Entries.nodup_keys_merge (h.data old hold)
  | node k more => exact h.addNode k more
  | edge u v strand more =>
    have hends := (h.addNode u []).addNode v []
    refine ⟨hends.data, hends.nodes, ?_⟩
    refine strands_joinLinks (P := fun strands => ∀ strand ∈ strands, strand.2.keys.Nodup)
      _ u v strand more ?_ (fun strands hs => nodup_data_enter hs) hends.strands
    exact nodup_data_enter (by simp)

theorem tidy_grown (directed parallel : Bool) (growths : List Growth) :
    (grown directed parallel growths).Tidy :=
  List.foldlRecOn growths grow
    ⟨fun data hdata => by cases hdata; exact .nil, by simp [empty], by simp [empty]⟩
    fun _ h growth _ => h.grow growth

theorem Tidy.edges {n : Network} (h : n.Tidy) : ∀ e ∈ n.edges, e.data.keys.Nodup := by
  intro e he
  obtain ⟨-, -, l, hl, -, strand, hs, hdata⟩ := mem_edgesFrom he
  exact hdata ▸ h.strands l hl strand hs

end Network

end DotGraph
