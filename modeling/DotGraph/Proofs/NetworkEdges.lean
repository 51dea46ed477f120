import DotGraph.Proofs.NetworkLinks
import DotGraph.Proofs.ShownData

/-!
The edges of the network of a graph and the data of its nodes.  Both come from statements in the
list of the root and in the lists of subgraphs inside it.  A subgraph that only stands at an end of
an edge gives the names of its nodes to that edge, but neither its edges nor attributes of nodes.
-/

namespace DotGraph

namespace Item

/-- An edge from a node mentioned at its tail to one mentioned at its head. -/
def Connects : Item → Identifier → Identifier → Prop
  | .edge tail head _ _, u, v => u ∈ tail.names ∧ v ∈ head.names
  | _, _, _ => False

/-- A statement of a node that sets an attribute. -/
def Describes : Item → Identifier → String → Prop
  | .node id attrs, name, key => id.name = name ∧ key ∈ attrs.netData.keys
  | _, _, _ => False

end Item

namespace Network

variable {n : Network} {items : List Item} {u v name : Identifier} {key : String}

theorem directed_addItem {x : Item} (hflat : x.IsFlat) :
    (n.addItem x).directed = n.directed := by
  cases x with
  | node id attrs => rfl
  | edge tail head operator attrs => exact directed_connect _ _ _
  | defaults kind standalone attrs => rfl
  | subgraph inner => exact hflat.elim

theorem directed_foldl_addItem (hflat : ∀ x ∈ items, x.IsFlat) :
    (items.foldl addItem n).directed = n.directed := by
  induction items generalizing n with
  | nil => rfl
  | cons x rest ih =>
    rw [List.foldl_cons, ih fun y hy => hflat y (by simp [hy]),
      directed_addItem (hflat x (.head _))]

/-- An edge from all names at its tail to all at its head runs between two nodes if one of these is
mentioned at the one end and one at the other. -/
theorem exists_sameEnds_iff {directed : Bool} {tail head : Endpoint} {operator : EdgeOperator}
    {attrs : AttrTable} :
    (∃ t ∈ tail.names, ∃ h ∈ head.names, SameEnds directed (t.key, h.key) (u.key, v.key)) ↔
      (Item.edge tail head operator attrs).Connects u v ∨
        (directed = false ∧ (Item.edge tail head operator attrs).Connects v u) := by
  simp only [sameEnds_keys_iff, Item.Connects]
  constructor
  · rintro ⟨t, ht, h, hh, ⟨htu, hhv⟩ | ⟨hd, htv, hhu⟩⟩
    · exact .inl ⟨Identifier.key_inj htu ▸ ht, Identifier.key_inj hhv ▸ hh⟩
    · exact .inr ⟨hd, Identifier.key_inj htv ▸ ht, Identifier.key_inj hhu ▸ hh⟩
  · rintro (⟨hu, hv⟩ | ⟨hd, hv, hu⟩)
    · exact ⟨u, hu, v, hv, .inl ⟨rfl, rfl⟩⟩
    · exact ⟨v, hv, u, hu, .inr ⟨hd, rfl, rfl⟩⟩

theorem hasLink_addItem {x : Item} (hflat : x.IsFlat) :
    (n.addItem x).HasLink (u.key, v.key) ↔
      n.HasLink (u.key, v.key) ∨ x.Connects u v ∨ (n.directed = false ∧ x.Connects v u) := by
  cases x with
  | node id attrs => simp [addItem, hasLink_addNode, Item.Connects]
  | defaults kind standalone attrs => simp [addItem, Item.Connects]
  | subgraph inner => exact hflat.elim
  | edge tail head operator attrs =>
    rw [addItem, hasLink_connect]
    exact or_congr_right exists_sameEnds_iff

theorem hasData_addItem {x : Item} (hflat : x.IsFlat) :
    (n.addItem x).HasData name.key key ↔ n.HasData name.key key ∨ x.Describes name key := by
  cases x with
  | node id attrs =>
    have hname : (id.name.key == name.key) = true ↔ id.name = name :=
      ⟨fun h => Identifier.key_inj (Key.eq_text_of_beq h), fun h => h ▸ Key.beq_refl _⟩
    rw [addItem, hasData_addNode, hname]
    rfl
  | defaults kind standalone attrs => simp [addItem, Item.Describes]
  | subgraph inner => exact hflat.elim
  | edge tail head operator attrs => simp [addItem, hasData_connect, Item.Describes]

theorem hasLink_foldl_addItem (hflat : ∀ x ∈ items, x.IsFlat) :
    (items.foldl addItem n).HasLink (u.key, v.key) ↔
      n.HasLink (u.key, v.key) ∨
        ∃ x ∈ items, x.Connects u v ∨ (n.directed = false ∧ x.Connects v u) := by
  induction items generalizing n with
  | nil => simp
  | cons x rest ih =>
    have hx : x.IsFlat := hflat x (.head _)
    rw [List.foldl_cons, ih fun y hy => hflat y (by simp [hy]), hasLink_addItem hx,
      directed_addItem hx, List.exists_mem_cons_iff, or_assoc]

theorem hasData_foldl_addItem (hflat : ∀ x ∈ items, x.IsFlat) :
    (items.foldl addItem n).HasData name.key key ↔
      n.HasData name.key key ∨ ∃ x ∈ items, x.Describes name key := by
  induction items generalizing n with
  | nil => simp
  | cons x rest ih =>
    rw [List.foldl_cons, ih fun y hy => hflat y (by simp [hy]), hasData_addItem (hflat x (.head _)),
      List.exists_mem_cons_iff, or_assoc]

end Network

theorem Outline.directed_network (o : Outline) :
    o.network.directed = (o.header.operator == .directed) := by
  rw [o.network_eq_foldl, Network.directed_foldl_addItem fun _ => o.isFlat_of_mem]
  rfl

/-- The edges of the network of an outline are those that its flat edge statements make. -/
theorem Outline.joins_network_iff (o : Outline) (hbuilt : o.network.Built) {u v : Identifier} :
    o.network.Joins u.key v.key ↔
      ∃ x ∈ o.flat, x.Connects u v ∨ (o.network.directed = false ∧ x.Connects v u) := by
  have hnone : ¬ Network.HasLink { Network.empty (o.header.operator == .directed) false with
      data := some o.header.attrs.netData } (u.key, v.key) := by
    rintro ⟨l, hl, -⟩
    cases hl
  rw [hbuilt.joins_iff, o.directed_network, o.network_eq_foldl,
    Network.hasLink_foldl_addItem fun _ => o.isFlat_of_mem, or_iff_right hnone]
  rfl

namespace Store

open Relation

variable {σ : Store} {b : BodyRef} {u v name : Identifier} {key : String}

/-! ### Statements in lists -/

theorem flat_of_statement {i : StatementId} {x : Item}
    (hx : σ.item? (.statement i) = some x) : x.flat = [x] := by
  obtain ⟨s, -, ⟨id, -, rfl⟩ | ⟨kind, standalone, -, rfl⟩ |
    ⟨e, tail, head, -, -, -, rfl⟩⟩ := item?_statement_cases hx <;> rfl

/-- A member shows an item itself, if it is a statement, or shows it inside. -/
def MemberShows (σ : Store) (x : Item) : Member → Prop
  | .statement i => σ.item? (.statement i) = some x
  | .subgraph s => ∃ i, σ.InLists (.subgraph s) i ∧ σ.item? (.statement i) = some x

theorem mem_flat_iff (hu : σ.Uniform) (ha : σ.Acyclic) {o : Outline}
    (ho : σ.outline? b = some o) {x : Item} :
    x ∈ o.flat ↔ ∃ i, σ.InLists b i ∧ σ.item? (.statement i) = some x := by
  induction b using ha.wellFounded.induction generalizing o with
  | _ b ih =>
    have hitems : (∃ y ∈ o.items, x ∈ y.flat) ↔ ∃ m ∈ σ.members b, σ.MemberShows x m := by
      refine exists_item_iff hu ha ho fun m hm y hy => ?_
      cases m with
      | subgraph s =>
        obtain ⟨inner, hinner, rfl⟩ := Option.map_eq_some_iff.1 hy
        exact ih _ (leads_of_memberLinks hm (by simp)) hinner
      | statement i =>
        rw [flat_of_statement hy, List.mem_singleton]
        show x = y ↔ σ.item? (.statement i) = some x
        rw [hy, Option.some.injEq, eq_comm]
    rw [Outline.mem_flat, hitems]
    constructor
    · rintro ⟨m, hm, hshows⟩
      cases m with
      | statement i => exact ⟨i, inLists_iff_members.2 (.inl hm), hshows⟩
      | subgraph s =>
        obtain ⟨i, hi, hx⟩ := hshows
        exact ⟨i, inLists_iff_members.2 (.inr ⟨s, hm, hi⟩), hx⟩
    · rintro ⟨i, hi, hx⟩
      rcases inLists_iff_members.1 hi with hm | ⟨s, hs, hi⟩
      · exact ⟨.statement i, hm, hx⟩
      · exact ⟨.subgraph s, hs, i, hi, hx⟩

theorem exists_flat_iff (hu : σ.Uniform) (ha : σ.Acyclic) {o : Outline}
    (ho : σ.outline? b = some o) {P : Item → Prop} {Q : StatementId → Prop}
    (h : ∀ i x, σ.item? (.statement i) = some x → (P x ↔ Q i)) :
    (∃ x ∈ o.flat, P x) ↔ ∃ i, σ.InLists b i ∧ Q i := by
  constructor
  · rintro ⟨x, hx, hP⟩
    obtain ⟨i, hi, hix⟩ := (mem_flat_iff hu ha ho).1 hx
    exact ⟨i, hi, (h i x hix).1 hP⟩
  · rintro ⟨i, hi, hQ⟩
    obtain ⟨c, hc, hm⟩ := hi
    obtain ⟨x, hix⟩ := exists_item? hu ha hm
    exact ⟨x, (mem_flat_iff hu ha ho).2 ⟨i, ⟨c, hc, hm⟩, hix⟩, (h i x hix).2 hQ⟩

/-- An edge in the lists leads from a node mentioned at its tail to one mentioned at its head. -/
def Connects (σ : Store) (b : BodyRef) (u v : Identifier) : Prop :=
  ∃ i, σ.InLists b i ∧ ∃ e, σ.clause? i = some (.edge e) ∧ σ.EndMentions e.tail u ∧
    σ.EndMentions e.head v

/-- A statement of the node in the lists has the attribute set. -/
def Describes (σ : Store) (b : BodyRef) (name : Identifier) (key : String) : Prop :=
  ∃ i, σ.InLists b i ∧ ∃ id attrs, σ.clause? i = some (.node id) ∧ id.name = name ∧
    σ.attrs? (.statement i) = some attrs ∧ key ∈ attrs.entries.keys

theorem connects_item_iff (hu : σ.Uniform) (ha : σ.Acyclic) {i : StatementId} {x : Item}
    (hx : σ.item? (.statement i) = some x) :
    x.Connects u v ↔ ∃ e, σ.clause? i = some (.edge e) ∧ σ.EndMentions e.tail u ∧
      σ.EndMentions e.head v := by
  obtain ⟨s, -, ⟨id, hi, rfl⟩ | ⟨kind, standalone, hi, rfl⟩ |
    ⟨e, tail, head, hi, htail, hhead, rfl⟩⟩ := item?_statement_cases hx
  · simp [hi, Item.Connects]
  · simp [hi, Item.Connects]
  · have ht : u ∈ tail.names ↔ σ.EndMentions e.tail u :=
      mem_names_endpoint_iff htail fun s _ o ho => mem_names_iff hu ha ho
    have hh : v ∈ head.names ↔ σ.EndMentions e.head v :=
      mem_names_endpoint_iff hhead fun s _ o ho => mem_names_iff hu ha ho
    simp [hi, Item.Connects, ht, hh]

theorem connects_iff (hu : σ.Uniform) (ha : σ.Acyclic) {o : Outline}
    (ho : σ.outline? b = some o) : (∃ x ∈ o.flat, x.Connects u v) ↔ σ.Connects b u v :=
  exists_flat_iff hu ha ho fun _ _ hx => connects_item_iff hu ha hx

theorem mem_keys_attrsAt_iff {i : StatementId} {s : Statement} (hs : σ.statement? i = some s) :
    key ∈ (σ.attrsAt s.table).entries.keys ↔
      ∃ attrs, σ.attrs? (.statement i) = some attrs ∧ key ∈ attrs.entries.keys := by
  rw [attrs?_statement hs, attrsAt]
  cases σ.table? s.table <;> simp [AttrTable.empty, Entries.keys]

theorem describes_iff (hu : σ.Uniform) (ha : σ.Acyclic) {o : Outline}
    (ho : σ.outline? b = some o) :
    (∃ x ∈ o.flat, x.Describes name key) ↔ σ.Describes b name key := by
  refine exists_flat_iff hu ha ho fun i x hx => ?_
  obtain ⟨s, hs, ⟨id, hi, rfl⟩ | ⟨kind, standalone, hi, rfl⟩ |
    ⟨e, tail, head, hi, htail, hhead, rfl⟩⟩ := item?_statement_cases hx
  · simp [hi, Item.Describes, AttrTable.keys_netData, mem_keys_attrsAt_iff hs]
  · simp [hi, Item.Describes]
  · simp [hi, Item.Describes]

/-! ### What is kept and what is lost -/

/-- A statement in a body that is written for a root graph. -/
def Written (σ : Store) (r : RootId) (i : StatementId) : Prop :=
  ∃ c, σ.Below (.root r) c ∧ .statement i ∈ σ.members c

/-- A network keeps an edge between two nodes as an edge, and attributes of a node in its data. -/
structure Keeps (σ : Store) (n : Network) (i : StatementId) : Prop where
  edge : ∀ e u v, σ.clause? i = some (.edge e) → e.tail = .node u → e.head = .node v →
    n.Joins u.name.key v.name.key
  node : ∀ id attrs key, σ.clause? i = some (.node id) → σ.attrs? (.statement i) = some attrs →
    key ∈ attrs.entries.keys → n.HasData id.name.key key

theorem Reachable.joins_network_iff (h : σ.Reachable) {r : RootId} {o : Outline}
    (ho : σ.outline? (.root r) = some o) (hbuilt : o.network.Built) :
    o.network.Joins u.key v.key ↔
      σ.Connects (.root r) u v ∨ (o.network.directed = false ∧ σ.Connects (.root r) v u) := by
  rw [o.joins_network_iff hbuilt, ← connects_iff h.uniform h.acyclic ho,
    ← connects_iff h.uniform h.acyclic ho]
  constructor
  · rintro ⟨x, hx, hxu | ⟨hd, hxv⟩⟩
    · exact .inl ⟨x, hx, hxu⟩
    · exact .inr ⟨hd, x, hx, hxv⟩
  · rintro (⟨x, hx, hxu⟩ | ⟨hd, x, hx, hxv⟩)
    · exact ⟨x, hx, .inl hxu⟩
    · exact ⟨x, hx, .inr ⟨hd, hxv⟩⟩

theorem Reachable.directed_network (h : σ.Reachable) {r : RootId} {g : Root} {o : Outline}
    (hg : σ.root? r = some g) (ho : σ.outline? (.root r) = some o) :
    o.network.directed = (g.body.operator == .directed) := by
  rw [outline?_eq h.uniform h.acyclic] at ho
  obtain ⟨body, hbody, hheader, -⟩ := eq_some_of_bodyWith? ho
  obtain rfl : g.body = body := by simpa [body?, hg] using hbody
  rw [o.directed_network, hheader]
  rfl

theorem Reachable.hasData_network_iff (h : σ.Reachable) {r : RootId} {o : Outline}
    (ho : σ.outline? (.root r) = some o) :
    o.network.HasData name.key key ↔ σ.Describes (.root r) name key := by
  have hnone : ¬ Network.HasData { Network.empty (o.header.operator == .directed) false with
      data := some o.header.attrs.netData } name.key key := by
    rintro ⟨data, hdata, -⟩
    cases hdata
  have hflat : ∀ x ∈ o.flat, x.IsFlat := fun _ => o.isFlat_of_mem
  rw [o.network_eq_foldl, Network.hasData_foldl_addItem hflat, or_iff_right hnone,
    describes_iff h.uniform h.acyclic ho]

/-- The edges of the network of a root graph are those that edge statements in its lists make, from
each node mentioned at the tail to each mentioned at the head; and a node has exactly the data that
its statements in the lists set.  So all that is written for the root is kept, edges between nodes
and attributes of nodes, if it stands in the list of the root or of a subgraph inside it. -/
theorem Reachable.edges_of_network (h : σ.Reachable) {r : RootId} {g : Root}
    (hg : σ.root? r = some g) :
    ∃ n, σ.network? (.root r) = some n ∧ n.directed = (g.body.operator == .directed) ∧
      (∀ u v : Identifier, n.Joins u.key v.key ↔
        σ.Connects (.root r) u v ∨ (n.directed = false ∧ σ.Connects (.root r) v u)) ∧
      (∀ (name : Identifier) (key : String),
        n.HasData name.key key ↔ σ.Describes (.root r) name key) ∧
      ∀ i, σ.InLists (.root r) i → σ.Written r i ∧ σ.Keeps n i := by
  obtain ⟨o, ho, hroot⟩ := h.exists_rootOutline? hg
  obtain ⟨strict, directed, hproper⟩ := h.proper hroot
  have hbuilt : o.network.Built := hproper.built
  have hjoins : ∀ u v : Identifier, o.network.Joins u.key v.key ↔
      σ.Connects (.root r) u v ∨ (o.network.directed = false ∧ σ.Connects (.root r) v u) :=
    fun _ _ => h.joins_network_iff ho hbuilt
  have hdata : ∀ (name : Identifier) (key : String),
      o.network.HasData name.key key ↔ σ.Describes (.root r) name key :=
    fun _ _ => h.hasData_network_iff ho
  refine ⟨o.network, by simp [network?, ho], h.directed_network hg ho, hjoins, hdata,
    fun i hi => ⟨?_, ?_, ?_⟩⟩
  · obtain ⟨c, hc, hm⟩ := hi
    exact ⟨c, hc.below, hm⟩
  · intro e u v hclause htail hhead
    refine (hjoins u.name v.name).2 (.inl ⟨i, hi, e, hclause, ?_, ?_⟩)
    · rw [htail]
      rfl
    · rw [hhead]
      rfl
  · intro id attrs key hclause hattrs hkey
    exact (hdata id.name key).2 ⟨i, hi, id, attrs, hclause, rfl, hattrs, hkey⟩

/-- A directed graph, a subgraph with a node and an edge in it, and an edge out of the subgraph. -/
def innerEdgeRun : List Call :=
  [.ask (.newRoot .absent false true), .ask (.newSubgraph .absent true),
    .ask (.insert (.subgraph ⟨0⟩) (.node (.text "a") .absent) [("label", .text "start")]),
    .ask (.insert (.subgraph ⟨0⟩) (.edge (.datum (.text "a")) (.datum (.text "b"))) []),
    .ask (.newStatement (.edge ⟨1, .subgraph ⟨0⟩, .node ⟨⟨"c", by decide⟩, none⟩, .directed⟩) none)]

theorem checkMember_innerEdgeRun :
    (empty.after innerEdgeRun).checkMember (.root ⟨0⟩) (.statement ⟨2⟩) = .ok () :=
  checkMember_root_edge
    (e := ⟨1, .subgraph ⟨0⟩, .node ⟨⟨"c", by decide⟩, none⟩, .directed⟩) (by decide +kernel)
    (by decide +kernel) (by decide +kernel) (by decide +kernel)

/-- The text while the subgraph stands at the end of the edge alone. -/
def innerEdgeText : String :=
  "digraph \x7b\n  subgraph \x7b\n    a[label=\"start\"]\n    a -> b\n  \x7d -> c\n\x7d\n"

/-- And the network. -/
def innerEdgeNetwork : Network :=
  ⟨true, false, some [], [(.text "a", []), (.text "c", []), (.text "b", [])],
    [⟨.text "a", .text "c", [(.integer 0, [])]⟩, ⟨.text "b", .text "c", [(.integer 0, [])]⟩]⟩

/-- The edge in the subgraph is written and lost, and so is the label of its node. -/
theorem not_keeps_innerEdge :
    let σ := empty.after (innerEdgeRun ++ [.ask (.add (.root ⟨0⟩) (.object (.statement ⟨2⟩)))])
    σ.dot? ⟨0⟩ .default = some innerEdgeText ∧
      σ.network? (.root ⟨0⟩) = some innerEdgeNetwork ∧
      (σ.Written ⟨0⟩ ⟨0⟩ ∧ ¬ σ.Keeps innerEdgeNetwork ⟨0⟩) ∧
      (σ.Written ⟨0⟩ ⟨1⟩ ∧ ¬ σ.Keeps innerEdgeNetwork ⟨1⟩) := by
  have hσ : empty.after (innerEdgeRun ++ [.ask (.add (.root ⟨0⟩) (.object (.statement ⟨2⟩)))]) =
      (empty.after innerEdgeRun).attach (.root ⟨0⟩) (.statement ⟨2⟩) := by
    rw [after_append, after_add_statement checkMember_innerEdgeRun]
  intro σ
  have hroot : σ.members (.root ⟨0⟩) = [.statement ⟨2⟩] := by
    simp only [σ, hσ]
    decide +kernel
  have hmembers : σ.members (.subgraph ⟨0⟩) = [.statement ⟨0⟩, .statement ⟨1⟩] := by
    simp only [σ, hσ]
    decide +kernel
  have hbelow : σ.Below (.root ⟨0⟩) (.subgraph ⟨0⟩) := by
    have hedge : σ.edge? ⟨2⟩ =
        some ⟨1, .subgraph ⟨0⟩, .node ⟨⟨"c", by decide⟩, none⟩, .directed⟩ := by
      simp only [σ, hσ]
      decide +kernel
    exact .single ⟨⟨0⟩, rfl, .tail (hroot ▸ .head _) (σ.clause?_of_edge? hedge) rfl⟩
  refine ⟨?_, ?_, ⟨?_, fun hkeeps => ?_⟩, ?_, fun hkeeps => ?_⟩
  · simp only [σ, hσ]
    decide +kernel
  · simp only [σ, hσ]
    decide +kernel
  · exact ⟨_, hbelow, by simp [hmembers]⟩
  · obtain ⟨id, attrs, hi, hattrs, hname, hlabel⟩ : ∃ id attrs, σ.clause? ⟨0⟩ = some (.node id) ∧
        σ.attrs? (.statement ⟨0⟩) = some attrs ∧ id.name.key = .text "a" ∧
        "label" ∈ attrs.entries.keys := by
      have hnode : σ.node? ⟨0⟩ = some ⟨⟨"a", by decide⟩, none⟩ := by
        simp only [σ, hσ]
        decide +kernel
      have hkeys : (σ.attrs? (.statement ⟨0⟩)).map (fun u => u.entries.keys) = some ["label"] := by
        simp only [σ, hσ]
        decide +kernel
      obtain ⟨attrs, hattrs, hkeys⟩ := Option.map_eq_some_iff.1 hkeys
      exact ⟨_, attrs, σ.clause?_of_node? hnode, hattrs, rfl, by simp [hkeys]⟩
    obtain ⟨data, hdata, hmem⟩ := hkeeps.node id attrs "label" hi hattrs hlabel
    rw [hname] at hdata
    cases hdata
    cases hmem
  · exact ⟨_, hbelow, by simp [hmembers]⟩
  · obtain ⟨e, u, v, hi, hu, hv, hname, hname'⟩ : ∃ e u v, σ.clause? ⟨1⟩ = some (.edge e) ∧
        e.tail = .node u ∧ e.head = .node v ∧ u.name.key = .text "a" ∧ v.name.key = .text "b" := by
      have hedge : σ.edge? ⟨1⟩ = some ⟨0, .node ⟨⟨"a", by decide⟩, none⟩,
          .node ⟨⟨"b", by decide⟩, none⟩, .directed⟩ := by
        simp only [σ, hσ]
        decide +kernel
      exact ⟨_, _, _, σ.clause?_of_edge? hedge, rfl, rfl, rfl, rfl⟩
    obtain ⟨f, hf, hends⟩ := hkeeps.edge e u v hi hu hv
    have hedges : innerEdgeNetwork.edges =
        [⟨.text "a", .text "c", []⟩, ⟨.text "b", .text "c", []⟩] := rfl
    rw [hedges] at hf
    rw [hname, hname'] at hends
    rcases hends with ⟨htail, hhead⟩ | ⟨hd, -⟩
    · simp only [List.mem_cons, List.not_mem_nil, or_false] at hf
      rcases hf with rfl | rfl
      · simp at hhead
      · simp at htail
    · cases hd

/-- Once it stands in the list of the graph too, both are kept. -/
theorem edges_of_network_innerEdge :
    let σ := empty.after (innerEdgeRun ++ [.ask (.add (.root ⟨0⟩) (.object (.statement ⟨2⟩)))] ++
      [.ask (.add (.root ⟨0⟩) (.object (.subgraph ⟨0⟩)))])
    ∃ n, σ.network? (.root ⟨0⟩) = some n ∧ σ.Keeps n ⟨0⟩ ∧ σ.Keeps n ⟨1⟩ ∧
      n.Joins (.text "a") (.text "b") := by
  have hσ₁ : empty.after (innerEdgeRun ++ [.ask (.add (.root ⟨0⟩) (.object (.statement ⟨2⟩)))]) =
      (empty.after innerEdgeRun).attach (.root ⟨0⟩) (.statement ⟨2⟩) := by
    rw [after_append, after_add_statement checkMember_innerEdgeRun]
  have hσ : empty.after (innerEdgeRun ++ [.ask (.add (.root ⟨0⟩) (.object (.statement ⟨2⟩)))] ++
      [.ask (.add (.root ⟨0⟩) (.object (.subgraph ⟨0⟩)))]) =
      ((empty.after innerEdgeRun).attach (.root ⟨0⟩) (.statement ⟨2⟩)).attach (.root ⟨0⟩)
        (.subgraph ⟨0⟩) := by
    rw [after_append, hσ₁, after_add_subgraph]
    exact checkMember_root_subgraph .directed (by decide +kernel) (by decide +kernel)
      (by decide +kernel)
  intro σ
  have hreach : σ.Reachable := ⟨_, rfl⟩
  obtain ⟨g, hg⟩ : ∃ g, σ.root? ⟨0⟩ = some g := by
    simp only [σ, hσ]
    exact Option.isSome_iff_exists.1 (by decide +kernel)
  have hlists : σ.Lists (.root ⟨0⟩) (.subgraph ⟨0⟩) := by
    have hroot : σ.members (.root ⟨0⟩) = [.statement ⟨2⟩, .subgraph ⟨0⟩] := by
      simp only [σ, hσ]
      decide +kernel
    exact .single ⟨⟨0⟩, rfl, hroot ▸ .tail _ (.head _)⟩
  have hmembers : σ.members (.subgraph ⟨0⟩) = [.statement ⟨0⟩, .statement ⟨1⟩] := by
    simp only [σ, hσ]
    decide +kernel
  obtain ⟨e, u, v, hi, hu, hv, hname, hname'⟩ : ∃ e u v, σ.clause? ⟨1⟩ = some (.edge e) ∧
      e.tail = .node u ∧ e.head = .node v ∧ u.name.key = .text "a" ∧ v.name.key = .text "b" := by
    have hedge : σ.edge? ⟨1⟩ = some ⟨0, .node ⟨⟨"a", by decide⟩, none⟩,
        .node ⟨⟨"b", by decide⟩, none⟩, .directed⟩ := by
      simp only [σ, hσ]
      decide +kernel
    exact ⟨_, _, _, σ.clause?_of_edge? hedge, rfl, rfl, rfl, rfl⟩
  obtain ⟨n, hn, -, -, -, hkeeps⟩ := hreach.edges_of_network hg
  have hnode : σ.Keeps n ⟨0⟩ := (hkeeps ⟨0⟩ ⟨_, hlists, by simp [hmembers]⟩).2
  have hedge : σ.Keeps n ⟨1⟩ := (hkeeps ⟨1⟩ ⟨_, hlists, by simp [hmembers]⟩).2
  refine ⟨n, hn, hnode, hedge, ?_⟩
  rw [← hname, ← hname']
  exact hedge.edge e u v hi hu hv

end Store

end DotGraph
