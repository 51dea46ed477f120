import DotGraph.Proofs.Mentions
import DotGraph.Proofs.Networks

/-!
The nodes of the network of a graph.  Each is mentioned below the root.  What is mentioned becomes a
node unless it is mentioned at an edge alone and nothing is at the other end of the edge: then there
is nothing to connect it to.
-/

namespace DotGraph

theorem Identifier.key_inj {name name' : Identifier} (h : name.key = name'.key) : name = name' :=
  Identifier.text_inj (Key.text.inj h)

/-! ### Nodes that an outline adds -/

mutual

/-- The nodes that an item of a graph adds to its network.  An edge adds nothing unless nodes are
mentioned at both ends. -/
def Item.Enters : Item → Identifier → Prop
  | .node id _, name => id.name = name
  | .edge tail head _ _, name => ∃ t ∈ tail.names, ∃ h ∈ head.names, name = t ∨ name = h
  | .defaults _ _ _, _ => False
  | .subgraph inner, name => inner.Enters name

def Outline.Enters : Outline → Identifier → Prop
  | ⟨_, items⟩, name => itemsEnter items name

def itemsEnter : List Item → Identifier → Prop
  | [], _ => False
  | x :: rest, name => x.Enters name ∨ itemsEnter rest name

end

theorem itemsEnter_iff {items : List Item} {name : Identifier} :
    itemsEnter items name ↔ ∃ x ∈ items, x.Enters name := by
  induction items with
  | nil => simp [itemsEnter]
  | cons x rest ih => simp [itemsEnter, ih]

namespace Network

variable {k : Key} {n : Network} {data : NetData}

theorem mem_keys_enter {name : Identifier} {entries : Entries Key NetData} :
    k ∈ (enter name.key data entries).keys ↔ k ∈ entries.keys ∨ k = name.key := by
  rw [keys_enter]
  split
  · rename_i h
    rw [Entries.has_eq_any, List.any_eq_true] at h
    obtain ⟨k', hk', he⟩ := h
    have hsame : k' = name.key := Key.eq_text_of_beq he
    have hmem : name.key ∈ entries.keys := hsame ▸ hk'
    constructor
    · exact .inl
    · rintro (h | rfl)
      · exact h
      · exact hmem
  · simp

theorem mem_keys_addEdge {tail head : Identifier} :
    k ∈ (n.addEdge tail.key head.key none data).nodes.keys ↔
      k ∈ n.nodes.keys ∨ k = tail.key ∨ k = head.key := by
  show k ∈ (enter head.key [] (enter tail.key [] n.nodes)).keys ↔ _
  rw [mem_keys_enter, mem_keys_enter, or_assoc]

theorem mem_keys_connectTail {tail : Identifier} {heads : List Identifier} :
    k ∈ (heads.foldl (fun n head => n.addEdge tail.key head.key none data) n).nodes.keys ↔
      k ∈ n.nodes.keys ∨ ∃ head ∈ heads, k = tail.key ∨ k = head.key := by
  induction heads generalizing n with
  | nil => simp
  | cons head rest ih => simp [ih, mem_keys_addEdge, or_assoc]

theorem mem_keys_connect {tails heads : List Identifier} :
    k ∈ (n.connect tails heads data).nodes.keys ↔
      k ∈ n.nodes.keys ∨ ∃ tail ∈ tails, ∃ head ∈ heads, k = tail.key ∨ k = head.key := by
  unfold connect
  induction tails generalizing n with
  | nil => simp
  | cons tail rest ih => simp [ih, mem_keys_connectTail, or_assoc]

mutual

theorem mem_keys_addItem : ∀ (x : Item) {n : Network},
    k ∈ (n.addItem x).nodes.keys ↔ k ∈ n.nodes.keys ∨ ∃ name, x.Enters name ∧ k = name.key
  | .node id attrs, n => by
    show k ∈ (enter id.name.key attrs.netData n.nodes).keys ↔ _
    simp [mem_keys_enter, Item.Enters]
  | .edge _ _ _ _, _ => by
    rw [addItem, mem_keys_connect]
    refine or_congr_right ⟨?_, ?_⟩
    · rintro ⟨t, ht, h, hh, rfl | rfl⟩
      · exact ⟨t, ⟨t, ht, h, hh, .inl rfl⟩, rfl⟩
      · exact ⟨h, ⟨t, ht, h, hh, .inr rfl⟩, rfl⟩
    · rintro ⟨name, ⟨t, ht, h, hh, hname⟩, rfl⟩
      exact ⟨t, ht, h, hh, hname.imp (congrArg Identifier.key) (congrArg Identifier.key)⟩
  | .defaults _ _ _, _ => by simp [addItem, Item.Enters]
  | .subgraph inner, _ => mem_keys_addInner inner

theorem mem_keys_addInner : ∀ (o : Outline) {n : Network},
    k ∈ (n.addInner o).nodes.keys ↔ k ∈ n.nodes.keys ∨ ∃ name, o.Enters name ∧ k = name.key
  | ⟨_, items⟩, _ => mem_keys_addItems items

theorem mem_keys_addItems : ∀ (items : List Item) {n : Network},
    k ∈ (n.addItems items).nodes.keys ↔
      k ∈ n.nodes.keys ∨ ∃ name, itemsEnter items name ∧ k = name.key
  | [], _ => by simp [addItems, itemsEnter]
  | x :: rest, _ => by
    rw [addItems, mem_keys_addItems rest, mem_keys_addItem x]
    simp only [itemsEnter, or_and_right, exists_or, or_assoc]

end

end Network

theorem Outline.mem_keys_network {o : Outline} {k : Key} :
    k ∈ o.network.nodes.keys ↔ ∃ name, o.Enters name ∧ k = name.key := by
  obtain ⟨header, items⟩ := o
  rw [Outline.network, Network.mem_keys_addItems]
  simp [Network.empty, Outline.Enters, Outline.items]

namespace Store

open Relation

variable {σ : Store} {b : BodyRef} {name : Identifier}

/-! ### Nodes that a body adds -/

/-- From a body to the subgraphs in statement lists, one inside the other. -/
def Lists (σ : Store) : BodyRef → BodyRef → Prop :=
  ReflTransGen fun b c => ∃ s, c = .subgraph s ∧ .subgraph s ∈ σ.members b

/-- A statement in the list of a body or of a subgraph inside it. -/
def InLists (σ : Store) (b : BodyRef) (i : StatementId) : Prop :=
  ∃ c, σ.Lists b c ∧ .statement i ∈ σ.members c

theorem inLists_iff_members {i : StatementId} :
    σ.InLists b i ↔
      .statement i ∈ σ.members b ∨ ∃ s, .subgraph s ∈ σ.members b ∧ σ.InLists (.subgraph s) i := by
  constructor
  · rintro ⟨c, hlists, hm⟩
    rcases ReflTransGen.cases_head hlists with rfl | ⟨-, ⟨s, rfl, hs⟩, hlists⟩
    · exact .inl hm
    · exact .inr ⟨s, hs, c, hlists, hm⟩
  · rintro (hm | ⟨s, hs, c, hlists, hm⟩)
    · exact ⟨b, .refl, hm⟩
    · exact ⟨c, .head ⟨s, rfl, hs⟩ hlists, hm⟩

/-- A node statement adds its node, and an edge the nodes at both ends, if there are any at both. -/
def ClauseEnters (σ : Store) : Clause → Identifier → Prop
  | .node id, name => id.name = name
  | .edge e, name =>
    ∃ t, σ.EndMentions e.tail t ∧ ∃ h, σ.EndMentions e.head h ∧ (name = t ∨ name = h)
  | _, _ => False

/-- What is added by statements in the list of a body and of the subgraphs inside it. -/
def Enters (σ : Store) (b : BodyRef) (name : Identifier) : Prop :=
  ∃ c i clause, σ.Lists b c ∧ .statement i ∈ σ.members c ∧ σ.clause? i = some clause ∧
    σ.ClauseEnters clause name

/-- Every edge in these lists has nodes mentioned at both of its ends or at none. -/
def EvenEdges (σ : Store) (b : BodyRef) : Prop :=
  ∀ c i e, σ.Lists b c → .statement i ∈ σ.members c → σ.clause? i = some (.edge e) →
    ((∃ name, σ.EndMentions e.tail name) ↔ ∃ name, σ.EndMentions e.head name)

theorem Lists.below {c : BodyRef} (h : σ.Lists b c) : σ.Below b c := by
  induction h with
  | refl => exact .refl
  | tail _ hstep ih =>
    obtain ⟨s, rfl, hs⟩ := hstep
    exact ih.tail ⟨s, rfl, .member hs⟩

theorem ClauseEnters.mentions {clause : Clause} (h : σ.ClauseEnters clause name) :
    σ.ClauseMentions clause name := by
  cases clause with
  | node id => exact h
  | edge e =>
    obtain ⟨t, ht, h, hh, rfl | rfl⟩ := h
    · exact .inl ht
    · exact .inr hh
  | defaults kind standalone => exact h
  | noEdge given => exact h

theorem Mentions.of_below {c : BodyRef} (hc : σ.Below b c) (h : σ.Mentions c name) :
    σ.Mentions b name := by
  obtain ⟨c', hc', hname⟩ := h
  exact ⟨c', hc.trans hc', hname⟩

theorem Enters.mentions (h : σ.Enters b name) : σ.Mentions b name := by
  obtain ⟨c, i, clause, hlists, hm, hi, hname⟩ := h
  refine .of_below hlists.below (mentions_iff_members.2 ?_)
  exact ⟨.statement i, hm, clause, hi, hname.mentions⟩

theorem EvenEdges.enters_of_clause (he : σ.EvenEdges b) {c : BodyRef} (hc : σ.Lists b c)
    {i : StatementId} (hm : .statement i ∈ σ.members c) {clause : Clause}
    (hi : σ.clause? i = some clause) (h : σ.ClauseMentions clause name) : σ.Enters b name := by
  refine ⟨c, i, clause, hc, hm, hi, ?_⟩
  cases clause with
  | node id => exact h
  | edge e =>
    have heven := he c i e hc hm hi
    rcases h with h | h
    · obtain ⟨other, hother⟩ := heven.1 ⟨name, h⟩
      exact ⟨name, h, other, hother, .inl rfl⟩
    · obtain ⟨other, hother⟩ := heven.2 ⟨name, h⟩
      exact ⟨other, hother, name, h, .inr rfl⟩
  | defaults kind standalone => exact h
  | noEdge given => exact h

/-- Wherever a node is named below a body, the way to it goes along lists until it is named there or
some edge mentions it. -/
theorem EvenEdges.enters (he : σ.EvenEdges b) (h : σ.Mentions b name) : σ.Enters b name := by
  obtain ⟨d, hbelow, hname⟩ := h
  suffices ∀ c, σ.Below c d → σ.Lists b c → σ.Enters b name from this b hbelow .refl
  intro c hcd
  induction hcd using ReflTransGen.head_induction_on with
  | refl =>
    intro hc
    obtain ⟨i, clause, hm, hi, hclause⟩ := hname.exists_clause
    exact he.enters_of_clause hc hm hi hclause
  | head hstep hbelow ih =>
    intro hc
    obtain ⟨s, rfl, hlink⟩ := hstep
    rcases hlink.exists_clause ⟨d, hbelow, hname⟩ with hm | ⟨i, clause, hm, hi, hclause⟩
    · exact ih (hc.tail ⟨s, rfl, hm⟩)
    · exact he.enters_of_clause hc hm hi hclause

/-! ### Outlines -/

def MemberEnters (σ : Store) : Member → Identifier → Prop
  | .statement i, name => ∃ clause, σ.clause? i = some clause ∧ σ.ClauseEnters clause name
  | .subgraph s, name => σ.Enters (.subgraph s) name

theorem enters_iff_inLists :
    σ.Enters b name ↔
      ∃ i clause, σ.InLists b i ∧ σ.clause? i = some clause ∧ σ.ClauseEnters clause name := by
  constructor
  · rintro ⟨c, i, clause, hlists, hm, hi, hname⟩
    exact ⟨i, clause, ⟨c, hlists, hm⟩, hi, hname⟩
  · rintro ⟨i, clause, ⟨c, hlists, hm⟩, hi, hname⟩
    exact ⟨c, i, clause, hlists, hm, hi, hname⟩

theorem enters_iff_members :
    σ.Enters b name ↔ ∃ m ∈ σ.members b, σ.MemberEnters m name := by
  rw [enters_iff_inLists]
  constructor
  · rintro ⟨i, clause, hlisted, hi, hname⟩
    rcases inLists_iff_members.1 hlisted with hm | ⟨s, hs, hinner⟩
    · exact ⟨.statement i, hm, clause, hi, hname⟩
    · exact ⟨.subgraph s, hs, enters_iff_inLists.2 ⟨i, clause, hinner, hi, hname⟩⟩
  · rintro ⟨m, hm, h⟩
    cases m with
    | statement i =>
      obtain ⟨clause, hi, hname⟩ := h
      exact ⟨i, clause, inLists_iff_members.2 (.inl hm), hi, hname⟩
    | subgraph s =>
      obtain ⟨i, clause, hinner, hi, hname⟩ := enters_iff_inLists.1 h
      exact ⟨i, clause, inLists_iff_members.2 (.inr ⟨s, hm, hinner⟩), hi, hname⟩

theorem enters_item_iff (hu : σ.Uniform) (ha : σ.Acyclic) {m : Member} {x : Item}
    (hx : σ.item? m = some x)
    (hinner : ∀ s, m = .subgraph s → ∀ o, σ.outline? (.subgraph s) = some o →
      (o.Enters name ↔ σ.Enters (.subgraph s) name)) :
    x.Enters name ↔ σ.MemberEnters m name := by
  cases m with
  | subgraph s =>
    obtain ⟨o, ho, rfl⟩ := Option.map_eq_some_iff.1 hx
    exact hinner s rfl o ho
  | statement i =>
    obtain ⟨s, -, ⟨id, hi, rfl⟩ | ⟨kind, standalone, hi, rfl⟩ |
      ⟨e, tail, head, hi, htail, hhead, rfl⟩⟩ := item?_statement_cases hx
    · simp [MemberEnters, hi, Item.Enters, ClauseEnters]
    · simp [MemberEnters, hi, Item.Enters, ClauseEnters]
    · have ht (t : Identifier) : t ∈ tail.names ↔ σ.EndMentions e.tail t :=
        mem_names_endpoint_iff htail fun s _ o ho => mem_names_iff hu ha ho
      have hh (h : Identifier) : h ∈ head.names ↔ σ.EndMentions e.head h :=
        mem_names_endpoint_iff hhead fun s _ o ho => mem_names_iff hu ha ho
      simp [MemberEnters, hi, Item.Enters, ClauseEnters, ht, hh]

theorem enters_iff (hu : σ.Uniform) (ha : σ.Acyclic) {o : Outline}
    (ho : σ.outline? b = some o) : o.Enters name ↔ σ.Enters b name := by
  induction b using ha.wellFounded.induction generalizing o with
  | _ b ih =>
    have hitems : o.Enters name ↔ ∃ x ∈ o.items, x.Enters name := by
      obtain ⟨header, items⟩ := o
      exact itemsEnter_iff
    rw [hitems, enters_iff_members]
    refine exists_item_iff hu ha ho fun m hm x hx => enters_item_iff hu ha hx fun s hs o ho => ?_
    refine ih _ (leads_of_memberLinks hm ?_) ho
    simp [hs]

/-- The nodes of the network of a root graph are those that node statements and edges add.  Each is
mentioned below the root; and where every edge has nodes mentioned at both ends or at none, all that
are mentioned are there. -/
theorem Reachable.nodes_of_network (h : σ.Reachable) {r : RootId} {g : Root}
    (hg : σ.root? r = some g) :
    ∃ n, σ.network? (.root r) = some n ∧
      (∀ k, k ∈ n.nodes.keys ↔ ∃ name, σ.Enters (.root r) name ∧ k = name.key) ∧
      (∀ name, σ.Enters (.root r) name → σ.Mentions (.root r) name) ∧
      (σ.EvenEdges (.root r) →
        ∀ name, name.key ∈ n.nodes.keys ↔ σ.Mentions (.root r) name) := by
  obtain ⟨o, ho, -⟩ := h.exists_rootOutline? hg
  have hkeys : ∀ k, k ∈ o.network.nodes.keys ↔
      ∃ name, σ.Enters (.root r) name ∧ k = name.key := by
    intro k
    simp only [Outline.mem_keys_network, enters_iff h.uniform h.acyclic ho]
  refine ⟨o.network, by simp [network?, ho], hkeys, fun name => Enters.mentions, ?_⟩
  intro heven name
  rw [hkeys]
  constructor
  · rintro ⟨name', hname, hk⟩
    obtain rfl := Identifier.key_inj hk
    exact hname.mentions
  · intro hname
    exact ⟨name, heven.enters hname, rfl⟩

/-- A directed graph, an edge from a node to a subgraph that floats and is empty, and a node. -/
def emptyEndRun : List Call :=
  [.ask (.newRoot .absent false true), .ask (.newSubgraph .absent true),
    .ask (.newStatement (.edge ⟨0, .node ⟨⟨"lost", by decide⟩, none⟩, .subgraph ⟨0⟩,
      .directed⟩) none),
    .ask (.newStatement (.node ⟨⟨"found", by decide⟩, none⟩) none)]

theorem checkMember_emptyEndRun :
    (empty.after emptyEndRun).checkMember (.root ⟨0⟩) (.statement ⟨0⟩) = .ok () :=
  checkMember_root_edge
    (e := ⟨0, .node ⟨⟨"lost", by decide⟩, none⟩, .subgraph ⟨0⟩, .directed⟩) (by decide +kernel)
    (by decide +kernel) (by decide +kernel) (by decide +kernel)

/-- Once the subgraph has a node, both ends of the edge are in the network. -/
theorem nodes_of_network_filledEnd :
    let σ := empty.after (emptyEndRun ++ [.ask (.add (.root ⟨0⟩) (.object (.statement ⟨0⟩)))] ++
      [.ask (.add (.subgraph ⟨0⟩) (.object (.statement ⟨1⟩)))])
    σ.EvenEdges (.root ⟨0⟩) ∧ σ.Mentions (.root ⟨0⟩) ⟨"lost", by decide⟩ ∧
      ∃ n, σ.network? (.root ⟨0⟩) = some n ∧
        ∀ name, name.key ∈ n.nodes.keys ↔ σ.Mentions (.root ⟨0⟩) name := by
  have hσ : empty.after (emptyEndRun ++ [.ask (.add (.root ⟨0⟩) (.object (.statement ⟨0⟩)))] ++
      [.ask (.add (.subgraph ⟨0⟩) (.object (.statement ⟨1⟩)))]) =
      ((empty.after emptyEndRun).attach (.root ⟨0⟩) (.statement ⟨0⟩)).after
        [.ask (.add (.subgraph ⟨0⟩) (.object (.statement ⟨1⟩)))] := by
    rw [after_append, after_append, after_add_statement checkMember_emptyEndRun]
  intro σ
  have hmembers : σ.members (.root ⟨0⟩) = [.statement ⟨0⟩] := by
    simp only [σ, hσ]
    decide +kernel
  obtain ⟨e, he, htail, hhead⟩ : ∃ e, σ.clause? ⟨0⟩ = some (.edge e) ∧
      σ.EndMentions e.tail ⟨"lost", by decide⟩ ∧ σ.EndMentions e.head ⟨"found", by decide⟩ := by
    have hedge : σ.edge? ⟨0⟩ =
        some ⟨0, .node ⟨⟨"lost", by decide⟩, none⟩, .subgraph ⟨0⟩, .directed⟩ := by
      simp only [σ, hσ]
      decide +kernel
    have hnode : σ.node? ⟨1⟩ = some ⟨⟨"found", by decide⟩, none⟩ := by
      simp only [σ, hσ]
      decide +kernel
    have hinner : .statement ⟨1⟩ ∈ σ.members (.subgraph ⟨0⟩) := by
      simp only [σ, hσ]
      decide +kernel
    exact ⟨_, σ.clause?_of_edge? hedge, rfl, .subgraph ⟨0⟩, .refl,
      .node hinner (σ.clause?_of_node? hnode) rfl⟩
  have heven : σ.EvenEdges (.root ⟨0⟩) := by
    intro c i e' hc hm hi
    obtain rfl : c = .root ⟨0⟩ := by
      rcases ReflTransGen.cases_head hc with hc | ⟨-, ⟨s, -, hs⟩, -⟩
      · exact hc.symm
      · simp [hmembers] at hs
    obtain rfl : i = ⟨0⟩ := by simpa [hmembers] using hm
    obtain rfl : e = e' := by simpa [he] using hi
    exact ⟨fun _ => ⟨_, hhead⟩, fun _ => ⟨_, htail⟩⟩
  have hlost : σ.Mentions (.root ⟨0⟩) ⟨"lost", by decide⟩ :=
    mentions_iff_members.2 ⟨.statement ⟨0⟩, by simp [hmembers], .edge e, he, .inl htail⟩
  obtain ⟨g, hg⟩ : ∃ g, σ.root? ⟨0⟩ = some g := by
    simp only [σ, hσ]
    exact Option.isSome_iff_exists.1 (by decide +kernel)
  have hreach : σ.Reachable := ⟨_, rfl⟩
  obtain ⟨n, hn, -, -, hall⟩ := hreach.nodes_of_network hg
  exact ⟨heven, hlost, n, hn, hall heven⟩

/-- While it is empty, the node at the other end is mentioned and not in the network. -/
theorem not_mem_network_emptyEnd :
    let σ := empty.after (emptyEndRun ++ [.ask (.add (.root ⟨0⟩) (.object (.statement ⟨0⟩)))])
    ∃ name n, σ.Mentions (.root ⟨0⟩) name ∧ σ.network? (.root ⟨0⟩) = some n ∧
      name.key ∉ n.nodes.keys := by
  have hσ : empty.after (emptyEndRun ++ [.ask (.add (.root ⟨0⟩) (.object (.statement ⟨0⟩)))]) =
      (empty.after emptyEndRun).attach (.root ⟨0⟩) (.statement ⟨0⟩) := by
    rw [after_append, after_add_statement checkMember_emptyEndRun]
  intro σ
  have hname : σ.NamesNode (.root ⟨0⟩) ⟨"lost", by decide⟩ := by
    have hmember : .statement ⟨0⟩ ∈ σ.members (.root ⟨0⟩) := by
      simp only [σ, hσ]
      decide +kernel
    have hedge : σ.edge? ⟨0⟩ =
        some ⟨0, .node ⟨⟨"lost", by decide⟩, none⟩, .subgraph ⟨0⟩, .directed⟩ := by
      simp only [σ, hσ]
      decide +kernel
    exact .tail hmember (σ.clause?_of_edge? hedge) rfl rfl
  have hn : σ.network? (.root ⟨0⟩) = some ⟨true, false, some [], [], []⟩ := by
    simp only [σ, hσ]
    decide +kernel
  exact ⟨_, _, ⟨_, .refl, hname⟩, hn, by simp⟩

end Store

end DotGraph
