import DotGraph.Network.Export
import DotGraph.Proofs.OperatorAgreement

/-!
Which nodes a body mentions: those that statements name in it or in a subgraph below it.  An
outline, at whatever end of an edge it stands, mentions the nodes that its body does.
-/

namespace DotGraph

theorem mem_addNew {name : Identifier} {names more : List Identifier} :
    name ∈ addNew names more ↔ name ∈ names ∨ name ∈ more := by
  induction more generalizing names with
  | nil => simp [addNew]
  | cons first rest ih =>
    rw [addNew, ih]
    split
    · rename_i hfirst
      constructor
      · rintro (h | h)
        · exact .inl h
        · exact .inr (by simp [h])
      · rintro (h | h)
        · exact .inl h
        · rcases List.mem_cons.1 h with rfl | h
          · exact .inl hfirst
          · exact .inr h
    · simp [or_assoc]

theorem mem_namesAfter {name : Identifier} {names : List Identifier} {items : List Item} :
    name ∈ namesAfter names items ↔ name ∈ names ∨ ∃ x ∈ items, name ∈ x.names := by
  induction items generalizing names with
  | nil => simp [namesAfter]
  | cons x rest ih => simp [namesAfter, ih, mem_addNew, or_assoc]

theorem Outline.mem_names {name : Identifier} {o : Outline} :
    name ∈ o.names ↔ ∃ x ∈ o.items, name ∈ x.names := by
  obtain ⟨header, items⟩ := o
  simp [Outline.names, mem_namesAfter, Outline.items]

namespace Store

open Relation

variable {σ : Store} {b : BodyRef} {name : Identifier}

/-! ### What is mentioned -/

/-- A statement in the list of a body names a node: it is the statement of the node, or one of an
edge with the node at an end. -/
inductive NamesNode (σ : Store) (b : BodyRef) (name : Identifier) : Prop
  | node {i : StatementId} {id : NodeId} (h : .statement i ∈ σ.members b)
    (hi : σ.clause? i = some (.node id)) (hn : id.name = name)
  | tail {i : StatementId} {e : Edge} {id : NodeId} (h : .statement i ∈ σ.members b)
    (hi : σ.clause? i = some (.edge e)) (he : e.tail = .node id) (hn : id.name = name)
  | head {i : StatementId} {e : Edge} {id : NodeId} (h : .statement i ∈ σ.members b)
    (hi : σ.clause? i = some (.edge e)) (he : e.head = .node id) (hn : id.name = name)

/-- Whatever is named in a body or below it. -/
def Mentions (σ : Store) (b : BodyRef) (name : Identifier) : Prop :=
  ∃ c, σ.Below b c ∧ σ.NamesNode c name

/-- A node at the end of an edge, or one that a subgraph there mentions. -/
def EndMentions (σ : Store) : Vertex → Identifier → Prop
  | .node id, name => id.name = name
  | .subgraph s, name => σ.Mentions (.subgraph s) name

def ClauseMentions (σ : Store) : Clause → Identifier → Prop
  | .node id, name => id.name = name
  | .edge e, name => σ.EndMentions e.tail name ∨ σ.EndMentions e.head name
  | _, _ => False

def MemberMentions (σ : Store) : Member → Identifier → Prop
  | .statement i, name => ∃ clause, σ.clause? i = some clause ∧ σ.ClauseMentions clause name
  | .subgraph s, name => σ.Mentions (.subgraph s) name

theorem mentions_iff_links :
    σ.Mentions b name ↔
      σ.NamesNode b name ∨ ∃ s, σ.LinksTo b s ∧ σ.Mentions (.subgraph s) name := by
  constructor
  · rintro ⟨c, hbelow, hname⟩
    rcases ReflTransGen.cases_head hbelow with rfl | ⟨-, ⟨s, rfl, hlink⟩, hbelow⟩
    · exact .inl hname
    · exact .inr ⟨s, hlink, c, hbelow, hname⟩
  · rintro (hname | ⟨s, hlink, c, hbelow, hname⟩)
    · exact ⟨b, .refl, hname⟩
    · exact ⟨c, .head ⟨s, rfl, hlink⟩ hbelow, hname⟩

theorem NamesNode.exists_clause (h : σ.NamesNode b name) :
    ∃ i clause, .statement i ∈ σ.members b ∧ σ.clause? i = some clause ∧
      σ.ClauseMentions clause name := by
  obtain ⟨h, hi, hn⟩ | ⟨h, hi, he, hn⟩ | ⟨h, hi, he, hn⟩ := h
  · exact ⟨_, _, h, hi, hn⟩
  · exact ⟨_, _, h, hi, .inl (by rw [he]; exact hn)⟩
  · exact ⟨_, _, h, hi, .inr (by rw [he]; exact hn)⟩

theorem LinksTo.exists_clause {s : SubgraphId} (h : σ.LinksTo b s)
    (hs : σ.Mentions (.subgraph s) name) :
    .subgraph s ∈ σ.members b ∨ ∃ i clause, .statement i ∈ σ.members b ∧
      σ.clause? i = some clause ∧ σ.ClauseMentions clause name := by
  cases h with
  | member h => exact .inl h
  | tail h hi he => exact .inr ⟨_, _, h, hi, .inl (by rw [he]; exact hs)⟩
  | head h hi he => exact .inr ⟨_, _, h, hi, .inr (by rw [he]; exact hs)⟩

theorem mentions_iff_members :
    σ.Mentions b name ↔ ∃ m ∈ σ.members b, σ.MemberMentions m name := by
  rw [mentions_iff_links]
  constructor
  · rintro (hname | ⟨s, hlink, hs⟩)
    · obtain ⟨i, clause, hm, hi, hclause⟩ := hname.exists_clause
      exact ⟨.statement i, hm, clause, hi, hclause⟩
    · rcases hlink.exists_clause hs with hm | ⟨i, clause, hm, hi, hclause⟩
      · exact ⟨.subgraph s, hm, hs⟩
      · exact ⟨.statement i, hm, clause, hi, hclause⟩
  · rintro ⟨m, hm, h⟩
    cases m with
    | subgraph s => exact .inr ⟨s, .member hm, h⟩
    | statement i =>
      obtain ⟨clause, hi, h⟩ := h
      cases clause with
      | node id => exact .inl (.node hm hi h)
      | defaults kind standalone => cases h
      | noEdge given => cases h
      | edge e =>
        rcases h with h | h
        · cases he : e.tail with
          | node id => exact .inl (.tail hm hi he (by rwa [he] at h))
          | subgraph s => exact .inr ⟨s, .tail hm hi he, by rwa [he] at h⟩
        · cases he : e.head with
          | node id => exact .inl (.head hm hi he (by rwa [he] at h))
          | subgraph s => exact .inr ⟨s, .head hm hi he, by rwa [he] at h⟩

/-! ### Outlines -/

theorem mem_items_iff (hu : σ.Uniform) (ha : σ.Acyclic) {o : Outline}
    (ho : σ.outline? b = some o) {x : Item} :
    x ∈ o.items ↔ ∃ m ∈ σ.members b, σ.item? m = some x := by
  have hsome : x ∈ o.items ↔ some x ∈ o.items.map some := by simp
  rw [hsome, ← hu.intact.map_item? ha ho]
  exact List.mem_map

theorem exists_item_iff (hu : σ.Uniform) (ha : σ.Acyclic) {o : Outline}
    (ho : σ.outline? b = some o) {P : Item → Prop} {Q : Member → Prop}
    (h : ∀ m ∈ σ.members b, ∀ x, σ.item? m = some x → (P x ↔ Q m)) :
    (∃ x ∈ o.items, P x) ↔ ∃ m ∈ σ.members b, Q m := by
  constructor
  · rintro ⟨x, hx, hP⟩
    obtain ⟨m, hm, hmx⟩ := (mem_items_iff hu ha ho).1 hx
    exact ⟨m, hm, (h m hm x hmx).1 hP⟩
  · rintro ⟨m, hm, hQ⟩
    obtain ⟨x, hmx⟩ := exists_item? hu ha hm
    exact ⟨x, (mem_items_iff hu ha ho).2 ⟨m, hm, hmx⟩, (h m hm x hmx).2 hQ⟩

theorem mem_names_endpoint_iff {v : Vertex} {e : Endpoint} (he : σ.endpoint? v = some e)
    (hlinks : ∀ s ∈ v.links, ∀ o, σ.outline? (.subgraph s) = some o →
      (name ∈ o.names ↔ σ.Mentions (.subgraph s) name)) :
    name ∈ e.names ↔ σ.EndMentions v name := by
  cases v with
  | node id =>
    cases he
    simp [Endpoint.names, EndMentions, eq_comm]
  | subgraph s =>
    obtain ⟨o, ho, rfl⟩ := Option.map_eq_some_iff.1 he
    exact hlinks s (by simp [Vertex.links]) o ho

theorem item?_statement_cases {i : StatementId} {x : Item}
    (hx : σ.item? (.statement i) = some x) :
    ∃ s, σ.statement? i = some s ∧
      ((∃ id, σ.clause? i = some (.node id) ∧ x = .node id (σ.attrsAt s.table)) ∨
      (∃ kind standalone, σ.clause? i = some (.defaults kind standalone) ∧
        x = .defaults kind standalone.counts (σ.attrsAt s.table)) ∨
      ∃ e tail head, σ.clause? i = some (.edge e) ∧ σ.endpoint? e.tail = some tail ∧
        σ.endpoint? e.head = some head ∧
        x = .edge tail head e.operator (σ.attrsAt s.table)) := by
  obtain ⟨s, hs, hx⟩ := Option.bind_eq_some_iff.1 hx
  have hi : σ.clause? i = some s.clause := by simp [clause?, hs]
  refine ⟨s, hs, ?_⟩
  rw [hi]
  cases hc : s.clause with
  | node id =>
    rw [hc] at hx
    cases hx
    exact .inl ⟨id, rfl, rfl⟩
  | defaults kind standalone =>
    rw [hc] at hx
    cases hx
    exact .inr (.inl ⟨kind, standalone, rfl, rfl⟩)
  | noEdge given =>
    rw [hc] at hx
    cases hx
  | edge e =>
    rw [hc] at hx
    obtain ⟨tail, htail, hx⟩ := Option.bind_eq_some_iff.1 hx
    obtain ⟨head, hhead, hx⟩ := Option.bind_eq_some_iff.1 hx
    cases hx
    exact .inr (.inr ⟨e, tail, head, rfl, htail, hhead, rfl⟩)

theorem mem_names_item_iff {m : Member} {x : Item} (hx : σ.item? m = some x)
    (hlinks : ∀ s ∈ σ.memberLinks m, ∀ o, σ.outline? (.subgraph s) = some o →
      (name ∈ o.names ↔ σ.Mentions (.subgraph s) name)) :
    name ∈ x.names ↔ σ.MemberMentions m name := by
  cases m with
  | subgraph s =>
    obtain ⟨o, ho, rfl⟩ := Option.map_eq_some_iff.1 hx
    exact hlinks s (by simp) o ho
  | statement i =>
    obtain ⟨attrs, -, ⟨id, hi, rfl⟩ | ⟨kind, standalone, hi, rfl⟩ |
      ⟨e, tail, head, hi, htail, hhead, rfl⟩⟩ := item?_statement_cases hx
    · simp [MemberMentions, hi, Item.names, ClauseMentions, eq_comm]
    · simp [MemberMentions, hi, Item.names, ClauseMentions]
    · have hends : σ.memberLinks (.statement i) = e.tail.links ++ e.head.links := by
        simp [memberLinks_statement, hi, Clause.links]
      rw [hends] at hlinks
      have ht := mem_names_endpoint_iff htail fun s hs => hlinks s (by simp [hs])
      have hh := mem_names_endpoint_iff hhead fun s hs => hlinks s (by simp [hs])
      simp [MemberMentions, hi, Item.names, ClauseMentions, ht, hh]

theorem leads_of_memberLinks {m : Member} (hm : m ∈ σ.members b) {s : SubgraphId}
    (hs : s ∈ σ.memberLinks m) : σ.Leads b (.subgraph s) :=
  ⟨s, rfl, List.mem_flatMap.2 ⟨m, hm, hs⟩⟩

/-- By induction down the links, which come to an end. -/
theorem mem_names_iff (hu : σ.Uniform) (ha : σ.Acyclic) {o : Outline}
    (ho : σ.outline? b = some o) : name ∈ o.names ↔ σ.Mentions b name := by
  induction b using ha.wellFounded.induction generalizing o with
  | _ b ih =>
    rw [Outline.mem_names, mentions_iff_members]
    refine exists_item_iff hu ha ho fun m hm x hx => mem_names_item_iff hx fun s hs o ho => ?_
    exact ih _ (leads_of_memberLinks hm hs) ho

end Store

end DotGraph
