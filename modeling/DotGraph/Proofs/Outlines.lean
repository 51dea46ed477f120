import DotGraph.Proofs.Tables
import DotGraph.Proofs.Unfolding

/-!
Outlines of reachable stores.  At every depth, edges and subgraphs have the operator of the root,
defaults stand alone, bodies and defaults have tables of their own kinds, and every table holds only
what it declares.
-/

namespace DotGraph

mutual

/-- An item as it stands below a root graph with the given operator. -/
def Item.Proper (operator : EdgeOperator) : Item → Prop
  | .node _ attrs => attrs.Lawful
  | .edge tail head o attrs =>
    tail.Proper operator ∧ head.Proper operator ∧ o = operator ∧ attrs.Lawful
  | .defaults kind standalone attrs => standalone = true ∧ attrs.Sound (Schema.defaults kind)
  | .subgraph inner => inner.Proper operator

def Endpoint.Proper (operator : EdgeOperator) : Endpoint → Prop
  | .node _ => True
  | .subgraph inner => inner.Proper operator

def Outline.Proper (operator : EdgeOperator) : Outline → Prop
  | ⟨header, items⟩ =>
    header.operator = operator ∧ header.attrs.Sound Schema.subgraph ∧ properItems operator items

def properItems (operator : EdgeOperator) : List Item → Prop
  | [] => True
  | x :: rest => x.Proper operator ∧ properItems operator rest

end

/-- A root graph with the operator that its direction asks for, and all below it. -/
structure RootOutline.Proper (g : RootOutline) (strict directed : Bool) : Prop where
  strict_eq : g.strict = .flag strict
  operator_eq : g.body.header.operator = .ofDirected directed
  attrs : g.body.header.attrs.Sound Schema.rootGraph
  items : properItems (.ofDirected directed) g.body.items

theorem properItems_iff {operator : EdgeOperator} {items : List Item} :
    properItems operator items ↔ ∀ x ∈ items, x.Proper operator := by
  induction items with
  | nil => simp [properItems]
  | cons x rest ih => simp [properItems, ih]

namespace Store

variable {σ : Store} {inner : SubgraphId → Option Outline} {operator : EdgeOperator}

theorem proper_of_endpointWith? {v : Vertex} {e : Endpoint}
    (h : ∀ s ∈ v.links, ∀ o, inner s = some o → o.Proper operator)
    (he : endpointWith? inner v = some e) : e.Proper operator := by
  cases v with
  | node id =>
    cases he
    trivial
  | subgraph s =>
    obtain ⟨o, ho, rfl⟩ := Option.map_eq_some_iff.1 he
    exact h s (by simp [Vertex.links]) o ho

theorem proper_of_itemWith? (ht : σ.Tabled) {m : Member} (hm : σ.Suits operator m)
    (h : ∀ s ∈ σ.memberLinks m, ∀ o, inner s = some o → o.Proper operator) {x : Item}
    (hx : σ.itemWith? inner m = some x) : x.Proper operator := by
  cases m with
  | subgraph s =>
    obtain ⟨o, ho, rfl⟩ := Option.map_eq_some_iff.1 hx
    exact h s (by simp) o ho
  | statement i =>
    obtain ⟨clause, hc, hsuits⟩ := hm
    simp only [memberLinks_statement, hc, Option.map_some, Option.getD_some] at h
    obtain ⟨s, hi, rfl⟩ := Option.map_eq_some_iff.1 hc
    have hlawful := ht.lawful_statement hi
    simp only [itemWith?, hi, Option.bind_eq_bind, Option.bind_some] at hx
    cases hclause : s.clause with
    | node id =>
      rw [hclause] at hx
      cases hx
      exact hlawful
    | edge e =>
      rw [hclause] at hx hsuits h
      obtain ⟨tail, htail, hx⟩ := Option.bind_eq_some_iff.1 hx
      obtain ⟨head, hhead, hx⟩ := Option.bind_eq_some_iff.1 hx
      cases hx
      refine ⟨proper_of_endpointWith? (fun s hs => h s ?_) htail,
        proper_of_endpointWith? (fun s hs => h s ?_) hhead, hsuits.1, hlawful⟩
      · simp [Clause.links, hs]
      · simp [Clause.links, hs]
    | defaults kind standalone =>
      rw [hclause] at hx hsuits
      cases hx
      exact ⟨hsuits, ht.sound_defaults hi hclause⟩
    | noEdge given =>
      rw [hclause] at hsuits
      exact hsuits.elim

theorem proper_of_bodyWith? (hu : σ.Uniform) (ht : σ.Tabled) {b : BodyRef}
    (hb : σ.HasOperator b operator)
    (h : ∀ s ∈ σ.links b, ∀ o, inner s = some o → o.Proper operator) {o : Outline}
    (ho : σ.bodyWith? inner b = some o) :
    o.header.operator = operator ∧ o.header.attrs.Sound b.schema ∧
      properItems operator o.items := by
  obtain ⟨body, hbody, hheader, hitems⟩ := eq_some_of_bodyWith? ho
  have hop : body.operator = operator := by simpa [HasOperator, hbody] using hb
  rw [hheader]
  refine ⟨hop, ht.sound_body hbody, properItems_iff.2 fun x hx => ?_⟩
  have hmap := mapM_eq_some_iff.1 hitems
  have hsome : some x ∈ body.members.map (σ.itemWith? inner) := hmap ▸ List.mem_map_of_mem hx
  obtain ⟨m, hm, hxm⟩ := List.mem_map.1 hsome
  rw [← members_eq_of_body? hbody] at hm
  exact proper_of_itemWith? ht (hu b _ hb m hm)
    (fun s hs => h s (List.mem_flatMap.2 ⟨m, hm, hs⟩)) hxm

theorem proper_of_outlineTo? (hu : σ.Uniform) (ht : σ.Tabled) {depth : Nat} {s : SubgraphId}
    (hs : σ.HasOperator (.subgraph s) operator) {o : Outline}
    (ho : σ.outlineTo? depth (.subgraph s) = some o) : o.Proper operator := by
  induction depth generalizing s o with
  | zero => cases ho
  | succ depth ih =>
    obtain ⟨header, items⟩ := o
    exact proper_of_bodyWith? hu ht hs (fun t hl _ => ih (hu.hasOperator_of_linked hs hl)) ho

theorem Reachable.proper (h : σ.Reachable) {r : RootId} {g : RootOutline}
    (hg : σ.rootOutline? r = some g) : ∃ strict directed, g.Proper strict directed := by
  obtain ⟨root, hr, ho, hs⟩ := eq_some_of_rootOutline? hg
  obtain ⟨strict, directed, hstrict, hoperator⟩ := h.typed hr
  have hb : σ.HasOperator (.root r) (.ofDirected directed) := by
    simp [HasOperator, body?, hr, hoperator]
  obtain ⟨hop, hattrs, hitems⟩ := proper_of_bodyWith? h.uniform h.tabled hb
    (fun s hl _ => proper_of_outlineTo? h.uniform h.tabled (h.uniform.hasOperator_of_linked hb hl))
    ho
  exact ⟨strict, directed, hs.trans hstrict, hop, hattrs, hitems⟩

end Store

end DotGraph
