import DotGraph.Proofs.Outlines

/-!
What a root graph is made of: the bodies that links lead to and all that stands in them.  A
statement is made with a table of its own or with one that is there, so its table need not be of its
own kind.
-/

namespace DotGraph

mutual

/-- An item in which nodes and edges have tables of their own kinds. -/
def Item.Fitted : Item → Prop
  | .node _ attrs => attrs.schema = Schema.node
  | .edge tail head _ attrs => tail.Fitted ∧ head.Fitted ∧ attrs.schema = Schema.edge
  | .defaults _ _ _ => True
  | .subgraph inner => inner.Fitted

def Endpoint.Fitted : Endpoint → Prop
  | .node _ => True
  | .subgraph inner => inner.Fitted

def Outline.Fitted : Outline → Prop
  | ⟨_, items⟩ => fittedItems items

def fittedItems : List Item → Prop
  | [] => True
  | x :: rest => x.Fitted ∧ fittedItems rest

end

theorem fittedItems_iff {items : List Item} : fittedItems items ↔ ∀ x ∈ items, x.Fitted := by
  induction items with
  | nil => simp [fittedItems]
  | cons x rest ih => simp [fittedItems, ih]

theorem Outline.Fitted.items {o : Outline} (h : o.Fitted) : fittedItems o.items := by
  cases o
  exact h

namespace Store

open Relation

variable {σ : Store} {r : RootId}

/-- From a body to the bodies that statement lists and ends of edges lead to, one after the
other. -/
def Below (σ : Store) : BodyRef → BodyRef → Prop :=
  ReflTransGen fun b c => ∃ s, c = .subgraph s ∧ σ.LinksTo b s

theorem Below.linked {b b' : BodyRef} (h : σ.Below b b') {s : SubgraphId} (hs : σ.Linked b' s) :
    σ.Below b (.subgraph s) :=
  h.tail ⟨s, rfl, hs.linksTo⟩

theorem Uniform.hasOperator_of_below (hu : σ.Uniform) {b c : BodyRef} {operator : EdgeOperator}
    (h : σ.Below b c) (hb : σ.HasOperator b operator) : σ.HasOperator c operator := by
  induction h with
  | refl => exact hb
  | tail _ hstep ih =>
    obtain ⟨s, rfl, hlink⟩ := hstep
    obtain ⟨s', he, hl⟩ := hlink.leads
    obtain rfl := BodyRef.subgraph.inj he
    exact hu.hasOperator_of_linked ih hl

/-- What writing a root graph comes by: the bodies that links lead to, the graph itself among them,
and everything in their lists. -/
inductive PartOf (σ : Store) (r : RootId) : Object → Prop
  | body {b : BodyRef} (hb : σ.Below (.root r) b) : σ.PartOf r (.ofBody b)
  | member {b : BodyRef} {m : Member} (hb : σ.Below (.root r) b) (hm : m ∈ σ.members b) :
    σ.PartOf r (.ofMember m)

theorem eq_of_partOf_root {r' : RootId} (h : σ.PartOf r (.root r')) : r' = r := by
  generalize ho : Object.root r' = o at h
  cases h with
  | @body b hb =>
    cases b with
    | subgraph s => cases ho
    | root r'' =>
      obtain rfl := Object.root.inj ho
      rcases hb.cases_tail with he | ⟨c, -, s, he, -⟩
      · exact BodyRef.root.inj he
      · cases he
  | @member b m hb hm => cases m <;> cases ho

/-! ### Tables of their own kinds -/

/-- Every statement that is part of a root graph has a table of its own kind. -/
def Fitted (σ : Store) (r : RootId) : Prop :=
  ∀ i s, σ.PartOf r (.statement i) → σ.statement? i = some s →
    (σ.attrsAt s.table).schema = (Build.clauseAttrs s.clause).schema

theorem fitted_of_forall (h : ∀ s ∈ σ.statements.toList,
    (σ.attrsAt s.table).schema = (Build.clauseAttrs s.clause).schema) (r : RootId) : σ.Fitted r :=
  fun _ _ _ hs => h _ (Array.mem_toList_iff.2 (Array.mem_of_getElem? hs))

variable {inner : SubgraphId → Option Outline}

theorem fitted_of_endpointWith? {v : Vertex} {e : Endpoint}
    (h : ∀ s ∈ v.links, ∀ o, inner s = some o → o.Fitted)
    (he : endpointWith? inner v = some e) : e.Fitted := by
  cases v with
  | node id =>
    cases he
    trivial
  | subgraph s =>
    obtain ⟨o, ho, rfl⟩ := Option.map_eq_some_iff.1 he
    exact h s (by simp [Vertex.links]) o ho

theorem fitted_of_clauseWith? {clause : Clause} {attrs : AttrTable} {x : Item}
    (hs : attrs.schema = (Build.clauseAttrs clause).schema)
    (h : ∀ s ∈ clause.links, ∀ o, inner s = some o → o.Fitted)
    (hx : clauseWith? inner attrs clause = some x) : x.Fitted := by
  cases clause with
  | node id =>
    cases hx
    exact hs
  | edge e =>
    obtain ⟨tail, htail, hx⟩ := Option.bind_eq_some_iff.1 hx
    obtain ⟨head, hhead, hx⟩ := Option.bind_eq_some_iff.1 hx
    cases hx
    refine ⟨fitted_of_endpointWith? (fun s hs => h s ?_) htail,
      fitted_of_endpointWith? (fun s hs => h s ?_) hhead, hs⟩
    · simp [Clause.links, hs]
    · simp [Clause.links, hs]
  | defaults kind standalone =>
    cases hx
    trivial
  | noEdge given => cases hx

theorem Fitted.of_itemWith? (hf : σ.Fitted r) {b : BodyRef} (hb : σ.Below (.root r) b)
    {m : Member} (hm : m ∈ σ.members b)
    (h : ∀ s ∈ σ.memberLinks m, ∀ o, inner s = some o → o.Fitted) {x : Item}
    (hx : σ.itemWith? inner m = some x) : x.Fitted := by
  cases m with
  | subgraph s =>
    obtain ⟨o, ho, rfl⟩ := Option.map_eq_some_iff.1 hx
    exact h s (by simp) o ho
  | statement i =>
    obtain ⟨s, hi, hx⟩ := Option.bind_eq_some_iff.1 hx
    have hlinks : σ.memberLinks (.statement i) = s.clause.links := by simp [memberLinks, hi]
    rw [hlinks] at h
    exact fitted_of_clauseWith? (hf i s (.member hb hm) hi) h hx

theorem Fitted.of_outlineTo? (hf : σ.Fitted r) {depth : Nat} {b : BodyRef}
    (hb : σ.Below (.root r) b) {o : Outline} (ho : σ.outlineTo? depth b = some o) : o.Fitted := by
  induction depth generalizing b o with
  | zero => cases ho
  | succ depth ih =>
    obtain ⟨body, hbody, -, hitems⟩ := eq_some_of_bodyWith? ho
    obtain ⟨header, items⟩ := o
    refine fittedItems_iff.2 fun x hx => ?_
    have hmap := mapM_eq_some_iff.1 hitems
    have hsome : some x ∈ body.members.map
        (σ.itemWith? fun s => σ.outlineTo? depth (.subgraph s)) :=
      hmap ▸ List.mem_map_of_mem hx
    obtain ⟨m, hm, hxm⟩ := List.mem_map.1 hsome
    rw [← members_eq_of_body? hbody] at hm
    exact hf.of_itemWith? hb hm
      (fun s hs o ho => ih (hb.linked (List.mem_flatMap.2 ⟨m, hm, hs⟩)) ho) hxm

theorem Fitted.rootOutline (hf : σ.Fitted r) {g : RootOutline}
    (hg : σ.rootOutline? r = some g) : g.body.Fitted := by
  obtain ⟨root, -, ho, -⟩ := eq_some_of_rootOutline? hg
  exact hf.of_outlineTo? .refl ho

end Store

end DotGraph
