import DotGraph.Proofs.Exports
import DotGraph.Proofs.Outcomes
import DotGraph.Proofs.Parts

/-!
One operator below a root graph.  It is chosen separately for every body and every edge, and only
compared where a link is made; still, all that is written below a root has the operator of the root.
-/

namespace DotGraph

mutual

/-- An item in which this operator stands at every edge, and every subgraph is made with it. -/
def Item.withOperator (operator : EdgeOperator) : Item → Item
  | .node id attrs => .node id attrs
  | .edge tail head _ attrs =>
    .edge (tail.withOperator operator) (head.withOperator operator) operator attrs
  | .defaults kind standalone attrs => .defaults kind standalone attrs
  | .subgraph inner => .subgraph (inner.withOperator operator)

def Endpoint.withOperator (operator : EdgeOperator) : Endpoint → Endpoint
  | .node id => .node id
  | .subgraph inner => .subgraph (inner.withOperator operator)

def Outline.withOperator (operator : EdgeOperator) : Outline → Outline
  | ⟨header, items⟩ => ⟨{ header with operator }, itemsWithOperator operator items⟩

def itemsWithOperator (operator : EdgeOperator) : List Item → List Item
  | [] => []
  | x :: rest => x.withOperator operator :: itemsWithOperator operator rest

end

def RootOutline.withOperator (operator : EdgeOperator) (g : RootOutline) : RootOutline :=
  { g with body := g.body.withOperator operator }

mutual

theorem Item.withOperator_eq_self {operator : EdgeOperator} :
    ∀ x : Item, x.Proper operator → x.withOperator operator = x
  | .node _ _, _ => rfl
  | .edge tail head o attrs, h => by
    obtain ⟨htail, hhead, rfl, -⟩ := h
    simp only [Item.withOperator, tail.withOperator_eq_self htail, head.withOperator_eq_self hhead]
  | .defaults _ _ _, _ => rfl
  | .subgraph inner, h => congrArg Item.subgraph (inner.withOperator_eq_self h)

theorem Endpoint.withOperator_eq_self {operator : EdgeOperator} :
    ∀ e : Endpoint, e.Proper operator → e.withOperator operator = e
  | .node _, _ => rfl
  | .subgraph inner, h => congrArg Endpoint.subgraph (inner.withOperator_eq_self h)

theorem Outline.withOperator_eq_self {operator : EdgeOperator} :
    ∀ o : Outline, o.Proper operator → o.withOperator operator = o
  | ⟨header, items⟩, h => by
    obtain ⟨rfl, -, hitems⟩ := h
    simp only [Outline.withOperator, itemsWithOperator_eq_self items hitems]

theorem itemsWithOperator_eq_self {operator : EdgeOperator} :
    ∀ items : List Item, properItems operator items → itemsWithOperator operator items = items
  | [], _ => rfl
  | x :: rest, h => by
    simp only [itemsWithOperator, x.withOperator_eq_self h.1, itemsWithOperator_eq_self rest h.2]

end

theorem RootOutline.Proper.withOperator_eq_self {g : RootOutline} {strict directed : Bool}
    (h : g.Proper strict directed) : g.withOperator g.body.header.operator = g := by
  obtain ⟨⟨header, items⟩, s⟩ := g
  obtain ⟨-, hop, -, hitems⟩ := h
  simp only [Outline.header, Outline.items] at hop hitems
  rw [← hop] at hitems
  simp only [withOperator, Outline.withOperator, Outline.header,
    itemsWithOperator_eq_self items hitems]

namespace Store

variable {σ : Store}

theorem Uniform.edge_operator_eq (hu : σ.Uniform) {b : BodyRef} {operator : EdgeOperator}
    (hb : σ.HasOperator b operator) {i : StatementId} {e : Edge} (hi : .statement i ∈ σ.members b)
    (he : σ.clause? i = some (.edge e)) : e.operator = operator := by
  obtain ⟨clause, hc, hsuits⟩ := hu b operator hb _ hi
  rw [he] at hc
  obtain rfl := Option.some.inj hc
  exact hsuits.1

/-- In every reachable store, all that statement lists and ends of edges lead to from a root graph
has the operator of the root, bodies and edges alike; and its text is the one in which this operator
stands at every edge, at whatever depth and inside whatever subgraph is written at an end. -/
theorem Reachable.operator_below_root (h : σ.Reachable) {r : RootId} {g : Root}
    (hg : σ.root? r = some g) (c : RenderConfig) :
    (∀ b, σ.Below (.root r) b → σ.HasOperator b g.body.operator ∧
      ∀ i e, .statement i ∈ σ.members b → σ.clause? i = some (.edge e) →
        e.operator = g.body.operator) ∧
      ∃ o word, σ.rootOutline? r = some o ∧ o.withOperator g.body.operator = o ∧
        g.body.operator.keyword? = some word ∧
        σ.dot? r c = some (Dot.root c word (o.withOperator g.body.operator)) := by
  have hr : σ.HasOperator (.root r) g.body.operator := by simp [HasOperator, body?, hg]
  refine ⟨fun b hb => ?_, ?_⟩
  · have ho := h.uniform.hasOperator_of_below hb hr
    exact ⟨ho, fun i e hi he => h.uniform.edge_operator_eq ho hi he⟩
  · obtain ⟨o, ho, hroot⟩ := h.exists_rootOutline? hg
    obtain ⟨word, hword⟩ := (h.typed hg).exists_keyword
    obtain ⟨body, hbody, hheader, -⟩ := eq_some_of_bodyWith? (b := .root r) ho
    obtain rfl : g.body = body := by simpa [body?, hg] using hbody
    obtain ⟨strict, directed, hp⟩ := h.proper hroot
    have hsame := hp.withOperator_eq_self
    simp only [hheader, headerOf] at hsame
    exact ⟨_, word, hroot, hsame, hword, by simp [dot?, keyword?, hg, hword, hroot, hsame]⟩

/-- A directed graph, an edge out of a subgraph that floats and is empty, and one to fill it
with. -/
def floatingEndRun : List Call :=
  [.ask (.newRoot .absent false true), .ask (.newSubgraph .absent true),
    .ask (.newStatement (.edge ⟨0, .subgraph ⟨0⟩, .node ⟨⟨"goal", by decide⟩, none⟩,
      .directed⟩) none),
    .ask (.newStatement (.edge ⟨1, .node ⟨⟨"start", by decide⟩, none⟩,
      .node ⟨⟨"stop", by decide⟩, none⟩, .directed⟩) none)]

/-- What a subgraph gets once an edge leads to it has the operator of the graph too. -/
theorem operator_below_root_floatingEnd :
    let σ := empty.after (floatingEndRun ++
      [.ask (.add (.root ⟨0⟩) (.object (.statement ⟨0⟩)))] ++
      [.ask (.add (.subgraph ⟨0⟩) (.object (.statement ⟨1⟩)))])
    ∃ g e, σ.root? ⟨0⟩ = some g ∧ σ.Below (.root ⟨0⟩) (.subgraph ⟨0⟩) ∧
      .statement ⟨1⟩ ∈ σ.members (.subgraph ⟨0⟩) ∧ σ.clause? ⟨1⟩ = some (.edge e) ∧
      e.operator = g.body.operator := by
  have hadd : (empty.after floatingEndRun).checkMember (.root ⟨0⟩) (.statement ⟨0⟩) = .ok () :=
    checkMember_root_edge (e := ⟨0, .subgraph ⟨0⟩, .node ⟨⟨"goal", by decide⟩, none⟩, .directed⟩)
      (by decide +kernel) (by decide +kernel) (by decide +kernel) (by decide +kernel)
  have hσ : empty.after (floatingEndRun ++ [.ask (.add (.root ⟨0⟩) (.object (.statement ⟨0⟩)))] ++
      [.ask (.add (.subgraph ⟨0⟩) (.object (.statement ⟨1⟩)))]) =
      ((empty.after floatingEndRun).attach (.root ⟨0⟩) (.statement ⟨0⟩)).after
        [.ask (.add (.subgraph ⟨0⟩) (.object (.statement ⟨1⟩)))] := by
    rw [after_append, after_append, after_add_statement hadd]
  intro σ
  have hreach : σ.Reachable := ⟨_, rfl⟩
  obtain ⟨g, hg⟩ : ∃ g, σ.root? ⟨0⟩ = some g := by
    simp only [σ, hσ]
    exact Option.isSome_iff_exists.1 (by decide +kernel)
  have hbelow : σ.Below (.root ⟨0⟩) (.subgraph ⟨0⟩) := by
    have hlinks : ⟨0⟩ ∈ σ.links (.root ⟨0⟩) := by
      simp only [σ, hσ]
      decide +kernel
    exact .linked .refl hlinks
  have hm : .statement ⟨1⟩ ∈ σ.members (.subgraph ⟨0⟩) := by
    simp only [σ, hσ]
    decide +kernel
  have he : σ.edge? ⟨1⟩ = some ⟨1, .node ⟨⟨"start", by decide⟩, none⟩,
      .node ⟨⟨"stop", by decide⟩, none⟩, .directed⟩ := by
    simp only [σ, hσ]
    decide +kernel
  have hc := σ.clause?_of_edge? he
  have hbodies := (hreach.operator_below_root hg .default).1
  exact ⟨g, _, hg, hbelow, hm, hc, (hbodies _ hbelow).2 _ _ hm hc⟩

end Store

end DotGraph
