import DotGraph.Proofs.OperatorAgreement
import DotGraph.Proofs.SearchRounds
import DotGraph.Proofs.SubgraphText

/-!
The bodies that a subgraph writes.  Its text is a recursion over its outline, which comes to write a
subgraph at every entry of a statement list and at every end of an edge.  Where links never lead
back, these are the bodies that a search along links finds.
-/

namespace DotGraph

/-! ### The recursion of the text -/

mutual

/-- The bodies that are written for an item, each as often as it is written. -/
def Item.written : Item → List BodyRef
  | .node _ _ => []
  | .edge tail head _ _ => tail.written ++ head.written
  | .defaults _ _ _ => []
  | .subgraph inner => inner.written

def Endpoint.written : Endpoint → List BodyRef
  | .node _ => []
  | .subgraph inner => inner.written

def Outline.written : Outline → List BodyRef
  | ⟨header, items⟩ => header.source :: itemsWritten items

def itemsWritten : List Item → List BodyRef
  | [] => []
  | first :: rest => first.written ++ itemsWritten rest

end

variable {b c : BodyRef}

theorem mem_itemsWritten {items : List Item} :
    c ∈ itemsWritten items ↔ ∃ x ∈ items, c ∈ x.written := by
  induction items with
  | nil => simp [itemsWritten]
  | cons x rest ih => simp [itemsWritten, ih]

theorem Endpoint.mem_written {e : Endpoint} :
    c ∈ e.written ↔ ∃ inner, e.inner? = some inner ∧ c ∈ inner.written := by
  cases e <;> simp [Endpoint.written, Endpoint.inner?]

theorem Item.mem_written {x : Item} :
    c ∈ x.written ↔ ∃ role inner, x.target? role = some inner ∧ c ∈ inner.written := by
  cases x with
  | node id attrs => simp [Item.written, Item.target?]
  | defaults kind standalone attrs => simp [Item.written, Item.target?]
  | edge tail head operator attrs =>
    rw [Item.written, List.mem_append, Endpoint.mem_written, Endpoint.mem_written]
    constructor
    · rintro (⟨inner, htail, hc⟩ | ⟨inner, hhead, hc⟩)
      · exact ⟨.tail, inner, htail, hc⟩
      · exact ⟨.head, inner, hhead, hc⟩
    · rintro ⟨role, inner, ht, hc⟩
      cases role with
      | entry => cases ht
      | tail => exact .inl ⟨inner, ht, hc⟩
      | head => exact .inr ⟨inner, ht, hc⟩
  | subgraph inner =>
    constructor
    · intro hc
      exact ⟨.entry, inner, rfl, hc⟩
    · rintro ⟨role, o, ht, hc⟩
      cases role with
      | entry =>
        obtain rfl := Option.some.inj ht
        exact hc
      | tail => cases ht
      | head => cases ht

theorem Outline.mem_written {o : Outline} :
    c ∈ o.written ↔
      o.header.source = c ∨ ∃ ref inner, o.target? ref = some inner ∧ c ∈ inner.written := by
  obtain ⟨header, items⟩ := o
  rw [Outline.written, List.mem_cons, eq_comm, mem_itemsWritten]
  refine or_congr Iff.rfl ?_
  constructor
  · rintro ⟨x, hx, hc⟩
    obtain ⟨position, hposition⟩ := List.mem_iff_getElem?.1 hx
    obtain ⟨role, inner, ht, hc⟩ := Item.mem_written.1 hc
    exact ⟨⟨position, role⟩, inner, Option.bind_eq_some_iff.2 ⟨x, hposition, ht⟩, hc⟩
  · rintro ⟨ref, inner, ht, hc⟩
    obtain ⟨x, hposition, ht⟩ := Option.bind_eq_some_iff.1 ht
    exact ⟨x, List.mem_of_getElem? hposition, Item.mem_written.2 ⟨_, inner, ht, hc⟩⟩

namespace Store

open Relation

variable {σ : Store} {s : SubgraphId}

/-! ### Links and places -/

theorem subgraph?_eq_some_iff {v : Vertex} : v.subgraph? = some s ↔ v = .subgraph s := by
  cases v <;> simp [Vertex.subgraph?]

theorem linksTo_iff_target? : σ.LinksTo b s ↔ ∃ ref, σ.target? b ref = some s := by
  constructor
  · intro h
    obtain ⟨m, hm, role, hrole⟩ : ∃ m ∈ σ.members b, ∃ role, σ.memberTarget? m role = some s := by
      cases h with
      | member h => exact ⟨_, h, .entry, rfl⟩
      | tail h hi he =>
        exact ⟨_, h, .tail, by simp [memberTarget?, hi, Clause.target?, subgraph?_eq_some_iff, he]⟩
      | head h hi he =>
        exact ⟨_, h, .head, by simp [memberTarget?, hi, Clause.target?, subgraph?_eq_some_iff, he]⟩
    obtain ⟨position, hposition⟩ := List.mem_iff_getElem?.1 hm
    exact ⟨⟨position, role⟩, Option.bind_eq_some_iff.2 ⟨m, hposition, hrole⟩⟩
  · rintro ⟨ref, h⟩
    obtain ⟨m, hposition, hm⟩ := Option.bind_eq_some_iff.1 h
    have hmem := List.mem_of_getElem? hposition
    cases m with
    | subgraph s' =>
      cases hrole : ref.role with
      | entry =>
        rw [hrole] at hm
        obtain rfl := Option.some.inj hm
        exact .member hmem
      | tail => rw [hrole] at hm; cases hm
      | head => rw [hrole] at hm; cases hm
    | statement i =>
      obtain ⟨clause, hi, hm⟩ := Option.bind_eq_some_iff.1 hm
      cases clause with
      | edge e =>
        cases hrole : ref.role with
        | entry => rw [hrole] at hm; cases hm
        | tail => exact .tail hmem hi (subgraph?_eq_some_iff.1 (by rwa [hrole] at hm))
        | head => exact .head hmem hi (subgraph?_eq_some_iff.1 (by rwa [hrole] at hm))
      | _ => cases hm

theorem below_iff :
    σ.Below b c ↔ b = c ∨ ∃ ref s, σ.target? b ref = some s ∧ σ.Below (.subgraph s) c := by
  rw [Below, ReflTransGen.cases_head_iff]
  refine or_congr Iff.rfl ?_
  constructor
  · rintro ⟨-, ⟨s, rfl, hlink⟩, hbelow⟩
    obtain ⟨ref, href⟩ := linksTo_iff_target?.1 hlink
    exact ⟨ref, s, href, hbelow⟩
  · rintro ⟨ref, s, href, hbelow⟩
    exact ⟨_, ⟨s, rfl, linksTo_iff_target?.2 ⟨ref, href⟩⟩, hbelow⟩

theorem leads_iff : σ.Leads b c ↔ ∃ s, c = .subgraph s ∧ σ.LinksTo b s := by
  constructor
  · rintro ⟨s, rfl, hl⟩
    exact ⟨s, rfl, hl.linksTo⟩
  · rintro ⟨s, rfl, hl⟩
    exact hl.leads

theorem renders_iff_below : σ.renders s b = true ↔ σ.Below (.subgraph s) b := by
  have hleads : σ.Leads = fun b c => ∃ s, c = .subgraph s ∧ σ.LinksTo b s := by
    funext b c
    exact propext leads_iff
  rw [renders_iff, hleads, Below]

theorem Below.exists_follow? (h : σ.Below b c) : ∃ path, σ.follow? b path = some c := by
  induction h using ReflTransGen.head_induction_on with
  | refl => exact ⟨[], rfl⟩
  | head hstep _ ih =>
    obtain ⟨s, rfl, hlink⟩ := hstep
    obtain ⟨ref, href⟩ := linksTo_iff_target?.1 hlink
    obtain ⟨path, hpath⟩ := ih
    exact ⟨ref :: path, by simp [follow?, href, hpath]⟩

/-! ### What is written is what is below -/

/-- By induction down the links, which come to an end. -/
theorem mem_written_iff_below (hi : σ.Intact) (ha : σ.Acyclic) {o : Outline}
    (ho : σ.outline? b = some o) : c ∈ o.written ↔ σ.Below b c := by
  induction b using ha.wellFounded.induction generalizing o with
  | _ b ih =>
    rw [hi.outline?_eq ha] at ho
    have htarget := map_target?_of_bodyWith? ho
    obtain ⟨body, -, hheader, -⟩ := eq_some_of_bodyWith? ho
    rw [Outline.mem_written, below_iff, hheader]
    refine or_congr Iff.rfl ⟨?_, ?_⟩
    · rintro ⟨ref, inner, ht, hc⟩
      obtain ⟨s, hs, hinner⟩ := Option.map_eq_some_iff.1 ((htarget ref).trans (congrArg _ ht))
      have hleads := (linksTo_iff_target?.2 ⟨ref, hs⟩).leads
      exact ⟨ref, s, hs, (ih _ hleads hinner).1 hc⟩
    · rintro ⟨ref, s, hs, hbelow⟩
      have hleads := (linksTo_iff_target?.2 ⟨ref, hs⟩).leads
      obtain ⟨inner, ht, hinner⟩ :=
        Option.map_eq_some_iff.1 ((htarget ref).symm.trans (congrArg _ hs))
      exact ⟨ref, inner, ht, (ih _ hleads hinner.symm).2 hbelow⟩

/-- The text of a body holds that of every body below it, as many levels deeper as a path has
links. -/
theorem Below.infix_subgraph (h : σ.Below b c) (hi : σ.Intact) (ha : σ.Acyclic) {o : Outline}
    (ho : σ.outline? b = some o) (config : RenderConfig) (level : Int) :
    ∃ (inner : Outline) (depth : Nat), σ.outline? c = some inner ∧
      (Dot.subgraph config (level + depth) true inner).toList <:+:
        (Dot.subgraph config level true o).toList := by
  obtain ⟨path, hpath⟩ := h.exists_follow?
  have hmap := hi.map_follow? ha path ho
  rw [hpath] at hmap
  obtain ⟨inner, hinner, hc⟩ := Option.map_eq_some_iff.1 hmap.symm
  exact ⟨inner, path.length, hc.symm, Dot.infix_follow config path level hinner⟩

/-- In every store, whatever links to what, the rounds of the search come to an end, and they find a
body exactly if it is the subgraph itself or links lead to it.  Where links never lead back, it is
so exactly if the text of the subgraph comes to write the body, and then the text holds that of the
body. -/
theorem renders_iff_written (σ : Store) (s : SubgraphId) (b : BodyRef) :
    (∀ rounds, σ.linkCount σ.subgraphIds + 2 ≤ rounds →
      (Search.start s).answer? σ b rounds = some (σ.renders s b)) ∧
      (σ.renders s b = true ↔ σ.Below (.subgraph s) b) ∧
      (σ.Intact → σ.Acyclic → ∀ g, σ.subgraph? s = some g →
        ∃ o, σ.outline? (.subgraph s) = some o ∧ (σ.renders s b = true ↔ b ∈ o.written) ∧
          ∀ (c : RenderConfig) (level : Int), b ∈ o.written →
            ∃ (inner : Outline) (depth : Nat), σ.outline? b = some inner ∧
              (Dot.subgraph c (level + depth) true inner).toList <:+:
                (Dot.subgraph c level true o).toList) := by
  refine ⟨fun rounds h => answer?_start h, renders_iff_below, fun hi ha g hg => ?_⟩
  have hbody : σ.body? (.subgraph s) = some g.body := by simp [body?, hg]
  obtain ⟨o, ho⟩ := hi.exists_outline? ha hbody
  have hwritten := mem_written_iff_below (c := b) hi ha ho
  exact ⟨o, ho, renders_iff_below.trans hwritten.symm,
    fun c level hb => (hwritten.1 hb).infix_subgraph hi ha ho c level⟩

/-- A subgraph of no name and with the first table there is. -/
def bareSubgraph (members : List Member) : Subgraph :=
  ⟨⟨none, .directed, ⟨0⟩, members⟩, none⟩

/-- Two subgraphs that stand in each other, the first of them in itself too, and one apart. -/
def circle : Store :=
  ⟨#[.ofSubgraph], #[], #[bareSubgraph [.subgraph ⟨1⟩, .subgraph ⟨0⟩], bareSubgraph [.subgraph ⟨0⟩],
    bareSubgraph []], #[], 0, []⟩

/-- Two subgraphs, and an edge with the second at both ends, which is for the first. -/
def sharedEndsRun : List Call :=
  [.ask (.newSubgraph .absent true), .ask (.newSubgraph .absent true),
    .ask (.newStatement (.edge ⟨0, .subgraph ⟨1⟩, .subgraph ⟨1⟩, .directed⟩) none)]

/-- The search ends where links go around, and finds what is written twice where they do not. -/
theorem renders_iff_written_sharedEnds :
    let σ := empty.after (sharedEndsRun ++ [.ask (.add (.subgraph ⟨0⟩) (.object (.statement ⟨0⟩)))])
    circle.renders ⟨0⟩ (.subgraph ⟨1⟩) = true ∧ circle.renders ⟨0⟩ (.subgraph ⟨2⟩) = false ∧
      ∃ o, σ.outline? (.subgraph ⟨0⟩) = some o ∧
        o.written = [.subgraph ⟨0⟩, .subgraph ⟨1⟩, .subgraph ⟨1⟩] ∧
        σ.renders ⟨0⟩ (.subgraph ⟨1⟩) = true := by
  have hcircle (b : BodyRef) :
      (Search.start ⟨0⟩).answer? circle b 5 = some (circle.renders ⟨0⟩ b) :=
    (renders_iff_written circle ⟨0⟩ b).1 5 (by decide +kernel)
  have hadd : (empty.after sharedEndsRun).checkMember (.subgraph ⟨0⟩) (.statement ⟨0⟩) =
      .ok () :=
    checkMember_edge_of_links_eq_nil (e := ⟨0, .subgraph ⟨1⟩, .subgraph ⟨1⟩, .directed⟩)
      (by decide +kernel) (by decide +kernel) (by decide +kernel) (by decide +kernel)
      (by decide +kernel)
  have hσ :
      empty.after (sharedEndsRun ++ [.ask (.add (.subgraph ⟨0⟩) (.object (.statement ⟨0⟩)))]) =
        (empty.after sharedEndsRun).attach (.subgraph ⟨0⟩) (.statement ⟨0⟩) := by
    rw [after_append, after_add_statement hadd]
  intro σ
  have hreach : σ.Reachable := ⟨_, rfl⟩
  obtain ⟨g, hg⟩ : ∃ g, σ.subgraph? ⟨0⟩ = some g := by
    simp only [σ, hσ]
    exact Option.isSome_iff_exists.1 (by decide +kernel)
  obtain ⟨o, ho, hrenders, -⟩ := (renders_iff_written σ ⟨0⟩ (.subgraph ⟨1⟩)).2.2
    hreach.uniform.intact hreach.acyclic g hg
  have hwritten : (σ.outline? (.subgraph ⟨0⟩)).map Outline.written =
      some [.subgraph ⟨0⟩, .subgraph ⟨1⟩, .subgraph ⟨1⟩] := by
    simp only [σ, hσ]
    decide +kernel
  rw [ho] at hwritten
  have hlist := Option.some.inj hwritten
  refine ⟨Option.some.inj ((hcircle _).symm.trans ?_), Option.some.inj ((hcircle _).symm.trans ?_),
    o, ho, hlist, hrenders.2 (by simp [hlist])⟩
  · decide +kernel
  · decide +kernel

end Store

end DotGraph
