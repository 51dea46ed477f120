import DotGraph.Outline
import DotGraph.Proofs.Acyclicity
import Mathlib.Data.Fintype.Pigeonhole
import Mathlib.Data.List.Perm.Subperm
import Mathlib.Order.WellFounded

/-!
Unfolding a body.  Where links never lead back, every body of the store has an outline, whatever
is shared below it, and the bound on the depth shows nowhere: an outline is one level over the
outlines of the linked subgraphs.
-/

namespace DotGraph

open Relation

theorem mapM_eq_some_iff {α β : Type} {f : α → Option β} {as : List α} {bs : List β} :
    as.mapM f = some bs ↔ as.map f = bs.map some := by
  induction as generalizing bs with
  | nil =>
    cases bs with
    | nil => simp
    | cons b bs => simp
  | cons a as ih =>
    cases bs with
    | nil => cases ha : f a <;> cases hr : as.mapM f <;> simp [ha, hr]
    | cons b bs => cases ha : f a <;> cases hr : as.mapM f <;> simp [ha, hr, ← ih]

theorem mapM_congr_left {α β : Type} {f g : α → Option β} {as : List α}
    (h : ∀ a ∈ as, f a = g a) : as.mapM f = as.mapM g := by
  ext bs
  rw [mapM_eq_some_iff, mapM_eq_some_iff, List.map_congr_left h]

theorem exists_mapM_eq_some {α β : Type} {f : α → Option β} {as : List α}
    (h : ∀ a ∈ as, ∃ b, f a = some b) : ∃ bs, as.mapM f = some bs := by
  induction as with
  | nil => exact ⟨[], rfl⟩
  | cons a as ih =>
    obtain ⟨b, hb⟩ := h a (by simp)
    obtain ⟨bs, hbs⟩ := ih fun a' ha' => h a' (by simp [ha'])
    exact ⟨b :: bs, by simp [hb, hbs]⟩

namespace Store

variable {σ : Store} {inner inner' : SubgraphId → Option Outline}

/-! ### One level -/

theorem endpointWith?_congr {v : Vertex} (h : ∀ s ∈ v.links, inner s = inner' s) :
    endpointWith? inner v = endpointWith? inner' v := by
  cases v with
  | node id => rfl
  | subgraph s => simp [endpointWith?, h s (by simp [Vertex.links])]

theorem itemWith?_congr {m : Member} (h : ∀ s ∈ σ.memberLinks m, inner s = inner' s) :
    σ.itemWith? inner m = σ.itemWith? inner' m := by
  cases m with
  | subgraph s => simp [itemWith?, h s (by simp)]
  | statement i =>
    cases hi : σ.statement? i with
    | none => simp [itemWith?, hi]
    | some stmt =>
      obtain ⟨clause, table, parent⟩ := stmt
      have hl : σ.memberLinks (.statement i) = clause.links := by simp [memberLinks, hi]
      rw [hl] at h
      cases clause with
      | edge e =>
        have ht := endpointWith?_congr (v := e.tail) fun s hs => h s (by simp [Clause.links, hs])
        have hh := endpointWith?_congr (v := e.head) fun s hs => h s (by simp [Clause.links, hs])
        simp [itemWith?, hi, clauseWith?, ht, hh]
      | node id => simp [itemWith?, hi, clauseWith?]
      | defaults kind standalone => simp [itemWith?, hi, clauseWith?]
      | noEdge given => simp [itemWith?, hi, clauseWith?]

theorem eq_some_of_bodyWith? {b : BodyRef} {o : Outline} (h : σ.bodyWith? inner b = some o) :
    ∃ body, σ.body? b = some body ∧ o.header = σ.headerOf b body ∧
      body.members.mapM (σ.itemWith? inner) = some o.items := by
  obtain ⟨body, hbody, ho⟩ := Option.bind_eq_some_iff.1 h
  obtain ⟨items, hitems, ho⟩ := Option.bind_eq_some_iff.1 ho
  cases ho
  exact ⟨body, hbody, rfl, hitems⟩

theorem eq_some_of_rootOutline? {r : RootId} {g : RootOutline} (h : σ.rootOutline? r = some g) :
    ∃ root, σ.root? r = some root ∧ σ.outline? (.root r) = some g.body ∧
      g.strict = root.strict := by
  obtain ⟨root, hr, hg⟩ := Option.bind_eq_some_iff.1 h
  obtain ⟨o, ho, hg⟩ := Option.bind_eq_some_iff.1 hg
  cases hg
  exact ⟨root, hr, ho, rfl⟩

theorem bodyWith?_congr {b : BodyRef} (h : ∀ s ∈ σ.links b, inner s = inner' s) :
    σ.bodyWith? inner b = σ.bodyWith? inner' b := by
  unfold bodyWith?
  cases hb : σ.body? b with
  | none => rfl
  | some body =>
    have hm : body.members.mapM (σ.itemWith? inner) = body.members.mapM (σ.itemWith? inner') := by
      refine mapM_congr_left fun m hm => itemWith?_congr fun s hs => h s ?_
      rw [← members_eq_of_body? hb] at hm
      exact List.mem_flatMap.2 ⟨m, hm, hs⟩
    simp [hm]

theorem exists_endpointWith? {v : Vertex} (h : ∀ s ∈ v.links, ∃ o, inner s = some o) :
    ∃ e, endpointWith? inner v = some e := by
  cases v with
  | node id => exact ⟨.node id, rfl⟩
  | subgraph s =>
    obtain ⟨o, ho⟩ := h s (by simp [Vertex.links])
    exact ⟨.subgraph o, by simp [endpointWith?, ho]⟩

/-- Whatever can be written in a statement list: anything but a statement about no edge. -/
def Stands (σ : Store) : Member → Prop
  | .statement i => ∃ clause, σ.clause? i = some clause ∧ ∀ given, clause ≠ .noEdge given
  | .subgraph _ => True

/-- A statement that can be written, and all that it links to is there. -/
def Complete (σ : Store) (m : Member) : Prop :=
  σ.Stands m ∧ ∀ s ∈ σ.memberLinks m, ∃ g, σ.subgraph? s = some g

/-- A store in which nothing is missing that a statement list would need.  Bodies and edges may have
any operators, and links may lead anywhere. -/
def Intact (σ : Store) : Prop :=
  ∀ b, ∀ m ∈ σ.members b, σ.Complete m

theorem exists_subgraph?_of_hasOperator {s : SubgraphId} {operator : EdgeOperator}
    (h : σ.HasOperator (.subgraph s) operator) : ∃ g, σ.subgraph? s = some g := by
  obtain ⟨g, hg, -⟩ : ∃ g, σ.subgraph? s = some g ∧ _ := by simpa [HasOperator, body?] using h
  exact ⟨g, hg⟩

theorem Suits.complete {operator : EdgeOperator} {m : Member} (hm : σ.Suits operator m) :
    σ.Complete m := by
  refine ⟨?_, fun s hs => exists_subgraph?_of_hasOperator (hm.hasOperator_of_memberLinks s hs)⟩
  cases m with
  | subgraph s => trivial
  | statement i =>
    obtain ⟨clause, hc, hsuits⟩ := hm
    refine ⟨clause, hc, ?_⟩
    rintro given rfl
    exact hsuits

theorem Uniform.intact (hu : σ.Uniform) : σ.Intact := by
  intro b m hm
  obtain ⟨operator, ho⟩ := exists_hasOperator_of_mem hm
  exact (hu b operator ho m hm).complete

theorem Intact.exists_subgraph? (hi : σ.Intact) {b : BodyRef} {s : SubgraphId}
    (hs : σ.Linked b s) : ∃ g, σ.subgraph? s = some g := by
  obtain ⟨m, hm, hs⟩ := List.mem_flatMap.1 hs
  exact (hi b m hm).2 s hs

theorem Stands.exists_itemWith? {m : Member} (hm : σ.Stands m)
    (h : ∀ s ∈ σ.memberLinks m, ∃ o, inner s = some o) : ∃ x, σ.itemWith? inner m = some x := by
  cases m with
  | subgraph s =>
    obtain ⟨o, ho⟩ := h s (by simp)
    exact ⟨.subgraph o, by simp [itemWith?, ho]⟩
  | statement i =>
    obtain ⟨clause, hc, hstands⟩ := hm
    simp only [memberLinks_statement, hc, Option.map_some, Option.getD_some] at h
    obtain ⟨⟨clause, table, parent⟩, hi, rfl⟩ := Option.map_eq_some_iff.1 hc
    cases clause with
    | node id => exact ⟨.node id (σ.attrsAt table), by simp [itemWith?, hi, clauseWith?]⟩
    | edge e =>
      obtain ⟨tail, ht⟩ := exists_endpointWith? (v := e.tail)
        fun s hs => h s (by simp [Clause.links, hs])
      obtain ⟨head, hh⟩ := exists_endpointWith? (v := e.head)
        fun s hs => h s (by simp [Clause.links, hs])
      exact ⟨.edge tail head e.operator (σ.attrsAt table), by
        simp [itemWith?, hi, clauseWith?, ht, hh]⟩
    | defaults kind standalone =>
      exact ⟨.defaults kind standalone.counts (σ.attrsAt table), by
        simp [itemWith?, hi, clauseWith?]⟩
    | noEdge given => exact absurd rfl (hstands given)

theorem Intact.exists_bodyWith? (hi : σ.Intact) {b : BodyRef} {body : Body}
    (hb : σ.body? b = some body) (h : ∀ s ∈ σ.links b, ∃ o, inner s = some o) :
    ∃ o, σ.bodyWith? inner b = some o := by
  obtain ⟨items, hitems⟩ : ∃ items, body.members.mapM (σ.itemWith? inner) = some items := by
    refine exists_mapM_eq_some fun m hm => ?_
    rw [← members_eq_of_body? hb] at hm
    exact (hi b m hm).1.exists_itemWith? fun s hs => h s (List.mem_flatMap.2 ⟨m, hm, hs⟩)
  exact ⟨⟨σ.headerOf b body, items⟩, by simp [bodyWith?, hb, hitems]⟩

/-! ### All levels -/

theorem transGen_of_chain {f : Nat → BodyRef} (hf : ∀ n, σ.Leads (f n) (f (n + 1))) {i j : Nat}
    (hij : i < j) : TransGen σ.Leads (f i) (f j) := by
  induction j, hij using Nat.le_induction with
  | base => exact .single (hf i)
  | succ j _ ih => exact ih.tail (hf j)

/-- Whatever goes down along links comes to an end: an endless chain would come by one of the
finitely many subgraphs twice. -/
theorem Acyclic.wellFounded (ha : σ.Acyclic) : WellFounded fun c b => σ.Leads b c := by
  rw [wellFounded_iff_isEmpty_descending_chain]
  refine ⟨fun ⟨f, hf⟩ => ?_⟩
  have hs : ∀ n, ∃ k : Fin σ.subgraphs.size, f (n + 1) = .subgraph ⟨k⟩ := by
    intro n
    obtain ⟨s, he, -⟩ := hf n
    have hnext := hf (n + 1)
    rw [he] at hnext
    exact ⟨⟨s.index, σ.lt_size_of_leads hnext⟩, he⟩
  choose k hk using hs
  obtain ⟨i, j, hne, hij⟩ := Finite.exists_ne_map_eq_of_infinite k
  have hsame : f (i + 1) = f (j + 1) := by rw [hk, hk, hij]
  rcases Nat.lt_or_gt_of_ne hne with h | h
  · have hp := transGen_of_chain hf (Nat.succ_lt_succ h)
    exact ha _ (hsame ▸ hp)
  · have hp := transGen_of_chain hf (Nat.succ_lt_succ h)
    exact ha _ (hsame ▸ hp)

theorem length_le_size {path : List SubgraphId} (hn : path.Nodup)
    (h : ∀ s ∈ path, s.index < σ.subgraphs.size) : path.length ≤ σ.subgraphs.size := by
  have hs : path ⊆ σ.subgraphIds := fun s hm => (σ.mem_subgraphIds s).2 (h s hm)
  simpa [subgraphIds] using (hn.subperm hs).length_le

/-- A subgraph has one outline at every depth from the number of subgraphs not above it on.  The
path holds subgraphs that lead to it: each of them is a level that is never needed again. -/
theorem Intact.exists_outlineTo? (hi : σ.Intact) (ha : σ.Acyclic) {depth : Nat} {s : SubgraphId}
    {g : Subgraph} {path : List SubgraphId} (hs : σ.subgraph? s = some g) (hn : path.Nodup)
    (hp : ∀ t ∈ path, TransGen σ.Leads (.subgraph t) (.subgraph s))
    (hd : σ.subgraphs.size ≤ path.length + depth) :
    ∃ o, ∀ more, σ.outlineTo? (depth + more) (.subgraph s) = some o := by
  have hfresh : s ∉ path := fun hm => ha _ (hp s hm)
  have hn' : (s :: path).Nodup := List.nodup_cons.2 ⟨hfresh, hn⟩
  induction depth generalizing s g path with
  | zero =>
    have hlt : ∀ t ∈ s :: path, t.index < σ.subgraphs.size := by
      intro t ht
      rcases List.mem_cons.1 ht with rfl | ht
      · refine Nat.lt_of_not_le fun hle => ?_
        simp [subgraph?, hle] at hs
      · obtain ⟨c, hstep, -⟩ := TransGen.head'_iff.1 (hp t ht)
        exact σ.lt_size_of_leads hstep
    have hle := length_le_size hn' hlt
    simp only [List.length_cons] at hle
    omega
  | succ depth ih =>
    have below : ∀ t ∈ σ.links (.subgraph s),
        ∃ o, ∀ more, σ.outlineTo? (depth + more) (.subgraph t) = some o := by
      intro t ht
      obtain ⟨g', ht'⟩ := hi.exists_subgraph? ht
      have hst : σ.Leads (.subgraph s) (.subgraph t) := ⟨t, rfl, ht⟩
      have hp' : ∀ u ∈ s :: path, TransGen σ.Leads (.subgraph u) (.subgraph t) := by
        intro u hm
        rcases List.mem_cons.1 hm with rfl | hm
        · exact .single hst
        · exact (hp u hm).tail hst
      have hfresh' : t ∉ s :: path := fun hm => ha _ (hp' t hm)
      refine ih ht' hn' hp' ?_ hfresh' (List.nodup_cons.2 ⟨hfresh', hn'⟩)
      simp only [List.length_cons]
      omega
    have hbelow : ∀ t ∈ σ.links (.subgraph s), ∃ o, σ.outlineTo? depth (.subgraph t) = some o :=
      fun t ht => (below t ht).imp fun _ h => h 0
    have hbody : σ.body? (.subgraph s) = some g.body := by simp [body?, hs]
    obtain ⟨o, ho⟩ := hi.exists_bodyWith? hbody hbelow
    refine ⟨o, fun more => ?_⟩
    rw [Nat.add_right_comm, outlineTo?, ← ho]
    refine bodyWith?_congr fun t ht => ?_
    obtain ⟨o', ho'⟩ := below t ht
    exact (ho' more).trans (Eq.symm (ho' 0))

/-- The number of subgraphs is depth enough for each of them. -/
theorem Intact.exists_outlineTo?_size (hi : σ.Intact) (ha : σ.Acyclic) {s : SubgraphId}
    {g : Subgraph} (hs : σ.subgraph? s = some g) :
    ∃ o, ∀ more, σ.outlineTo? (σ.subgraphs.size + more) (.subgraph s) = some o := by
  have hd : σ.subgraphs.size ≤ ([] : List SubgraphId).length + σ.subgraphs.size := by simp
  exact hi.exists_outlineTo? ha hs .nil (by simp) hd

/-- An outline is one level over the outlines of the linked subgraphs, without any bound. -/
theorem Intact.outline?_eq (hi : σ.Intact) (ha : σ.Acyclic) (b : BodyRef) :
    σ.outline? b = σ.bodyWith? (fun s => σ.outline? (.subgraph s)) b := by
  show σ.bodyWith? (fun s => σ.outlineTo? σ.subgraphs.size (.subgraph s)) b = _
  refine bodyWith?_congr fun s hs => ?_
  obtain ⟨g, hg⟩ := hi.exists_subgraph? hs
  obtain ⟨o, h⟩ := hi.exists_outlineTo?_size ha hg
  exact (h 0).trans (Eq.symm (h 1))

theorem Intact.exists_outline? (hi : σ.Intact) (ha : σ.Acyclic) {b : BodyRef} {body : Body}
    (hb : σ.body? b = some body) : ∃ o, σ.outline? b = some o := by
  refine hi.exists_bodyWith? hb fun s hs => ?_
  obtain ⟨g, hg⟩ := hi.exists_subgraph? hs
  obtain ⟨o, h⟩ := hi.exists_outlineTo?_size ha hg
  exact ⟨o, h 0⟩

theorem Intact.map_item? (hi : σ.Intact) (ha : σ.Acyclic) {b : BodyRef} {o : Outline}
    (ho : σ.outline? b = some o) : (σ.members b).map σ.item? = o.items.map some := by
  rw [hi.outline?_eq ha] at ho
  obtain ⟨body, hbody, -, hitems⟩ := eq_some_of_bodyWith? ho
  rw [members_eq_of_body? hbody]
  exact mapM_eq_some_iff.1 hitems

/-! ### Stores of one operator below each body -/

theorem exists_outlineTo?_size (hu : σ.Uniform) (ha : σ.Acyclic) {s : SubgraphId}
    {operator : EdgeOperator} (hs : σ.HasOperator (.subgraph s) operator) :
    ∃ o, ∀ more, σ.outlineTo? (σ.subgraphs.size + more) (.subgraph s) = some o := by
  obtain ⟨g, hg⟩ := exists_subgraph?_of_hasOperator hs
  exact hu.intact.exists_outlineTo?_size ha hg

theorem outline?_eq (hu : σ.Uniform) (ha : σ.Acyclic) (b : BodyRef) :
    σ.outline? b = σ.bodyWith? (fun s => σ.outline? (.subgraph s)) b :=
  hu.intact.outline?_eq ha b

theorem exists_outline? (hu : σ.Uniform) (ha : σ.Acyclic) {b : BodyRef} {operator : EdgeOperator}
    (hb : σ.HasOperator b operator) : ∃ o, σ.outline? b = some o := by
  obtain ⟨body, hbody, -⟩ := Option.map_eq_some_iff.1 hb
  exact hu.intact.exists_outline? ha hbody

theorem exists_item? (hu : σ.Uniform) (ha : σ.Acyclic) {b : BodyRef} {m : Member}
    (hm : m ∈ σ.members b) : ∃ x, σ.item? m = some x := by
  obtain ⟨operator, ho⟩ := exists_hasOperator_of_mem hm
  refine (hu b operator ho m hm).complete.1.exists_itemWith? fun s hs => ?_
  have hl : σ.Linked b s := List.mem_flatMap.2 ⟨m, hm, hs⟩
  exact exists_outline? hu ha (hu.hasOperator_of_linked ho hl)

end Store

end DotGraph
