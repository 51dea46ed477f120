import DotGraph.Proofs.NetworkEdges

/-!
The statements of a body without nesting.  Depth first along statement lists, each subgraph gives
way to its own statements, and ends of edges are left as they are.  There is one such sequence, and
it is the flat list of the body's outline.
-/

namespace DotGraph

namespace Store

variable {σ : Store} {b : BodyRef} {ms : List Member} {is js : List StatementId}

/-- The statements of a list in one sequence, those of a subgraph in its place. -/
inductive InOrder (σ : Store) : List Member → List StatementId → Prop
  | nil : InOrder σ [] []
  | statement {i : StatementId} {rest : List Member} {is : List StatementId}
      (later : InOrder σ rest is) : InOrder σ (.statement i :: rest) (i :: is)
  | subgraph {s : SubgraphId} {rest : List Member} {inner is : List StatementId}
      (inside : InOrder σ (σ.members (.subgraph s)) inner) (later : InOrder σ rest is) :
      InOrder σ (.subgraph s :: rest) (inner ++ is)

theorem InOrder.unique (h : σ.InOrder ms is) (h' : σ.InOrder ms js) : is = js := by
  induction h generalizing js with
  | nil =>
    cases h'
    rfl
  | statement later ih =>
    cases h' with
    | statement later' => rw [ih later']
  | subgraph inside later ihInside ihLater =>
    cases h' with
    | subgraph inside' later' => rw [ihInside inside', ihLater later']

/-- Statements with the items that they are written as. -/
abbrev Unfolds (σ : Store) : List StatementId → List Item → Prop :=
  List.Forall₂ fun i x => σ.item? (.statement i) = some x

/-- The flat list of items is written from the sequence of a statement list, if that is so for each
subgraph in it. -/
theorem exists_inOrder_of_items {xs : List Item} (hxs : ms.map σ.item? = xs.map some)
    (hinner : ∀ s, .subgraph s ∈ ms → ∀ o, σ.outline? (.subgraph s) = some o →
      ∃ is, σ.InOrder (σ.members (.subgraph s)) is ∧ σ.Unfolds is o.flat) :
    ∃ is, σ.InOrder ms is ∧ σ.Unfolds is (flatItems xs) := by
  induction ms generalizing xs with
  | nil =>
    obtain rfl : xs = [] := by simpa using hxs.symm
    exact ⟨[], .nil, .nil⟩
  | cons m rest ih =>
    cases xs with
    | nil => cases hxs
    | cons x xs =>
      obtain ⟨hx, hrest⟩ := List.cons.inj hxs
      obtain ⟨is, his, hunfolds⟩ := ih hrest fun s hs => hinner s (List.mem_cons_of_mem _ hs)
      cases m with
      | statement i =>
        have hflat : flatItems (x :: xs) = x :: flatItems xs := by
          rw [flatItems, flat_of_statement hx]
          rfl
        exact ⟨i :: is, .statement his, hflat ▸ .cons hx hunfolds⟩
      | subgraph s =>
        obtain ⟨o, ho, rfl⟩ := Option.map_eq_some_iff.1 hx
        obtain ⟨inner, hinside, hunfold⟩ := hinner s List.mem_cons_self o ho
        exact ⟨inner ++ is, .subgraph hinside his, List.rel_append hunfold hunfolds⟩

/-- By induction down the links, which come to an end. -/
theorem exists_inOrder (hu : σ.Uniform) (ha : σ.Acyclic) {o : Outline}
    (ho : σ.outline? b = some o) :
    ∃ is, σ.InOrder (σ.members b) is ∧ σ.Unfolds is o.flat := by
  induction b using ha.wellFounded.induction generalizing o with
  | _ b ih =>
    have hmap := hu.intact.map_item? ha ho
    obtain ⟨header, items⟩ := o
    exact exists_inOrder_of_items hmap fun s hs o ho =>
      ih _ (leads_of_memberLinks hs (by simp)) ho

end Store

end DotGraph
