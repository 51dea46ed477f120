import DotGraph.Proofs.LinkSearch
import DotGraph.Proofs.Uniformity

/-!
Links never lead back.  A subgraph is linked from a body only if it does not reach that body, so
no order of calls closes a cycle, whether its links come from statement lists, from the ends of
edges or from both.
-/

namespace DotGraph

open Relation

/-- A path that may also use new links out of one body either needs none of them, or comes to that
body and goes on from the end of one. -/
theorem reflTransGen_or_of_new {α : Type} {old new : α → α → Prop} {b : α} {ends : α → Prop}
    (hnew : ∀ x y, new x y → old x y ∨ (x = b ∧ ends y)) {x y : α}
    (h : ReflTransGen new x y) :
    ReflTransGen old x y ∨ (ReflTransGen old x b ∧ ∃ z, ends z ∧ ReflTransGen old z y) := by
  induction h with
  | refl => exact .inl .refl
  | tail _ hstep ih =>
    rcases hnew _ _ hstep with hold | ⟨rfl, hend⟩
    · rcases ih with ih | ⟨hb, z, hz, ih⟩
      · exact .inl (ih.tail hold)
      · exact .inr ⟨hb, z, hz, ih.tail hold⟩
    · rcases ih with ih | ⟨hb, -⟩
      · exact .inr ⟨ih, _, hend, .refl⟩
      · exact .inr ⟨hb, _, hend, .refl⟩

/-- New links out of one body close no cycle if none of their ends reaches that body. -/
theorem acyclic_of_new {α : Type} {old new : α → α → Prop} {b : α} {ends : α → Prop}
    (hnew : ∀ x y, new x y → old x y ∨ (x = b ∧ ends y))
    (hends : ∀ z, ends z → ¬ ReflTransGen old z b) (hold : ∀ x, ¬ TransGen old x x) (x : α) :
    ¬ TransGen new x x := by
  intro h
  obtain ⟨y, hp, hstep⟩ := TransGen.tail'_iff.1 h
  rcases hnew _ _ hstep with hs | ⟨rfl, hend⟩
  · rcases reflTransGen_or_of_new hnew hp with hp | ⟨hb, z, hz, hp⟩
    · exact hold x (.tail' hp hs)
    · exact hends z hz ((hp.tail hs).trans hb)
  · rcases reflTransGen_or_of_new hnew hp with hp | ⟨-, z, hz, hp⟩
    · exact hends x hend hp
    · exact hends z hz hp

namespace Store

/-- No body is linked from itself, through however many links. -/
def Acyclic (σ : Store) : Prop :=
  ∀ b, ¬ TransGen σ.Leads b b

variable {σ σ' : Store}

theorem Change.acyclic (h : Change σ σ') (hu : σ.Uniform) (ha : σ.Acyclic) : σ'.Acyclic := by
  rcases h.links_eq hu with hl | ⟨b, m, hc, hl⟩
  · have he : σ'.Leads = σ.Leads := by
      funext x y
      simp only [Leads, Linked, hl]
    rw [Acyclic, he]
    exact ha
  · obtain ⟨-, -, hr⟩ := (checkMember_ok_iff m).1 hc
    have hnew : ∀ x y, σ'.Leads x y →
        σ.Leads x y ∨ (x = b ∧ ∃ s ∈ σ.memberLinks m, y = .subgraph s) := by
      rintro x y ⟨s, rfl, hx⟩
      rw [Linked, hl] at hx
      split at hx
      · rename_i hb
        subst hb
        rcases List.mem_append.1 hx with hx | hx
        · exact .inl ⟨s, rfl, hx⟩
        · exact .inr ⟨rfl, s, hx, rfl⟩
      · exact .inl ⟨s, rfl, hx⟩
    have hends : ∀ y, (∃ s ∈ σ.memberLinks m, y = .subgraph s) → ¬ ReflTransGen σ.Leads y b := by
      rintro y ⟨s, hs, rfl⟩ hp
      have ht := (σ.renders_iff s b).2 hp
      simp [hr s hs] at ht
    exact acyclic_of_new hnew hends ha

theorem Reachable.acyclic (h : σ.Reachable) : σ.Acyclic := by
  have hi : σ.Uniform ∧ σ.Acyclic := by
    refine h.induction (P := fun σ => σ.Uniform ∧ σ.Acyclic) ⟨?_, ?_⟩
      fun ⟨hu, ha⟩ hc => ⟨hc.uniform hu, hc.acyclic hu ha⟩
    · exact Reachable.uniform ⟨[], rfl⟩
    · intro b hb
      obtain ⟨c, -, s, -, hl⟩ := TransGen.tail'_iff.1 hb
      simp [Linked, links, members_empty] at hl
  exact hi.2

/-! ### Links as statements show them -/

/-- A body links to the subgraphs in its statement list and to those at the ends of edges in it. -/
inductive LinksTo (σ : Store) (b : BodyRef) (s : SubgraphId) : Prop
  | member (h : .subgraph s ∈ σ.members b)
  | tail {i : StatementId} {e : Edge} (h : .statement i ∈ σ.members b)
    (hi : σ.clause? i = some (.edge e)) (he : e.tail = .subgraph s)
  | head {i : StatementId} {e : Edge} (h : .statement i ∈ σ.members b)
    (hi : σ.clause? i = some (.edge e)) (he : e.head = .subgraph s)

theorem LinksTo.leads {b : BodyRef} {s : SubgraphId} (h : σ.LinksTo b s) :
    σ.Leads b (.subgraph s) := by
  refine ⟨s, rfl, ?_⟩
  cases h with
  | member h => exact List.mem_flatMap.2 ⟨_, h, by simp⟩
  | tail h hi he =>
    exact List.mem_flatMap.2
      ⟨_, h, by simp [memberLinks_statement, hi, Clause.links, he, Vertex.links]⟩
  | head h hi he =>
    exact List.mem_flatMap.2
      ⟨_, h, by simp [memberLinks_statement, hi, Clause.links, he, Vertex.links]⟩

/-- A link of the search is one that a statement shows. -/
theorem Linked.linksTo {b : BodyRef} {s : SubgraphId} (h : σ.Linked b s) : σ.LinksTo b s := by
  obtain ⟨m, hm, hs⟩ := List.mem_flatMap.1 h
  cases m with
  | subgraph s' =>
    obtain rfl : s = s' := by simpa using hs
    exact .member hm
  | statement i =>
    rw [memberLinks_statement] at hs
    cases hi : σ.clause? i with
    | none => simp [hi] at hs
    | some clause =>
      cases clause with
      | edge e =>
        simp only [hi, Option.map_some, Option.getD_some, Clause.links, List.mem_append] at hs
        rcases hs with hs | hs
        · cases ht : e.tail with
          | node id => simp [ht, Vertex.links] at hs
          | subgraph s' =>
            obtain rfl : s = s' := by simpa [ht, Vertex.links] using hs
            exact .tail hm hi ht
        · cases hh : e.head with
          | node id => simp [hh, Vertex.links] at hs
          | subgraph s' =>
            obtain rfl : s = s' := by simpa [hh, Vertex.links] using hs
            exact .head hm hi hh
      | node id => simp [hi, Clause.links] at hs
      | defaults kind standalone => simp [hi, Clause.links] at hs
      | noEdge given => simp [hi, Clause.links] at hs

/-- After every run of calls, whatever was refused in it and wherever callbacks broke off, no
subgraph is linked from itself, through however many links. -/
theorem not_linked_from_itself (calls : List Call) (s : SubgraphId) :
    ¬ TransGen (fun s t => (empty.after calls).LinksTo (.subgraph s) t) s s := by
  intro h
  have ha : (empty.after calls).Acyclic := Reachable.acyclic ⟨calls, rfl⟩
  exact ha (.subgraph s) (h.lift BodyRef.subgraph fun _ _ hl => hl.leads)

end Store

end DotGraph
