import DotGraph.Proofs.Admission
import Mathlib.Data.List.Basic

/-!
What every body of a store holds.  Its statements are there, they suit its operator, and the
subgraphs that it links to have the same operator; no change of the store spoils that.
-/

namespace DotGraph.Store

/-- Whether a statement is there. -/
def Holds (σ : Store) : Member → Prop
  | .statement i => ∃ clause, σ.clause? i = some clause
  | .subgraph s => ∃ operator, σ.HasOperator (.subgraph s) operator

/-- Every statement in a body suits the body's operator. -/
def Uniform (σ : Store) : Prop :=
  ∀ b operator, σ.HasOperator b operator → ∀ m ∈ σ.members b, σ.Suits operator m

variable {σ σ' : Store}

theorem Suits.holds {operator : EdgeOperator} {m : Member} (h : σ.Suits operator m) :
    σ.Holds m := by
  cases m with
  | statement i =>
    obtain ⟨clause, hc, -⟩ := h
    exact ⟨clause, hc⟩
  | subgraph s => exact ⟨operator, h⟩

theorem exists_hasOperator_of_mem {b : BodyRef} {m : Member} (h : m ∈ σ.members b) :
    ∃ operator, σ.HasOperator b operator := by
  unfold members at h
  unfold HasOperator
  cases hb : σ.body? b with
  | none => simp [hb] at h
  | some body => exact ⟨body.operator, rfl⟩

theorem HasOperator.unique {b : BodyRef} {o o' : EdgeOperator} (h : σ.HasOperator b o)
    (h' : σ.HasOperator b o') : o = o' :=
  Option.some.inj (Eq.trans (Eq.symm h) h')

theorem Uniform.holds (hu : σ.Uniform) {b : BodyRef} {m : Member} (hm : m ∈ σ.members b) :
    σ.Holds m := by
  obtain ⟨operator, ho⟩ := exists_hasOperator_of_mem hm
  exact (hu b operator ho m hm).holds

theorem Suits.hasOperator_of_memberLinks {operator : EdgeOperator} {m : Member}
    (hm : σ.Suits operator m) :
    ∀ s ∈ σ.memberLinks m, σ.HasOperator (.subgraph s) operator := by
  intro s hs
  cases m with
  | subgraph s' =>
    obtain rfl : s = s' := by simpa using hs
    exact hm
  | statement i =>
    obtain ⟨clause, hc, hsuits⟩ := hm
    simp only [memberLinks_statement, hc, Option.map_some, Option.getD_some] at hs
    cases clause with
    | edge e => exact hsuits.2 s hs
    | node id => simp [Clause.links] at hs
    | defaults kind standalone => simp [Clause.links] at hs
    | noEdge given => simp [Clause.links] at hs

theorem Uniform.hasOperator_of_linked (hu : σ.Uniform) {b : BodyRef} {operator : EdgeOperator}
    (ho : σ.HasOperator b operator) {s : SubgraphId} (hs : σ.Linked b s) :
    σ.HasOperator (.subgraph s) operator := by
  obtain ⟨m, hm, hs⟩ := List.mem_flatMap.1 hs
  exact (hu b operator ho m hm).hasOperator_of_memberLinks s hs

/-! ### What a change keeps -/

theorem Change.clause?_eq {i : StatementId} {clause : Clause} (h : Change σ σ')
    (hi : σ.clause? i = some clause) : σ'.clause? i = some clause := by
  cases h with
  | table fresh => exact hi
  | statement c found own =>
    have hlt : i.index ≠ σ.statements.size := by
      intro he
      simp [clause?, statement?, he] at hi
    simpa [clause?, statement?_pushStatement, hlt] using hi
  | root name strict directed found => exact hi
  | subgraph name found chosen => exact hi
  | edge => exact hi
  | attrs found entered => exact hi
  | attach allowed => simpa using hi
  | note creations => exact hi

theorem Change.hasOperator {b : BodyRef} {operator : EdgeOperator} (h : Change σ σ')
    (hb : σ.HasOperator b operator) : σ'.HasOperator b operator := by
  unfold HasOperator at hb ⊢
  cases h with
  | table fresh => simpa using hb
  | root name strict directed found =>
    have hne : b ≠ .root ⟨σ.roots.size⟩ := by
      rintro rfl
      simp [body?, root?] at hb
    simpa [body?_pushRoot, hne] using hb
  | subgraph name found chosen =>
    have hne : b ≠ .subgraph ⟨σ.subgraphs.size⟩ := by
      rintro rfl
      simp [body?, subgraph?] at hb
    simpa [body?_pushSubgraph, hne] using hb
  | statement c found own => simpa using hb
  | edge => exact hb
  | attrs found entered => simpa using hb
  | attach allowed =>
    rw [← hb, body?_attach, Option.map_map]
    congr 1
    funext body
    simp only [Function.comp_apply]
    split <;> rfl
  | note creations => exact hb

theorem HasOperator.of_changes {b : BodyRef} {operator : EdgeOperator}
    (hb : σ.HasOperator b operator) (h : Relation.ReflTransGen Change σ σ') :
    σ'.HasOperator b operator := by
  induction h with
  | refl => exact hb
  | tail _ hc ih => exact hc.hasOperator ih

theorem Change.suits {operator : EdgeOperator} {m : Member} (h : Change σ σ')
    (hm : σ.Suits operator m) : σ'.Suits operator m := by
  cases m with
  | subgraph s => exact h.hasOperator hm
  | statement i =>
    obtain ⟨clause, hc, hsuits⟩ := hm
    refine ⟨clause, h.clause?_eq hc, ?_⟩
    cases clause with
    | node id => trivial
    | edge e => exact ⟨hsuits.1, fun s hs => h.hasOperator (hsuits.2 s hs)⟩
    | defaults kind standalone => exact hsuits
    | noEdge given => exact hsuits

/-- Only attaching alters a statement list, and it alters one. -/
theorem Change.members_eq (h : Change σ σ') :
    (∀ b, σ'.members b = σ.members b) ∨
      ∃ b m, σ.checkMember b m = .ok () ∧
        ∀ b', σ'.members b' = if b = b' then σ.members b ++ [m] else σ.members b' := by
  cases h with
  | table fresh => exact .inl fun b => by simp
  | root name strict directed found => exact .inl fun b => σ.members_pushRoot rfl b
  | subgraph name found chosen => exact .inl fun b => σ.members_pushSubgraph rfl b
  | statement c found own => exact .inl fun b => by simp [members]
  | edge => exact .inl fun b => rfl
  | attrs found entered => exact .inl fun b => by simp
  | @attach b m allowed =>
    obtain ⟨-, ⟨operator, ho, -⟩, -⟩ := (checkMember_ok_iff m).1 allowed
    obtain ⟨body, hb, -⟩ := Option.map_eq_some_iff.1 ho
    exact .inr ⟨b, m, allowed, members_attach hb m⟩
  | note creations => exact .inl fun b => rfl

theorem Change.uniform (h : Change σ σ') (hu : σ.Uniform) : σ'.Uniform := by
  intro b operator ho m hm
  have key : ∀ o, σ.HasOperator b o → σ.Suits o m → σ'.Suits operator m := by
    intro o ho' hs
    obtain rfl := (h.hasOperator ho').unique ho
    exact h.suits hs
  rcases h.members_eq with he | ⟨b₀, m₀, hc, he⟩
  · rw [he] at hm
    obtain ⟨o, ho'⟩ := exists_hasOperator_of_mem hm
    exact key o ho' (hu b o ho' m hm)
  · rw [he] at hm
    split at hm
    · rename_i hb
      subst hb
      obtain ⟨-, ⟨o, ho', hs⟩, -⟩ := (checkMember_ok_iff m₀).1 hc
      rcases List.mem_append.1 hm with hm | hm
      · exact key o ho' (hu b₀ o ho' m hm)
      · obtain rfl := List.mem_singleton.1 hm
        exact key o ho' hs
    · obtain ⟨o, ho'⟩ := exists_hasOperator_of_mem hm
      exact key o ho' (hu b o ho' m hm)

theorem body?_empty (b : BodyRef) : empty.body? b = none := by
  cases b <;> simp [body?, root?, subgraph?, empty]

theorem members_empty (b : BodyRef) : empty.members b = [] := by
  simp [members, body?_empty]

theorem Reachable.uniform (h : σ.Reachable) : σ.Uniform := by
  refine h.induction (P := Uniform) ?_ fun hu hc => hc.uniform hu
  intro b operator ho m hm
  simp [members_empty] at hm

/-! ### Links after a change -/

theorem Change.memberLinks_eq {m : Member} (h : Change σ σ') (hm : σ.Holds m) :
    σ'.memberLinks m = σ.memberLinks m := by
  cases m with
  | statement i =>
    obtain ⟨clause, hc⟩ := hm
    simp [memberLinks_statement, hc, h.clause?_eq hc]
  | subgraph s => rfl

theorem Change.flatMap_memberLinks {ms : List Member} (h : Change σ σ')
    (hm : ∀ m ∈ ms, σ.Holds m) : ms.flatMap σ'.memberLinks = ms.flatMap σ.memberLinks :=
  List.flatMap_congr fun m hmem => h.memberLinks_eq (hm m hmem)

/-- Only attaching adds links, and it adds those of the statement to those of its body. -/
theorem Change.links_eq (h : Change σ σ') (hu : σ.Uniform) :
    (∀ b, σ'.links b = σ.links b) ∨
      ∃ b m, σ.checkMember b m = .ok () ∧
        ∀ b', σ'.links b' = if b = b' then σ.links b ++ σ.memberLinks m else σ.links b' := by
  rcases h.members_eq with hm | ⟨b, m, hc, hm⟩
  · left
    intro b
    simp only [links, hm]
    exact h.flatMap_memberLinks fun _ => hu.holds
  · right
    refine ⟨b, m, hc, fun b' => ?_⟩
    obtain ⟨-, ⟨operator, -, hs⟩, -⟩ := (checkMember_ok_iff m).1 hc
    by_cases hb : b = b'
    · subst hb
      simp only [links, hm, if_pos, List.flatMap_append, List.flatMap_singleton]
      rw [h.flatMap_memberLinks fun _ => hu.holds, h.memberLinks_eq hs.holds]
    · simp only [links, hm, if_neg hb]
      exact h.flatMap_memberLinks fun _ => hu.holds

/-! ### Root graphs -/

/-- A root graph that a call makes has one of the two operators, and is strict or is not. -/
def Typed (g : Root) : Prop :=
  ∃ strict directed, g.strict = .flag strict ∧ g.body.operator = .ofDirected directed

theorem Change.typed (h : Change σ σ') (ht : ∀ r g, σ.root? r = some g → Typed g)
    (r : RootId) (g : Root) (hg : σ'.root? r = some g) : Typed g := by
  cases h with
  | table fresh => exact ht r g hg
  | root name strict directed found =>
    rw [root?_pushRoot] at hg
    split at hg
    · cases hg
      exact ⟨strict, directed, rfl, rfl⟩
    · exact ht r g hg
  | subgraph name found chosen => exact ht r g hg
  | statement clause found own => exact ht r g hg
  | edge => exact ht r g hg
  | attrs found entered => exact ht r g hg
  | attach allowed =>
    rw [root?_attach] at hg
    obtain ⟨g₀, hg₀, rfl⟩ := Option.map_eq_some_iff.1 hg
    obtain ⟨strict, directed, hs, ho⟩ := ht r g₀ hg₀
    refine ⟨strict, directed, ?_, ?_⟩ <;> split <;> assumption
  | note creations => exact ht r g hg

theorem Reachable.typed (h : σ.Reachable) {r : RootId} {g : Root} (hg : σ.root? r = some g) :
    Typed g := by
  refine h.induction (P := fun σ => ∀ r g, σ.root? r = some g → Typed g) ?_
    (fun ht hc => hc.typed ht) r g hg
  intro r g hg
  simp [root?, empty] at hg

theorem Typed.exists_keyword {g : Root} (h : Typed g) :
    ∃ word, g.body.operator.keyword? = some word := by
  obtain ⟨-, directed, -, ho⟩ := h
  rw [ho]
  cases directed with
  | true => exact ⟨_, rfl⟩
  | false => exact ⟨_, rfl⟩

end DotGraph.Store
