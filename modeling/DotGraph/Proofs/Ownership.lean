import DotGraph.Proofs.Uniformity
import Mathlib.Data.List.Nodup

/-!
Who owns a statement.  It is kept twice, with the statement and in the list of its owner.  Through
every run the two agree, a statement stands in one place only, and no owner is ever replaced.
-/

namespace DotGraph.Store

variable (σ : Store)

/-- The bodies of a store, root graphs before subgraphs. -/
def bodies : List BodyRef :=
  (List.range σ.roots.size).map (fun n => .root ⟨n⟩) ++ σ.subgraphIds.map .subgraph

theorem mem_bodies_iff (b : BodyRef) : b ∈ σ.bodies ↔ ∃ body, σ.body? b = some body := by
  cases b with
  | root r =>
    obtain ⟨n⟩ := r
    simp [bodies, body?, root?, Array.getElem?_eq_some_iff]
  | subgraph s =>
    obtain ⟨n⟩ := s
    simp [bodies, subgraphIds, body?, subgraph?, Array.getElem?_eq_some_iff]

theorem nodup_bodies : σ.bodies.Nodup := by
  have hroots : ((List.range σ.roots.size).map fun n => BodyRef.root ⟨n⟩).Nodup :=
    List.nodup_range.map fun _ _ h => by simpa using h
  have hsubgraphs : (σ.subgraphIds.map BodyRef.subgraph).Nodup := by
    refine List.Nodup.map (fun _ _ h => by simpa using h) ?_
    exact List.nodup_range.map fun _ _ h => by simpa using h
  refine List.nodup_append.2 ⟨hroots, hsubgraphs, fun b hb c hc => ?_⟩
  obtain ⟨n, -, rfl⟩ := List.mem_map.1 hb
  obtain ⟨s, -, rfl⟩ := List.mem_map.1 hc
  simp

/-! ### Owners after a change -/

theorem parent?_pushRoot (g : Root) (m : Member) : (σ.pushRoot g).parent? m = σ.parent? m := by
  cases m <;> rfl

theorem parent?_pushSubgraph {g : Subgraph} (hg : g.parent = none) (m : Member) :
    (σ.pushSubgraph g).parent? m = σ.parent? m := by
  cases m with
  | statement i => rfl
  | subgraph s =>
    by_cases hs : s.index = σ.subgraphs.size
    · have hn : σ.subgraph? s = none := by simp [subgraph?, hs]
      simp [parent?, subgraph?_pushSubgraph, hs, hn, hg]
    · simp [parent?, subgraph?_pushSubgraph, hs]

theorem parent?_pushStatement {s : Statement} (hs : s.parent = none) (m : Member) :
    (σ.pushStatement s).parent? m = σ.parent? m := by
  cases m with
  | statement i =>
    by_cases hi : i.index = σ.statements.size
    · have hn : σ.statement? i = none := by simp [statement?, hi]
      simp [parent?, statement?_pushStatement, hi, hn, hs]
    · simp [parent?, statement?_pushStatement, hi]
  | subgraph s => rfl

theorem parent?_modifyBody (b : BodyRef) (f : Body → Body) (m : Member) :
    (σ.modifyBody b f).parent? m = σ.parent? m := by
  cases m with
  | statement i => simp [parent?]
  | subgraph s =>
    simp only [parent?, subgraph?_modifyBody]
    cases σ.subgraph? s with
    | none => rfl
    | some g => by_cases hb : b = .subgraph s <;> simp [hb]

@[simp] theorem parent?_pushTable (u : AttrTable) (m : Member) :
    (σ.pushTable u).parent? m = σ.parent? m := by
  cases m <;> rfl

@[simp] theorem parent?_setTable (t : TableId) (u : AttrTable) (m : Member) :
    (σ.setTable t u).parent? m = σ.parent? m := by
  cases m <;> rfl

theorem subgraph?_setParent (m : Member) (b : BodyRef) (s : SubgraphId) :
    (σ.setParent m b).subgraph? s =
      (σ.subgraph? s).map fun g => if m = .subgraph s then { g with parent := some b } else g := by
  cases m with
  | statement i => simp [setParent]
  | subgraph s' =>
    obtain ⟨n⟩ := s
    obtain ⟨n'⟩ := s'
    by_cases h : n' = n <;> simp [setParent, subgraph?, Array.getElem?_modify, h]

theorem statement?_setParent (m : Member) (b : BodyRef) (i : StatementId) :
    (σ.setParent m b).statement? i =
      (σ.statement? i).map fun s =>
        if m = .statement i then { s with parent := some b } else s := by
  cases m with
  | statement i' => simp [setParent, statement?_modifyStatement]
  | subgraph s => simp [setParent, statement?]

/-- Attaching a statement that is there makes the body its owner and leaves all other owners. -/
theorem parent?_attach {σ : Store} {m : Member} (hm : σ.Holds m) (b : BodyRef) (m' : Member) :
    (σ.attach b m).parent? m' = if m = m' then some b else σ.parent? m' := by
  rw [attach, parent?_modifyBody]
  by_cases he : m = m'
  · subst he
    rw [if_pos rfl]
    cases m with
    | statement i =>
      obtain ⟨clause, hc⟩ := hm
      obtain ⟨s, hs, -⟩ := Option.map_eq_some_iff.1 hc
      simp [parent?, statement?_setParent, hs]
    | subgraph s =>
      obtain ⟨operator, ho⟩ := hm
      obtain ⟨body, hb, -⟩ := Option.map_eq_some_iff.1 ho
      obtain ⟨g, hg, -⟩ := Option.map_eq_some_iff.1 hb
      simp [parent?, subgraph?_setParent, hg]
  · rw [if_neg he]
    cases m' with
    | statement i => simp [parent?, statement?_setParent, he]
    | subgraph s => simp [parent?, subgraph?_setParent, he]

variable {σ} {σ' : Store}

/-- Owner and list change together and only when a statement without an owner is attached. -/
theorem Change.ownership (h : Change σ σ') :
    ((∀ b, σ'.members b = σ.members b) ∧ ∀ m, σ'.parent? m = σ.parent? m) ∨
      ∃ b m, σ.parent? m = none ∧
        (∀ b', σ'.members b' = if b = b' then σ.members b ++ [m] else σ.members b') ∧
        ∀ m', σ'.parent? m' = if m = m' then some b else σ.parent? m' := by
  cases h with
  | table fresh => exact .inl ⟨fun b => by simp, σ.parent?_pushTable _⟩
  | root name strict directed found =>
    exact .inl ⟨σ.members_pushRoot rfl, σ.parent?_pushRoot _⟩
  | subgraph name found chosen =>
    exact .inl ⟨σ.members_pushSubgraph rfl, σ.parent?_pushSubgraph rfl⟩
  | statement clause found own =>
    exact .inl ⟨fun b => by simp [members], σ.parent?_pushStatement rfl⟩
  | edge => exact .inl ⟨fun b => rfl, fun m => by cases m <;> rfl⟩
  | attrs found entered => exact .inl ⟨fun b => by simp, σ.parent?_setTable _ _⟩
  | @attach b m allowed =>
    obtain ⟨hfree, ⟨operator, ho, hsuits⟩, -⟩ := (checkMember_ok_iff m).1 allowed
    obtain ⟨body, hb, -⟩ := Option.map_eq_some_iff.1 ho
    exact .inr ⟨b, m, hfree, members_attach hb m, parent?_attach hsuits.holds b⟩
  | note creations => exact .inl ⟨fun b => rfl, fun m => by cases m <;> rfl⟩

theorem Change.parent?_eq_some {m : Member} {b : BodyRef} (h : Change σ σ')
    (hm : σ.parent? m = some b) : σ'.parent? m = some b := by
  rcases h.ownership with ⟨-, hp⟩ | ⟨b', m', hfree, -, hp⟩
  · rw [hp, hm]
  · have hne : m' ≠ m := by
      rintro rfl
      simp [hfree] at hm
    rw [hp, if_neg hne, hm]

/-! ### The invariant -/

/-- The list of a body holds the statements that it owns, and in all lists together no statement
stands twice. -/
structure Owned (σ : Store) : Prop where
  mem_members_iff : ∀ b m, m ∈ σ.members b ↔ σ.parent? m = some b
  once : (σ.bodies.flatMap σ.members).Nodup

/-- Lists that hold what their bodies own share nothing, so each can be looked at alone. -/
theorem owned_of_nodup (hm : ∀ b m, m ∈ σ.members b ↔ σ.parent? m = some b)
    (hn : ∀ b, (σ.members b).Nodup) : σ.Owned where
  mem_members_iff := hm
  once := by
    refine List.nodup_flatMap.2 ⟨fun b _ => hn b, σ.nodup_bodies.imp fun {b c} hne m hb hc => ?_⟩
    rw [hm] at hb hc
    exact hne (Option.some.inj (hb.symm.trans hc))

theorem Owned.nodup_members (h : σ.Owned) (b : BodyRef) : (σ.members b).Nodup := by
  cases hb : σ.body? b with
  | none => simp [members, hb]
  | some body =>
    exact (List.nodup_flatMap.1 h.once).1 b ((σ.mem_bodies_iff b).2 ⟨body, hb⟩)

theorem Change.owned (h : Change σ σ') (ho : σ.Owned) : σ'.Owned := by
  rcases h.ownership with ⟨hl, hp⟩ | ⟨b, m, hfree, hl, hp⟩
  · refine owned_of_nodup (fun b m => ?_) fun b => ?_
    · rw [hl, hp, ho.mem_members_iff]
    · rw [hl]
      exact ho.nodup_members b
  · have hnot : ∀ c, m ∉ σ.members c := by
      intro c hc
      simp [(ho.mem_members_iff c m).1 hc] at hfree
    refine owned_of_nodup (fun c m' => ?_) fun c => ?_
    · rw [hl, hp]
      by_cases hm : m = m'
      · subst hm
        by_cases hb : b = c
        · simp [hb]
        · simp [hb, hnot c]
      · have hm' : m' ≠ m := fun he => hm he.symm
        by_cases hb : b = c
        · simp [hb, hm, hm', ho.mem_members_iff]
        · simp [hb, hm, ho.mem_members_iff]
    · rw [hl]
      split
      · refine List.nodup_append.2 ⟨ho.nodup_members b, List.nodup_singleton m, ?_⟩
        intro m₁ h₁ m₂ h₂ he
        obtain rfl := List.mem_singleton.1 h₂
        exact hnot b (he ▸ h₁)
      · exact ho.nodup_members c

theorem Reachable.owned (h : σ.Reachable) : σ.Owned := by
  refine h.induction (P := Owned) ?_ fun ho hc => hc.owned ho
  refine owned_of_nodup (fun b m => ?_) fun b => ?_
  · rw [members_empty]
    cases m <;> simp [parent?, statement?, subgraph?, empty]
  · simp [members_empty]

open Relation in
theorem parent?_of_changes {m : Member} {b : BodyRef} (h : ReflTransGen Change σ σ')
    (hm : σ.parent? m = some b) : σ'.parent? m = some b := by
  induction h with
  | refl => exact hm
  | tail _ hc ih => exact hc.parent?_eq_some ih

/-- After every run of calls, whatever was refused in it and wherever callbacks broke off, a
statement stands in the list of a body exactly if the body is its owner, and nowhere else; and
whatever calls follow, the owner stays. -/
theorem owned_after (calls more : List Call) :
    (empty.after calls).Owned ∧
      ∀ m b, (empty.after calls).parent? m = some b →
        (empty.after (calls ++ more)).parent? m = some b := by
  refine ⟨Reachable.owned ⟨calls, rfl⟩, fun m b hm => ?_⟩
  rw [after_append]
  exact parent?_of_changes (Call.changing_runAll more _) hm

end DotGraph.Store
