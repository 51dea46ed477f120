import DotGraph.Store.Links
import Mathlib.Logic.Relation

/-!
The search along links.  It looks at every body at most once and still misses nothing: it finds
its target exactly if the target can be reached from the work list along links.
-/

namespace DotGraph.Store

open Relation

variable (σ : Store)

/-- A link leads from a body to a subgraph that it links to. -/
def Leads (b c : BodyRef) : Prop :=
  ∃ s, c = .subgraph s ∧ σ.Linked b s

/-- A link out of one of the given subgraphs. -/
def LeadsWithin (unseen : List SubgraphId) (b c : BodyRef) : Prop :=
  (∃ s ∈ unseen, b = .subgraph s) ∧ σ.Leads b c

theorem links_eq_nil_of_body? {b : BodyRef} (h : σ.body? b = none) : σ.links b = [] := by
  simp [links, members, h]

theorem lt_size_of_leads {s : SubgraphId} {c : BodyRef} (h : σ.Leads (.subgraph s) c) :
    s.index < σ.subgraphs.size := by
  refine Nat.lt_of_not_le fun hs => ?_
  have hb : σ.body? (.subgraph s) = none := by
    simp [body?, subgraph?, hs]
  obtain ⟨t, -, ht⟩ := h
  simp [Linked, σ.links_eq_nil_of_body? hb] at ht

/-- A path that may open a subgraph either never opens it or can be shortened to start behind it. -/
theorem leadsWithin_erase (unseen : List SubgraphId) (current : SubgraphId) {b c : BodyRef}
    (h : ReflTransGen (σ.LeadsWithin unseen) b c) :
    ReflTransGen (σ.LeadsWithin (unseen.erase current)) b c ∨
      ∃ s ∈ σ.links (.subgraph current),
        ReflTransGen (σ.LeadsWithin (unseen.erase current)) (.subgraph s) c := by
  induction h using ReflTransGen.head_induction_on with
  | refl => exact .inl .refl
  | head hstep _ ih =>
    rename_i x y
    obtain ⟨⟨s, hs, rfl⟩, hl⟩ := hstep
    rcases ih with ih | ih
    · by_cases he : s = current
      · subst he
        obtain ⟨t, rfl, ht⟩ := hl
        exact .inr ⟨t, ht, ih⟩
      · have hk : s ∈ unseen.erase current := (List.mem_erase_of_ne he).2 hs
        exact .inl (.head ⟨⟨s, hk, rfl⟩, hl⟩ ih)
    · exact .inr ih

/-- From one of the subgraphs on a work list the target can be reached through subgraphs that are
not seen yet. -/
def Finds (target : BodyRef) (unseen work : List SubgraphId) : Prop :=
  ∃ s ∈ work, ReflTransGen (σ.LeadsWithin unseen) (.subgraph s) target

variable {σ} {target : BodyRef} {unseen work : List SubgraphId} {current : SubgraphId}

theorem finds_of_eq (h : .subgraph current = target) : σ.Finds target unseen (current :: work) :=
  ⟨current, List.mem_cons_self, h ▸ .refl⟩

theorem finds_open (hne : .subgraph current ≠ target) (hc : current ∈ unseen) :
    σ.Finds target (unseen.erase current) (σ.links (.subgraph current) ++ work) ↔
      σ.Finds target unseen (current :: work) := by
  have hmono : σ.LeadsWithin (unseen.erase current) ≤ σ.LeadsWithin unseen :=
    fun _ _ ⟨⟨s, hs, he⟩, hl⟩ => ⟨⟨s, List.mem_of_mem_erase hs, he⟩, hl⟩
  constructor
  · rintro ⟨s, hs, hp⟩
    have hp' := ReflTransGen.mono hmono _ _ hp
    rcases List.mem_append.1 hs with hl | hw
    · exact ⟨current, List.mem_cons_self, .head ⟨⟨current, hc, rfl⟩, s, rfl, hl⟩ hp'⟩
    · exact ⟨s, List.mem_cons_of_mem _ hw, hp'⟩
  · rintro ⟨s, hs, hp⟩
    rcases List.mem_cons.1 hs with rfl | hw
    · rcases hp.cases_head with he | ⟨y, ⟨-, t, rfl, hl⟩, hp⟩
      · exact absurd he hne
      · rcases σ.leadsWithin_erase unseen s hp with hp | ⟨t', hl', hp⟩
        · exact ⟨t, List.mem_append_left _ hl, hp⟩
        · exact ⟨t', List.mem_append_left _ hl', hp⟩
    · rcases σ.leadsWithin_erase unseen current hp with hp | ⟨t', hl', hp⟩
      · exact ⟨s, List.mem_append_right _ hw, hp⟩
      · exact ⟨t', List.mem_append_left _ hl', hp⟩

theorem finds_skip (hne : .subgraph current ≠ target) (hc : current ∉ unseen) :
    σ.Finds target unseen work ↔ σ.Finds target unseen (current :: work) := by
  constructor
  · rintro ⟨s, hs, hp⟩
    exact ⟨s, List.mem_cons_of_mem _ hs, hp⟩
  · rintro ⟨s, hs, hp⟩
    rcases List.mem_cons.1 hs with rfl | hw
    · rcases hp.cases_head with he | ⟨y, ⟨⟨t, hu, he⟩, -⟩, -⟩
      · exact absurd he hne
      · obtain rfl := BodyRef.subgraph.inj he
        exact absurd hu hc
    · exact ⟨s, hw, hp⟩

theorem searchLinks_iff :
    σ.searchLinks target unseen work = true ↔ σ.Finds target unseen work := by
  fun_induction searchLinks σ target unseen work with
  | case1 unseen => simp [Finds]
  | case2 unseen current work ht => exact iff_of_true rfl (finds_of_eq ht)
  | case3 unseen current work ht hc ih => exact ih.trans (finds_open ht hc)
  | case4 unseen current work ht hc ih => exact ih.trans (finds_skip ht hc)

variable (σ)

theorem exists_subgraph_of_leads {s : SubgraphId} {b : BodyRef}
    (h : ReflTransGen σ.Leads (.subgraph s) b) : ∃ t, b = .subgraph t := by
  rcases h.cases_tail with rfl | ⟨c, -, t, rfl, -⟩
  · exact ⟨s, rfl⟩
  · exact ⟨t, rfl⟩

/-- Whatever has a link is in the store, so nothing is missed at the start. -/
theorem leadsWithin_subgraphIds {s : SubgraphId} {b : BodyRef}
    (h : ReflTransGen σ.Leads (.subgraph s) b) :
    ReflTransGen (σ.LeadsWithin σ.subgraphIds) (.subgraph s) b := by
  induction h with
  | refl => exact .refl
  | tail hp hstep ih =>
    obtain ⟨t, rfl⟩ := σ.exists_subgraph_of_leads hp
    have ht := (σ.mem_subgraphIds t).2 (σ.lt_size_of_leads hstep)
    exact .tail ih ⟨⟨t, ht, rfl⟩, hstep⟩

theorem finds_subgraphIds_iff (s : SubgraphId) (b : BodyRef) :
    σ.Finds b σ.subgraphIds [s] ↔ ReflTransGen σ.Leads (.subgraph s) b := by
  constructor
  · rintro ⟨t, ht, hp⟩
    obtain rfl : t = s := by simpa using ht
    exact ReflTransGen.mono (fun _ _ h => h.2) _ _ hp
  · intro h
    exact ⟨s, by simp, σ.leadsWithin_subgraphIds h⟩

/-- A subgraph writes a body exactly if links lead from it to the body. -/
theorem renders_iff (s : SubgraphId) (b : BodyRef) :
    σ.renders s b = true ↔ ReflTransGen σ.Leads (.subgraph s) b :=
  searchLinks_iff.trans (σ.finds_subgraphIds_iff s b)

theorem renders_root (s : SubgraphId) (r : RootId) : σ.renders s (.root r) = false := by
  refine Bool.eq_false_iff.2 fun h => ?_
  obtain ⟨t, ht⟩ := σ.exists_subgraph_of_leads ((σ.renders_iff s (.root r)).1 h)
  cases ht

theorem renders_of_links_eq_nil {s : SubgraphId} {b : BodyRef} (h : σ.links (.subgraph s) = [])
    (hne : .subgraph s ≠ b) : σ.renders s b = false := by
  refine Bool.eq_false_iff.2 fun hr => ?_
  rcases ((σ.renders_iff s b).1 hr).cases_head with he | ⟨c, ⟨t, -, ht⟩, -⟩
  · exact hne he
  · simp [Linked, h] at ht

end DotGraph.Store
