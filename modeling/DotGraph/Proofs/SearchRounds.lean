import DotGraph.Proofs.LinkSearch
import Mathlib.Data.List.Nodup

/-!
The search along links, round by round.  It keeps a stack of subgraphs, on which one may stand many
times, and those that it has opened.  Every round but the last leaves one thing less on the stack or
among the links of what is not open yet; so it ends in any store, whatever links to what, and with
the answer of the search that opens each subgraph once.
-/

namespace DotGraph.Store

open Relation

/-- Where a search stands: what it has opened, and the stack, top first. -/
structure Search where
  seen : List SubgraphId
  stack : List SubgraphId

namespace Search

def start (s : SubgraphId) : Search :=
  ⟨[], [s]⟩

/-- One round takes a subgraph from the stack.  If it is neither the target nor open already, its
links go onto the stack, the last of them on top. -/
def round (σ : Store) (target : BodyRef) : Search → Bool ⊕ Search
  | ⟨_, []⟩ => .inl false
  | ⟨seen, current :: rest⟩ =>
    if .subgraph current = target then .inl true
    else if current ∈ seen then .inr ⟨seen, rest⟩
    else .inr ⟨current :: seen, (σ.links (.subgraph current)).reverse ++ rest⟩

/-- The answer, if it is there after so many rounds. -/
def answer? (σ : Store) (target : BodyRef) : Nat → Search → Option Bool
  | 0, _ => none
  | rounds + 1, x =>
    match x.round σ target with
    | .inl answer => some answer
    | .inr next => answer? σ target rounds next

end Search

variable {σ : Store} {target : BodyRef} {seen ss : List SubgraphId} {s : SubgraphId}

/-! ### What is not open yet -/

def unseen (σ : Store) (seen : List SubgraphId) : List SubgraphId :=
  σ.subgraphIds.filter (· ∉ seen)

theorem mem_unseen : s ∈ σ.unseen seen ↔ s ∈ σ.subgraphIds ∧ s ∉ seen := by
  simp [unseen]

theorem unseen_cons : σ.unseen (s :: seen) = (σ.unseen seen).erase s := by
  have hids : σ.subgraphIds.Nodup := List.nodup_range.map fun _ _ h => SubgraphId.mk.inj h
  have hnodup : (σ.unseen seen).Nodup := hids.filter _
  rw [hnodup.erase_eq_filter, unseen, unseen, List.filter_filter]
  refine List.filter_congr fun t _ => ?_
  by_cases ht : t = s <;> simp [ht]

/-- What was never seen and still is not to be opened is not in the store. -/
theorem links_eq_nil_of_notMem_unseen (hs : s ∉ seen) (h : s ∉ σ.unseen seen) :
    σ.links (.subgraph s) = [] := by
  have hsize : ¬ s.index < σ.subgraphs.size := fun hlt =>
    h (mem_unseen.2 ⟨(σ.mem_subgraphIds s).2 hlt, hs⟩)
  exact σ.links_eq_nil_of_body? (by simp [body?, subgraph?, Nat.not_lt.1 hsize])

/-- How many links there are out of the given subgraphs. -/
def linkCount (σ : Store) (ss : List SubgraphId) : Nat :=
  (ss.flatMap fun s => σ.links (.subgraph s)).length

theorem linkCount_unseen_cons (hs : s ∉ seen) :
    (σ.links (.subgraph s)).length + σ.linkCount (σ.unseen (s :: seen)) =
      σ.linkCount (σ.unseen seen) := by
  rw [unseen_cons]
  by_cases h : s ∈ σ.unseen seen
  · have hperm := (List.perm_cons_erase h).flatMap_right fun s => σ.links (.subgraph s)
    rw [linkCount, linkCount, hperm.length_eq, List.flatMap_cons, List.length_append]
  · rw [List.erase_of_not_mem h, links_eq_nil_of_notMem_unseen hs h, List.length_nil, Nat.zero_add]

namespace Search

variable {x y : Search}

/-- A round that gives no answer passes a subgraph over, or it opens one. -/
theorem round_eq_inr_cases (h : x.round σ target = .inr y) :
    ∃ seen current rest, x = ⟨seen, current :: rest⟩ ∧ .subgraph current ≠ target ∧
      ((current ∈ seen ∧ y = ⟨seen, rest⟩) ∨
        (current ∉ seen ∧
          y = ⟨current :: seen, (σ.links (.subgraph current)).reverse ++ rest⟩)) := by
  obtain ⟨seen, _ | ⟨current, rest⟩⟩ := x
  · cases h
  · rw [round] at h
    refine ⟨seen, current, rest, rfl, ?_⟩
    split at h
    · cases h
    · rename_i hne
      split at h
      · rename_i hs
        exact ⟨hne, .inl ⟨hs, (Sum.inr.inj h).symm⟩⟩
      · rename_i hs
        exact ⟨hne, .inr ⟨hs, (Sum.inr.inj h).symm⟩⟩

/-! ### How many rounds are left -/

/-- What is on the stack, and what may come onto it yet. -/
def left (σ : Store) (x : Search) : Nat :=
  x.stack.length + σ.linkCount (σ.unseen x.seen)

theorem left_of_round (h : x.round σ target = .inr y) : y.left σ + 1 = x.left σ := by
  obtain ⟨seen, current, rest, rfl, -, ⟨-, rfl⟩ | ⟨hs, rfl⟩⟩ := round_eq_inr_cases h
  · simp only [left, List.length_cons]
    omega
  · have hlinks := linkCount_unseen_cons (σ := σ) hs
    simp only [left, List.length_cons, List.length_append, List.length_reverse]
    omega

/-! ### What is found -/

/-- Whether the target can still be found. -/
def Finds (σ : Store) (target : BodyRef) (x : Search) : Prop :=
  σ.Finds target (σ.unseen x.seen) x.stack

theorem round_eq_inl {answer : Bool} (h : x.round σ target = .inl answer) :
    answer = true ↔ x.Finds σ target := by
  obtain ⟨seen, _ | ⟨current, rest⟩⟩ := x
  · obtain rfl := Sum.inl.inj h
    simp [Finds, Store.Finds]
  · rw [round] at h
    split at h
    · rename_i he
      obtain rfl := Sum.inl.inj h
      exact iff_of_true rfl (finds_of_eq he)
    · split at h <;> cases h

theorem finds_reverse {links rest : List SubgraphId} :
    σ.Finds target ss (links.reverse ++ rest) ↔ σ.Finds target ss (links ++ rest) := by
  simp [Store.Finds]

theorem finds_of_round (h : x.round σ target = .inr y) :
    y.Finds σ target ↔ x.Finds σ target := by
  obtain ⟨seen, current, rest, rfl, hne, ⟨hs, rfl⟩ | ⟨hs, rfl⟩⟩ := round_eq_inr_cases h
  · exact finds_skip hne fun hm => (mem_unseen.1 hm).2 hs
  · refine finds_reverse.trans ?_
    rw [unseen_cons]
    by_cases hc : current ∈ σ.unseen seen
    · exact finds_open hne hc
    · rw [List.erase_of_not_mem hc, links_eq_nil_of_notMem_unseen hs hc, List.nil_append]
      exact finds_skip hne hc

/-- With a round more than there are left, the answer is there, and it is right. -/
theorem exists_answer? {rounds : Nat} (h : x.left σ < rounds) :
    ∃ answer, x.answer? σ target rounds = some answer ∧ (answer = true ↔ x.Finds σ target) := by
  induction rounds generalizing x with
  | zero => exact absurd h (Nat.not_lt_zero _)
  | succ rounds ih =>
    rw [answer?]
    cases hround : x.round σ target with
    | inl answer => exact ⟨answer, rfl, round_eq_inl hround⟩
    | inr y =>
      have hleft := left_of_round hround
      obtain ⟨answer, hanswer, hfinds⟩ := ih (x := y) (by omega)
      exact ⟨answer, hanswer, hfinds.trans (finds_of_round hround)⟩

end Search

/-- In every store, the rounds come to an end, and to the answer of the search. -/
theorem answer?_start {s : SubgraphId} {b : BodyRef} {rounds : Nat}
    (h : σ.linkCount σ.subgraphIds + 2 ≤ rounds) :
    (Search.start s).answer? σ b rounds = some (σ.renders s b) := by
  have hunseen : σ.unseen [] = σ.subgraphIds := by simp [unseen]
  have hleft : (Search.start s).left σ < rounds := by
    simp only [Search.left, Search.start, hunseen, List.length_singleton]
    omega
  obtain ⟨answer, hanswer, hfinds⟩ : ∃ answer, (Search.start s).answer? σ b rounds = some answer ∧
      (answer = true ↔ (Search.start s).Finds σ b) :=
    Search.exists_answer? hleft
  rw [hanswer, Option.some.injEq, Bool.eq_iff_iff, hfinds, Search.Finds, renders_iff,
    ← finds_subgraphIds_iff]
  rw [Search.start, hunseen]

end DotGraph.Store
