import DotGraph.Proofs.Exports
import DotGraph.Proofs.Outcomes
import Mathlib.Data.List.Nodup

/-!
Paths of links.  A link stands at a place in a statement list, as an entry of its own or at an end
of an edge; a path takes links one after the other.  The paths out of a body are those into its
outline, and there they can be listed.
-/

namespace DotGraph

/-- As what a statement refers to a subgraph. -/
inductive Role where
  | entry
  | tail
  | head
  deriving DecidableEq

/-- A place in a body where a subgraph can stand. -/
structure Reference where
  position : Nat
  role : Role
  deriving DecidableEq

/-! ### Paths in a store -/

def Vertex.subgraph? : Vertex → Option SubgraphId
  | node _ => none
  | subgraph s => some s

def Clause.target? : Clause → Role → Option SubgraphId
  | edge e, .tail => e.tail.subgraph?
  | edge e, .head => e.head.subgraph?
  | _, _ => none

namespace Store

def memberTarget? (σ : Store) : Member → Role → Option SubgraphId
  | .subgraph s, .entry => some s
  | .subgraph _, _ => none
  | .statement i, role => (σ.clause? i).bind fun clause => clause.target? role

/-- The subgraph to which a body refers at a place. -/
def target? (σ : Store) (b : BodyRef) (ref : Reference) : Option SubgraphId :=
  (σ.members b)[ref.position]?.bind fun m => σ.memberTarget? m ref.role

/-- The body to which a path leads, if there is a link at each of its places. -/
def follow? (σ : Store) : BodyRef → List Reference → Option BodyRef
  | b, [] => some b
  | b, ref :: path => (σ.target? b ref).bind fun s => σ.follow? (.subgraph s) path

end Store

/-! ### Paths in an outline -/

def Endpoint.inner? : Endpoint → Option Outline
  | node _ => none
  | subgraph inner => some inner

def Item.target? : Item → Role → Option Outline
  | subgraph inner, .entry => some inner
  | edge tail _ _ _, .tail => tail.inner?
  | edge _ head _ _, .head => head.inner?
  | _, _ => none

namespace Outline

def target? (o : Outline) (ref : Reference) : Option Outline :=
  o.items[ref.position]?.bind fun x => x.target? ref.role

def follow? : Outline → List Reference → Option Outline
  | o, [] => some o
  | o, ref :: path => (o.target? ref).bind fun inner => inner.follow? path

end Outline

mutual

/-- The paths that start with an item at the given position. -/
def Item.paths (position : Nat) : Item → List (List Reference)
  | .node _ _ => []
  | .edge tail head _ _ =>
    tail.paths.map (⟨position, .tail⟩ :: ·) ++ head.paths.map (⟨position, .head⟩ :: ·)
  | .defaults _ _ _ => []
  | .subgraph inner => inner.paths.map (⟨position, .entry⟩ :: ·)

def Endpoint.paths : Endpoint → List (List Reference)
  | .node _ => []
  | .subgraph inner => inner.paths

/-- All paths, the empty one among them. -/
def Outline.paths : Outline → List (List Reference)
  | ⟨_, items⟩ => [] :: itemPaths 0 items

/-- The paths that start with one of the items, which stand from the given position on. -/
def itemPaths (position : Nat) : List Item → List (List Reference)
  | [] => []
  | x :: rest => x.paths position ++ itemPaths (position + 1) rest

end

mutual

theorem Item.mem_paths : ∀ (x : Item) {position : Nat} {p : List Reference},
    p ∈ x.paths position ↔ ∃ role path o, p = ⟨position, role⟩ :: path ∧
      x.target? role = some o ∧ (o.follow? path).isSome
  | .node _ _, _, _ => by simp [Item.paths, Item.target?]
  | .edge tail head _ _, position, p => by
    simp only [Item.paths, List.mem_append, List.mem_map, tail.mem_paths, head.mem_paths]
    constructor
    · rintro (⟨path, ⟨o, ho, hp⟩, rfl⟩ | ⟨path, ⟨o, ho, hp⟩, rfl⟩)
      · exact ⟨.tail, path, o, rfl, ho, hp⟩
      · exact ⟨.head, path, o, rfl, ho, hp⟩
    · rintro ⟨role, path, o, rfl, ho, hp⟩
      cases role with
      | entry => simp [Item.target?] at ho
      | tail => exact .inl ⟨path, ⟨o, ho, hp⟩, rfl⟩
      | head => exact .inr ⟨path, ⟨o, ho, hp⟩, rfl⟩
  | .defaults _ _ _, _, _ => by simp [Item.paths, Item.target?]
  | .subgraph inner, position, p => by
    simp only [Item.paths, List.mem_map, inner.mem_paths]
    constructor
    · rintro ⟨path, hp, rfl⟩
      exact ⟨.entry, path, inner, rfl, rfl, hp⟩
    · rintro ⟨role, path, o, rfl, ho, hp⟩
      cases role with
      | entry =>
        obtain rfl := Option.some.inj ho
        exact ⟨path, hp, rfl⟩
      | tail => simp [Item.target?] at ho
      | head => simp [Item.target?] at ho

theorem Endpoint.mem_paths : ∀ (e : Endpoint) {p : List Reference},
    p ∈ e.paths ↔ ∃ o, e.inner? = some o ∧ (o.follow? p).isSome
  | .node _, _ => by simp [Endpoint.paths, Endpoint.inner?]
  | .subgraph inner, p => by
    rw [Endpoint.paths, inner.mem_paths]
    simp [Endpoint.inner?]

theorem Outline.mem_paths : ∀ (o : Outline) {p : List Reference},
    p ∈ o.paths ↔ (o.follow? p).isSome
  | ⟨_, items⟩, [] => by simp [Outline.paths, Outline.follow?]
  | ⟨header, items⟩, ⟨position, role⟩ :: path => by
    simp only [Outline.paths, List.mem_cons, reduceCtorEq, false_or, mem_itemPaths items,
      Outline.follow?, Outline.target?, Outline.items, Option.isSome_bind, Option.any_eq_true]
    constructor
    · rintro ⟨i, role', path', o, hp, ho, hf⟩
      obtain ⟨⟨rfl, rfl⟩, rfl⟩ : (position = 0 + i ∧ role = role') ∧ path = path' := by
        simpa using hp
      rw [Nat.zero_add]
      exact ⟨o, ho, hf⟩
    · rintro ⟨o, ho, hf⟩
      exact ⟨position, role, path, o, by rw [Nat.zero_add], ho, hf⟩

theorem mem_itemPaths : ∀ (items : List Item) {position : Nat} {p : List Reference},
    p ∈ itemPaths position items ↔ ∃ i role path o, p = ⟨position + i, role⟩ :: path ∧
      (items[i]?.bind fun x => x.target? role) = some o ∧ (o.follow? path).isSome
  | [], _, _ => by simp [itemPaths]
  | x :: rest, position, p => by
    simp only [itemPaths, List.mem_append, x.mem_paths, mem_itemPaths rest]
    constructor
    · rintro (⟨role, path, o, rfl, ho, hf⟩ | ⟨i, role, path, o, rfl, ho, hf⟩)
      · exact ⟨0, role, path, o, rfl, ho, hf⟩
      · exact ⟨i + 1, role, path, o, by rw [Nat.add_assoc, Nat.add_comm 1], ho, hf⟩
    · rintro ⟨i, role, path, o, rfl, ho, hf⟩
      cases i with
      | zero => exact .inl ⟨role, path, o, rfl, ho, hf⟩
      | succ i =>
        exact .inr ⟨i, role, path, o, by rw [Nat.add_assoc, Nat.add_comm 1], ho, hf⟩

end

theorem nodup_map_cons {ref : Reference} {paths : List (List Reference)} (h : paths.Nodup) :
    (paths.map (ref :: ·)).Nodup :=
  h.map fun _ _ he => (List.cons.inj he).2

mutual

theorem Item.nodup_paths : ∀ (x : Item) (position : Nat), (x.paths position).Nodup
  | .node _ _, _ => .nil
  | .edge tail head _ _, position => by
    refine List.nodup_append'.2
      ⟨nodup_map_cons tail.nodup_paths, nodup_map_cons head.nodup_paths, ?_⟩
    intro p htail hhead
    obtain ⟨path, -, rfl⟩ := List.mem_map.1 htail
    obtain ⟨path', -, he⟩ := List.mem_map.1 hhead
    cases he
  | .defaults _ _ _, _ => .nil
  | .subgraph inner, _ => nodup_map_cons inner.nodup_paths

theorem Endpoint.nodup_paths : ∀ e : Endpoint, e.paths.Nodup
  | .node _ => .nil
  | .subgraph inner => inner.nodup_paths

theorem Outline.nodup_paths : ∀ o : Outline, o.paths.Nodup
  | ⟨_, items⟩ => by
    refine List.nodup_cons.2 ⟨fun h => ?_, nodup_itemPaths items 0⟩
    obtain ⟨i, role, path, o, he, -⟩ := (mem_itemPaths items).1 h
    cases he

theorem nodup_itemPaths : ∀ (items : List Item) (position : Nat),
    (itemPaths position items).Nodup
  | [], _ => .nil
  | x :: rest, position => by
    refine List.nodup_append'.2 ⟨x.nodup_paths position, nodup_itemPaths rest (position + 1), ?_⟩
    intro p hx hrest
    obtain ⟨role, path, o, rfl, -⟩ := x.mem_paths.1 hx
    obtain ⟨i, role', path', o', he, -⟩ := (mem_itemPaths rest).1 hrest
    have hposition : position = position + 1 + i := by
      have hhead := (List.cons.inj he).1
      exact congrArg Reference.position hhead
    omega

end

/-! ### The outline of a body has the paths of the body -/

namespace Store

variable {σ : Store} {inner : SubgraphId → Option Outline}

theorem map_subgraph?_of_endpointWith? {v : Vertex} {e : Endpoint}
    (he : endpointWith? inner v = some e) : v.subgraph?.map inner = e.inner?.map some := by
  cases v with
  | node id =>
    cases he
    rfl
  | subgraph s =>
    obtain ⟨o, ho, rfl⟩ := Option.map_eq_some_iff.1 he
    simp [Vertex.subgraph?, Endpoint.inner?, ho]

theorem map_memberTarget?_of_itemWith? {m : Member} {x : Item}
    (hx : σ.itemWith? inner m = some x) (role : Role) :
    (σ.memberTarget? m role).map inner = (x.target? role).map some := by
  cases m with
  | subgraph s =>
    obtain ⟨o, ho, rfl⟩ := Option.map_eq_some_iff.1 hx
    cases role <;> simp [memberTarget?, Item.target?, ho]
  | statement i =>
    obtain ⟨s, hs, hx⟩ := Option.bind_eq_some_iff.1 hx
    have hclause : σ.clause? i = some s.clause := by simp [clause?, hs]
    simp only [memberTarget?, hclause, Option.bind_some]
    cases hc : s.clause with
    | node id =>
      rw [hc] at hx
      cases hx
      cases role <;> rfl
    | edge e =>
      rw [hc] at hx
      obtain ⟨tail, htail, hx⟩ := Option.bind_eq_some_iff.1 hx
      obtain ⟨head, hhead, hx⟩ := Option.bind_eq_some_iff.1 hx
      cases hx
      cases role with
      | entry => rfl
      | tail => exact map_subgraph?_of_endpointWith? htail
      | head => exact map_subgraph?_of_endpointWith? hhead
    | defaults kind standalone =>
      rw [hc] at hx
      cases hx
      cases role <;> rfl
    | noEdge given =>
      rw [hc] at hx
      cases hx

theorem map_target?_of_bodyWith? {b : BodyRef} {o : Outline} (ho : σ.bodyWith? inner b = some o)
    (ref : Reference) : (σ.target? b ref).map inner = (o.target? ref).map some := by
  obtain ⟨body, hbody, -, hitems⟩ := eq_some_of_bodyWith? ho
  have hmap := congrArg (·[ref.position]?) (mapM_eq_some_iff.1 hitems)
  simp only [List.getElem?_map] at hmap
  unfold target? Outline.target?
  rw [members_eq_of_body? hbody]
  cases hm : body.members[ref.position]? with
  | none =>
    have hnone : o.items[ref.position]? = none := by simpa [hm, eq_comm] using hmap
    simp [hnone]
  | some m =>
    rw [hm] at hmap
    obtain ⟨x, hx, hxm⟩ := Option.map_eq_some_iff.1 hmap.symm
    simp only [hx, Option.bind_some]
    exact map_memberTarget?_of_itemWith? hxm.symm ref.role

theorem Intact.map_follow? (hi : σ.Intact) (ha : σ.Acyclic) (path : List Reference) {b : BodyRef}
    {o : Outline} (ho : σ.outline? b = some o) :
    (σ.follow? b path).map σ.outline? = (o.follow? path).map some := by
  induction path generalizing b o with
  | nil => simp [follow?, Outline.follow?, ho]
  | cons ref path ih =>
    have htarget := map_target?_of_bodyWith? (hi.outline?_eq ha b ▸ ho) ref
    simp only [follow?, Outline.follow?]
    cases ht : σ.target? b ref with
    | none =>
      have hnone : o.target? ref = none := by simpa [ht, eq_comm] using htarget
      simp [hnone]
    | some s =>
      rw [ht] at htarget
      obtain ⟨inner, hinner, hs⟩ := Option.map_eq_some_iff.1 htarget.symm
      simp only [hinner, Option.bind_some]
      exact ih hs.symm

theorem Reachable.map_follow? (h : σ.Reachable) (path : List Reference) {b : BodyRef} {o : Outline}
    (ho : σ.outline? b = some o) : (σ.follow? b path).map σ.outline? = (o.follow? path).map some :=
  h.uniform.intact.map_follow? h.acyclic path ho

theorem Reachable.isSome_follow? (h : σ.Reachable) (path : List Reference) {b : BodyRef}
    {o : Outline} (ho : σ.outline? b = some o) :
    (σ.follow? b path).isSome = (o.follow? path).isSome := by
  have hmap := congrArg Option.isSome (h.map_follow? path ho)
  simpa using hmap

theorem exists_root_of_follow? {r : RootId} {path : List Reference} {b : BodyRef} (hne : path ≠ [])
    (hb : σ.follow? (.root r) path = some b) : ∃ g, σ.root? r = some g := by
  cases path with
  | nil => exact absurd rfl hne
  | cons ref path =>
    obtain ⟨s, hs, -⟩ := Option.bind_eq_some_iff.1 hb
    obtain ⟨m, hm, -⟩ := Option.bind_eq_some_iff.1 hs
    obtain ⟨operator, ho⟩ := exists_hasOperator_of_mem (List.mem_of_getElem? hm)
    obtain ⟨g, hg, -⟩ : ∃ g, σ.root? r = some g ∧ _ := by simpa [HasOperator, body?] using ho
    exact ⟨g, hg⟩

/-! ### A subgraph with three links -/

/-- A directed graph, a subgraph that floats, and an edge from the subgraph to itself. -/
def threeLinksRun : List Call :=
  [.ask (.newRoot (.text "g") false true), .ask (.set (.root ⟨0⟩) [("label", .text "one")]),
    .ask (.newSubgraph (.text "s") true), .ask (.set (.subgraph ⟨0⟩) [("color", .text "red")]),
    .ask (.insert (.subgraph ⟨0⟩) (.node (.text "a") .absent) []),
    .ask (.newStatement (.edge ⟨0, .subgraph ⟨0⟩, .subgraph ⟨0⟩, .directed⟩) none)]

/-- The graph takes the edge, and behind it the subgraph. -/
def threeLinks : Store :=
  empty.after (threeLinksRun ++ [.ask (.add (.root ⟨0⟩) (.object (.statement ⟨1⟩)))] ++
    [.ask (.add (.root ⟨0⟩) (.object (.subgraph ⟨0⟩)))])

theorem reachable_threeLinks : threeLinks.Reachable := ⟨_, rfl⟩

theorem threeLinks_eq :
    threeLinks = ((empty.after threeLinksRun).attach (.root ⟨0⟩) (.statement ⟨1⟩)).attach
      (.root ⟨0⟩) (.subgraph ⟨0⟩) := by
  have hedge : (empty.after threeLinksRun).checkMember (.root ⟨0⟩) (.statement ⟨1⟩) = .ok () :=
    checkMember_root_edge (e := ⟨0, .subgraph ⟨0⟩, .subgraph ⟨0⟩, .directed⟩) (by decide +kernel)
      (by decide +kernel) (by decide +kernel) (by decide +kernel)
  have hentry : ((empty.after threeLinksRun).attach (.root ⟨0⟩) (.statement ⟨1⟩)).checkMember
      (.root ⟨0⟩) (.subgraph ⟨0⟩) = .ok () :=
    checkMember_root_subgraph .directed (by decide +kernel) (by decide +kernel)
      (by decide +kernel)
  rw [threeLinks, after_append, after_append, after_add_statement hedge, after_add_subgraph hentry]

end Store

end DotGraph
