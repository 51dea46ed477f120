import DotGraph.Network
import DotGraph.Proofs.EntryLists

/-!
Networks without parallel edges, as additions build them: no node stands twice, no two links run
between the same nodes, a link has one strand and its ends are nodes.
-/

namespace DotGraph

namespace Key

@[simp] theorem beq_refl (k : Key) : (k == k) = true :=
  beq_iff.2 rfl

instance : ReflBEq Key := ⟨beq_refl _⟩

theorem beq_comm (k l : Key) : (k == l) = (l == k) := by
  rw [Bool.eq_iff_iff, beq_iff, beq_iff, eq_comm]

theorem beq_congr_left {k k' : Key} (h : (k == k') = true) (l : Key) : (k == l) = (k' == l) := by
  rw [Bool.eq_iff_iff, beq_iff, beq_iff, beq_iff.1 h]

theorem beq_of_beq {k l u : Key} (hk : (k == u) = true) (hl : (l == u) = true) :
    (k == l) = true := by
  rw [beq_congr_left hk, beq_comm, hl]

theorem eq_text_of_beq {k : Key} {s : String} (h : (k == .text s) = true) : k = .text s := by
  have hi := beq_iff.1 h
  cases k <;>
    simp only [identity, List.cons.injEq, Atom.text.injEq, reduceCtorEq, and_true, false_and] at hi
  rw [hi]

end Key

/-- No key equals a later one. -/
def Distinct (keys : List Key) : Prop :=
  keys.Pairwise fun k l => (k == l) = false

namespace Link

def ends (l : Link) : Key × Key :=
  (l.tail, l.head)

end Link

/-- Two pairs of ends that are not those of one link. -/
def Apart (directed : Bool) (p q : Key × Key) : Prop :=
  ((p.1 == q.1 && p.2 == q.2) || (!directed && p.1 == q.2 && p.2 == q.1)) = false

theorem apart_ends_iff {directed : Bool} {l : Link} {u v : Key} :
    Apart directed l.ends (u, v) ↔ l.joins directed u v = false :=
  Iff.rfl

namespace Network

theorem enter_of_get?_eq_none {k : Key} {data : NetData} {entries : Entries Key NetData}
    (h : entries.get? k = none) : enter k data entries = entries ++ [(k, Entries.ofList data)] := by
  rw [enter, h, Entries.put_of_get?_eq_none h]
  rfl

theorem enter_nil_of_has {k : Key} {entries : Entries Key NetData} (h : entries.has k = true) :
    enter k [] entries = entries := by
  obtain ⟨data, hd⟩ := Option.isSome_iff_exists.1 h
  rw [enter, hd]
  exact Entries.put_of_get?_eq_some hd

theorem keys_enter (k : Key) (data : NetData) (entries : Entries Key NetData) :
    (enter k data entries).keys = if entries.has k then entries.keys else entries.keys ++ [k] :=
  Entries.keys_put

theorem has_enter_of_has {k k' : Key} {data : NetData} {entries : Entries Key NetData}
    (h : entries.has k' = true) : (enter k data entries).has k' = true := by
  rw [Entries.has_eq_any] at h ⊢
  rw [keys_enter]
  split
  · exact h
  · simp [h]

theorem has_enter_self (k : Key) (data : NetData) (entries : Entries Key NetData) :
    (enter k data entries).has k = true := by
  by_cases h : entries.has k = true
  · exact has_enter_of_has h
  · rw [Entries.has_eq_any, keys_enter, if_neg h]
    simp

theorem distinct_enter {k : Key} {data : NetData} {entries : Entries Key NetData}
    (h : Distinct entries.keys) : Distinct (enter k data entries).keys :=
  Entries.Apart.put h

theorem data_enter {P : NetData → Prop} {k : Key} {data : NetData} {entries : Entries Key NetData}
    (hnil : P []) (hmerge : ∀ old, P old → P (old.merge data))
    (h : ∀ entry ∈ entries, P entry.2) : ∀ entry ∈ enter k data entries, P entry.2 := by
  intro entry he
  rcases Entries.eq_or_mem_of_mem_put he with hv | hm
  · rw [hv]
    refine hmerge _ ?_
    cases hg : entries.get? k with
    | none => exact hnil
    | some old =>
      obtain ⟨k', hk'⟩ := Entries.exists_mem_of_get? hg
      exact h _ hk'
  · exact h entry hm

theorem nodup_data_enter {k : Key} {data : NetData} {entries : Entries Key NetData}
    (h : ∀ entry ∈ entries, entry.2.keys.Nodup) :
    ∀ entry ∈ enter k data entries, entry.2.keys.Nodup :=
  data_enter (P := fun data => data.keys.Nodup) .nil (fun _ => Entries.nodup_keys_merge) h

/-! ### Links -/

section

variable (n : Network) (u v : Key) (strand : Option Key) (data : NetData)

theorem joinLinks_of_apart {links : List Link} (h : ∀ l ∈ links, l.joins n.directed u v = false) :
    n.joinLinks u v strand data links = links ++ [⟨u, v, n.addStrand strand data []⟩] := by
  induction links with
  | nil => rfl
  | cons l rest ih =>
    have hl : l.joins n.directed u v = false := h l (by simp)
    simp [joinLinks, hl, ih fun l hm => h l (by simp [hm])]

theorem ends_joinLinks (links : List Link) :
    (n.joinLinks u v strand data links).map Link.ends = links.map Link.ends ∨
      ((∀ l ∈ links, l.joins n.directed u v = false) ∧
        (n.joinLinks u v strand data links).map Link.ends = links.map Link.ends ++ [(u, v)]) := by
  induction links with
  | nil => exact .inr ⟨by simp, rfl⟩
  | cons l rest ih =>
    by_cases hl : l.joins n.directed u v = true
    · left
      simp [joinLinks, hl, Link.ends]
    · rw [Bool.not_eq_true] at hl
      rcases ih with ih | ⟨hrest, ih⟩
      · left
        simp [joinLinks, hl, ih]
      · right
        exact ⟨by simpa [hl] using hrest, by simp [joinLinks, hl, ih]⟩

theorem strands_joinLinks {P : Entries Key NetData → Prop} (hnew : P (n.addStrand strand data []))
    (hold : ∀ strands, P strands → P (n.addStrand strand data strands)) {links : List Link}
    (h : ∀ l ∈ links, P l.strands) : ∀ l ∈ n.joinLinks u v strand data links, P l.strands := by
  induction links with
  | nil =>
    intro l hl
    obtain rfl := List.mem_singleton.1 hl
    exact hnew
  | cons l rest ih =>
    intro l' hl'
    unfold joinLinks at hl'
    split at hl'
    · rcases List.mem_cons.1 hl' with rfl | hl'
      · exact hold _ (h l (by simp))
      · exact h l' (by simp [hl'])
    · rcases List.mem_cons.1 hl' with rfl | hl'
      · exact h l' (by simp)
      · exact ih (fun l hm => h l (by simp [hm])) l' hl'

end

/-- The one strand of a link where edges are not parallel. -/
def OneStrand (strands : Entries Key NetData) : Prop :=
  ∃ data : NetData, strands = [(.integer 0, data)] ∧ data.keys.Nodup

theorem addStrand_nil {n : Network} (hp : n.parallel = false) (strand : Option Key)
    (data : NetData) : n.addStrand strand data [] = [(.integer 0, Entries.ofList data)] := by
  simp [addStrand, strandFor, hp, enter, Entries.ofList]

theorem oneStrand_addStrand {n : Network} (hp : n.parallel = false) (strand : Option Key)
    (data : NetData) {strands : Entries Key NetData} (h : OneStrand strands) :
    OneStrand (n.addStrand strand data strands) := by
  obtain ⟨old, rfl, hn⟩ := h
  refine ⟨old.merge data, ?_, Entries.nodup_keys_merge hn⟩
  simp [addStrand, strandFor, hp, enter, Entries.get?_cons, Entries.put]

/-! ### The invariant -/

structure Built (n : Network) : Prop where
  plain : n.parallel = false
  data : ∃ data, n.data = some data ∧ data.keys.Nodup
  nodes : Distinct n.nodes.keys
  nodeData : ∀ entry ∈ n.nodes, entry.2.keys.Nodup
  links : (n.links.map Link.ends).Pairwise (Apart n.directed)
  strands : ∀ l ∈ n.links, OneStrand l.strands
  ends : ∀ p ∈ n.links.map Link.ends, n.nodes.has p.1 = true ∧ n.nodes.has p.2 = true

theorem Built.addNode {n : Network} (h : n.Built) (k : Key) (data : NetData) :
    (n.addNode k data).Built where
  plain := h.plain
  data := h.data
  nodes := distinct_enter h.nodes
  nodeData := nodup_data_enter h.nodeData
  links := h.links
  strands := h.strands
  ends p hp := ⟨has_enter_of_has (h.ends p hp).1, has_enter_of_has (h.ends p hp).2⟩

theorem Built.joinLinks {n : Network} (h : n.Built) {u v : Key} (hu : n.nodes.has u = true)
    (hv : n.nodes.has v = true) (data : NetData) :
    { n with links := n.joinLinks u v none data n.links }.Built where
  plain := h.plain
  data := h.data
  nodes := h.nodes
  nodeData := h.nodeData
  links := by
    rcases n.ends_joinLinks u v none data n.links with he | ⟨hapart, he⟩
    · simpa only [he] using h.links
    · simp only [he]
      refine List.pairwise_append.2 ⟨h.links, List.pairwise_singleton _ _, fun p hp q hq => ?_⟩
      obtain rfl := List.mem_singleton.1 hq
      obtain ⟨l, hl, rfl⟩ := List.mem_map.1 hp
      exact apart_ends_iff.2 (hapart l hl)
  strands := by
    refine n.strands_joinLinks (P := OneStrand) u v none data ?_
      (fun _ => oneStrand_addStrand h.plain none data) h.strands
    exact ⟨_, addStrand_nil h.plain none data, Entries.nodup_keys_ofList data⟩
  ends := by
    intro p hp
    rcases n.ends_joinLinks u v none data n.links with he | ⟨-, he⟩
    · simp only [he] at hp
      exact h.ends p hp
    · simp only [he] at hp
      rcases List.mem_append.1 hp with hp | hp
      · exact h.ends p hp
      · obtain rfl := List.mem_singleton.1 hp
        exact ⟨hu, hv⟩

theorem Built.addEdge {n : Network} (h : n.Built) (u v : Key) (data : NetData) :
    (n.addEdge u v none data).Built := by
  have hu : ((n.addNode u []).addNode v []).nodes.has u = true :=
    has_enter_of_has (has_enter_self u [] n.nodes)
  have hv : ((n.addNode u []).addNode v []).nodes.has v = true := has_enter_self v [] _
  exact ((h.addNode u []).addNode v []).joinLinks hu hv data

theorem Built.add {n n' : Network} (h : n.Built) {position : Nat} {step : Addition}
    (hs : n.add position step = .ok n') : n'.Built := by
  cases step with
  | node id data =>
    rw [Network.add] at hs
    cases hk : nodeKey (2 * position) id with
    | error e =>
      rw [hk] at hs
      cases hs
    | ok k =>
      rw [hk] at hs
      cases hs
      exact h.addNode k data
  | edge tail head data =>
    rw [Network.add] at hs
    cases hu : nodeKey (2 * position) tail with
    | error e =>
      rw [hu] at hs
      cases hs
    | ok u =>
      cases hv : nodeKey (2 * position + 1) head with
      | error e =>
        rw [hu, hv] at hs
        cases hs
      | ok v =>
        rw [hu, hv] at hs
        cases hs
        exact h.addEdge u v data

theorem Built.addAll {n n' : Network} (h : n.Built) {position : Nat} {steps : List Addition}
    (hs : n.addAll position steps = .ok n') : n'.Built := by
  induction steps generalizing n position with
  | nil =>
    cases hs
    exact h
  | cons step rest ih =>
    rw [Network.addAll] at hs
    cases hn : n.add position step with
    | error e =>
      rw [hn] at hs
      cases hs
    | ok n₁ =>
      rw [hn] at hs
      exact ih (h.add hn) hs

theorem built_empty (directed : Bool) {data : NetData} (hd : data.keys.Nodup) :
    { empty directed false with data := some data }.Built where
  plain := rfl
  data := ⟨data, rfl, hd⟩
  nodes := .nil
  nodeData := by simp [empty]
  links := .nil
  strands := by simp [empty]
  ends := by simp [empty]

/-- Whatever is added in whatever order, with the data of the network entered one by one. -/
theorem built_ofAdditions {directed : Bool} {pairs : NetData} {steps : List Addition} {n : Network}
    (h : ofAdditions directed false (Entries.ofList pairs) steps = .ok n) : n.Built :=
  (built_empty directed (Entries.nodup_keys_ofList pairs)).addAll h

end Network

end DotGraph
