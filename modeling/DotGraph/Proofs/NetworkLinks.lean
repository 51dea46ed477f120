import DotGraph.Proofs.NetworkListing
import DotGraph.Proofs.NetworkNodes

/-!
What additions do to the links of a network and to the data of its nodes.  Of a network that was
built, the listed edges are the links.  An edge that is added is one more link unless there is one
between its ends, and only the additions of a node give it data.
-/

namespace DotGraph

/-- Pairs of ends that one link may have. -/
def SameEnds (directed : Bool) (p q : Key × Key) : Prop :=
  (p.1.identity = q.1.identity ∧ p.2.identity = q.2.identity) ∨
    (directed = false ∧ p.1.identity = q.2.identity ∧ p.2.identity = q.1.identity)

theorem SameEnds.symm {directed : Bool} {p q : Key × Key} (h : SameEnds directed p q) :
    SameEnds directed q p := by
  rcases h with ⟨ht, hh⟩ | ⟨hd, ht, hh⟩
  · exact .inl ⟨ht.symm, hh.symm⟩
  · exact .inr ⟨hd, hh.symm, ht.symm⟩

theorem SameEnds.trans {directed : Bool} {p q s : Key × Key} (h : SameEnds directed p q)
    (h' : SameEnds directed q s) : SameEnds directed p s := by
  rcases h with ⟨ht, hh⟩ | ⟨hd, ht, hh⟩ <;> rcases h' with ⟨ht', hh'⟩ | ⟨hd', ht', hh'⟩
  · exact .inl ⟨ht.trans ht', hh.trans hh'⟩
  · exact .inr ⟨hd', ht.trans ht', hh.trans hh'⟩
  · exact .inr ⟨hd, ht.trans hh', hh.trans ht'⟩
  · exact .inl ⟨ht.trans hh', hh.trans ht'⟩

theorem Link.joins_iff {l : Link} {directed : Bool} {u v : Key} :
    l.joins directed u v = true ↔ SameEnds directed l.ends (u, v) := by
  simp [Link.joins, SameEnds, Link.ends, Key.beq_iff, and_assoc]

theorem Link.sameEnds_of_other? {l : Link} {directed : Bool} {u v : Key}
    (h : l.other? directed u = some v) : SameEnds directed l.ends (u, v) := by
  rcases Link.other?_eq_some_iff.1 h with ⟨ht, rfl⟩ | ⟨-, hd, hh, rfl⟩
  · exact .inl ⟨Key.beq_iff.1 ht, rfl⟩
  · exact .inr ⟨hd, rfl, Key.beq_iff.1 hh⟩

theorem Identifier.eq_key_of_identity {k : Key} {name : Identifier}
    (h : k.identity = name.key.identity) : k = name.key :=
  Key.eq_text_of_beq (Key.beq_iff.2 h)

theorem sameEnds_keys_iff {directed : Bool} {p : Key × Key} {u v : Identifier} :
    SameEnds directed p (u.key, v.key) ↔
      (p.1 = u.key ∧ p.2 = v.key) ∨ (directed = false ∧ p.1 = v.key ∧ p.2 = u.key) := by
  constructor
  · rintro (⟨ht, hh⟩ | ⟨hd, ht, hh⟩)
    · exact .inl ⟨Identifier.eq_key_of_identity ht, Identifier.eq_key_of_identity hh⟩
    · exact .inr ⟨hd, Identifier.eq_key_of_identity ht, Identifier.eq_key_of_identity hh⟩
  · rintro (⟨ht, hh⟩ | ⟨hd, ht, hh⟩)
    · exact .inl ⟨congrArg Key.identity ht, congrArg Key.identity hh⟩
    · exact .inr ⟨hd, congrArg Key.identity ht, congrArg Key.identity hh⟩

namespace Network

variable {n : Network} {p : Key × Key}

/-! ### Links and their listing -/

/-- Whether there is a link between two nodes. -/
def HasLink (n : Network) (p : Key × Key) : Prop :=
  ∃ l ∈ n.links, SameEnds n.directed l.ends p

theorem exists_listed {done : List Key} {u v : Key} {l : Link}
    (ho : l.other? n.directed u = some v)
    (hdone : n.directed = false → done.any (· == v) = false) (hs : OneStrand l.strands) :
    ∃ e ∈ n.listed done u l, e.ends = (u, v) := by
  obtain ⟨data, hstrands, -⟩ := hs
  have hskip : (!n.directed && done.any (· == v)) = false := by
    cases hd : n.directed with
    | true => rfl
    | false => simpa using hdone hd
  refine ⟨⟨u, v, data⟩, ?_, rfl⟩
  simp only [listed, ho, hskip, hstrands]
  exact .head _

/-- A link is listed at the turn of the first node that equals one of its ends. -/
theorem Built.exists_edge_of_link (h : n.Built) {l : Link} (hl : l ∈ n.links) :
    ∃ e ∈ n.edges, SameEnds n.directed e.ends l.ends := by
  let turn : Key → Bool := fun u => l.tail == u || (!n.directed && l.head == u)
  have hends := h.ends _ (List.mem_map_of_mem (f := Link.ends) hl)
  obtain ⟨k, hk, htail⟩ : ∃ k ∈ n.nodes.keys, (k == l.tail) = true := by
    simpa [Entries.has_eq_any, Link.ends] using hends.1
  have hturn : turn k = true := by simp [turn, Key.beq_comm l.tail, htail]
  obtain ⟨u, hu⟩ : ∃ u, n.nodes.keys.find? turn = some u :=
    Option.isSome_iff_exists.1 (List.find?_isSome.2 ⟨k, hk, hturn⟩)
  obtain ⟨hfirst, before, after, hkeys, hbefore⟩ := List.find?_eq_some_iff_append.1 hu
  have hnone : ∀ x ∈ before, turn x = false := fun x hx => by simpa using hbefore x hx
  obtain ⟨v, ho, hv⟩ : ∃ v, l.other? n.directed u = some v ∧
      (n.directed = false → before.reverse.any (· == v) = false) := by
    cases ht : l.tail == u with
    | true =>
      refine ⟨l.head, Link.other?_eq_some_iff.2 (.inl ⟨ht, rfl⟩), fun hd => ?_⟩
      rw [List.any_eq_false]
      intro x hx
      have hx' := hnone x (List.mem_reverse.1 hx)
      simp only [turn, hd, Bool.not_false, Bool.true_and, Bool.or_eq_false_iff] at hx'
      simpa [Key.beq_comm x] using hx'.2
    | false =>
      obtain ⟨hd, hh⟩ : n.directed = false ∧ (l.head == u) = true := by
        simpa [turn, ht] using hfirst
      refine ⟨l.tail, Link.other?_eq_some_iff.2 (.inr ⟨ht, hd, hh, rfl⟩), fun _ => ?_⟩
      rw [List.any_eq_false]
      intro x hx
      have hx' := hnone x (List.mem_reverse.1 hx)
      simp only [turn, Bool.or_eq_false_iff] at hx'
      simpa [Key.beq_comm x] using hx'.1
  obtain ⟨e, he, hends⟩ := exists_listed ho hv (h.strands l hl)
  refine ⟨e, ?_, ?_⟩
  · rw [edges, hkeys, edgesFrom_append, List.append_nil]
    refine List.mem_append_right _ (List.mem_append_left _ ?_)
    rw [edgesAt_eq]
    exact List.mem_flatMap.2 ⟨l, hl, he⟩
  · rw [hends]
    exact (Link.sameEnds_of_other? ho).symm

theorem Built.exists_edge_iff (h : n.Built) :
    (∃ e ∈ n.edges, SameEnds n.directed e.ends p) ↔ n.HasLink p := by
  constructor
  · rintro ⟨e, he, hp⟩
    obtain ⟨-, -, l, hl, ho, -⟩ := mem_edgesFrom he
    exact ⟨l, hl, (Link.sameEnds_of_other? ho).trans hp⟩
  · rintro ⟨l, hl, hp⟩
    obtain ⟨e, he, hends⟩ := h.exists_edge_of_link hl
    exact ⟨e, he, hends.trans hp⟩

/-- An edge of the network, in one direction only if it has directions. -/
def Joins (n : Network) (u v : Key) : Prop :=
  ∃ e ∈ n.edges, (e.tail = u ∧ e.head = v) ∨ (n.directed = false ∧ e.tail = v ∧ e.head = u)

theorem Built.joins_iff (h : n.Built) {u v : Identifier} :
    n.Joins u.key v.key ↔ n.HasLink (u.key, v.key) := by
  rw [← h.exists_edge_iff]
  simp only [Joins, sameEnds_keys_iff, NetEdge.ends]

/-! ### Links that are added -/

theorem hasLink_joinLinks {u v : Key} {strand : Option Key} {data : NetData} (links : List Link) :
    (∃ l ∈ n.joinLinks u v strand data links, SameEnds n.directed l.ends p) ↔
      (∃ l ∈ links, SameEnds n.directed l.ends p) ∨ SameEnds n.directed (u, v) p := by
  induction links with
  | nil => simp [joinLinks, Link.ends]
  | cons l rest ih =>
    by_cases hl : l.joins n.directed u v = true
    · -- The new edge has the ends of a link that is there.
      have hsame : SameEnds n.directed (u, v) p → SameEnds n.directed l.ends p :=
        (Link.joins_iff.1 hl).trans
      simp only [joinLinks, hl, if_true, List.exists_mem_cons_iff]
      show (SameEnds n.directed l.ends p ∨ _) ↔ _
      constructor
      · exact .inl
      · rintro (h | h)
        · exact h
        · exact .inl (hsame h)
    · rw [joinLinks, if_neg hl, List.exists_mem_cons_iff, List.exists_mem_cons_iff, ih, or_assoc]

theorem hasLink_addEdge {u v : Key} {strand : Option Key} {data : NetData} :
    (n.addEdge u v strand data).HasLink p ↔ n.HasLink p ∨ SameEnds n.directed (u, v) p :=
  hasLink_joinLinks (n := (n.addNode u []).addNode v []) n.links

theorem hasLink_addNode {k : Key} {data : NetData} :
    (n.addNode k data).HasLink p ↔ n.HasLink p := .rfl

theorem directed_connectTail (tail : Identifier) (heads : List Identifier) (data : NetData) :
    (heads.foldl (fun n head => n.addEdge tail.key head.key none data) n).directed =
      n.directed := by
  induction heads generalizing n with
  | nil => rfl
  | cons head rest ih => exact ih

theorem hasLink_connectTail {tail : Identifier} {heads : List Identifier} {data : NetData} :
    (heads.foldl (fun n head => n.addEdge tail.key head.key none data) n).HasLink p ↔
      n.HasLink p ∨ ∃ head ∈ heads, SameEnds n.directed (tail.key, head.key) p := by
  induction heads generalizing n with
  | nil => simp
  | cons head rest ih =>
    have hd : (n.addEdge tail.key head.key none data).directed = n.directed := rfl
    rw [List.foldl_cons, ih, hd, hasLink_addEdge, List.exists_mem_cons_iff, or_assoc]

theorem directed_connect (tails heads : List Identifier) (data : NetData) :
    (n.connect tails heads data).directed = n.directed := by
  unfold connect
  induction tails generalizing n with
  | nil => rfl
  | cons tail rest ih => rw [List.foldl_cons, ih, directed_connectTail]

theorem hasLink_connect {tails heads : List Identifier} {data : NetData} :
    (n.connect tails heads data).HasLink p ↔
      n.HasLink p ∨ ∃ tail ∈ tails, ∃ head ∈ heads,
        SameEnds n.directed (tail.key, head.key) p := by
  unfold connect
  induction tails generalizing n with
  | nil => simp
  | cons tail rest ih =>
    rw [List.foldl_cons, ih, hasLink_connectTail, directed_connectTail,
      List.exists_mem_cons_iff, or_assoc]

/-! ### Data of nodes -/

/-- Whether the data of a node have something under a name. -/
def HasData (n : Network) (k : Key) (name : String) : Prop :=
  ∃ data, n.nodes.get? k = some data ∧ name ∈ data.keys

end Network

namespace Entries

theorem mem_keys_merge {entries more : NetData} {name : String} :
    name ∈ (entries.merge more).keys ↔ name ∈ entries.keys ∨ name ∈ more.keys := by
  induction more generalizing entries with
  | nil => simp
  | cons pair rest ih =>
    have hput : name ∈ (entries.put pair.1 pair.2).keys ↔ name ∈ entries.keys ∨ name = pair.1 := by
      rw [keys_put]
      split
      · rename_i hhas
        constructor
        · exact .inl
        · rintro (h | rfl)
          · exact h
          · exact has_iff.1 hhas
      · simp
    rw [merge_cons, ih, hput, keys_cons, List.mem_cons, or_assoc]

variable {ν : Type} {k k' : Key} {entries : Entries Key ν}

theorem get?_congr (h : (k == k') = true) : entries.get? k = entries.get? k' := by
  induction entries with
  | nil => rfl
  | cons pair rest ih =>
    obtain ⟨k₀, v₀⟩ := pair
    have hsame : (k₀ == k) = (k₀ == k') := by
      rw [Key.beq_comm k₀, Key.beq_comm k₀, Key.beq_congr_left h]
    rw [get?_cons, get?_cons, hsame, ih]

theorem get?_put_key (v : ν) :
    (entries.put k v).get? k' = if k == k' then some v else entries.get? k' := by
  refine get?_put_of_congr (fun _ l h => Key.beq_congr_left h l) fun k₀ l h => ?_
  rw [Key.beq_comm k₀, Key.beq_comm k₀, Key.beq_congr_left h]

end Entries

namespace Network

variable {n : Network} {k : Key} {name : String}

theorem hasData_addNode {k' : Key} {data : NetData} :
    (n.addNode k' data).HasData k name ↔
      n.HasData k name ∨ ((k' == k) = true ∧ name ∈ data.keys) := by
  unfold HasData
  show (∃ d, (enter k' data n.nodes).get? k = some d ∧ _) ↔ _
  rw [enter, Entries.get?_put_key]
  by_cases hk : (k' == k) = true
  · have hold : n.nodes.get? k' = n.nodes.get? k := Entries.get?_congr hk
    cases hg : n.nodes.get? k with
    | none => simp [hk, hold, hg, Entries.mem_keys_merge]
    | some old => simp [hk, hold, hg, Entries.mem_keys_merge]
  · simp [hk]

theorem hasData_addEdge {u v : Key} {strand : Option Key} {data : NetData} :
    (n.addEdge u v strand data).HasData k name ↔ n.HasData k name := by
  show ((n.addNode u []).addNode v []).HasData k name ↔ _
  simp [hasData_addNode]

theorem hasData_connect {tails heads : List Identifier} {data : NetData} :
    (n.connect tails heads data).HasData k name ↔ n.HasData k name := by
  unfold connect
  let Same : Network → Prop := fun m => m.HasData k name ↔ n.HasData k name
  refine List.foldlRecOn (motive := Same) tails _ .rfl fun m hm tail _ => ?_
  refine List.foldlRecOn (motive := Same) heads _ hm fun m hm head _ => ?_
  exact hasData_addEdge.trans hm

end Network

end DotGraph
