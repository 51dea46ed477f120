import DotGraph.Proofs.Networks

/-!
The listing of edges.  It lists every link once, at the turn of the first of its ends; so adding
the listed edges in their order makes links that are listed in the same order again.
-/

namespace DotGraph

def NetEdge.ends (e : NetEdge) : Key × Key :=
  (e.tail, e.head)

theorem Link.other?_eq_some_iff {l : Link} {directed : Bool} {u v : Key} :
    l.other? directed u = some v ↔
      ((l.tail == u) = true ∧ l.head = v) ∨
        ((l.tail == u) = false ∧ directed = false ∧ (l.head == u) = true ∧ l.tail = v) := by
  unfold Link.other?
  cases ht : l.tail == u <;> cases directed <;> cases hh : l.head == u <;> simp

namespace Network

variable {n : Network}

/-- What a link adds to the listing at a node. -/
def listed (n : Network) (done : List Key) (u : Key) (l : Link) : List NetEdge :=
  match l.other? n.directed u with
  | none => []
  | some v =>
    if !n.directed && done.any (· == v) then []
    else l.strands.map fun strand => ⟨u, v, strand.2⟩

theorem edgesAt_eq (n : Network) (done : List Key) (u : Key) :
    n.edgesAt done u = n.links.flatMap (n.listed done u) := rfl

/-! ### One node -/

theorem mem_listed {done : List Key} {u : Key} {l : Link} {e : NetEdge}
    (h : e ∈ n.listed done u l) :
    e.tail = u ∧ l.other? n.directed u = some e.head ∧
      (n.directed = false → done.any (· == e.head) = false) ∧
      ∃ strand ∈ l.strands, e.data = strand.2 := by
  unfold listed at h
  cases ho : l.other? n.directed u with
  | none => simp [ho] at h
  | some v =>
    simp only [ho] at h
    split at h
    · simp at h
    · rename_i hdone
      obtain ⟨strand, hs, rfl⟩ := List.mem_map.1 h
      exact ⟨rfl, rfl, fun hd => by simpa [hd] using hdone, strand, hs, rfl⟩

theorem not_apart_of_other? {directed : Bool} {l l' : Link} {u v v' : Key}
    (h : l.other? directed u = some v) (h' : l'.other? directed u = some v')
    (hv : (v == v') = true) : ¬ Apart directed l.ends l'.ends := by
  unfold Apart Link.ends
  rw [Bool.not_eq_false]
  rcases Link.other?_eq_some_iff.1 h with ⟨ht, rfl⟩ | ⟨-, hd, hh, rfl⟩ <;>
    rcases Link.other?_eq_some_iff.1 h' with ⟨ht', rfl⟩ | ⟨-, hd', hh', rfl⟩
  · simp [Key.beq_of_beq ht ht', hv]
  · simp [Key.beq_of_beq ht hh', hv, hd']
  · simp [Key.beq_of_beq hh ht', hv, hd]
  · simp [Key.beq_of_beq hh hh', hv]

theorem pairwise_edgesAt (h : n.Built) (done : List Key) (u : Key) :
    (n.edgesAt done u).Pairwise fun e e' => (e.head == e'.head) = false := by
  have hlinks : n.links.Pairwise fun l l' => Apart n.directed l.ends l'.ends :=
    List.pairwise_map.1 h.links
  refine List.pairwise_flatMap.2 ⟨fun l hl => ?_, hlinks.imp fun {l l'} hapart e he e' he' => ?_⟩
  · obtain ⟨data, hs, -⟩ := h.strands l hl
    rw [hs]
    split
    · exact .nil
    · split
      · exact .nil
      · exact List.pairwise_singleton _ _
  · obtain ⟨-, ho, -⟩ := mem_listed he
    obtain ⟨-, ho', -⟩ := mem_listed he'
    rw [← Bool.not_eq_true]
    exact fun hv => not_apart_of_other? ho ho' hv hapart

/-! ### All nodes -/

theorem edgesFrom_append (n : Network) (done us vs : List Key) :
    n.edgesFrom done (us ++ vs) = n.edgesFrom done us ++ n.edgesFrom (us.reverse ++ done) vs := by
  induction us generalizing done with
  | nil => rfl
  | cons u us ih => simp [edgesFrom, ih]

/-- What is listed from some nodes starts at them and, without directions, comes to no node that
has had its turn. -/
theorem mem_edgesFrom {done us : List Key} {e : NetEdge} (h : e ∈ n.edgesFrom done us) :
    e.tail ∈ us ∧ (n.directed = false → done.any (· == e.head) = false) ∧
      ∃ l ∈ n.links, l.other? n.directed e.tail = some e.head ∧
        ∃ strand ∈ l.strands, e.data = strand.2 := by
  induction us generalizing done with
  | nil => simp [edgesFrom] at h
  | cons u us ih =>
    rcases List.mem_append.1 h with h | h
    · obtain ⟨l, hl, he⟩ := List.mem_flatMap.1 h
      obtain ⟨rfl, ho, hdone, hs⟩ := mem_listed he
      exact ⟨by simp, hdone, l, hl, ho, hs⟩
    · obtain ⟨ht, hdone, hl⟩ := ih h
      refine ⟨by simp [ht], fun hd => ?_, hl⟩
      have hboth := hdone hd
      simp only [List.any_cons, Bool.or_eq_false_iff] at hboth
      exact hboth.2

theorem apart_edgesFrom (h : n.Built) {done us : List Key} (hu : Distinct us) :
    (n.edgesFrom done us).Pairwise fun e e' => Apart n.directed e.ends e'.ends := by
  induction us generalizing done with
  | nil => exact .nil
  | cons u us ih =>
    obtain ⟨hfirst, hrest⟩ := List.pairwise_cons.1 hu
    refine List.pairwise_append.2 ⟨?_, ih hrest, fun e he e' he' => ?_⟩
    · refine (pairwise_edgesAt h done u).imp_of_mem fun {e e'} he he' hheads => ?_
      obtain ⟨l, -, hl⟩ := List.mem_flatMap.1 he
      obtain ⟨l', -, hl'⟩ := List.mem_flatMap.1 he'
      obtain ⟨htail, -⟩ := mem_listed hl
      obtain ⟨htail', -⟩ := mem_listed hl'
      have hloop : ((u == e'.head) && (e.head == u)) = false := by
        rw [Bool.and_eq_false_iff]
        by_cases hh : (e.head == u) = true
        · left
          rw [← Key.beq_congr_left hh]
          exact hheads
        · right
          simpa using hh
      simp only [Apart, NetEdge.ends, htail, htail', hheads, Bool.and_false, Bool.false_or,
        Bool.and_assoc, hloop]
    · obtain ⟨l, -, hl⟩ := List.mem_flatMap.1 he
      obtain ⟨htail, -⟩ := mem_listed hl
      obtain ⟨htail', hdone', -⟩ := mem_edgesFrom he'
      have hne := hfirst e'.tail htail'
      cases hd : n.directed with
      | true => simp [Apart, NetEdge.ends, htail, hne]
      | false =>
        have hhead := hdone' hd
        simp only [List.any_cons, Bool.or_eq_false_iff] at hhead
        simp [Apart, NetEdge.ends, htail, hne, hhead.1]

/-! ### Listing what was listed -/

/-- The link that an edge makes. -/
def linkOf (change : NetData → NetData) (e : NetEdge) : Link :=
  ⟨e.tail, e.head, [(.integer 0, change e.data)]⟩

def withData (change : NetData → NetData) (e : NetEdge) : NetEdge :=
  { e with data := change e.data }

variable {m : Network} {change : NetData → NetData}

/-- At the turn of a node, of the edges that were listed only those listed at it are listed again:
the earlier ones come from nodes that have had their turn, and the later ones do not touch it. -/
theorem edgesAt_relisted (hk : Distinct n.nodes.keys) (hd : m.directed = n.directed)
    (hl : m.links = n.edges.map (linkOf change)) {done rest : List Key} {u : Key}
    (hkeys : n.nodes.keys = done.reverse ++ u :: rest) :
    m.edgesAt done u = (n.edgesAt done u).map (withData change) := by
  rw [hkeys] at hk
  obtain ⟨-, htail, hacross⟩ := List.pairwise_append.1 hk
  obtain ⟨hlater, -⟩ := List.pairwise_cons.1 htail
  have hsplit : n.edges = n.edgesFrom [] done.reverse ++
      (n.edgesAt done u ++ n.edgesFrom (u :: done) rest) := by
    rw [edges, hkeys, edgesFrom_append, List.reverse_reverse, List.append_nil]
    rfl
  have before : ∀ e ∈ n.edgesFrom [] done.reverse, m.listed done u (linkOf change e) = [] := by
    intro e he
    obtain ⟨ht, -⟩ := mem_edgesFrom he
    have hne : (e.tail == u) = false := hacross _ ht u (by simp)
    have hdone : done.any (· == e.tail) = true :=
      List.any_eq_true.2 ⟨e.tail, by simpa using ht, by simp⟩
    cases hdir : n.directed <;> cases hh : e.head == u <;>
      simp [listed, linkOf, Link.other?, hd, hdir, hne, hh, hdone]
  have here : ∀ e ∈ n.edgesAt done u, m.listed done u (linkOf change e) = [withData change e] := by
    intro e he
    obtain ⟨l, -, hl⟩ := List.mem_flatMap.1 he
    obtain ⟨rfl, -, hdone, -⟩ := mem_listed hl
    have hskip : (!n.directed && done.any (· == e.head)) = false := by
      cases hdir : n.directed with
      | true => rfl
      | false => simpa using hdone hdir
    simp [listed, linkOf, Link.other?, hd, hskip, withData]
  have after : ∀ e ∈ n.edgesFrom (u :: done) rest, m.listed done u (linkOf change e) = [] := by
    intro e he
    obtain ⟨ht, hdone, -⟩ := mem_edgesFrom he
    have hne : (e.tail == u) = false := by
      rw [Key.beq_comm]
      exact hlater _ ht
    cases hdir : n.directed with
    | true => simp [listed, linkOf, Link.other?, hd, hdir, hne]
    | false =>
      have hhead := hdone hdir
      simp only [List.any_cons, Bool.or_eq_false_iff, Key.beq_comm u] at hhead
      simp [listed, linkOf, Link.other?, hd, hdir, hne, hhead.1]
  rw [edgesAt_eq m, hl, hsplit, List.map_append, List.map_append, List.flatMap_append,
    List.flatMap_append, List.flatMap_map, List.flatMap_map, List.flatMap_map]
  rw [List.flatMap_eq_nil_iff.2 before, List.flatMap_eq_nil_iff.2 after, List.nil_append,
    List.append_nil, List.flatMap_congr here, ← List.map_eq_flatMap]

/-- The links made of the listed edges in their order are listed in that order again. -/
theorem edges_relisted (hk : Distinct n.nodes.keys) (hd : m.directed = n.directed)
    (hn : m.nodes.keys = n.nodes.keys) (hl : m.links = n.edges.map (linkOf change)) :
    m.edges = n.edges.map (withData change) := by
  have key : ∀ (us done : List Key), n.nodes.keys = done.reverse ++ us →
      m.edgesFrom done us = (n.edgesFrom done us).map (withData change) := by
    intro us
    induction us with
    | nil => intro done _; rfl
    | cons u us ih =>
      intro done hkeys
      rw [edgesFrom, edgesFrom, List.map_append, edgesAt_relisted hk hd hl hkeys,
        ih (u :: done) (by simpa using hkeys)]
  rw [edges, edges, hn]
  exact key _ [] (by simp)

/-! ### Adding what was listed -/

theorem linkOf_withData (e : NetEdge) : linkOf id (withData change e) = linkOf change e := rfl

theorem addNodes_eq {pairs : Entries Key NetData} (hk : Distinct (m.nodes.keys ++ pairs.keys))
    (hd : ∀ entry ∈ pairs, entry.2.keys.Nodup) :
    pairs.foldl (fun m entry => m.addNode entry.1 entry.2) m =
      { m with nodes := m.nodes ++ pairs } := by
  induction pairs generalizing m with
  | nil => simp
  | cons pair rest ih =>
    obtain ⟨k, data⟩ := pair
    have hnone : m.nodes.get? k = none := by
      have hnot : m.nodes.has k = false := by
        rw [Entries.has_eq_any, List.any_eq_false]
        intro k' hk'
        simp [(List.pairwise_append.1 hk).2.2 k' hk' k (by simp)]
      simpa [Entries.has] using hnot
    have hn : data.keys.Nodup := hd (k, data) (by simp)
    have hadd : m.addNode k data = { m with nodes := m.nodes ++ [(k, data)] } := by
      rw [addNode, enter_of_get?_eq_none hnone, Entries.ofList_eq hn]
    rw [List.foldl_cons, hadd]
    refine (ih (m := { m with nodes := m.nodes ++ [(k, data)] }) ?_
      fun entry he => hd entry (by simp [he])).trans ?_
    · simpa using hk
    · simp

theorem addEdge_eq {u v : Key} {data : NetData} (hp : m.parallel = false)
    (hu : m.nodes.has u = true) (hv : m.nodes.has v = true)
    (ha : ∀ l ∈ m.links, Apart m.directed l.ends (u, v)) (hn : data.keys.Nodup) :
    m.addEdge u v none data =
      { m with links := m.links ++ [⟨u, v, [(.integer 0, data)]⟩] } := by
  have hnodes : (m.addNode u []).addNode v [] = m := by
    simp only [addNode, enter_nil_of_has hu, enter_nil_of_has hv]
  rw [addEdge, hnodes]
  simp only [m.joinLinks_of_apart u v none data fun l hl => apart_ends_iff.1 (ha l hl),
    addStrand_nil hp, Entries.ofList_eq hn]

theorem addEdges_eq {es : List NetEdge} (hp : m.parallel = false)
    (hends : ∀ e ∈ es, m.nodes.has e.tail = true ∧ m.nodes.has e.head = true)
    (ha : (m.links.map Link.ends ++ es.map NetEdge.ends).Pairwise (Apart m.directed))
    (hd : ∀ e ∈ es, e.data.keys.Nodup) :
    es.foldl (fun m e => m.addEdge e.tail e.head none e.data) m =
      { m with links := m.links ++ es.map (linkOf id) } := by
  induction es generalizing m with
  | nil => simp
  | cons e rest ih =>
    obtain ⟨hu, hv⟩ := hends e (by simp)
    have hapart : ∀ l ∈ m.links, Apart m.directed l.ends (e.tail, e.head) := fun l hl =>
      (List.pairwise_append.1 ha).2.2 _ (List.mem_map_of_mem hl) _ (by simp [NetEdge.ends])
    rw [List.foldl_cons, addEdge_eq hp hu hv hapart (hd e (by simp))]
    refine (ih (m := { m with links := m.links ++ [⟨e.tail, e.head, [(.integer 0, e.data)]⟩] }) hp
      (fun e' he' => hends e' (by simp [he'])) ?_ fun e' he' => hd e' (by simp [he'])).trans ?_
    · simpa [Link.ends, NetEdge.ends] using ha
    · simp [linkOf]

/-! ### The listing of a network that was built -/

theorem nodup_data_edges (h : n.Built) : ∀ e ∈ n.edges, e.data.keys.Nodup := by
  intro e he
  obtain ⟨-, -, l, hl, -, strand, hs, hdata⟩ := mem_edgesFrom he
  obtain ⟨data, hstrands, hn⟩ := h.strands l hl
  rw [hstrands] at hs
  obtain rfl := List.mem_singleton.1 hs
  exact hdata ▸ hn

theorem has_ends_edges (h : n.Built) :
    ∀ e ∈ n.edges, n.nodes.has e.tail = true ∧ n.nodes.has e.head = true := by
  intro e he
  obtain ⟨ht, -, l, hl, ho, -⟩ := mem_edgesFrom he
  have hends := h.ends _ (List.mem_map_of_mem (f := Link.ends) hl)
  refine ⟨?_, ?_⟩
  · rw [Entries.has_eq_any]
    exact List.any_eq_true.2 ⟨_, ht, by simp⟩
  · rcases Link.other?_eq_some_iff.1 ho with ⟨-, hh⟩ | ⟨-, -, -, hh⟩
    · exact hh ▸ hends.2
    · exact hh ▸ hends.1

end Network

end DotGraph
