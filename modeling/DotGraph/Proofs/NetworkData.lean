import DotGraph.Proofs.FlatStatements
import DotGraph.Proofs.NetworkRoundTrip

/-!
The data in the network of a graph.  Every statement in the flat sequence of the graph is an
addition to the network, and what it adds to the data of one node or of one link is merged over what
is there.  An edge between the same nodes many times over adds its data once.
-/

namespace DotGraph

/-- A place that is changed under a condition, and left as it is otherwise. -/
structure ChangedIf {γ : Type} (p : Prop) (f : γ → γ) (before after : γ) : Prop where
  changed : p → after = f before
  left : ¬p → after = before

theorem ChangedIf.congr {γ : Type} {p q : Prop} {f : γ → γ} {before after : γ}
    (h : ChangedIf p f before after) (hpq : p ↔ q) : ChangedIf q f before after :=
  ⟨fun hq => h.changed (hpq.2 hq), fun hq => h.left (mt hpq.1 hq)⟩

theorem ChangedIf.of_not {γ : Type} {p : Prop} {f : γ → γ} {before : γ} (h : ¬p) :
    ChangedIf p f before before :=
  ⟨fun hp => absurd hp h, fun _ => rfl⟩

/-- What steps do to one place, if each changes it under some condition and a change that is made
once more adds nothing. -/
theorem changedIf_foldl {α β γ : Type} (read : β → γ) {step : β → α → β} {f : γ → γ}
    {I : β → Prop} {p : α → Prop} (hf : ∀ c, f (f c) = f c)
    (hstep : ∀ s a, I s → I (step s a) ∧ ChangedIf (p a) f (read s) (read (step s a)))
    (as : List α) {s : β} (hs : I s) :
    I (as.foldl step s) ∧ ChangedIf (∃ a ∈ as, p a) f (read s) (read (as.foldl step s)) := by
  induction as generalizing s with
  | nil => exact ⟨hs, .of_not (by simp)⟩
  | cons a rest ih =>
    obtain ⟨hI, hfirst⟩ := hstep s a hs
    obtain ⟨hI', hrest⟩ := ih hI
    refine ⟨hI', fun h => ?_, fun h => ?_⟩
    · rw [List.foldl_cons]
      by_cases hmore : ∃ a ∈ rest, p a
      · rw [hrest.changed hmore]
        by_cases ha : p a
        · rw [hfirst.changed ha, hf]
        · rw [hfirst.left ha]
      · have ha : p a := (List.exists_mem_cons_iff ..).1 h |>.resolve_right hmore
        rw [hrest.left hmore, hfirst.changed ha]
    · obtain ⟨ha, hmore⟩ := not_or.1 (mt (List.exists_mem_cons_iff ..).2 h)
      rw [List.foldl_cons, hrest.left hmore, hfirst.left ha]

open scoped Classical in
/-- What steps do to one place, if each that matters merges its data over those that are there. -/
theorem read_foldl_merge {α β : Type} (read : β → NetData) {step : β → α → β} {data : α → NetData}
    {I : β → Prop} {p : α → Prop} {as : List α}
    (hstep : ∀ s, ∀ a ∈ as, I s →
      I (step s a) ∧ ChangedIf (p a) (·.merge (data a)) (read s) (read (step s a)))
    {s : β} (hs : I s) :
    read (as.foldl step s) = ((as.filter fun a => p a).map data).foldl Entries.merge (read s) := by
  induction as generalizing s with
  | nil => rfl
  | cons a rest ih =>
    obtain ⟨hI, hfirst⟩ := hstep s a List.mem_cons_self hs
    rw [List.foldl_cons, ih (fun s a ha => hstep s a (List.mem_cons_of_mem _ ha)) hI]
    by_cases ha : p a
    · rw [hfirst.changed ha]
      simp [ha]
    · rw [hfirst.left ha]
      simp [ha]

namespace Entries

variable {κ ν : Type} [BEq κ] [LawfulBEq κ] {k : κ} {v : ν} {entries more : Entries κ ν}

theorem get?_merge_of_notMem (h : k ∉ more.keys) :
    (entries.merge more).get? k = entries.get? k := by
  induction more generalizing entries with
  | nil => rfl
  | cons pair rest ih =>
    obtain ⟨hne, hrest⟩ := not_or.1 (mt List.mem_cons.2 h)
    rw [merge_cons, ih hrest, get?_put_of_ne (Ne.symm hne)]

theorem get?_merge_of_mem (hn : more.keys.Nodup) (h : (k, v) ∈ more) :
    (entries.merge more).get? k = some v := by
  induction more generalizing entries with
  | nil => cases h
  | cons pair rest ih =>
    obtain ⟨hfirst, hrest⟩ := List.nodup_cons.1 hn
    rw [merge_cons]
    rcases List.mem_cons.1 h with rfl | h
    · rw [get?_merge_of_notMem hfirst, get?_put_self]
    · exact ih hrest h

omit [LawfulBEq κ] in
theorem merge_eq_self (h : ∀ entry ∈ more, entries.get? entry.1 = some entry.2) :
    entries.merge more = entries := by
  induction more with
  | nil => rfl
  | cons pair rest ih =>
    obtain ⟨hfirst, hrest⟩ := List.forall_mem_cons.1 h
    rw [merge_cons, put_of_get?_eq_some hfirst, ih hrest]

theorem merge_merge_self (hn : more.keys.Nodup) :
    (entries.merge more).merge more = entries.merge more :=
  merge_eq_self fun _ hentry => get?_merge_of_mem hn hentry

end Entries

namespace Item

/-- The attributes of a statement as data. -/
def data : Item → NetData
  | .node _ attrs => attrs.netData
  | .edge _ _ _ attrs => attrs.netData
  | .defaults _ _ attrs => attrs.netData
  | .subgraph _ => []

/-- A statement of this node. -/
def States : Item → Identifier → Prop
  | .node id _, name => id.name = name
  | _, _ => False

/-- A statement of an edge between two nodes, in either direction if there are none. -/
def Gives (directed : Bool) (x : Item) (u v : Identifier) : Prop :=
  x.Connects u v ∨ (directed = false ∧ x.Connects v u)

end Item

namespace Network

variable {n : Network} {name u v : Identifier} {data : NetData}

/-! ### Nodes -/

/-- The data of a node, and none if it is not there. -/
def nodeData (n : Network) (name : Identifier) : NetData :=
  (n.nodes.get? name.key).getD []

theorem key_beq_iff {name' : Identifier} : (name.key == name'.key) = true ↔ name = name' :=
  ⟨fun h => Identifier.key_inj (Key.eq_text_of_beq h), fun h => h ▸ Key.beq_refl _⟩

theorem nodeData_addNode (n : Network) (id name : Identifier) (data : NetData) :
    (n.addNode id.key data).nodeData name =
      if id = name then (n.nodeData name).merge data else n.nodeData name := by
  show ((enter id.key data n.nodes).get? name.key).getD [] = _
  rw [enter, Entries.get?_put_key]
  by_cases hname : id = name
  · subst hname
    simp [nodeData]
  · have hne : ¬(id.key == name.key) = true := mt key_beq_iff.1 hname
    simp [hname, hne, nodeData]

theorem nodeData_addEdge (n : Network) (u v : Identifier) (strand : Option Key) (data : NetData) :
    (n.addEdge u.key v.key strand data).nodeData name = n.nodeData name := by
  show ((n.addNode u.key []).addNode v.key []).nodeData name = _
  rw [nodeData_addNode, nodeData_addNode]
  simp

theorem nodeData_connect (n : Network) (tails heads : List Identifier) (data : NetData) :
    (n.connect tails heads data).nodeData name = n.nodeData name := by
  unfold connect
  let Same : Network → Prop := fun m => m.nodeData name = n.nodeData name
  refine List.foldlRecOn (motive := Same) tails _ rfl fun m hm tail _ => ?_
  refine List.foldlRecOn (motive := Same) heads _ hm fun m hm head _ => ?_
  exact (nodeData_addEdge m tail head none data).trans hm

theorem nodeData_addItem (n : Network) {x : Item} (hflat : x.IsFlat) :
    ChangedIf (x.States name) (·.merge x.data) (n.nodeData name) ((n.addItem x).nodeData name) := by
  cases x with
  | node id attrs =>
    rw [addItem, nodeData_addNode]
    exact ⟨fun h => if_pos h, fun h => if_neg h⟩
  | edge tail head operator attrs =>
    rw [addItem, nodeData_connect]
    exact .of_not id
  | defaults kind standalone attrs => exact .of_not id
  | subgraph inner => exact hflat.elim

/-! ### Links -/

/-- The data of the link between two nodes, and none if there is no link. -/
def dataBetween (directed : Bool) (u v : Identifier) (links : List Link) : NetData :=
  ((links.find? fun l => l.joins directed u.key v.key).bind fun l =>
    l.strands.get? (.integer 0)).getD []

def linkData (n : Network) (u v : Identifier) : NetData :=
  dataBetween n.directed u v n.links

theorem get?_addStrand (hp : n.parallel = false) (strands : Entries Key NetData) :
    (n.addStrand none data strands).get? (.integer 0) =
      some (((strands.get? (.integer 0)).getD []).merge data) := by
  simp [addStrand, strandFor, hp, enter, Entries.get?_put_key]

theorem dataBetween_cons_of_joins {directed : Bool} {l : Link}
    (h : SameEnds directed l.ends (u.key, v.key)) (links : List Link) :
    dataBetween directed u v (l :: links) = (l.strands.get? (.integer 0)).getD [] := by
  simp [dataBetween, Link.joins_iff.2 h]

theorem dataBetween_cons_of_not_joins {directed : Bool} {l : Link}
    (h : ¬SameEnds directed l.ends (u.key, v.key)) (links : List Link) :
    dataBetween directed u v (l :: links) = dataBetween directed u v links := by
  have hjoins : l.joins directed u.key v.key = false := by
    rwa [← Bool.not_eq_true, Link.joins_iff]
  simp [dataBetween, hjoins]

theorem dataBetween_joinLinks (hp : n.parallel = false) (tail head : Identifier)
    (links : List Link) :
    ChangedIf (SameEnds n.directed (tail.key, head.key) (u.key, v.key)) (·.merge data)
      (dataBetween n.directed u v links)
      (dataBetween n.directed u v (n.joinLinks tail.key head.key none data links)) := by
  induction links with
  | nil =>
    refine ⟨fun hsame => ?_, fun hsame => ?_⟩
    · rw [joinLinks, dataBetween_cons_of_joins hsame, get?_addStrand hp]
      rfl
    · rw [joinLinks, dataBetween_cons_of_not_joins hsame]
  | cons l rest ih =>
    by_cases hl : SameEnds n.directed l.ends (tail.key, head.key)
    · -- The new edge goes to the link that is there.
      rw [joinLinks, if_pos (Link.joins_iff.2 hl)]
      let l' : Link := { l with strands := n.addStrand none data l.strands }
      refine ⟨fun hsame => ?_, fun hsame => ?_⟩
      · have hfirst : SameEnds n.directed l.ends (u.key, v.key) := hl.trans hsame
        rw [dataBetween_cons_of_joins hfirst, dataBetween_cons_of_joins (l := l') hfirst,
          get?_addStrand hp]
        rfl
      · have hfirst : ¬SameEnds n.directed l.ends (u.key, v.key) :=
          fun h => hsame (hl.symm.trans h)
        rw [dataBetween_cons_of_not_joins hfirst, dataBetween_cons_of_not_joins (l := l') hfirst]
    · rw [joinLinks, if_neg (mt Link.joins_iff.1 hl)]
      by_cases hfirst : SameEnds n.directed l.ends (u.key, v.key)
      · rw [dataBetween_cons_of_joins hfirst, dataBetween_cons_of_joins hfirst]
        exact .of_not fun h => hl (hfirst.trans h.symm)
      · rw [dataBetween_cons_of_not_joins hfirst, dataBetween_cons_of_not_joins hfirst]
        exact ih

/-- A network without parallel edges, of which it is known whether it has directions. -/
def Plain (directed : Bool) (n : Network) : Prop :=
  n.directed = directed ∧ n.parallel = false

variable {directed : Bool}

theorem linkData_addEdge (h : n.Plain directed) (tail head : Identifier) (data : NetData) :
    (n.addEdge tail.key head.key none data).Plain directed ∧
      ChangedIf (SameEnds directed (tail.key, head.key) (u.key, v.key)) (·.merge data)
        (n.linkData u v) ((n.addEdge tail.key head.key none data).linkData u v) := by
  obtain ⟨rfl, hp⟩ := h
  exact ⟨⟨rfl, hp⟩, dataBetween_joinLinks (n := (n.addNode tail.key []).addNode head.key []) hp
    tail head n.links⟩

theorem linkData_connect (h : n.Plain directed) (tails heads : List Identifier)
    (hn : data.keys.Nodup) :
    (n.connect tails heads data).Plain directed ∧
      ChangedIf (∃ tail ∈ tails, ∃ head ∈ heads,
          SameEnds directed (tail.key, head.key) (u.key, v.key)) (·.merge data)
        (n.linkData u v) ((n.connect tails heads data).linkData u v) := by
  have honce : ∀ old : NetData, (old.merge data).merge data = old.merge data :=
    fun _ => Entries.merge_merge_self hn
  refine changedIf_foldl (I := Plain directed) (linkData · u v) honce (fun m tail hm => ?_) tails h
  exact changedIf_foldl (I := Plain directed) (linkData · u v) honce
    (fun m head hm => linkData_addEdge hm tail head data) heads hm

theorem linkData_addItem (h : n.Plain directed) {x : Item} (hflat : x.IsFlat)
    (hn : x.data.keys.Nodup) :
    (n.addItem x).Plain directed ∧
      ChangedIf (x.Gives directed u v) (·.merge x.data) (n.linkData u v)
        ((n.addItem x).linkData u v) := by
  have hnone {y : Item} (hy : ∀ u v, ¬y.Connects u v) : ¬y.Gives directed u v :=
    not_or.2 ⟨hy u v, fun hgives => hy v u hgives.2⟩
  cases x with
  | node id attrs => exact ⟨h, .of_not (hnone fun _ _ h => h)⟩
  | defaults kind standalone attrs => exact ⟨h, .of_not (hnone fun _ _ h => h)⟩
  | subgraph inner => exact hflat.elim
  | edge tail head operator attrs =>
    obtain ⟨hplain, hdata⟩ := linkData_connect h tail.names head.names hn
    exact ⟨hplain, hdata.congr exists_sameEnds_iff⟩

/-! ### Networks that were built -/

theorem apart_iff {p q : Key × Key} : Apart directed p q ↔ ¬SameEnds directed p q := by
  unfold Apart
  rw [← Bool.not_eq_true]
  simp [SameEnds, Key.beq_iff, and_assoc]

theorem dataBetween_of_mem {links : List Link}
    (hlinks : (links.map Link.ends).Pairwise (Apart directed)) {l : Link} (hl : l ∈ links)
    (h : SameEnds directed l.ends (u.key, v.key)) :
    dataBetween directed u v links = (l.strands.get? (.integer 0)).getD [] := by
  induction links with
  | nil => cases hl
  | cons first rest ih =>
    obtain ⟨hfirst, hrest⟩ := List.pairwise_cons.1 hlinks
    rcases List.mem_cons.1 hl with rfl | hl
    · exact dataBetween_cons_of_joins h rest
    · have hapart := apart_iff.1 (hfirst l.ends (List.mem_map_of_mem hl))
      rw [dataBetween_cons_of_not_joins fun hsame => hapart (hsame.trans h.symm)]
      exact ih hrest hl

theorem Built.linkData_of_edge (h : n.Built) {e : NetEdge} (he : e ∈ n.edges)
    (htail : e.tail = u.key) (hhead : e.head = v.key) : n.linkData u v = e.data := by
  obtain ⟨-, -, l, hl, ho, strand, hstrand, hdata⟩ := mem_edgesFrom he
  obtain ⟨data, hstrands, -⟩ := h.strands l hl
  have hsame := Link.sameEnds_of_other? ho
  rw [htail, hhead] at hsame
  rw [hstrands] at hstrand
  rw [linkData, dataBetween_of_mem h.links hl hsame, hstrands, hdata, List.mem_singleton.1 hstrand]
  rfl

theorem Built.nodeData_of_mem (h : n.Built) {node : Key × NetData} (hm : node ∈ n.nodes)
    (hname : node.1 = name.key) : n.nodeData name = node.2 := by
  rw [Network.nodeData, ← hname, Entries.get?_of_mem h.nodes hm]
  rfl

end Network

open scoped Classical in
theorem Outline.nodeData_network (o : Outline) (name : Identifier) :
    o.network.nodeData name =
      ((o.flat.filter fun x => x.States name).map Item.data).foldl Entries.merge [] := by
  rw [o.network_eq_foldl]
  exact read_foldl_merge (Network.nodeData · name) (I := fun _ => True)
    (fun n x hx _ => ⟨trivial, n.nodeData_addItem (o.isFlat_of_mem hx)⟩) trivial

open scoped Classical in
theorem Outline.linkData_network (o : Outline) (hdata : ∀ x ∈ o.flat, x.data.keys.Nodup)
    (u v : Identifier) :
    o.network.linkData u v =
      ((o.flat.filter fun x => x.Gives o.network.directed u v).map Item.data).foldl
        Entries.merge [] := by
  have hstart : Network.Plain (o.header.operator == .directed)
      { Network.empty (o.header.operator == .directed) false with
        data := some o.header.attrs.netData } := ⟨rfl, rfl⟩
  have hstep : ∀ n : Network, ∀ x ∈ o.flat, n.Plain (o.header.operator == .directed) →
      (n.addItem x).Plain (o.header.operator == .directed) ∧
        ChangedIf (x.Gives (o.header.operator == .directed) u v) (·.merge x.data)
          (n.linkData u v) ((n.addItem x).linkData u v) :=
    fun n x hx hplain => Network.linkData_addItem hplain (o.isFlat_of_mem hx) (hdata x hx)
  rw [o.directed_network, o.network_eq_foldl]
  exact read_foldl_merge (Network.linkData · u v) hstep hstart

namespace Store

variable {σ : Store} {i : StatementId} {x : Item} {u v name : Identifier}

/-- The attributes of a statement as data, tokens as their texts. -/
def plainData (σ : Store) (i : StatementId) : NetData :=
  ((σ.attrs? (.statement i)).map AttrTable.netData).getD []

/-- The attributes of statements as data, each merged over those of the statements before it. -/
def mergedData (σ : Store) (is : List StatementId) : NetData :=
  (is.map σ.plainData).foldl Entries.merge []

/-- A statement of this node. -/
def States (σ : Store) (i : StatementId) (name : Identifier) : Prop :=
  ∃ id, σ.clause? i = some (.node id) ∧ id.name = name

/-- A statement of an edge with the one node mentioned at its tail and the other at its head, or the
other way round if there are no directions. -/
def Gives (σ : Store) (directed : Bool) (i : StatementId) (u v : Identifier) : Prop :=
  (∃ e, σ.clause? i = some (.edge e) ∧ σ.EndMentions e.tail u ∧ σ.EndMentions e.head v) ∨
    (directed = false ∧
      ∃ e, σ.clause? i = some (.edge e) ∧ σ.EndMentions e.tail v ∧ σ.EndMentions e.head u)

theorem data_of_item? (hx : σ.item? (.statement i) = some x) : x.data = σ.plainData i := by
  obtain ⟨s, hs, hcases⟩ := item?_statement_cases hx
  have hdata : x.data = (σ.attrsAt s.table).netData := by
    obtain ⟨id, -, rfl⟩ | ⟨kind, standalone, -, rfl⟩ | ⟨e, tail, head, -, -, -, rfl⟩ := hcases <;>
      rfl
  rw [hdata, plainData, attrs?_statement hs, attrsAt]
  cases σ.table? s.table <;> rfl

theorem states_of_item? (hx : σ.item? (.statement i) = some x) :
    x.States name ↔ σ.States i name := by
  obtain ⟨s, -, ⟨id, hi, rfl⟩ | ⟨kind, standalone, hi, rfl⟩ |
    ⟨e, tail, head, hi, -, -, rfl⟩⟩ := item?_statement_cases hx <;>
    simp [States, hi, Item.States]

theorem gives_of_item? (hu : σ.Uniform) (ha : σ.Acyclic) {directed : Bool}
    (hx : σ.item? (.statement i) = some x) :
    x.Gives directed u v ↔ σ.Gives directed i u v := by
  rw [Item.Gives, Gives, connects_item_iff hu ha hx, connects_item_iff hu ha hx]

theorem Tabled.nodup_plainData (h : σ.Tabled) (i : StatementId) :
    (σ.plainData i).keys.Nodup := by
  cases hs : σ.statement? i with
  | none => simp [plainData, attrs?, held?, tableId?, hs]
  | some s =>
    obtain ⟨u, hu, -⟩ := h.statements i s hs
    simpa [plainData, attrs?_statement hs, hu] using (h.tables _ u hu).sound.nodup_netData

end Store

open scoped Classical in
theorem map_filter_of_forall₂ {α β γ : Type} {R : α → β → Prop} {P : β → Prop} {Q : α → Prop}
    {f : β → γ} {g : α → γ} (hPQ : ∀ a b, R a b → (P b ↔ Q a)) (hfg : ∀ a b, R a b → f b = g a)
    {as : List α} {bs : List β} (h : List.Forall₂ R as bs) :
    (bs.filter fun b => P b).map f = (as.filter fun a => Q a).map g := by
  induction h with
  | nil => rfl
  | @cons a b as bs hab _ ih =>
    have hiff := hPQ a b hab
    by_cases hQ : Q a
    · simp [hQ, hiff.2 hQ, ih, hfg a b hab]
    · simp [hQ, mt hiff.1 hQ, ih]

theorem exists_mem_iff_of_forall₂ {α β : Type} {R : α → β → Prop} {P : β → Prop} {Q : α → Prop}
    (hPQ : ∀ a b, R a b → (P b ↔ Q a)) {as : List α} {bs : List β} (h : List.Forall₂ R as bs) :
    (∃ b ∈ bs, P b) ↔ ∃ a ∈ as, Q a := by
  induction h with
  | nil => simp
  | cons hab _ ih => rw [List.exists_mem_cons_iff, List.exists_mem_cons_iff, hPQ _ _ hab, ih]

namespace Store

variable {σ : Store}

open scoped Classical in
/-- The edges of the network of a root graph are those that its edge statements give, and the data
of each edge are the attributes of all statements that give it, merged in the order of the flat
sequence.  So are the data of each node, over the statements of the node. -/
theorem Reachable.data_of_network (h : σ.Reachable) {r : RootId} {g : Root}
    (hg : σ.root? r = some g) :
    ∃ n is, σ.network? (.root r) = some n ∧ σ.InOrder (σ.members (.root r)) is ∧
      (∀ js, σ.InOrder (σ.members (.root r)) js → js = is) ∧
      n.directed = (g.body.operator == .directed) ∧
      (∀ u v : Identifier, n.Joins u.key v.key ↔ ∃ i ∈ is, σ.Gives n.directed i u v) ∧
      (n.edges.Pairwise fun e e' => ¬SameEnds n.directed e.ends e'.ends) ∧
      (∀ e ∈ n.edges, ∃ u v : Identifier, e.tail = u.key ∧ e.head = v.key ∧
        e.data = σ.mergedData (is.filter fun i => σ.Gives n.directed i u v)) ∧
      ∀ node ∈ n.nodes, ∃ name : Identifier, node.1 = name.key ∧
        node.2 = σ.mergedData (is.filter fun i => σ.States i name) := by
  obtain ⟨o, ho, hroot⟩ := h.exists_rootOutline? hg
  obtain ⟨strict, directed, hproper⟩ := h.proper hroot
  have hbuilt := hproper.built
  have hnames : ∀ k ∈ o.network.nodes.keys, ∃ name : Identifier, k = name.key := fun k hk =>
    (Outline.mem_keys_network.1 hk).imp fun _ h => h.2
  obtain ⟨is, his, hunfolds⟩ := exists_inOrder h.uniform h.acyclic ho
  have hdata : ∀ x ∈ o.flat, x.data.keys.Nodup := by
    intro x hx
    obtain ⟨i, -, hi⟩ := (mem_flat_iff h.uniform h.acyclic ho).1 hx
    exact data_of_item? hi ▸ h.tabled.nodup_plainData i
  have hgives : ∀ i x, σ.item? (.statement i) = some x → ∀ u v : Identifier,
      (x.Gives o.network.directed u v ↔ σ.Gives o.network.directed i u v) :=
    fun _ _ hx _ _ => gives_of_item? h.uniform h.acyclic hx
  refine ⟨o.network, is, by simp [network?, ho], his, fun js hjs => hjs.unique his,
    h.directed_network hg ho, fun u v => ?_, ?_, fun e he => ?_, fun node hnode => ?_⟩
  · rw [o.joins_network_iff hbuilt]
    exact exists_mem_iff_of_forall₂ (fun i x hx => hgives i x hx u v) hunfolds
  · exact (Network.apart_edgesFrom hbuilt hbuilt.nodes).imp Network.apart_iff.1
  · obtain ⟨htail, hhead⟩ := Network.has_ends_edges hbuilt e he
    obtain ⟨u, hu⟩ := Network.name_of_has hnames htail
    obtain ⟨v, hv⟩ := Network.name_of_has hnames hhead
    refine ⟨u, v, hu, hv, ?_⟩
    rw [← hbuilt.linkData_of_edge he hu hv, o.linkData_network hdata, mergedData,
      map_filter_of_forall₂ (fun i x hx => hgives i x hx u v) (fun _ _ hx => data_of_item? hx)
        hunfolds]
  · obtain ⟨name, hname⟩ := hnames node.1 (List.mem_map_of_mem hnode)
    refine ⟨name, hname, ?_⟩
    rw [← hbuilt.nodeData_of_mem hnode hname, o.nodeData_network, mergedData,
      map_filter_of_forall₂ (fun _ _ hx => states_of_item? hx) (fun _ _ hx => data_of_item? hx)
        hunfolds]

/-- A graph without directions, and a floating subgraph with a node and an edge to it. -/
def wovenRun : List Call :=
  [.ask (.newRoot .absent false false), .ask (.newSubgraph .absent false),
    .ask (.insert (.subgraph ⟨0⟩) (.node (.nodeId ⟨⟨"hub", by decide⟩, none⟩) .absent)
      [("label", .text "Hub")]),
    .ask (.insert (.subgraph ⟨0⟩) (.edge (.datum (.nodeId ⟨⟨"spoke", by decide⟩, none⟩))
      (.datum (.nodeId ⟨⟨"hub", by decide⟩, none⟩))) [("weight", .integer 2)])]

/-- Behind the subgraph, the same edge the other way round, with one attribute more. -/
def wovenMore : List Call :=
  [.ask (.insert (.root ⟨0⟩) (.edge (.datum (.nodeId ⟨⟨"hub", by decide⟩, none⟩))
    (.datum (.nodeId ⟨⟨"spoke", by decide⟩, none⟩)))
    [("style", .text "dashed"), ("weight", .integer 3)])]

open scoped Classical in
theorem data_of_network_woven :
    let σ := empty.after (wovenRun ++ [.ask (.add (.root ⟨0⟩) (.object (.subgraph ⟨0⟩)))] ++
      wovenMore)
    ∃ (g : Root) (n : Network) (is : List StatementId), σ.root? ⟨0⟩ = some g ∧
      σ.network? (.root ⟨0⟩) = some n ∧ σ.InOrder (σ.members (.root ⟨0⟩)) is ∧
      is = [⟨0⟩, ⟨1⟩, ⟨2⟩] ∧
      n.nodes = [(.text "hub", [("label", .text "Hub")]), (.text "spoke", [])] ∧
      n.edges =
        [⟨.text "hub", .text "spoke", [("weight", .integer 3), ("style", .text "dashed")]⟩] ∧
      ∀ e ∈ n.edges, ∃ u v : Identifier, e.tail = u.key ∧ e.head = v.key ∧
        e.data = σ.mergedData (is.filter fun i => σ.Gives n.directed i u v) := by
  have hadd : (empty.after wovenRun).checkMember (.root ⟨0⟩) (.subgraph ⟨0⟩) = .ok () :=
    checkMember_root_subgraph .undirected (by decide +kernel) (by decide +kernel)
      (by decide +kernel)
  intro σ
  have hσ : σ = ((empty.after wovenRun).attach (.root ⟨0⟩) (.subgraph ⟨0⟩)).after wovenMore := by
    simp only [σ]
    rw [after_append, after_append, after_add_subgraph hadd]
  have hreach : σ.Reachable := ⟨_, rfl⟩
  obtain ⟨g, hg⟩ : ∃ g, σ.root? ⟨0⟩ = some g := by
    rw [hσ]
    exact Option.isSome_iff_exists.1 (by decide +kernel)
  obtain ⟨n, is, hn, his, honly, -, -, -, hedges, -⟩ := hreach.data_of_network hg
  have hlisting : (σ.network? (.root ⟨0⟩)).map (fun n => (n.nodes, n.edges)) =
      some ([(.text "hub", [("label", .text "Hub")]), (.text "spoke", [])],
        [⟨.text "hub", .text "spoke", [("weight", .integer 3), ("style", .text "dashed")]⟩]) := by
    rw [hσ]
    decide +kernel
  rw [hn] at hlisting
  obtain ⟨hnodes, hlisted⟩ := Prod.mk.inj (Option.some.inj hlisting)
  have hmembers : σ.members (.root ⟨0⟩) = [.subgraph ⟨0⟩, .statement ⟨2⟩] := by
    rw [hσ]
    decide +kernel
  have hinner : σ.members (.subgraph ⟨0⟩) = [.statement ⟨0⟩, .statement ⟨1⟩] := by
    rw [hσ]
    decide +kernel
  have horder : σ.InOrder (σ.members (.root ⟨0⟩)) [⟨0⟩, ⟨1⟩, ⟨2⟩] := by
    rw [hmembers]
    have hinside : σ.InOrder (σ.members (.subgraph ⟨0⟩)) [⟨0⟩, ⟨1⟩] := by
      rw [hinner]
      exact .statement (.statement .nil)
    exact .subgraph hinside (.statement .nil)
  exact ⟨g, n, is, hg, hn, his, (honly _ horder).symm, hnodes, hlisted, hedges⟩

end Store

end DotGraph
