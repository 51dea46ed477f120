import DotGraph.Proofs.Mentions

/-!
The order in which the end of an edge gives its nodes.  Depth first along statement lists, a vertex
mentions names in one sequence, with repeats.  While the names are gathered, repeats are dropped at
every level anew; it comes to the same as dropping all occurrences but the first from the sequence.
-/

namespace DotGraph

section Names

variable {names more later : List Identifier}

theorem addNew_append : addNew names (more ++ later) = addNew (addNew names more) later := by
  induction more generalizing names with
  | nil => rfl
  | cons first rest ih =>
    rw [List.cons_append, addNew, ih]
    rfl

theorem addNew_addNew : addNew names (addNew more later) = addNew (addNew names more) later := by
  induction later generalizing more with
  | nil => rfl
  | cons first rest ih =>
    rw [addNew, ih, addNew]
    by_cases hfirst : first ∈ more
    · have hthere : first ∈ addNew names more := mem_addNew.2 (.inr hfirst)
      rw [if_pos hfirst, if_pos hthere]
    · rw [if_neg hfirst, addNew_append]
      rfl

theorem nodup_addNew (h : names.Nodup) : (addNew names more).Nodup := by
  induction more generalizing names with
  | nil => exact h
  | cons first rest ih =>
    rw [addNew]
    split
    · exact ih h
    · rename_i hfirst
      exact ih (h.append (List.nodup_singleton first) (List.disjoint_singleton.2 hfirst))

/-- Behind the names that are there come the others, each once. -/
theorem addNew_eq_append : addNew names more = names ++ (more.removeAll names).eraseDups := by
  induction more generalizing names with
  | nil => simp [addNew]
  | cons first rest ih =>
    rw [addNew, ih, List.cons_removeAll]
    by_cases hfirst : first ∈ names
    · simp [hfirst]
    · have hrest : rest.removeAll (names ++ [first]) =
          (rest.removeAll names).filter fun name => !name == first := by
        simp only [List.removeAll, List.filter_filter]
        refine List.filter_congr fun name _ => ?_
        by_cases hname : name = first <;> simp [hname]
      rw [if_neg hfirst, hrest]
      simp [hfirst, List.eraseDups_cons]

theorem addNew_nil : addNew [] more = more.eraseDups := by
  simp [addNew_eq_append, List.removeAll]

end Names

/-- The vertices that a statement shows, in the order in which they are written. -/
def Clause.vertices : Clause → List Vertex
  | .node id => [.node id]
  | .edge e => [e.tail, e.head]
  | _ => []

namespace Store

variable {σ : Store} {b : BodyRef} {v : Vertex} {vs ws : List Vertex}
  {names more : List Identifier}

/-! ### The sequence of mentions -/

def memberVertices (σ : Store) : Member → List Vertex
  | .statement i => ((σ.clause? i).map Clause.vertices).getD []
  | .subgraph s => [.subgraph s]

/-- The vertices that the statements of a body show, in the order of its list. -/
def vertices (σ : Store) (b : BodyRef) : List Vertex :=
  (σ.members b).flatMap σ.memberVertices

/-- The names that vertices mention, with every repeat: a node has its own, and a subgraph has what
the vertices of its statements mention. -/
inductive MentionsInOrder (σ : Store) : List Vertex → List Identifier → Prop
  | nil : MentionsInOrder σ [] []
  | node {id : NodeId} {rest : List Vertex} {names : List Identifier}
      (later : MentionsInOrder σ rest names) :
      MentionsInOrder σ (.node id :: rest) (id.name :: names)
  | subgraph {s : SubgraphId} {rest : List Vertex} {inner names : List Identifier}
      (inside : MentionsInOrder σ (σ.vertices (.subgraph s)) inner)
      (later : MentionsInOrder σ rest names) :
      MentionsInOrder σ (.subgraph s :: rest) (inner ++ names)

theorem MentionsInOrder.unique (h : σ.MentionsInOrder vs names) (h' : σ.MentionsInOrder vs more) :
    names = more := by
  induction h generalizing more with
  | nil =>
    cases h'
    rfl
  | node later ih =>
    cases h' with
    | node later' => rw [ih later']
  | subgraph inside later ihInside ihLater =>
    cases h' with
    | subgraph inside' later' => rw [ihInside inside', ihLater later']

theorem MentionsInOrder.append (h : σ.MentionsInOrder vs names)
    (h' : σ.MentionsInOrder ws more) : σ.MentionsInOrder (vs ++ ws) (names ++ more) := by
  induction h with
  | nil => exact h'
  | node later ih => exact .node ih
  | subgraph inside later _ ih =>
    rw [List.append_assoc]
    exact .subgraph inside ih

/-! ### What is gathered -/

/-- To gather from a list of names is to gather all that some vertices mention. -/
def Gathers (σ : Store) (vs : List Vertex) (gathered : List Identifier → List Identifier) : Prop :=
  ∃ names, σ.MentionsInOrder vs names ∧ ∀ start, gathered start = addNew start names

theorem Gathers.append {f g : List Identifier → List Identifier} (hf : σ.Gathers vs f)
    (hg : σ.Gathers ws g) : σ.Gathers (vs ++ ws) (g ∘ f) := by
  obtain ⟨names, hvs, hf⟩ := hf
  obtain ⟨more, hws, hg⟩ := hg
  refine ⟨names ++ more, hvs.append hws, fun start => ?_⟩
  rw [Function.comp_apply, hf, hg, addNew_append]

/-- The outline of a body gathers what the vertices in the body's list mention. -/
def OutlineGathers (σ : Store) (b : BodyRef) : Prop :=
  ∀ o, σ.outline? b = some o → σ.Gathers (σ.vertices b) (namesAfter · o.items)

theorem gathers_items {ms : List Member} {xs : List Item} (hxs : ms.map σ.item? = xs.map some)
    (h : ∀ m ∈ ms, ∀ x, σ.item? m = some x →
      σ.Gathers (σ.memberVertices m) (addNew · x.names)) :
    σ.Gathers (ms.flatMap σ.memberVertices) (namesAfter · xs) := by
  induction ms generalizing xs with
  | nil =>
    obtain rfl : xs = [] := by simpa using hxs.symm
    exact ⟨[], .nil, fun _ => rfl⟩
  | cons m rest ih =>
    cases xs with
    | nil => cases hxs
    | cons x xs =>
      obtain ⟨hx, hrest⟩ := List.cons.inj hxs
      have hfirst := h m List.mem_cons_self x hx
      exact hfirst.append (ih hrest fun m hm => h m (List.mem_cons_of_mem _ hm))

theorem exists_mentions_endpoint {e : Endpoint} (he : σ.endpoint? v = some e)
    (h : ∀ s ∈ v.links, σ.OutlineGathers (.subgraph s)) :
    ∃ names, σ.MentionsInOrder [v] names ∧ e.names = addNew [] names := by
  cases v with
  | node id =>
    cases he
    exact ⟨[id.name], .node .nil, rfl⟩
  | subgraph s =>
    obtain ⟨⟨header, items⟩, ho, rfl⟩ := Option.map_eq_some_iff.1 he
    obtain ⟨names, hinside, hgather⟩ := h s (by simp [Vertex.links]) _ ho
    exact ⟨names ++ [], .subgraph hinside .nil, by rw [List.append_nil, ← hgather]; rfl⟩

/-- The end of an edge has no repeats any more, and still adds what all its mentions would. -/
theorem gathers_endpoint {e : Endpoint} (he : σ.endpoint? v = some e)
    (h : ∀ s ∈ v.links, σ.OutlineGathers (.subgraph s)) :
    σ.Gathers [v] (addNew · e.names) := by
  obtain ⟨names, hnames, hfirst⟩ := exists_mentions_endpoint he h
  refine ⟨names, hnames, fun start => ?_⟩
  rw [hfirst]
  exact addNew_addNew

theorem gathers_item {m : Member} {x : Item} (hx : σ.item? m = some x)
    (h : ∀ s ∈ σ.memberLinks m, σ.OutlineGathers (.subgraph s)) :
    σ.Gathers (σ.memberVertices m) (addNew · x.names) := by
  cases m with
  | subgraph s =>
    obtain ⟨o, ho, rfl⟩ := Option.map_eq_some_iff.1 hx
    have he : σ.endpoint? (.subgraph s) = some (.subgraph o) := by
      simp [endpoint?, endpointWith?, ho]
    exact gathers_endpoint he h
  | statement i =>
    obtain ⟨attrs, -, ⟨id, hi, rfl⟩ | ⟨kind, standalone, hi, rfl⟩ |
      ⟨e, tail, head, hi, htail, hhead, rfl⟩⟩ := item?_statement_cases hx
    · rw [memberVertices, hi]
      exact ⟨[id.name], .node .nil, fun _ => rfl⟩
    · rw [memberVertices, hi]
      exact ⟨[], .nil, fun _ => rfl⟩
    · have hends : σ.memberLinks (.statement i) = e.tail.links ++ e.head.links := by
        simp [memberLinks_statement, hi, Clause.links]
      rw [hends] at h
      have ht := gathers_endpoint htail fun s hs => h s (by simp [hs])
      have hh := gathers_endpoint hhead fun s hs => h s (by simp [hs])
      obtain ⟨names, hnames, hgather⟩ := ht.append hh
      rw [memberVertices, hi]
      refine ⟨names, hnames, fun start => ?_⟩
      rw [← hgather, Function.comp_apply, ← addNew_append]
      rfl

/-- By induction down the links, which come to an end. -/
theorem gathers_outline (hu : σ.Uniform) (ha : σ.Acyclic) : σ.OutlineGathers b := by
  induction b using ha.wellFounded.induction with
  | _ b ih =>
    intro o ho
    refine gathers_items (hu.intact.map_item? ha ho) fun m hm x hx => ?_
    exact gathers_item hx fun s hs => ih _ (leads_of_memberLinks hm hs)

/-- In every reachable store, the end of an edge gives each node that it mentions once, in the order
in which they are mentioned first: depth first along statement lists, of an edge first the tail, and
of all occurrences of a name none but the first. -/
theorem Reachable.endpoint_first_mentions (h : σ.Reachable)
    (hv : ∀ s ∈ v.links, ∃ g, σ.subgraph? s = some g) :
    ∃ e names, σ.endpoint? v = some e ∧ σ.MentionsInOrder [v] names ∧
      (∀ more, σ.MentionsInOrder [v] more → more = names) ∧
      e.names.Nodup ∧ e.names = names.eraseDups := by
  have hu := h.uniform
  have ha := h.acyclic
  obtain ⟨e, he⟩ : ∃ e, σ.endpoint? v = some e := by
    refine exists_endpointWith? fun s hs => ?_
    obtain ⟨g, hg⟩ := hv s hs
    have hbody : σ.body? (.subgraph s) = some g.body := by simp [body?, hg]
    exact hu.intact.exists_outline? ha hbody
  obtain ⟨names, hnames, hfirst⟩ := exists_mentions_endpoint he fun s _ => gathers_outline hu ha
  refine ⟨e, names, he, hnames, fun more hmore => hmore.unique hnames, ?_, ?_⟩
  · rw [hfirst]
    exact nodup_addNew .nil
  · rw [hfirst, addNew_nil]

/-- A subgraph with a loop at a node, another one that floats, and an edge from the latter. -/
def repeatedNamesRun : List Call :=
  [.ask (.newSubgraph .absent true), .ask (.newSubgraph .absent true),
    .ask (.insert (.subgraph ⟨0⟩) (.edge (.datum (.text "pivot")) (.datum (.text "pivot"))) []),
    .ask (.insert (.subgraph ⟨1⟩) (.node (.text "left") .absent) []),
    .ask (.newStatement (.edge ⟨1, .subgraph ⟨1⟩, .node ⟨⟨"pivot", by decide⟩, some .n⟩,
      .directed⟩) none)]

/-- Once the first subgraph has the edge, both get more statements. -/
def repeatedNamesMore : List Call :=
  [.ask (.insert (.subgraph ⟨1⟩) (.node (.text "pivot") .absent) []),
    .ask (.insert (.subgraph ⟨0⟩) (.defaults .node) []),
    .ask (.insert (.subgraph ⟨0⟩) (.node (.text "right") .absent) [])]

/-- Six mentions, two of them by the loop, are three nodes. -/
theorem endpoint_first_mentions_repeatedNames :
    let σ := empty.after (repeatedNamesRun ++
      [.ask (.add (.subgraph ⟨0⟩) (.object (.statement ⟨2⟩)))] ++
      repeatedNamesMore)
    ∃ e names, σ.endpoint? (.subgraph ⟨0⟩) = some e ∧
      σ.MentionsInOrder [.subgraph ⟨0⟩] names ∧
      names.map Identifier.text = ["pivot", "pivot", "left", "pivot", "pivot", "right"] ∧
      e.names.Nodup ∧ e.names.map Identifier.text = ["pivot", "left", "right"] := by
  have hadd : (empty.after repeatedNamesRun).checkMember (.subgraph ⟨0⟩) (.statement ⟨2⟩) =
      .ok () :=
    checkMember_edge_of_links_eq_nil
      (e := ⟨1, .subgraph ⟨1⟩, .node ⟨⟨"pivot", by decide⟩, some .n⟩, .directed⟩)
      (by decide +kernel) (by decide +kernel) (by decide +kernel) (by decide +kernel)
      (by decide +kernel)
  have hσ : empty.after (repeatedNamesRun ++
      [.ask (.add (.subgraph ⟨0⟩) (.object (.statement ⟨2⟩)))] ++
      repeatedNamesMore) =
      ((empty.after repeatedNamesRun).attach (.subgraph ⟨0⟩) (.statement ⟨2⟩)).after
        repeatedNamesMore := by
    rw [after_append, after_append, after_add_statement hadd]
  intro σ
  have hreach : σ.Reachable := ⟨_, rfl⟩
  have hthere : ∃ g, σ.subgraph? ⟨0⟩ = some g := by
    simp only [σ, hσ]
    exact Option.isSome_iff_exists.1 (by decide +kernel)
  have houter : σ.vertices (.subgraph ⟨0⟩) = [.node ⟨⟨"pivot", by decide⟩, none⟩,
      .node ⟨⟨"pivot", by decide⟩, none⟩, .subgraph ⟨1⟩, .node ⟨⟨"pivot", by decide⟩, some .n⟩,
      .node ⟨⟨"right", by decide⟩, none⟩] := by
    simp only [σ, hσ]
    decide +kernel
  have hinner : σ.vertices (.subgraph ⟨1⟩) = [.node ⟨⟨"left", by decide⟩, none⟩,
      .node ⟨⟨"pivot", by decide⟩, none⟩] := by
    simp only [σ, hσ]
    decide +kernel
  obtain ⟨e, names, he, hnames, -, hnodup, hfirst⟩ :=
    hreach.endpoint_first_mentions (v := .subgraph ⟨0⟩) (by simpa [Vertex.links] using hthere)
  have hfloating : σ.MentionsInOrder (σ.vertices (.subgraph ⟨1⟩))
      [⟨"left", by decide⟩, ⟨"pivot", by decide⟩] := by
    rw [hinner]
    exact .node (.node .nil)
  have hinside : σ.MentionsInOrder (σ.vertices (.subgraph ⟨0⟩))
      [⟨"pivot", by decide⟩, ⟨"pivot", by decide⟩, ⟨"left", by decide⟩, ⟨"pivot", by decide⟩,
        ⟨"pivot", by decide⟩, ⟨"right", by decide⟩] := by
    rw [houter]
    exact .node (.node (.subgraph hfloating (.node (.node .nil))))
  obtain rfl := hnames.unique (.subgraph hinside .nil)
  exact ⟨e, _, he, hnames, rfl, hnodup, by rw [hfirst]; decide⟩

end Store

end DotGraph
