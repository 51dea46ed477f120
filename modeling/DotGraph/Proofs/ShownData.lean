import DotGraph.Proofs.Coercion
import DotGraph.Proofs.Networks
import DotGraph.Proofs.Parts

/-!
Data that tables show.  A network of a graph holds only data that sound tables of the graph show,
merged in whatever order; such data are accepted again, and are plain already.
-/

namespace DotGraph

theorem map_eq_self {α : Type} {f : α → α} {xs : List α} (h : ∀ x ∈ xs, f x = x) :
    xs.map f = xs :=
  (List.map_congr_left h).trans (List.map_id' xs)

theorem AttrValue.plain_toDatum_plain (v : AttrValue) :
    v.plain.toDatum.plain = v.plain.toDatum := by
  cases v <;> rfl

theorem Vocabulary.token?_value {v : Vocabulary} {t : Token} (h : t ∈ v.tokens) :
    v.token? t.value = some t := by
  obtain ⟨t', ht'⟩ : ∃ t', v.token? t.value = some t' := by
    refine Option.isSome_iff_exists.1 (List.find?_isSome.2 ⟨t, h, ?_⟩)
    simp
  have hvalue := Vocabulary.value_of_token? ht'
  rw [← v.eq_of_value (AttrDomain.mem_tokens_of_token? ht') h hvalue]
  exact (congrArg v.token? hvalue).trans ht'

/-- A value that an attribute takes is accepted in its plain form, for what it is. -/
theorem AttrDomain.coerce_plain {d : AttrDomain} {value : AttrValue} (h : d.Takes value)
    (name : Datum) : d.coerce name value.plain.toDatum = .ok value := by
  unfold Takes at h
  split at h
  · rfl
  · rfl
  · rfl
  · rfl
  · simp [AttrValue.plain, AttrValue.toDatum, coerce, Vocabulary.token?_value h]
  · exact h.elim

namespace Schema

variable {schema : Schema} {data more : NetData}

/-- Data that a table with this schema can show. -/
def Shows (schema : Schema) (data : NetData) : Prop :=
  ∀ entry ∈ data, ∃ spec value, schema.get? entry.1 = some spec ∧ spec.domain.Takes value ∧
    entry.2 = value.plain.toDatum

theorem shows_nil (schema : Schema) : schema.Shows [] := by
  simp [Shows]

theorem Shows.merge (h : schema.Shows data) (hm : schema.Shows more) :
    schema.Shows (data.merge more) := by
  induction more generalizing data with
  | nil => exact h
  | cons entry rest ih =>
    rw [Entries.merge_cons]
    refine ih (fun entry' he => ?_) fun entry' he => hm entry' (by simp [he])
    rcases Entries.mem_put he with rfl | he
    · exact hm entry (by simp)
    · exact h entry' he

theorem Shows.accepts (h : schema.Shows data) : schema.Accepts data := by
  intro entry he
  obtain ⟨spec, value, hspec, htakes, hvalue⟩ := h entry he
  exact ⟨spec, value, hspec, hvalue ▸ AttrDomain.coerce_plain htakes (.text spec.name)⟩

theorem Shows.plain_eq (h : schema.Shows data) : NetData.plain data = data := by
  refine map_eq_self fun entry he => ?_
  obtain ⟨spec, value, -, -, hvalue⟩ := h entry he
  rw [hvalue, AttrValue.plain_toDatum_plain, ← hvalue]

end Schema

theorem AttrTable.Sound.shows {schema : Schema} {t : AttrTable} (h : t.Sound schema) :
    schema.Shows t.netData := by
  intro entry he
  simp only [AttrTable.netData, AttrTable.plain, List.map_map, List.mem_map] at he
  obtain ⟨stored, hs, rfl⟩ := he
  obtain ⟨spec, hspec, htakes⟩ := h.declared stored hs
  exact ⟨spec, stored.2, hspec, htakes, rfl⟩

theorem AttrTable.keys_netData (t : AttrTable) : t.netData.keys = t.entries.keys := by
  simp [AttrTable.netData, AttrTable.plain, Entries.keys, Function.comp_def]

theorem AttrTable.Sound.nodup_netData {schema : Schema} {t : AttrTable} (h : t.Sound schema) :
    t.netData.keys.Nodup :=
  t.keys_netData ▸ h.distinct

namespace Network

variable {n : Network}

/-- Networks as graphs show them: nodes have the names of nodes, and all data are shown by
tables. -/
structure Shown (n : Network) : Prop where
  data : ∀ data, n.data = some data → Schema.rootGraph.Shows data
  names : ∀ k ∈ n.nodes.keys, ∃ id, k = Identifier.key id
  nodes : ∀ node ∈ n.nodes, Schema.node.Shows node.2
  strands : ∀ l ∈ n.links, ∀ strand ∈ l.strands, Schema.edge.Shows strand.2

theorem Shown.addNode (h : n.Shown) (id : Identifier) {data : NetData}
    (hd : Schema.node.Shows data) : (n.addNode id.key data).Shown where
  data := h.data
  names k hk := by
    simp only [Network.addNode, keys_enter] at hk
    split at hk
    · exact h.names k hk
    · rcases List.mem_append.1 hk with hk | hk
      · exact h.names k hk
      · exact ⟨id, List.mem_singleton.1 hk⟩
  nodes := data_enter (Schema.shows_nil _) (fun _ ho => ho.merge hd) h.nodes
  strands := h.strands

theorem Shown.addEdge (h : n.Shown) (tail head : Identifier) {data : NetData}
    (hd : Schema.edge.Shows data) : (n.addEdge tail.key head.key none data).Shown := by
  have hends := (h.addNode tail (Schema.shows_nil _)).addNode head (Schema.shows_nil _)
  have hadd : ∀ strands : Entries Key NetData, (∀ strand ∈ strands, Schema.edge.Shows strand.2) →
      ∀ strand ∈ ((n.addNode tail.key []).addNode head.key []).addStrand none data strands,
        Schema.edge.Shows strand.2 :=
    fun strands hs => data_enter (Schema.shows_nil _) (fun _ ho => ho.merge hd) hs
  exact ⟨hends.data, hends.names, hends.nodes,
    strands_joinLinks _ tail.key head.key none data (hadd [] (by simp)) hadd hends.strands⟩

theorem shown_empty (directed : Bool) {data : NetData} (hd : Schema.rootGraph.Shows data) :
    { empty directed false with data := some data }.Shown where
  data data' h := Option.some.inj h ▸ hd
  names := by simp [empty]
  nodes := by simp [empty]
  strands := by simp [empty]

end Network

/-! ### Statements without nesting -/

mutual

/-- The statements of an item in one list: those of a subgraph stand in its place, at every depth.
Ends of edges are left as they are. -/
def Item.flat : Item → List Item
  | .node id attrs => [.node id attrs]
  | .edge tail head operator attrs => [.edge tail head operator attrs]
  | .defaults kind standalone attrs => [.defaults kind standalone attrs]
  | .subgraph inner => inner.flat

def Outline.flat : Outline → List Item
  | ⟨_, items⟩ => flatItems items

def flatItems : List Item → List Item
  | [] => []
  | x :: rest => x.flat ++ flatItems rest

end

theorem mem_flatItems {items : List Item} {x : Item} :
    x ∈ flatItems items ↔ ∃ y ∈ items, x ∈ y.flat := by
  induction items with
  | nil => simp [flatItems]
  | cons y rest ih => simp [flatItems, ih]

theorem Outline.mem_flat {o : Outline} {x : Item} :
    x ∈ o.flat ↔ ∃ y ∈ o.items, x ∈ y.flat := by
  obtain ⟨header, items⟩ := o
  exact mem_flatItems

/-- An item that is no subgraph. -/
def Item.IsFlat : Item → Prop
  | .subgraph _ => False
  | _ => True

mutual

theorem Item.isFlat_of_mem : ∀ (y : Item) {x : Item}, x ∈ y.flat → x.IsFlat
  | .node _ _, _, h => List.mem_singleton.1 h ▸ trivial
  | .edge _ _ _ _, _, h => List.mem_singleton.1 h ▸ trivial
  | .defaults _ _ _, _, h => List.mem_singleton.1 h ▸ trivial
  | .subgraph inner, _, h => inner.isFlat_of_mem h

theorem Outline.isFlat_of_mem : ∀ (o : Outline) {x : Item}, x ∈ o.flat → x.IsFlat
  | ⟨_, items⟩, _, h => isFlat_of_mem_flatItems items h

theorem isFlat_of_mem_flatItems : ∀ (items : List Item) {x : Item},
    x ∈ flatItems items → x.IsFlat
  | [], _, h => absurd h List.not_mem_nil
  | y :: rest, _, h => (List.mem_append.1 h).elim y.isFlat_of_mem (isFlat_of_mem_flatItems rest)

end

/-- A property of items that every item inside a subgraph has if the subgraph has it. -/
def Hereditary (R : Item → Prop) : Prop :=
  ∀ inner, R (.subgraph inner) → ∀ x ∈ inner.items, R x

mutual

theorem Hereditary.of_mem_flat {R : Item → Prop} (hR : Hereditary R) :
    ∀ (x : Item), R x → ∀ y ∈ x.flat, R y
  | .node _ _, h, _, hy => List.mem_singleton.1 hy ▸ h
  | .edge _ _ _ _, h, _, hy => List.mem_singleton.1 hy ▸ h
  | .defaults _ _ _, h, _, hy => List.mem_singleton.1 hy ▸ h
  | .subgraph inner, h, y, hy => hR.of_mem_outline inner (hR inner h) y hy

theorem Hereditary.of_mem_outline {R : Item → Prop} (hR : Hereditary R) :
    ∀ (o : Outline), (∀ x ∈ o.items, R x) → ∀ y ∈ o.flat, R y
  | ⟨_, items⟩, h, y, hy => hR.of_mem_items items h y hy

theorem Hereditary.of_mem_items {R : Item → Prop} (hR : Hereditary R) :
    ∀ (items : List Item), (∀ x ∈ items, R x) → ∀ y ∈ flatItems items, R y
  | [], _, _, hy => absurd hy List.not_mem_nil
  | x :: rest, h, y, hy => (List.mem_append.1 hy).elim (hR.of_mem_flat x (h x (by simp)) y)
      (hR.of_mem_items rest (fun x hx => h x (by simp [hx])) y)

end

namespace Network

mutual

theorem addItem_eq_foldl : ∀ (x : Item) {n : Network}, n.addItem x = x.flat.foldl addItem n
  | .node _ _, _ => rfl
  | .edge _ _ _ _, _ => rfl
  | .defaults _ _ _, _ => rfl
  | .subgraph inner, _ => addInner_eq_foldl inner

theorem addInner_eq_foldl : ∀ (o : Outline) {n : Network}, n.addInner o = o.flat.foldl addItem n
  | ⟨_, items⟩, _ => addItems_eq_foldl items

theorem addItems_eq_foldl : ∀ (items : List Item) {n : Network},
    n.addItems items = (flatItems items).foldl addItem n
  | [], _ => rfl
  | x :: rest, _ => by
    rw [addItems, flatItems, List.foldl_append, ← addItem_eq_foldl x, addItems_eq_foldl rest]

end

end Network

/-! ### The network of an outline -/

theorem Outline.network_eq_foldl (o : Outline) :
    o.network = o.flat.foldl Network.addItem
      { Network.empty (o.header.operator == .directed) false with
        data := some o.header.attrs.netData } := by
  obtain ⟨header, items⟩ := o
  exact Network.addItems_eq_foldl items

/-- What holds of a network without nodes, and still holds with any item of an outline in it, holds
of the network of the outline. -/
theorem Outline.network_induction {P : Network → Prop} (o : Outline)
    (hstart : P { Network.empty (o.header.operator == .directed) false with
      data := some o.header.attrs.netData })
    (hstep : ∀ n, ∀ x ∈ o.flat, P n → P (n.addItem x)) : P o.network := by
  rw [o.network_eq_foldl]
  exact List.foldlRecOn o.flat _ hstart fun n h x hx => hstep n x hx h

namespace Network

variable {n : Network} {P : Network → Prop}

theorem connect_induction {data : NetData} (h : P n)
    (hadd : ∀ {n : Network} (tail head : Identifier), P n →
      P (n.addEdge tail.key head.key none data)) (tails heads : List Identifier) :
    P (n.connect tails heads data) := by
  refine List.foldlRecOn tails _ h fun n h tail _ => ?_
  exact List.foldlRecOn heads _ h fun n h head _ => hadd tail head h

theorem Built.addItem (h : n.Built) {x : Item} (hx : x.IsFlat) : (n.addItem x).Built := by
  cases x with
  | node id attrs => exact h.addNode _ _
  | edge tail head operator attrs =>
    exact connect_induction h (fun tail head h => h.addEdge _ _ _) tail.names head.names
  | defaults kind standalone attrs => exact h
  | subgraph inner => exact hx.elim

theorem Shown.addItem (h : n.Shown) {x : Item} (hx : x.IsFlat) {operator : EdgeOperator}
    (hp : x.Proper operator) (hf : x.Fitted) : (n.addItem x).Shown := by
  cases x with
  | node id attrs =>
    have hp : attrs.Lawful := hp
    exact h.addNode id.name (hp.sound_of_eq hf).shows
  | edge tail head o attrs =>
    obtain ⟨-, -, -, hlawful⟩ := hp
    obtain ⟨-, -, hs⟩ := hf
    have hshows := (hlawful.sound_of_eq hs).shows
    exact connect_induction h (fun tail head h => h.addEdge tail head hshows) tail.names head.names
  | defaults kind standalone attrs => exact h
  | subgraph inner => exact hx.elim

end Network

namespace RootOutline.Proper

variable {g : RootOutline} {strict directed : Bool}

theorem built (h : g.Proper strict directed) : g.body.network.Built :=
  g.body.network_induction (Network.built_empty _ h.attrs.nodup_netData)
    fun _ _ hx hn => hn.addItem (g.body.isFlat_of_mem hx)

/-- The network of a graph whose tables are of their own kinds is built by additions of shown
data. -/
theorem shown (h : g.Proper strict directed) (hf : g.body.Fitted) : g.body.network.Shown := by
  have hdown : Hereditary fun x => x.Proper (.ofDirected directed) ∧ x.Fitted := by
    rintro ⟨header, items⟩ ⟨⟨-, -, hproper⟩, hfitted⟩ x hx
    exact ⟨properItems_iff.1 hproper x hx, fittedItems_iff.1 hfitted x hx⟩
  have hitems : ∀ x ∈ g.body.items, x.Proper (.ofDirected directed) ∧ x.Fitted :=
    fun x hx => ⟨properItems_iff.1 h.items x hx, fittedItems_iff.1 hf.items x hx⟩
  have hflat := hdown.of_mem_outline g.body hitems
  refine g.body.network_induction (Network.shown_empty _ h.attrs.shows) fun n x hx hn => ?_
  exact hn.addItem (g.body.isFlat_of_mem hx) (hflat x hx).1 (hflat x hx).2

end RootOutline.Proper

end DotGraph
