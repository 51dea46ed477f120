import DotGraph.Proofs.LineStarts

/-!
Unique reading.  Two outlines that are written alike in front of anything are alike in all that
their JSON views show, if values are shown as they are written.
-/

namespace DotGraph

open Text

variable (c : RenderConfig) (directed : Bool)

/-- Whatever is written like an item in front of the end of a line shows the same. -/
def Item.Reads (level : Int) (x : Item) : Prop :=
  ∀ y r r', y.Readable directed →
    (Dot.item c level x).toList ++ '\n' :: r = (Dot.item c level y).toList ++ '\n' :: r' →
    x.inTexts.toJson = y.inTexts.toJson ∧ r = r'

def Endpoint.Reads (level : Int) (e : Endpoint) : Prop :=
  ∀ e' r r', e'.Readable directed → Dot.Ends r → Dot.Ends r' →
    (Dot.endpoint c level e).toList ++ r = (Dot.endpoint c level e').toList ++ r' →
    e.isNode = e'.isNode ∧ e.inTexts.toJson = e'.inTexts.toJson ∧ r = r'

def Outline.Reads (level : Int) (o : Outline) : Prop :=
  ∀ o' r r', o'.Readable directed →
    (Dot.subgraph c level true o).toList ++ r = (Dot.subgraph c level true o').toList ++ r' →
    o.inTexts.toJson = o'.inTexts.toJson ∧ r = r'

/-- Statements are read up to where no further one starts. -/
def ItemsRead (level : Int) (items : List Item) : Prop :=
  ∀ items' r r', ReadableItems directed items' →
    Dot.NoItem (Dot.indentText c level) ('\n' :: r) →
    Dot.NoItem (Dot.indentText c level) ('\n' :: r') →
    Dot.linesText (Dot.itemList c level items) ++ '\n' :: r =
      Dot.linesText (Dot.itemList c level items') ++ '\n' :: r' →
    itemsToJson (itemsInTexts items) = itemsToJson (itemsInTexts items') ∧ r = r'

namespace Dot

variable {c directed} {level : Int}

/-! ### Ends of edges -/

theorem reads_node (id : NodeId) : (Endpoint.node id).Reads c directed level := by
  intro e' r r' he' hr hr' h
  cases e' with
  | node id' =>
    obtain ⟨rfl, hrest⟩ := nodeId_append_inj c hr hr' h
    exact ⟨rfl, rfl, hrest⟩
  | subgraph inner =>
    obtain ⟨f, hf, htext⟩ := exists_endpoint_firstWord c level (.node id) hr
    obtain ⟨f', hf', htext'⟩ := exists_endpoint_firstWord c level (.subgraph inner) hr'
    rw [htext, htext'] at h
    have hname := (word_append_inj (Endpoint.isWord_firstWord _) (Endpoint.isWord_firstWord _)
      hf.breaks hf'.breaks h).1
    have hk : "subgraph" ∈ Identifier.keywords := by decide
    exact absurd (String.toList_inj.1 hname) (name_ne_keyword id.name hk)

theorem reads_endpoint_subgraph {inner : Outline} (hi : inner.Reads c directed level)
    (hl : (Endpoint.subgraph inner).Readable directed) :
    (Endpoint.subgraph inner).Reads c directed level := by
  intro e' r r' he' hr hr' h
  cases e' with
  | node id =>
    obtain ⟨hnode, -⟩ := reads_node id _ _ _ hl hr' hr h.symm
    simp [Endpoint.isNode] at hnode
  | subgraph inner' =>
    obtain ⟨hjson, hrest⟩ := hi inner' r r' ⟨he'.proper, he'.legible⟩ h
    exact ⟨rfl, hjson, hrest⟩

/-! ### Items -/

theorem toList_item_lead_ne_defaults {x : Item} {e : Endpoint} (hx : x.Readable directed)
    (hlead : x.lead? = some e) {kind : DefaultKind} {standalone : Bool} {attrs : AttrTable}
    (hy : (Item.defaults kind standalone attrs).Readable directed) (r r' : List Char) :
    (item c level x).toList ++ '\n' :: r ≠
      (item c level (.defaults kind standalone attrs)).toList ++ '\n' :: r' := by
  intro h
  rw [toList_item_of_lead c level hlead, toList_item_defaults c level hy] at h
  simp only [List.append_assoc, List.append_cancel_left_eq] at h
  obtain ⟨f, hf, htext⟩ := exists_endpoint_firstWord c level e (ends_behindLead c level hx r)
  obtain ⟨rest, hrest⟩ := exists_entryList_cons c attrs
  rw [htext, hrest] at h
  have hopen : isWordChar '[' = false := by decide
  have hword := (word_append_inj e.isWord_firstWord (isWord_kind kind) hf.breaks
    (breaks_cons hopen _) h).1
  exact e.firstWord_ne_kind kind (String.toList_inj.1 hword)

/-- Items that are written alike start with the same node or subgraph, if one of them starts with
any. -/
theorem lead_append_inj {x y : Item} {e : Endpoint} (he : e.Reads c directed level)
    (hx : x.Readable directed) (hlead : x.lead? = some e) (hy : y.Readable directed)
    {r r' : List Char}
    (h : (item c level x).toList ++ '\n' :: r = (item c level y).toList ++ '\n' :: r') :
    ∃ e', y.lead? = some e' ∧ e.isNode = e'.isNode ∧ e.inTexts.toJson = e'.inTexts.toJson ∧
      behindLead c level x ++ '\n' :: r = behindLead c level y ++ '\n' :: r' := by
  cases hlead' : y.lead? with
  | some e' =>
    rw [toList_item_of_lead c level hlead, toList_item_of_lead c level hlead'] at h
    simp only [List.append_assoc, List.append_cancel_left_eq] at h
    obtain ⟨hnode, hjson, hrest⟩ := he e' _ _ (hy.lead hlead') (ends_behindLead c level hx r)
      (ends_behindLead c level hy r') h
    exact ⟨e', rfl, hnode, hjson, hrest⟩
  | none =>
    cases y with
    | defaults kind standalone attrs =>
      exact absurd h (toList_item_lead_ne_defaults hx hlead hy r r')
    | node id attrs => cases hlead'
    | edge tail head operator attrs => cases hlead'
    | subgraph inner => cases hlead'

theorem reads_item_node {id : NodeId} {attrs : AttrTable}
    (hx : (Item.node id attrs).Readable directed) :
    (Item.node id attrs).Reads c directed level := by
  intro y r r' hy h
  obtain ⟨e', hlead, hnode, hjson, hrest⟩ := lead_append_inj (reads_node id) hx rfl hy h
  cases y with
  | node id' attrs' =>
    cases hlead
    obtain ⟨hattrs, hr⟩ := attrList_append_inj c (hx.legible attrs (by simp [Item.tables]))
      (hy.legible attrs' (by simp [Item.tables])) hrest
    simp only [Endpoint.inTexts, Endpoint.toJson] at hjson
    exact ⟨by simp only [Item.inTexts, Item.toJson, hjson, hattrs], hr⟩
  | edge tail head operator attrs' => exact absurd hrest (attrList_ne_space c attrs r _)
  | defaults kind standalone attrs' => cases hlead
  | subgraph inner =>
    cases hlead
    simp [Endpoint.isNode] at hnode

theorem reads_item_subgraph {inner : Outline} (hi : inner.Reads c directed level)
    (hx : (Item.subgraph inner).Readable directed) :
    (Item.subgraph inner).Reads c directed level := by
  intro y r r' hy h
  have he := reads_endpoint_subgraph hi ⟨hx.proper, hx.legible⟩
  obtain ⟨e', hlead, hnode, hjson, hrest⟩ := lead_append_inj he hx rfl hy h
  cases y with
  | node id attrs =>
    cases hlead
    simp [Endpoint.isNode] at hnode
  | edge tail head operator attrs =>
    simp [behindLead] at hrest
  | defaults kind standalone attrs => cases hlead
  | subgraph inner' =>
    cases hlead
    exact ⟨hjson, (List.cons.inj hrest).2⟩

theorem reads_item_edge {tail head : Endpoint} {operator : EdgeOperator} {attrs : AttrTable}
    (ht : tail.Reads c directed level) (hh : head.Reads c directed level)
    (hx : (Item.edge tail head operator attrs).Readable directed) :
    (Item.edge tail head operator attrs).Reads c directed level := by
  intro y r r' hy h
  obtain ⟨e', hlead, hnode, hjson, hrest⟩ := lead_append_inj ht hx rfl hy h
  cases y with
  | node id attrs' => exact absurd hrest.symm (attrList_ne_space c attrs' r' _)
  | edge tail' head' operator' attrs' =>
    cases hlead
    obtain ⟨-, -, rfl, hattrs⟩ := readable_edge hx
    obtain ⟨-, hhead', rfl, hattrs'⟩ := readable_edge hy
    simp only [behindLead, List.cons_append, List.append_assoc, List.cons.injEq, true_and,
      List.append_cancel_left_eq] at hrest
    obtain ⟨hnode', hjson', hrest⟩ := hh head' _ _ hhead' (ends_attrList c attrs r)
      (ends_attrList c attrs' r') hrest
    obtain ⟨htable, hr⟩ := attrList_append_inj c hattrs hattrs' hrest
    refine ⟨?_, hr⟩
    simp only [Item.inTexts, Item.toJson, EdgeKind.ofEnds, Endpoint.isNode_inTexts, hnode, hnode',
      hjson, hjson', htable]
  | defaults kind standalone attrs' => cases hlead
  | subgraph inner =>
    simp [behindLead] at hrest

theorem kind_eq_of_text {kind kind' : DefaultKind} (h : kind.text = kind'.text) : kind = kind' := by
  cases kind <;> cases kind' <;> simp_all [DefaultKind.text]

theorem reads_item_defaults {kind : DefaultKind} {standalone : Bool} {attrs : AttrTable}
    (hx : (Item.defaults kind standalone attrs).Readable directed) :
    (Item.defaults kind standalone attrs).Reads c directed level := by
  intro y r r' hy h
  cases y with
  | defaults kind' standalone' attrs' =>
    rw [toList_item_defaults c level hx, toList_item_defaults c level hy] at h
    simp only [List.append_assoc, List.append_cancel_left_eq] at h
    have hbreak : ∀ (t : AttrTable) (q : List Char), Breaks ((entryList c t).toList ++ q) := by
      intro t q
      obtain ⟨rest, hrest⟩ := exists_entryList_cons c t
      rw [hrest]
      exact breaks_cons (by decide) _
    obtain ⟨hkind, h⟩ := word_append_inj (isWord_kind kind) (isWord_kind kind')
      (hbreak attrs _) (hbreak attrs' _) h
    obtain ⟨hattrs, hr⟩ := entryList_append_inj c (hx.legible attrs (by simp [Item.tables]))
      (hy.legible attrs' (by simp [Item.tables])) h
    obtain rfl := kind_eq_of_text (String.toList_inj.1 hkind)
    exact ⟨by simp only [Item.inTexts, Item.toJson, hattrs], (List.cons.inj hr).2⟩
  | node id attrs' => exact absurd h.symm (toList_item_lead_ne_defaults hy rfl hx r' r)
  | edge tail head operator attrs' =>
    exact absurd h.symm (toList_item_lead_ne_defaults hy rfl hx r' r)
  | subgraph inner => exact absurd h.symm (toList_item_lead_ne_defaults hy rfl hx r' r)

/-! ### Statement lists and subgraphs -/

theorem itemsRead_nil : ItemsRead c directed level [] := by
  intro items' r r' hitems hr hr' h
  cases items' with
  | nil => exact ⟨rfl, (List.cons.inj h).2⟩
  | cons y rest =>
    obtain ⟨hy, -⟩ := readable_cons hitems
    obtain ⟨q, hq⟩ := exists_lines_cons (itemList c level rest) r'
    obtain ⟨f, -, htext⟩ := exists_item_firstWord c level hy q
    refine absurd ?_ (hr _ f y.isWord_firstWord)
    rw [← htext, ← hq]
    simpa [itemList] using h

theorem itemsRead_cons {x : Item} {rest : List Item} (hx : x.Readable directed)
    (hi : x.Reads c directed level) (hrest : ItemsRead c directed level rest) :
    ItemsRead c directed level (x :: rest) := by
  intro items' r r' hitems hr hr' h
  obtain ⟨q, hq⟩ := exists_lines_cons (itemList c level rest) r
  cases items' with
  | nil =>
    obtain ⟨f, -, htext⟩ := exists_item_firstWord c level hx q
    refine absurd ?_ (hr' _ f x.isWord_firstWord)
    rw [← htext, ← hq]
    simpa [itemList] using h.symm
  | cons y rest' =>
    obtain ⟨hy, hitems'⟩ := readable_cons hitems
    obtain ⟨q', hq'⟩ := exists_lines_cons (itemList c level rest') r'
    simp only [itemList, linesText_cons, List.cons_append, List.append_assoc, hq, hq',
      List.cons.injEq, true_and] at h
    obtain ⟨hjson, rfl⟩ := hi y q q' hy h
    obtain ⟨hjsons, hr⟩ := hrest rest' r r' hitems' hr hr' (hq.trans hq'.symm)
    exact ⟨by simp only [itemsInTexts, itemsToJson, hjson, hjsons], hr⟩

theorem reads_outline {header : Header} {items : List Item}
    (hl : (Outline.mk header items).Readable directed)
    (hi : ItemsRead c directed (level + 1) items) :
    (Outline.mk header items).Reads c directed level := by
  intro o' r r' ho' h
  obtain ⟨header', items'⟩ := o'
  obtain ⟨hattrs, hitems⟩ := readable_outline hl
  obtain ⟨hattrs', hitems'⟩ := readable_outline ho'
  obtain ⟨more, hmore, hindent⟩ := exists_indentText_succ c level
  have hsame : indentText c level = indentText c level ++ [] := by simp
  have hclose := noItem_closing hsame (by simp [IsBlank])
  rw [toList_subgraph, toList_subgraph] at h
  simp only [List.append_assoc, List.cons_append, List.nil_append, List.append_cancel_left_eq] at h
  obtain ⟨hname, h⟩ := nameText_append_inj h
  have hbreak : ∀ (items : List Item) (q : List Char),
      Breaks (linesText (itemList c (level + 1) items) ++ '\n' :: q) := by
    intro items q
    obtain ⟨rest, hrest⟩ := exists_lines_cons (itemList c (level + 1) items) q
    rw [hrest]
    exact breaks_cons (by decide) rest
  obtain ⟨hmap, h⟩ := entriesText_append_inj (by decide) hattrs hattrs' (hbreak items _)
    (hbreak items' _) (noEntry_items c (level + 1) hindent hmore hitems (hclose r))
    (noEntry_items c (level + 1) hindent hmore hitems' (hclose r')) h
  obtain ⟨hjson, h⟩ := hi items' _ _ hitems' (noItem_closing hindent hmore r)
    (noItem_closing hindent hmore r') h
  have hr := (List.cons.inj (List.append_cancel_left h)).2
  refine ⟨?_, hr⟩
  simp only [Outline.inTexts, Outline.toJson, hname, hjson, toJson_inTexts_eq hmap]

end Dot

/-! ### All outlines -/

open Dot

variable {c directed}

mutual

theorem Item.reads : ∀ (x : Item) (level : Int), x.Readable directed → x.Reads c directed level
  | .node _ _, _, h => reads_item_node h
  | .edge tail head _ _, level, h =>
    reads_item_edge (Endpoint.reads tail level (readable_edge h).1)
      (Endpoint.reads head level (readable_edge h).2.1) h
  | .defaults _ _ _, _, h => reads_item_defaults h
  | .subgraph inner, level, h =>
    reads_item_subgraph (Outline.reads inner level ⟨h.proper, h.legible⟩) h

theorem Endpoint.reads :
    ∀ (e : Endpoint) (level : Int), e.Readable directed → e.Reads c directed level
  | .node id, _, _ => reads_node id
  | .subgraph inner, level, h =>
    reads_endpoint_subgraph (Outline.reads inner level ⟨h.proper, h.legible⟩) h

theorem Outline.reads :
    ∀ (o : Outline) (level : Int), o.Readable directed → o.Reads c directed level
  | ⟨_, items⟩, level, h => reads_outline h (itemsRead items (level + 1) (readable_outline h).2)

theorem itemsRead :
    ∀ (items : List Item) (level : Int), ReadableItems directed items →
      ItemsRead c directed level items
  | [], _, _ => itemsRead_nil
  | x :: rest, level, h =>
    itemsRead_cons (readable_cons h).1 (Item.reads x level (readable_cons h).1)
      (itemsRead rest level (readable_cons h).2)

end

end DotGraph
