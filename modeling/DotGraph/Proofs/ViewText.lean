import DotGraph.Json.Equality
import DotGraph.Proofs.GraphText
import DotGraph.Proofs.Outcomes
import DotGraph.Proofs.Parts

/-!
From the JSON view to the text.  The view leaves out operators, whether defaults stand alone, and
whether a value was a word of a vocabulary or a text; below a root graph all of this follows from
what the view shows if each statement has a table of its own kind, so such graphs with the same view
are written alike.
-/

namespace DotGraph

/-! ### Names -/

theorem CompassPoint.text_inj {p p' : CompassPoint} (h : p.text = p'.text) : p = p' := by
  have hp := CompassPoint.ofText?_text p
  rw [h, CompassPoint.ofText?_text] at hp
  exact (Option.some.inj hp).symm

theorem Json.optional_inj {α : Type} {f : α → Json} (hnull : ∀ a, f a ≠ .null)
    (hf : ∀ a a', f a = f a' → a = a') {x x' : Option α}
    (h : Json.optional f x = Json.optional f x') : x = x' := by
  cases x with
  | none =>
    cases x' with
    | none => rfl
    | some a' => exact absurd h.symm (hnull a')
  | some a =>
    cases x' with
    | none => exact absurd h (hnull a)
    | some a' => rw [hf a a' h]

theorem Json.ofName_inj {name name' : Option Identifier}
    (h : Json.ofName name = Json.ofName name') : name = name' :=
  Json.optional_inj (by simp) (fun _ _ he => Identifier.text_inj (Json.text.inj he)) h

theorem NodeId.toJson_inj {id id' : NodeId} (h : id.toJson = id'.toJson) : id = id' := by
  obtain ⟨name, port⟩ := id
  obtain ⟨name', port'⟩ := id'
  simp only [NodeId.toJson, Json.object.injEq, List.cons.injEq, Prod.mk.injEq, Json.text.injEq,
    true_and, and_true] at h
  have hport : port = port' :=
    Json.optional_inj (by simp) (fun _ _ he => CompassPoint.text_inj (Json.text.inj he)) h.2
  rw [Identifier.text_inj h.1, hport]

/-! ### Tables -/

/-- What an attribute takes is known by what is shown of it: the attribute tells whether a text is
the value of a word or stands for itself. -/
theorem AttrDomain.eq_of_toJson {d : AttrDomain} {v v' : AttrValue} (h : d.Takes v)
    (h' : d.Takes v') (he : v.toJson = v'.toJson) : v = v' := by
  cases d with
  | choices vocabulary =>
    cases v <;> cases v' <;> simp only [Takes] at h h'
    rw [vocabulary.eq_of_value h h' (Json.text.inj he)]
  | strings =>
    cases v <;> cases v' <;> simp only [Takes] at h h'
    rw [Json.text.inj he]
  | numbers =>
    cases v <;> cases v' <;> simp_all [Takes, AttrValue.toJson]
  | flags =>
    cases v <;> cases v' <;> simp only [Takes] at h h'
    rw [Json.flag.inj he]

namespace AttrTable

variable {schema : Schema} {t t' : AttrTable}

theorem Sound.entry_eq (h : t.Sound schema) (h' : t'.Sound schema)
    {entry entry' : String × AttrValue} (hm : entry ∈ t.entries) (hm' : entry' ∈ t'.entries)
    (he : (entry.1, entry.2.toJson) = (entry'.1, entry'.2.toJson)) : entry = entry' := by
  obtain ⟨hkey, hvalue⟩ := Prod.mk.inj he
  obtain ⟨spec, hspec, htakes⟩ := h.declared entry hm
  obtain ⟨spec', hspec', htakes'⟩ := h'.declared entry' hm'
  rw [← hkey, hspec] at hspec'
  obtain rfl := Option.some.inj hspec'
  exact Prod.ext hkey (AttrDomain.eq_of_toJson htakes htakes' hvalue)

/-- Tables of one schema that show the same hold the same. -/
theorem Sound.entries_eq (h : t.Sound schema) (h' : t'.Sound schema)
    (he : t.toJson = t'.toJson) : t.entries = t'.entries := by
  have hmap := Json.object.inj he
  refine List.ext_getElem? fun n => ?_
  have hn := congrArg (·[n]?) hmap
  simp only [List.getElem?_map] at hn
  cases hx : t.entries[n]? with
  | none => simpa [hx, eq_comm] using hn
  | some entry =>
    rw [hx] at hn
    obtain ⟨entry', hx', hshown⟩ := Option.map_eq_some_iff.1 hn.symm
    rw [hx', h.entry_eq h' (List.mem_of_getElem? hx) (List.mem_of_getElem? hx') hshown.symm]

theorem Lawful.entries_eq (h : t.Lawful) (h' : t'.Lawful) (hs : t.schema = schema)
    (hs' : t'.schema = schema) (he : t.toJson = t'.toJson) : t.entries = t'.entries :=
  (h.sound_of_eq hs).entries_eq (h'.sound_of_eq hs') he

end AttrTable

namespace Dot

variable (c : RenderConfig) {t t' : AttrTable}

theorem written_congr (h : t.entries = t'.entries) (level : Int) (separator unit : String) :
    t.written level separator unit = t'.written level separator unit := by
  simp only [AttrTable.written, AttrTable.writtenBehind, h]

theorem entryList_congr (h : t.entries = t'.entries) : entryList c t = entryList c t' := by
  simp only [entryList, written_congr h]

theorem isEmpty_congr (h : t.entries = t'.entries) : t.isEmpty = t'.isEmpty :=
  congrArg List.isEmpty h

theorem attrList_congr (h : t.entries = t'.entries) : attrList c t = attrList c t' := by
  simp only [attrList, isEmpty_congr h, entryList_congr c h]

theorem bareAttributes_congr (h : t.entries = t'.entries) (level : Int) :
    bareAttributes c t level = bareAttributes c t' level := by
  simp only [bareAttributes, isEmpty_congr h, written_congr h]

theorem rootAttributes_congr (h : t.entries = t'.entries) :
    rootAttributes c t = rootAttributes c t' := by
  simp only [rootAttributes, isEmpty_congr h, written_congr h]

/-! ### Statements and subgraphs -/

section

variable {operator : EdgeOperator}

mutual

theorem item_eq_of_toJson : ∀ {x y : Item}, x.Proper operator → y.Proper operator → x.Fitted →
    y.Fitted → x.toJson = y.toJson → ∀ level, item c level x = item c level y
  | .node id attrs, y, hx, hy, hxf, hyf, h, level => by
    cases y with
    | node id' attrs' =>
      simp only [Item.toJson, Json.object.injEq, List.cons.injEq, Prod.mk.injEq, true_and,
        and_true] at h
      have hattrs := AttrTable.Lawful.entries_eq hx hy hxf hyf h.2
      simp only [item, NodeId.toJson_inj h.1, attrList_congr c hattrs]
    | edge tail head o attrs' => simp [Item.toJson] at h
    | defaults kind standalone attrs' => simp [Item.toJson] at h
    | subgraph inner => cases inner; simp [Item.toJson, Outline.toJson] at h
  | .edge tail head o attrs, y, hx, hy, hxf, hyf, h, level => by
    cases y with
    | edge tail' head' o' attrs' =>
      simp only [Item.toJson, Json.object.injEq, List.cons.injEq, Prod.mk.injEq, true_and,
        and_true] at h
      obtain ⟨-, htail, hhead, hattrs⟩ := h
      obtain ⟨hxtail, hxhead, ho, hxattrs⟩ := hx
      obtain ⟨hytail, hyhead, ho', hyattrs⟩ := hy
      obtain ⟨hxftail, hxfhead, hxs⟩ := hxf
      obtain ⟨hyftail, hyfhead, hys⟩ := hyf
      simp only [item, ho, ho', endpoint_eq_of_toJson hxtail hytail hxftail hyftail htail level,
        endpoint_eq_of_toJson hxhead hyhead hxfhead hyfhead hhead level,
        attrList_congr c (hxattrs.entries_eq hyattrs hxs hys hattrs)]
    | node id attrs' => simp [Item.toJson] at h
    | defaults kind standalone attrs' => simp [Item.toJson] at h
    | subgraph inner => cases inner; simp [Item.toJson, Outline.toJson] at h
  | .defaults kind standalone attrs, y, hx, hy, _, _, h, level => by
    cases y with
    | defaults kind' standalone' attrs' =>
      simp only [Item.toJson, Json.object.injEq, List.cons.injEq, Prod.mk.injEq, true_and,
        and_true, Json.text.injEq] at h
      obtain rfl := kind_eq_of_text h.1
      obtain ⟨rfl, hxattrs⟩ := hx
      obtain ⟨rfl, hyattrs⟩ := hy
      simp only [item, defaults, if_true, entryList_congr c (hxattrs.entries_eq hyattrs h.2)]
    | node id attrs' => simp [Item.toJson] at h
    | edge tail head o attrs' => simp [Item.toJson] at h
    | subgraph inner => cases inner; simp [Item.toJson, Outline.toJson] at h
  | .subgraph inner, y, hx, hy, hxf, hyf, h, level => by
    cases y with
    | subgraph inner' =>
      have htext := subgraph_eq_of_toJson hx hy hxf hyf h level
      simp only [item, subgraph_false, htext]
    | node id attrs' => cases inner; simp [Item.toJson, Outline.toJson] at h
    | edge tail head o attrs' => cases inner; simp [Item.toJson, Outline.toJson] at h
    | defaults kind standalone attrs' => cases inner; simp [Item.toJson, Outline.toJson] at h

theorem endpoint_eq_of_toJson : ∀ {x y : Endpoint}, x.Proper operator → y.Proper operator →
    x.Fitted → y.Fitted → x.toJson = y.toJson → ∀ level, endpoint c level x = endpoint c level y
  | .node id, y, _, _, _, _, h, level => by
    cases y with
    | node id' => simp only [endpoint, NodeId.toJson_inj h]
    | subgraph inner => cases inner; simp [Endpoint.toJson, NodeId.toJson, Outline.toJson] at h
  | .subgraph inner, y, hx, hy, hxf, hyf, h, level => by
    cases y with
    | subgraph inner' => exact subgraph_eq_of_toJson hx hy hxf hyf h level
    | node id => cases inner; simp [Endpoint.toJson, NodeId.toJson, Outline.toJson] at h

theorem subgraph_eq_of_toJson : ∀ {o o' : Outline}, o.Proper operator → o'.Proper operator →
    o.Fitted → o'.Fitted → o.toJson = o'.toJson →
    ∀ level, subgraph c level true o = subgraph c level true o'
  | ⟨header, items⟩, ⟨header', items'⟩, ⟨_, hattrs, hitems⟩, ⟨_, hattrs', hitems'⟩, hf, hf', h,
      level => by
    simp only [Outline.toJson, Json.object.injEq, List.cons.injEq, Prod.mk.injEq, true_and,
      and_true, Json.array.injEq] at h
    obtain ⟨hname, htable, hlist⟩ := h
    simp only [subgraph, Json.ofName_inj hname,
      bareAttributes_congr c (hattrs.entries_eq hattrs' htable),
      itemList_eq_of_toJson hitems hitems' hf hf' hlist]

theorem itemList_eq_of_toJson : ∀ {items items' : List Item}, properItems operator items →
    properItems operator items' → fittedItems items → fittedItems items' →
    itemsToJson items = itemsToJson items' →
    ∀ level, itemList c level items = itemList c level items'
  | [], [], _, _, _, _, _, _ => rfl
  | [], _ :: _, _, _, _, _, h, _ => by simp [itemsToJson] at h
  | _ :: _, [], _, _, _, _, h, _ => by simp [itemsToJson] at h
  | x :: rest, y :: rest', ⟨hx, hrest⟩, ⟨hy, hrest'⟩, ⟨hxf, hrestf⟩, ⟨hyf, hrestf'⟩, h,
      level => by
    simp only [itemsToJson, List.cons.injEq] at h
    simp only [itemList, item_eq_of_toJson hx hy hxf hyf h.1 level,
      itemList_eq_of_toJson hrest hrest' hrestf hrestf' h.2 level]

end

end

end Dot

/-! ### Whole graphs -/

namespace RootOutline

variable {g g' : RootOutline} {strict directed : Bool}

theorem Proper.toJson?_eq (h : g.Proper strict directed) :
    g.toJson? = some (.object [("name", .ofName g.body.header.name), ("strict", .flag strict),
      ("directed", .flag directed), ("attrs", g.body.header.attrs.toJson),
      ("statements", .array (itemsToJson g.body.items))]) := by
  obtain ⟨⟨⟨source, name, operator, attrs⟩, items⟩, s⟩ := g
  obtain ⟨rfl, rfl, -, -⟩ := h
  cases directed <;> rfl

theorem Proper.root_eq_of_toJson? {strict' directed' : Bool} (h : g.Proper strict directed)
    (h' : g'.Proper strict' directed') (hf : g.body.Fitted) (hf' : g'.body.Fitted)
    (hv : g.toJson? = g'.toJson?) (c : RenderConfig) :
    Dot.root c (graphWord directed) g = Dot.root c (graphWord directed') g' := by
  rw [h.toJson?_eq, h'.toJson?_eq] at hv
  simp only [Option.some.injEq, Json.object.injEq, List.cons.injEq, Prod.mk.injEq, true_and,
    and_true, Json.flag.injEq, Json.array.injEq] at hv
  obtain ⟨hname, rfl, rfl, htable, hlist⟩ := hv
  simp only [Dot.root, h.strict_eq, h'.strict_eq, Json.ofName_inj hname,
    Dot.rootAttributes_congr c (h.attrs.entries_eq h'.attrs htable),
    Dot.itemList_eq_of_toJson c h.items h'.items hf.items hf'.items hlist]

end RootOutline

namespace Store

variable {σ σ' : Store}

/-- Root graphs of reachable stores that show the same JSON view are written alike under every
configuration, if each statement that is part of them has a table of its own kind. -/
theorem dot?_eq_of_json?_eq (h : σ.Reachable) (h' : σ'.Reachable) {r r' : RootId}
    (hf : σ.Fitted r) (hf' : σ'.Fitted r') {view : Json} (hv : σ.json? r = some view)
    (hv' : σ'.json? r' = some view) (c : RenderConfig) :
    ∃ text, σ.dot? r c = some text ∧ σ'.dot? r' c = some text := by
  obtain ⟨g, hg, hview⟩ := Option.bind_eq_some_iff.1 hv
  obtain ⟨g', hg', hview'⟩ := Option.bind_eq_some_iff.1 hv'
  obtain ⟨strict, directed, hp⟩ := h.proper hg
  obtain ⟨strict', directed', hp'⟩ := h'.proper hg'
  have htext := hp.root_eq_of_toJson? hp' (hf.rootOutline hg) (hf'.rootOutline hg')
    (hview.trans hview'.symm) c
  exact ⟨_, dot?_eq hg hp c, htext ▸ dot?_eq hg' hp' c⟩

/-- A graph, a subgraph whose style is given by a text, and an edge out of the subgraph. -/
def textStyleRun : List Call :=
  [.ask (.newRoot .absent false true), .ask (.newSubgraph (.text "s") true),
    .ask (.set (.subgraph ⟨0⟩) [("style", .text "dashed")]),
    .ask (.newStatement (.edge ⟨0, .subgraph ⟨0⟩, .node ⟨⟨"outside", by decide⟩, none⟩,
      .directed⟩) none)]

/-- The same behind a subgraph of the other operator, with the style given by a word. -/
def wordStyleRun : List Call :=
  [.ask (.newSubgraph .absent false), .ask (.newRoot .absent false true),
    .ask (.newSubgraph (.text "s") true),
    .ask (.set (.subgraph ⟨1⟩) [("style", .token ⟨"SubgraphStyle", "DASHED", "dashed"⟩)]),
    .ask (.newStatement (.edge ⟨0, .subgraph ⟨1⟩, .node ⟨⟨"outside", by decide⟩, none⟩,
      .directed⟩) none)]

/-- What both show. -/
def dashedView : Json :=
  .object [("name", .null), ("strict", .flag false), ("directed", .flag true),
    ("attrs", .object []),
    ("statements", .array [
      .object [("type", .text "edge"), ("kind", .text "subgraph-node"),
        ("tail", .object [("type", .text "subgraph"), ("name", .text "s"),
          ("attrs", .object [("style", .text "dashed")]), ("statements", .array [])]),
        ("head", .object [("name", .text "outside"), ("port", .null)]), ("attrs", .object [])]])]

theorem dot?_eq_of_json?_eq_styles :
    let σ := empty.after (textStyleRun ++ [.ask (.add (.root ⟨0⟩) (.object (.statement ⟨0⟩)))])
    let σ' := empty.after (wordStyleRun ++ [.ask (.add (.root ⟨0⟩) (.object (.statement ⟨0⟩)))])
    σ.json? ⟨0⟩ = some dashedView ∧ σ'.json? ⟨0⟩ = some dashedView ∧
      ∃ text, σ.dot? ⟨0⟩ .default = some text ∧ σ'.dot? ⟨0⟩ .default = some text := by
  have hadd : (empty.after textStyleRun).checkMember (.root ⟨0⟩) (.statement ⟨0⟩) = .ok () :=
    checkMember_root_edge
      (e := ⟨0, .subgraph ⟨0⟩, .node ⟨⟨"outside", by decide⟩, none⟩, .directed⟩)
      (by decide +kernel) (by decide +kernel) (by decide +kernel) (by decide +kernel)
  have hadd' : (empty.after wordStyleRun).checkMember (.root ⟨0⟩) (.statement ⟨0⟩) = .ok () :=
    checkMember_root_edge
      (e := ⟨0, .subgraph ⟨1⟩, .node ⟨⟨"outside", by decide⟩, none⟩, .directed⟩)
      (by decide +kernel) (by decide +kernel) (by decide +kernel) (by decide +kernel)
  intro σ σ'
  have hσ : σ = (empty.after textStyleRun).attach (.root ⟨0⟩) (.statement ⟨0⟩) := by
    simp only [σ]
    rw [after_append, after_add_statement hadd]
  have hσ' : σ' = (empty.after wordStyleRun).attach (.root ⟨0⟩) (.statement ⟨0⟩) := by
    simp only [σ']
    rw [after_append, after_add_statement hadd']
  have hv : σ.json? ⟨0⟩ = some dashedView := by
    rw [hσ]
    decide +kernel
  have hv' : σ'.json? ⟨0⟩ = some dashedView := by
    rw [hσ']
    decide +kernel
  have hf : σ.Fitted ⟨0⟩ := by
    rw [hσ]
    exact fitted_of_forall (by decide +kernel) ⟨0⟩
  have hf' : σ'.Fitted ⟨0⟩ := by
    rw [hσ']
    exact fitted_of_forall (by decide +kernel) ⟨0⟩
  exact ⟨hv, hv', dot?_eq_of_json?_eq ⟨_, rfl⟩ ⟨_, rfl⟩ hf hf' hv hv' .default⟩

/-- A node whose style is given in its own table, where a style is any text. -/
def nodeStyleRun : List Call :=
  [.ask (.newRoot .absent false true),
    .ask (.insert (.root ⟨0⟩) (.node (.text "outside") .absent) [("style", .text "solid")])]

/-- A node with the table of an edge, where a style is a word. -/
def edgeStyleRun : List Call :=
  [.ask (.newRoot .absent false true),
    .ask (.newStatement (.edge ⟨0, .node ⟨⟨"outside", by decide⟩, none⟩,
      .node ⟨⟨"outside", by decide⟩, none⟩, .directed⟩) none),
    .ask (.set (.statement ⟨0⟩) [("style", .text "solid")]),
    .ask (.newStatement (.node ⟨⟨"outside", by decide⟩, none⟩) (some (.statement ⟨0⟩))),
    .ask (.add (.root ⟨0⟩) (.object (.statement ⟨1⟩)))]

/-- What both show. -/
def solidView : Json :=
  .object [("name", .null), ("strict", .flag false), ("directed", .flag true),
    ("attrs", .object []),
    ("statements", .array [
      .object [("type", .text "node"), ("id", .object [("name", .text "outside"), ("port", .null)]),
        ("attrs", .object [("style", .text "solid")])]])]

/-- A text is written in quotes, and a word is not. -/
theorem dot?_ne_of_json?_eq_edgeTable :
    let σ := empty.after nodeStyleRun
    let σ' := empty.after edgeStyleRun
    σ.json? ⟨0⟩ = some solidView ∧ σ'.json? ⟨0⟩ = some solidView ∧
      σ.dot? ⟨0⟩ .default = some "digraph \x7b\n  outside[style=\"solid\"]\n\x7d\n" ∧
      σ'.dot? ⟨0⟩ .default = some "digraph \x7b\n  outside[style=solid]\n\x7d\n" := by
  decide +kernel

end Store

end DotGraph
