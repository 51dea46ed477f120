import DotGraph.Proofs.Appending
import DotGraph.Proofs.BodyOperators
import DotGraph.Proofs.LinkPaths
import DotGraph.Proofs.Rows

/-!
The text of a subgraph wherever it stands.  A statement is written at every level with the same
lines behind a different indentation, and a subgraph starts in the middle of a line as it starts on
a line of its own.
-/

namespace DotGraph

open Text

/-! ### What constructors make can be written -/

namespace Store

variable {σ : Store} {m : Member}

theorem MadeEdge.exists_directed {e : Edge} (h : σ.MadeEdge e) :
    ∃ directed, e.operator = .ofDirected directed := by
  obtain ⟨σ₀, σ₁, tail, head, directed, hmade, -⟩ := h
  obtain ⟨_, _, _, hrest⟩ := Build.yields_bind_iff.1 hmade
  obtain ⟨_, _, _, hcounted⟩ := Build.yields_bind_iff.1 hrest
  cases hcounted
  exact ⟨directed, rfl⟩

theorem Constructed.suits_or_defaults (h : σ.Reachable) (hm : σ.Constructed m) :
    (∃ directed, σ.Suits (.ofDirected directed) m) ∨
      ∃ i kind given, m = .statement i ∧ σ.clause? i = some (.defaults kind given) := by
  cases hm with
  | @subgraph s g hs =>
    have ho : σ.HasOperator (.subgraph s) g.body.operator := by simp [HasOperator, body?, hs]
    obtain ⟨directed, hd⟩ := h.directional _ _ ho
    exact .inl ⟨directed, hd ▸ ho⟩
  | node hc => exact .inl ⟨false, _, hc, trivial⟩
  | edge hc made =>
    obtain ⟨directed, hd⟩ := made.exists_directed
    exact .inl ⟨directed, _, hc, hd, hd ▸ made.hasOperator⟩
  | defaults hc => exact .inr ⟨_, _, _, rfl, hc⟩

/-- Whatever a constructor has made can be written, attached or not; and a character that stands
neither in words nor between them is there only if a text of a table holds it. -/
theorem Constructed.exists_item? (h : σ.Reachable) (hm : σ.Constructed m) :
    ∃ x, σ.item? m = some x ∧ ∀ ch, Dot.isInline ch = false →
      (∀ t ∈ x.tables, t.Lacks ch) → x.Clear ch := by
  rcases hm.suits_or_defaults h with ⟨directed, hs⟩ | ⟨i, kind, given, rfl, hc⟩
  · have hlinks := hs.hasOperator_of_memberLinks
    obtain ⟨x, hx⟩ := hs.complete.1.exists_itemWith? fun s hl =>
      exists_outline? h.uniform h.acyclic (hlinks s hl)
    have hproper : x.Proper (.ofDirected directed) :=
      proper_of_itemWith? h.tabled hs
        (fun s hl _ => proper_of_outlineTo? h.uniform h.tabled (hlinks s hl)) hx
    exact ⟨x, hx, fun ch hch hl => Item.clear_of_proper hch hproper hl⟩
  · obtain ⟨s, hi, hs⟩ := Option.map_eq_some_iff.1 hc
    have hsound := h.tabled.sound_defaults hi hs
    refine ⟨.defaults kind given.counts (σ.attrsAt s.table), ?_, fun ch hch hl => ?_⟩
    · simp [item?, itemWith?, hi, hs, clauseWith?]
    · exact (hsound.lawful (.defaults kind)).clear hch (hl _ (by simp [Item.tables]))

end Store

/-! ### Where a subgraph stands -/

namespace Dot

variable (c : RenderConfig) {level : Int}

theorem infix_item {x : Item} {role : Role} {o : Outline} (h : x.target? role = some o) :
    (subgraph c level true o).toList <:+: (item c level x).toList := by
  have hend {e : Endpoint} (he : e.inner? = some o) :
      (endpoint c level e).toList = (subgraph c level true o).toList := by
    cases e with
    | node id => cases he
    | subgraph inner =>
      cases he
      rw [endpoint]
  cases x with
  | node id attrs => cases role <;> cases h
  | defaults kind standalone attrs => cases role <;> cases h
  | subgraph inner =>
    cases role with
    | entry =>
      cases h
      exact ⟨indentText c level, [], by simp [item, subgraph_false, indentText]⟩
    | tail => cases h
    | head => cases h
  | edge tail head operator attrs =>
    cases role with
    | entry => cases h
    | tail =>
      refine ⟨indentText c level, ' ' :: (operator.text.toList ++ ' ' ::
        ((endpoint c level head).toList ++ (attrList c attrs).toList)), ?_⟩
      simp [item, indentText, hend h]
    | head =>
      refine ⟨indentText c level ++ ((endpoint c level tail).toList ++ ' ' ::
        (operator.text.toList ++ [' '])), (attrList c attrs).toList, ?_⟩
      simp [item, indentText, hend h]

theorem infix_itemList {items : List Item} {x : Item} (h : x ∈ items) :
    (item c level x).toList <:+: linesText (itemList c level items) := by
  induction items with
  | nil => cases h
  | cons first rest ih =>
    rcases List.mem_cons.1 h with rfl | h
    · exact ⟨['\n'], linesText (itemList c level rest), by simp [itemList]⟩
    · have hrest : linesText (itemList c level rest) <:+:
          linesText (itemList c level (first :: rest)) :=
        (List.suffix_append ('\n' :: (item c level first).toList) _).isInfix
      exact (ih h).trans hrest

theorem infix_subgraph (o : Outline) :
    linesText (itemList c (level + 1) o.items) <:+: (subgraph c level true o).toList := by
  obtain ⟨header, items⟩ := o
  rw [toList_subgraph]
  exact ⟨"subgraph ".toList ++ nameText header.name ++
    '\x7b' :: entriesText '\n' (indentText c level) header.attrs.entries, _,
    by simp [Outline.items]; rfl⟩

theorem infix_root (word : String) (g : RootOutline) :
    linesText (itemList c 1 g.body.items) <:+: (root c word g).toList := by
  rw [toList_root]
  exact ⟨(rootHead word g.body.header.name g.strict.counts).toList ++
    linesText (rootAttributes c g.body.header.attrs), _, by simp; rfl⟩

theorem infix_target {o inner : Outline} {ref : Reference} (h : o.target? ref = some inner) :
    (subgraph c level true inner).toList <:+: linesText (itemList c level o.items) := by
  obtain ⟨x, hx, ht⟩ := Option.bind_eq_some_iff.1 h
  exact (infix_item c ht).trans (infix_itemList c (List.mem_of_getElem? hx))

theorem infix_follow (path : List Reference) {o inner : Outline} (level : Int)
    (h : o.follow? path = some inner) :
    (subgraph c (level + path.length) true inner).toList <:+: (subgraph c level true o).toList := by
  induction path generalizing o level with
  | nil =>
    obtain rfl := Option.some.inj h
    simp
  | cons ref path ih =>
    obtain ⟨next, hnext, hrest⟩ := Option.bind_eq_some_iff.1 h
    have hdeeper := ih (level + 1) hrest
    have hlevel : level + ((ref :: path).length : Nat) = level + 1 + (path.length : Nat) := by
      rw [List.length_cons]
      omega
    rw [hlevel]
    exact hdeeper.trans ((infix_target c hnext).trans (infix_subgraph c o))

theorem infix_root_follow (word : String) {g : RootOutline} {inner : Outline}
    {path : List Reference} (hne : path ≠ []) (h : g.body.follow? path = some inner) :
    (subgraph c path.length true inner).toList <:+: (root c word g).toList := by
  cases path with
  | nil => exact absurd rfl hne
  | cons ref path =>
    obtain ⟨next, hnext, hrest⟩ := Option.bind_eq_some_iff.1 h
    have hdeeper := infix_follow c path 1 hrest
    have hlevel : (((ref :: path).length : Nat) : Int) = 1 + (path.length : Nat) := by
      rw [List.length_cons]
      omega
    rw [hlevel]
    exact hdeeper.trans ((infix_target c hnext).trans (infix_root c word g))

/-! ### Lines at every level -/

/-- The lines of the second text are those of the first, each behind so many more units. -/
def Indented (k : Nat) (text deeper : String) : Prop :=
  deeper.toList.splitOn '\n' = (text.toList.splitOn '\n').map (indentText c k ++ ·)

theorem indented_item {x : Item} (h : x.Clear '\n') (n k : Nat) :
    Indented c k (item c n x) (item c (n + k : Nat) x) := by
  unfold Indented
  rw [x.splitOn_text c h (n + k), x.splitOn_text c h n, x.rows_add c k n, List.map_map,
    List.map_map]
  exact List.map_congr_left fun row _ => row.line_deeper c k

theorem item_subgraph (level : Int) (o : Outline) :
    item c level (.subgraph o) = indent c level ++ subgraph c level true o := by
  rw [item, subgraph_false]

end Dot

namespace Store

open Dot

variable {σ : Store} {m : Member}

/-- Whatever calls were made, a statement is written at every level with the lines that it has at
any other, behind more or fewer units of indentation, if no text in it breaks a line.  A subgraph is
written as a statement like behind other text, but for the indentation before it; and wherever links
lead to it from a root graph, along any path, the text of the graph holds it with its lines behind
one more unit for each link. -/
theorem Reachable.text_of_level (h : σ.Reachable) (hm : σ.Constructed m) (c : RenderConfig) :
    ∃ x, σ.item? m = some x ∧
      ((∀ t ∈ x.tables, t.Lacks '\n') →
        ∀ n k : Nat, Indented c k (item c n x) (item c (n + k : Nat) x)) ∧
      ∀ s, m = .subgraph s → ∃ o, σ.outline? (.subgraph s) = some o ∧ x = .subgraph o ∧
        (∀ n : Nat, item c n x = subgraph c n false o ∧
          subgraph c n false o = indent c n ++ subgraph c n true o) ∧
        ∀ r path, path ≠ [] → σ.follow? (.root r) path = some (.subgraph s) →
          ∃ text, σ.dot? r c = some text ∧
            (subgraph c path.length true o).toList <:+: text.toList ∧
            ((∀ t ∈ x.tables, t.Lacks '\n') → Indented c path.length (subgraph c 0 true o)
              (indent c path.length ++ subgraph c path.length true o)) := by
  obtain ⟨x, hx, hclear⟩ := hm.exists_item? h
  have hlevels (hl : ∀ t ∈ x.tables, t.Lacks '\n') (n k : Nat) :
      Indented c k (item c n x) (item c (n + k : Nat) x) :=
    indented_item c (hclear '\n' isInline_break hl) n k
  refine ⟨x, hx, hlevels, ?_⟩
  rintro s rfl
  obtain ⟨o, hs, rfl⟩ := Option.map_eq_some_iff.1 hx
  have ho : σ.outline? (.subgraph s) = some o := hs
  refine ⟨o, ho, rfl, fun n => ⟨by rw [item], subgraph_false c n o⟩, fun r path hne hpath => ?_⟩
  obtain ⟨g, hg⟩ := exists_root_of_follow? hne hpath
  obtain ⟨body, hbody, hroot⟩ := h.exists_rootOutline? hg
  obtain ⟨word, hword⟩ := (h.typed hg).exists_keyword
  have hinner : body.follow? path = some o := by
    have hmap := h.map_follow? path hbody
    rw [hpath, Option.map_some, ho] at hmap
    obtain ⟨inner, hinner, hsome⟩ := Option.map_eq_some_iff.1 hmap.symm
    exact hinner.trans hsome
  refine ⟨root c word ⟨body, g.strict⟩, by simp [dot?, keyword?, hg, hword, hroot],
    infix_root_follow c word hne hinner, fun hl => ?_⟩
  have hshift := hlevels hl 0 path.length
  rw [Nat.zero_add, item_subgraph, item_subgraph] at hshift
  simpa [indent, indentation] using hshift

/-- The subgraph at both ends of an edge and in the list behind it. -/
theorem text_of_level_threeLinks :
    ∃ o text, threeLinks.outline? (.subgraph ⟨0⟩) = some o ∧
      threeLinks.dot? ⟨0⟩ .default = some text ∧
      (subgraph .default 1 true o).toList <:+: text.toList ∧
      Indented .default 1 (subgraph .default 0 true o)
        (indent .default 1 ++ subgraph .default 1 true o) ∧
      Indented .default 2 (item .default 3 (.subgraph o)) (item .default 5 (.subgraph o)) := by
  obtain ⟨g, hs⟩ : ∃ g, threeLinks.subgraph? ⟨0⟩ = some g := by
    rw [threeLinks_eq]
    exact Option.isSome_iff_exists.1 (by decide +kernel)
  obtain ⟨x, hx, hlevels, hsubgraph⟩ :=
    reachable_threeLinks.text_of_level (.subgraph hs) .default
  obtain ⟨o, ho, rfl, -, hplaces⟩ := hsubgraph ⟨0⟩ rfl
  have hl : ∀ t ∈ (Item.subgraph o).tables, t.Lacks '\n' := by
    have htables : ((threeLinks.item? (.subgraph ⟨0⟩)).map Item.tables).all
        (fun ts => ts.all fun t => decide (t.Lacks '\n')) = true := by
      rw [threeLinks_eq]
      decide +kernel
    rw [hx] at htables
    simpa using htables
  have hpath : threeLinks.follow? (.root ⟨0⟩) [⟨0, .head⟩] = some (.subgraph ⟨0⟩) := by
    rw [threeLinks_eq]
    decide +kernel
  obtain ⟨text, htext, hinfix, hlines⟩ := hplaces ⟨0⟩ [⟨0, .head⟩] (by simp) hpath
  exact ⟨o, text, ho, htext, hinfix, hlines hl, hlevels hl 3 2⟩

end Store

/-! ### How often a subgraph is written -/

theorem Dot.isInline_open : Dot.isInline '\x7b' = false := by decide

theorem Dot.count_open_indent (c : RenderConfig) (level : Int) :
    (Dot.indent c level).toList.count '\x7b' = 0 :=
  List.count_eq_zero.2 (notMem_indentText isInline_open c level)

theorem Dot.count_open_rootHead (directed : Bool) (name : Option Identifier) (strict : Bool) :
    (Dot.rootHead (graphWord directed) name strict).toList.count '\x7b' = 1 := by
  have hword := List.count_eq_zero.2 ((isWord_graphWord directed).notMem isInline_open)
  have hname := List.count_eq_zero.2 (notMem_nameText isInline_open name)
  rw [toList_rootHead]
  cases strict <;> simp [hword, hname]

section

variable (c : RenderConfig)

mutual

/-- The text of an item opens a brace for each path that starts with it. -/
theorem Item.count_open : ∀ (x : Item) (level : Int) (position : Nat), x.Clear '\x7b' →
    (Dot.item c level x).toList.count '\x7b' = (x.paths position).length
  | .node id attrs, level, position, h => by
    have hlead := Dot.count_open_indent c level
    have hid := List.count_eq_zero.2 (Dot.notMem_nodeId Dot.isInline_open c id)
    have hattrs := List.count_eq_zero.2 (Dot.notMem_attrList Dot.isInline_open c h)
    simp [Dot.item, Item.paths, hlead, hid, hattrs]
  | .edge tail head operator attrs, level, position, ⟨htail, hhead, hoperator, hattrs⟩ => by
    have hlead := Dot.count_open_indent c level
    have htail := tail.count_open level htail
    have hhead := head.count_open level hhead
    have hsign := List.count_eq_zero.2 hoperator
    have hattrs := List.count_eq_zero.2 (Dot.notMem_attrList Dot.isInline_open c hattrs)
    simp [Dot.item, Item.paths, hlead, htail, hhead, hsign, hattrs]
  | .defaults kind standalone attrs, level, position, h => by
    have hlead := Dot.count_open_indent c level
    have hdefaults :=
      List.count_eq_zero.2 (Dot.notMem_defaults Dot.isInline_open c kind standalone h)
    simp [Dot.item, Item.paths, hlead, hdefaults]
  | .subgraph inner, level, position, h => by
    have hlead := Dot.count_open_indent c level
    have hinner := inner.count_open level h
    simp [Dot.item, Dot.subgraph_false, Item.paths, hlead, hinner]

theorem Endpoint.count_open : ∀ (e : Endpoint) (level : Int), e.Clear '\x7b' →
    (Dot.endpoint c level e).toList.count '\x7b' = e.paths.length
  | .node id, level, _ => by
    rw [Dot.endpoint]
    exact List.count_eq_zero.2 (Dot.notMem_nodeId Dot.isInline_open c id)
  | .subgraph inner, level, h => by
    rw [Dot.endpoint, Endpoint.paths]
    exact inner.count_open level h

theorem Outline.count_open : ∀ (o : Outline) (level : Int), o.Clear '\x7b' →
    (Dot.subgraph c level true o).toList.count '\x7b' = o.paths.length
  | ⟨header, items⟩, level, ⟨hattrs, hitems⟩ => by
    have hlead := Dot.notMem_indentText Dot.isInline_open c level
    have hbreak : '\x7b' ≠ '\n' := by decide
    have hword : "subgraph ".toList.count '\x7b' = 0 := by decide
    have hname := List.count_eq_zero.2 (Dot.notMem_nameText Dot.isInline_open header.name)
    have hentries := List.count_eq_zero.2
      (Dot.notMem_entriesText Dot.isInline_open hbreak hlead hattrs)
    have hbelow := count_open_itemList items (level + 1) 0 hitems
    rw [Dot.toList_subgraph, List.count_append, hword]
    simp [hname, hentries, hbelow, List.count_eq_zero.2 hlead, Outline.paths]

theorem count_open_itemList : ∀ (items : List Item) (level : Int) (position : Nat),
    clearItems '\x7b' items →
    (Dot.linesText (Dot.itemList c level items)).count '\x7b' = (itemPaths position items).length
  | [], _, _, _ => rfl
  | x :: rest, level, position, ⟨hx, hrest⟩ => by
    have hfirst := x.count_open level position hx
    have hothers := count_open_itemList rest level (position + 1) hrest
    simp [Dot.itemList, itemPaths, hfirst, hothers]

end

theorem RootOutline.Proper.count_open {g : RootOutline} {strict directed : Bool}
    (h : g.Proper strict directed) (hl : ∀ t ∈ g.tables, t.Lacks '\x7b') :
    (Dot.root c (graphWord directed) g).toList.count '\x7b' =
      1 + (itemPaths 0 g.body.items).length := by
  have hclear := h.clear Dot.isInline_open hl
  obtain ⟨⟨header, items⟩, given⟩ := g
  have hhead := Dot.count_open_rootHead directed header.name given.counts
  have hitems := count_open_itemList c items 1 0 hclear.2
  have hattrs : (Dot.linesText (Dot.rootAttributes c header.attrs)).count '\x7b' = 0 := by
    cases ht : header.attrs.isEmpty with
    | true => simp [Dot.linesText_rootAttributes_of_isEmpty c ht]
    | false =>
      have hlead := Dot.notMem_indentText Dot.isInline_open c 1
      have hbreak : '\x7b' ≠ '\n' := by decide
      have hentries := List.count_eq_zero.2
        (Dot.notMem_entriesText Dot.isInline_open hbreak hlead hclear.1)
      simp [Dot.linesText_rootAttributes c ht, hentries]
  rw [Dot.toList_root, List.count_append, List.count_append, List.count_append]
  simp only [Outline.header, Outline.items, hhead, hattrs, hitems]
  simp

end

/-- Whatever calls were made, the text of a root graph opens a brace once for the graph and once for
each path of one or more links that starts at it, if no text in it holds such a brace.  Every place
in a statement list and every end of an edge is a link of its own. -/
theorem Store.Reachable.braces_count_paths {σ : Store} (h : σ.Reachable) {r : RootId} {root : Root}
    (hr : σ.root? r = some root) (c : RenderConfig) :
    ∃ g text, σ.rootOutline? r = some g ∧ σ.dot? r c = some text ∧
      ((∀ t ∈ g.tables, t.Lacks '\x7b') → ∃ paths : List (List Reference), paths.Nodup ∧
        (∀ path, path ∈ paths ↔ path ≠ [] ∧ (σ.follow? (.root r) path).isSome) ∧
        text.toList.count '\x7b' = 1 + paths.length) := by
  obtain ⟨⟨header, items⟩, ho, hg⟩ := h.exists_rootOutline? hr
  obtain ⟨strict, directed, hproper⟩ := h.proper hg
  refine ⟨_, _, hg, dot?_eq hg hproper c, fun hl => ?_⟩
  refine ⟨itemPaths 0 items, nodup_itemPaths items 0, fun path => ?_, hproper.count_open c hl⟩
  have hpaths : path ∈ (Outline.mk header items).paths ↔ (σ.follow? (.root r) path).isSome := by
    rw [Outline.mem_paths, h.isSome_follow? path ho]
  rw [← hpaths, Outline.paths]
  constructor
  · intro hm
    refine ⟨?_, List.mem_cons_of_mem _ hm⟩
    rintro rfl
    exact (List.nodup_cons.1 (Outline.mk header items).nodup_paths).1 hm
  · rintro ⟨hne, hm⟩
    exact (List.mem_cons.1 hm).resolve_left hne

/-- Both ends of an edge and the place in the list count, and there is no third place. -/
theorem Store.braces_count_paths_threeLinks :
    ∃ (text : String) (paths : List (List Reference)), paths.Nodup ∧
      [⟨0, .tail⟩] ∈ paths ∧ [⟨0, .head⟩] ∈ paths ∧ [⟨1, .entry⟩] ∈ paths ∧ [⟨2, .entry⟩] ∉ paths ∧
      threeLinks.dot? ⟨0⟩ .default = some text ∧ text.toList.count '\x7b' = 1 + paths.length := by
  obtain ⟨root, hr⟩ : ∃ root, threeLinks.root? ⟨0⟩ = some root := by
    rw [threeLinks_eq]
    exact Option.isSome_iff_exists.1 (by decide +kernel)
  obtain ⟨g, text, hg, ht, hcount⟩ := reachable_threeLinks.braces_count_paths hr .default
  have hl : ∀ t ∈ g.tables, t.Lacks '\x7b' := by
    have htables : ((threeLinks.rootOutline? ⟨0⟩).map RootOutline.tables).all
        (fun ts => ts.all fun t => decide (t.Lacks '\x7b')) = true := by
      rw [threeLinks_eq]
      decide +kernel
    rw [hg] at htables
    simpa using htables
  obtain ⟨paths, hn, hpaths, hlength⟩ := hcount hl
  have hfollow (position : Nat) (role : Role) :
      [⟨position, role⟩] ∈ paths ↔
        (threeLinks.follow? (.root ⟨0⟩) [⟨position, role⟩]).isSome = true := by
    simp [hpaths]
  refine ⟨text, paths, hn, (hfollow 0 .tail).2 ?_, (hfollow 0 .head).2 ?_,
    (hfollow 1 .entry).2 ?_, mt (hfollow 2 .entry).1 ?_, ht, hlength⟩ <;> rw [threeLinks_eq] <;>
    decide +kernel

end DotGraph
