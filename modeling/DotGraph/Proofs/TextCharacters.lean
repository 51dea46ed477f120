import DotGraph.Proofs.ClearTexts
import DotGraph.Text.Terminal

/-!
The characters of a graph text.  A graph text is made of words, of blanks, of a few signs and of the
texts that its tables hold; so what a terminal takes for a control sequence comes from a table.
-/

namespace DotGraph

open Text

/-- The characters of words and of layout, and the signs of the graph language. -/
def Dot.isOrdinary (ch : Char) : Bool :=
  isWordChar ch ||
    [' ', '\t', '\n', ',', '=', ':', '>', '\x22', '[', ']', '\x7b', '\x7d'].contains ch

variable {ch : Char}

theorem Dot.isInline_of_isOrdinary (hch : isOrdinary ch = false) : isInline ch = false := by
  simp only [isOrdinary, Bool.or_eq_false_iff, List.contains_eq_mem, decide_eq_false_iff_not,
    List.mem_cons, List.not_mem_nil, or_false, not_or] at hch
  simp [isInline, hch]

theorem ne_of_isOrdinary (hch : Dot.isOrdinary ch = false) {c : Char}
    (hc : Dot.isOrdinary c = true) : ch ≠ c := by
  rintro rfl
  simp [hch] at hc

/-! ### Outlines -/

section

variable (hch : Dot.isOrdinary ch = false) (c : RenderConfig)

include hch

mutual

theorem Item.notMem_text : ∀ (x : Item) (level : Int), x.Clear ch →
    ch ∉ (Dot.item c level x).toList
  | .node id attrs, level, h => by
    have hin := Dot.isInline_of_isOrdinary hch
    have hlead : ch ∉ (Dot.indent c level).toList := Dot.notMem_indentText hin c level
    have hid := Dot.notMem_nodeId hin c id
    have hattrs := Dot.notMem_attrList hin c h
    simp [Dot.item, hlead, hid, hattrs]
  | .edge tail head operator attrs, level, ⟨htail, hhead, hoperator, hattrs⟩ => by
    have hin := Dot.isInline_of_isOrdinary hch
    have hlead : ch ∉ (Dot.indent c level).toList := Dot.notMem_indentText hin c level
    have htail := Endpoint.notMem_text tail level htail
    have hhead := Endpoint.notMem_text head level hhead
    have hattrs := Dot.notMem_attrList hin c hattrs
    have hspace : ch ≠ ' ' := ne_of_isOrdinary hch (by decide)
    simp [Dot.item, hlead, htail, hhead, hattrs, hoperator, hspace]
  | .defaults kind standalone attrs, level, h => by
    have hin := Dot.isInline_of_isOrdinary hch
    have hlead : ch ∉ (Dot.indent c level).toList := Dot.notMem_indentText hin c level
    have hdefaults := Dot.notMem_defaults hin c kind standalone h
    simp [Dot.item, hlead, hdefaults]
  | .subgraph inner, level, h => by
    have hlead : ch ∉ (Dot.indent c level).toList :=
      Dot.notMem_indentText (Dot.isInline_of_isOrdinary hch) c level
    have hinner := Outline.notMem_text inner level h
    simp [Dot.item, Dot.subgraph_false, hlead, hinner]

theorem Endpoint.notMem_text : ∀ (e : Endpoint) (level : Int), e.Clear ch →
    ch ∉ (Dot.endpoint c level e).toList
  | .node id, _, _ => by
    rw [Dot.endpoint]
    exact Dot.notMem_nodeId (Dot.isInline_of_isOrdinary hch) c id
  | .subgraph inner, level, h => by
    rw [Dot.endpoint]
    exact Outline.notMem_text inner level h

theorem Outline.notMem_text : ∀ (o : Outline) (level : Int), o.Clear ch →
    ch ∉ (Dot.subgraph c level true o).toList
  | ⟨header, items⟩, level, ⟨hattrs, hitems⟩ => by
    have hin := Dot.isInline_of_isOrdinary hch
    have hword : ch ∉ "subgraph ".toList := by
      have hspace : ch ≠ ' ' := ne_of_isOrdinary hch (by decide)
      have hsplit : "subgraph ".toList = "subgraph".toList ++ [' '] := by decide
      rw [hsplit]
      simpa [hspace] using isWord_subgraph.notMem hin
    have hname := Dot.notMem_nameText hin header.name
    have hlead := Dot.notMem_indentText hin c level
    have hbreak : ch ≠ '\n' := ne_of_isOrdinary hch (by decide)
    have hattrs := Dot.notMem_entriesText hin hbreak hlead hattrs
    have hitems := notMem_itemList items (level + 1) hitems
    have hopen : ch ≠ '\x7b' := ne_of_isOrdinary hch (by decide)
    have hclose : ch ≠ '\x7d' := ne_of_isOrdinary hch (by decide)
    rw [Dot.toList_subgraph]
    simp only [List.mem_append, List.mem_cons, List.not_mem_nil, or_false, not_or]
    exact ⟨hword, hname, hopen, hattrs, hitems, hbreak, hlead, hclose⟩

theorem notMem_itemList : ∀ (items : List Item) (level : Int), clearItems ch items →
    ch ∉ Dot.linesText (Dot.itemList c level items)
  | [], _, _ => by simp [Dot.itemList]
  | x :: rest, level, ⟨hx, hrest⟩ => by
    have hbreak : ch ≠ '\n' := ne_of_isOrdinary hch (by decide)
    have hfirst := Item.notMem_text x level hx
    have hothers := notMem_itemList rest level hrest
    simp [Dot.itemList, hbreak, hfirst, hothers]

end

/-- A graph text has no character but the ordinary ones and those of the texts in its tables. -/
theorem RootOutline.Proper.notMem_text {g : RootOutline} {strict directed : Bool}
    (h : g.Proper strict directed) (hl : ∀ t ∈ g.tables, t.Lacks ch) :
    ch ∉ (Dot.root c (graphWord directed) g).toList := by
  have hin := Dot.isInline_of_isOrdinary hch
  have hclear := h.clear hin hl
  obtain ⟨⟨header, items⟩, given⟩ := g
  have hbreak : ch ≠ '\n' := ne_of_isOrdinary hch (by decide)
  have hopen : ch ≠ '\x7b' := ne_of_isOrdinary hch (by decide)
  have hclose : ch ≠ '\x7d' := ne_of_isOrdinary hch (by decide)
  have hitems := notMem_itemList hch c items 1 hclear.2
  have hattrs : ch ∉ Dot.linesText (Dot.rootAttributes c header.attrs) := by
    cases ht : header.attrs.isEmpty with
    | true => simp [Dot.linesText_rootAttributes_of_isEmpty c ht]
    | false =>
      have hentries := Dot.notMem_entriesText hin hbreak (Dot.notMem_indentText hin c 1)
        hclear.1
      rw [Dot.linesText_rootAttributes c ht]
      simp only [List.mem_append, List.mem_singleton, not_or]
      exact ⟨hentries, hbreak⟩
  have hhead := Dot.notMem_rootHead hin hopen directed header.name given.counts
  rw [Dot.toList_root]
  simp only [List.mem_append, List.mem_cons, List.not_mem_nil, or_false, not_or]
  exact ⟨hhead, hattrs, hitems, hbreak, hclose, hbreak⟩

end

/-! ### Tables of a store -/

namespace Store

variable {σ : Store} {inner : SubgraphId → Option Outline}

/-- No table of the store holds a text with the character. -/
def Lacks (ch : Char) (σ : Store) : Prop :=
  ∀ t u, σ.table? t = some u → u.Lacks ch

theorem mem_itemTables {items : List Item} {u : AttrTable} :
    u ∈ itemTables items ↔ ∃ x ∈ items, u ∈ x.tables := by
  induction items with
  | nil => simp [itemTables]
  | cons x rest ih => simp [itemTables, ih]

theorem lacks_of_endpointWith? {v : Vertex} {e : Endpoint}
    (h : ∀ s o, inner s = some o → ∀ u ∈ o.tables, u.Lacks ch)
    (he : endpointWith? inner v = some e) : ∀ u ∈ e.tables, u.Lacks ch := by
  cases v with
  | node id =>
    cases he
    simp [Endpoint.tables]
  | subgraph s =>
    obtain ⟨o, ho, rfl⟩ := Option.map_eq_some_iff.1 he
    exact h s o ho

theorem lacks_of_clauseWith? {clause : Clause} {attrs : AttrTable} {x : Item}
    (hown : attrs.Lacks ch) (h : ∀ s o, inner s = some o → ∀ u ∈ o.tables, u.Lacks ch)
    (hx : clauseWith? inner attrs clause = some x) : ∀ u ∈ x.tables, u.Lacks ch := by
  cases clause with
  | node id =>
    cases hx
    simpa [Item.tables] using hown
  | edge e =>
    obtain ⟨tail, htail, hx⟩ := Option.bind_eq_some_iff.1 hx
    obtain ⟨head, hhead, hx⟩ := Option.bind_eq_some_iff.1 hx
    cases hx
    intro u hu
    simp only [Item.tables, List.mem_append, List.mem_singleton] at hu
    rcases hu with (hu | hu) | rfl
    · exact lacks_of_endpointWith? h htail u hu
    · exact lacks_of_endpointWith? h hhead u hu
    · exact hown
  | defaults kind standalone =>
    cases hx
    simpa [Item.tables] using hown
  | noEdge given => cases hx

variable (hl : σ.Lacks ch) (ht : σ.Tabled)

include hl ht

theorem lacks_of_itemWith? {m : Member} {x : Item}
    (h : ∀ s o, inner s = some o → ∀ u ∈ o.tables, u.Lacks ch)
    (hx : σ.itemWith? inner m = some x) : ∀ u ∈ x.tables, u.Lacks ch := by
  cases m with
  | subgraph s =>
    obtain ⟨o, ho, rfl⟩ := Option.map_eq_some_iff.1 hx
    exact h s o ho
  | statement i =>
    obtain ⟨s, hs, hx⟩ := Option.bind_eq_some_iff.1 hx
    obtain ⟨u, hu, -⟩ := ht.statements i s hs
    exact lacks_of_clauseWith? (attrsAt_eq hu ▸ hl _ _ hu) h hx

theorem lacks_of_outlineTo? {depth : Nat} {b : BodyRef} {o : Outline}
    (ho : σ.outlineTo? depth b = some o) : ∀ u ∈ o.tables, u.Lacks ch := by
  induction depth generalizing b o with
  | zero => cases ho
  | succ depth ih =>
    obtain ⟨body, hbody, hheader, hitems⟩ := eq_some_of_bodyWith? ho
    obtain ⟨header, items⟩ := o
    obtain rfl : header = σ.headerOf b body := hheader
    have hmap := mapM_eq_some_iff.1 hitems
    intro u hu
    rcases List.mem_cons.1 (by simpa [Outline.tables] using hu) with rfl | hu
    · obtain ⟨u, hu, -⟩ := ht.bodies b body hbody
      have hlacks := hl _ _ hu
      rwa [← attrsAt_eq hu] at hlacks
    · obtain ⟨x, hx, hu⟩ := mem_itemTables.1 hu
      have hsome : some x ∈ body.members.map _ := hmap ▸ List.mem_map_of_mem hx
      obtain ⟨m, -, hxm⟩ := List.mem_map.1 hsome
      exact lacks_of_itemWith? hl ht (fun s _ => ih) hxm u hu

omit ht

/-- The text of a graph has a character that is not ordinary only if a table of the store has it. -/
theorem Reachable.notMem_dot? (h : σ.Reachable) (hch : Dot.isOrdinary ch = false) {r : RootId}
    {c : RenderConfig} {text : String} (hd : σ.dot? r c = some text) : ch ∉ text.toList := by
  obtain ⟨word, hword, hrest⟩ := Option.bind_eq_some_iff.1 hd
  obtain ⟨g, hg, -⟩ := Option.bind_eq_some_iff.1 hrest
  obtain ⟨strict, directed, hproper⟩ := h.proper hg
  rw [dot?_eq hg hproper c, Option.some.injEq] at hd
  subst hd
  obtain ⟨root, -, ho, -⟩ := eq_some_of_rootOutline? hg
  exact hproper.notMem_text hch c (lacks_of_outlineTo? hl h.tabled ho)

end Store

/-! ### Printed texts -/

namespace Text

def escape : Char := '\x1b'

theorem withoutSequences_append {front : List Char} (h : escape ∉ front) (text : List Char) :
    withoutSequences (front ++ text) = front ++ withoutSequences text := by
  induction front with
  | nil => rfl
  | cons c front ih =>
    simp only [List.mem_cons, not_or] at h
    have hplain : withoutSequences (c :: (front ++ text)) =
        c :: withoutSequences (front ++ text) := by
      rw [withoutSequences.eq_def]
      split
      · rename_i heq
        cases heq
      · rename_i heq
        exact absurd (List.cons.inj heq).1.symm h.1
      · rename_i heq
        rw [(List.cons.inj heq).1, (List.cons.inj heq).2]
    rw [List.cons_append, hplain, ih h.2, List.cons_append]

theorem printed_append {front : String} (h : escape ∉ front.toList) (text : String) :
    printed (front ++ text) = front ++ printed text := by
  unfold printed
  rw [String.toList_append, withoutSequences_append h]
  rw [String.ofList_append, String.ofList_toList]

theorem printed_eq_self {text : String} (h : escape ∉ text.toList) : printed text = text := by
  have hsplit := printed_append h ""
  have hempty : printed "" = "" := by
    unfold printed
    rw [show "".toList = [] from rfl, withoutSequences.eq_def]
  rwa [hempty, String.append_empty] at hsplit

end Text

/-- The text of a graph is printed as it is, unless a table of the store holds an escape. -/
theorem Store.Reachable.printed_dot? {σ : Store} (h : σ.Reachable) (hl : σ.Lacks Text.escape)
    {r : RootId} {c : RenderConfig} {text : String} (ht : σ.dot? r c = some text) :
    Text.printed text = text :=
  Text.printed_eq_self (h.notMem_dot? hl (by decide) ht)

end DotGraph
