import DotGraph.Proofs.Rows
import DotGraph.Proofs.SubgraphText

/-!
Indentation and braces.  How deep a line is indented can be told from the braces on the lines above
it, though one line may close a subgraph and open the next one.  Every passage of a text ends at the
level at which it started, whatever follows it on its last line.
-/

namespace DotGraph

open Text

namespace Dot

/-- How many braces a text opens and does not close. -/
def depth (text : List Char) : Int :=
  (text.count '\x7b' : Int) - text.count '\x7d'

@[simp] theorem depth_nil : depth [] = 0 := rfl

@[simp] theorem depth_append (text more : List Char) :
    depth (text ++ more) = depth text + depth more := by
  simp only [depth, List.count_append]
  omega

theorem depth_eq_zero {text : List Char} (ho : '\x7b' ∉ text) (hc : '\x7d' ∉ text) :
    depth text = 0 := by
  simp [depth, List.count_eq_zero.2 ho, List.count_eq_zero.2 hc]

theorem depth_close_cons (text : List Char) : depth ('\x7d' :: text) = depth text - 1 := by
  have hclose : depth ['\x7d'] = -1 := rfl
  rw [← List.singleton_append, depth_append, hclose]
  omega

theorem isInline_close : isInline '\x7d' = false := by decide

theorem depth_of_isWord {w : List Char} (hw : IsWord w) : depth w = 0 :=
  depth_eq_zero (hw.notMem isInline_open) (hw.notMem isInline_close)

theorem depth_cons_break (text : List Char) : depth ('\n' :: text) = depth text := by
  have hbreak : depth ['\n'] = 0 := rfl
  rw [← List.singleton_append, depth_append, hbreak, Int.zero_add]

theorem depth_line (c : RenderConfig) (row : Row) : depth (row.line c) = depth row.text := by
  have hindent : depth (indentText c row.level) = 0 :=
    depth_eq_zero (notMem_indentText isInline_open c _) (notMem_indentText isInline_close c _)
  rw [Row.line, depth_append, hindent, Int.zero_add]

theorem depth_rowsText (c : RenderConfig) (rows : List Row) :
    depth (rowsText c rows) = depth (rows.flatMap (Row.line c)) := by
  induction rows with
  | nil => rfl
  | cons row rest ih =>
    rw [rowsText_cons, depth_cons_break, depth_append, ih, List.flatMap_cons, depth_append]

/-! ### How lines start -/

/-- A text that starts with a key. -/
def SetsValue (text : List Char) : Prop :=
  ∃ w rest, IsWord w ∧ text = w ++ '=' :: rest

/-- A text that starts with a word which is no key. -/
def StartsStatement (text : List Char) : Prop :=
  ∃ w rest, IsWord w ∧ (rest = [] ∨ Parts rest) ∧ text = w ++ rest

theorem StartsStatement.not_setsValue {text : List Char} (h : StartsStatement text) :
    ¬ SetsValue text := by
  rintro ⟨w', rest', hw', heq⟩
  obtain ⟨w, rest, hw, hrest, rfl⟩ := h
  have hsign : isWordChar '=' = false := by decide
  have hbreaks : Breaks rest := by
    rcases hrest with rfl | hparts
    · simp [Breaks]
    · exact hparts.breaks
  obtain ⟨-, rfl⟩ := word_append_inj hw hw' hbreaks (breaks_cons hsign rest') heq
  rcases hrest with hnil | ⟨ch, more, hcons, -, hne⟩
  · cases hnil
  · exact hne (List.cons.inj hcons).1.symm

/-- A line at a depth: it starts without a blank, and its level is the depth, or one less if it
closes a brace or sets an attribute of a subgraph. -/
structure Row.Placed (depth : Int) (row : Row) : Prop where
  start : ∃ ch rest, row.text = ch :: rest ∧ ch ≠ ' ' ∧ ch ≠ '\t'
  level : (row.level : Int) =
    if row.text.head? = some '\x7d' ∨ row.setting = true then depth - 1 else depth
  setting : row.setting = true ↔ SetsValue row.text ∧ 1 < depth

theorem Row.Placed.line_ne_nil (c : RenderConfig) {d : Int} {row : Row} (h : row.Placed d) :
    row.line c ≠ [] := by
  obtain ⟨ch, rest, htext, -, -⟩ := h.start
  simp [Row.line, htext]

theorem exists_start_of_word {w : List Char} (hw : IsWord w) (rest : List Char) :
    ∃ ch more, w ++ rest = ch :: more ∧ ch ≠ ' ' ∧ ch ≠ '\t' ∧ ch ≠ '\x7d' := by
  obtain ⟨ch, more, rfl, hch⟩ := hw.exists_cons
  refine ⟨ch, more ++ rest, rfl, ?_, ?_, ?_⟩ <;>
  · rintro rfl
    exact absurd hch (by decide)

theorem placed_statement {text : List Char} (h : StartsStatement text) (level : Nat) :
    Row.Placed level ⟨level, false, text⟩ := by
  have hno := h.not_setsValue
  obtain ⟨w, rest, hw, -, rfl⟩ := h
  obtain ⟨ch, more, heq, hspace, htab, hclose⟩ := exists_start_of_word hw rest
  exact ⟨⟨ch, more, heq, hspace, htab⟩, by simp [heq, hclose], by simp [hno]⟩

theorem placed_setting {text : List Char} (h : SetsValue text) {level : Nat} (hl : 0 < level) :
    Row.Placed (level + 1) ⟨level, true, text⟩ := by
  have hsets := h
  obtain ⟨w, rest, hw, rfl⟩ := h
  obtain ⟨ch, more, heq, hspace, htab, -⟩ := exists_start_of_word hw ('=' :: rest)
  refine ⟨⟨ch, more, heq, hspace, htab⟩, by simp, ?_⟩
  simp only [hsets, true_and, true_iff]
  omega

theorem placed_rootSetting {text : List Char} (h : SetsValue text) :
    Row.Placed 1 ⟨1, false, text⟩ := by
  obtain ⟨w, rest, hw, rfl⟩ := h
  obtain ⟨ch, more, heq, hspace, htab, hclose⟩ := exists_start_of_word hw ('=' :: rest)
  exact ⟨⟨ch, more, heq, hspace, htab⟩, by simp [heq, hclose], by simp⟩

theorem placed_closing (level : Nat) (more : List Char) :
    Row.Placed (level + 1) ⟨level, false, '\x7d' :: more⟩ := by
  have hno : ¬ SetsValue ('\x7d' :: more) := by
    rintro ⟨w, rest, hw, heq⟩
    exact hw.append_ne_cons (by decide) heq.symm
  exact ⟨⟨'\x7d', more, rfl, by decide, by decide⟩, by simp, by simp [hno]⟩

/-! ### Lines one after the other -/

/-- Lines that are placed one after the other, from one depth to another. -/
inductive Laid (placed : Int → Row → Prop) : Int → List Row → Int → Prop
  | nil (d : Int) : Laid placed d [] d
  | cons {d d' : Int} {row : Row} {rest : List Row} (first : placed d row)
    (below : Laid placed (d + depth row.text) rest d') : Laid placed d (row :: rest) d'

namespace Laid

variable {placed placed' : Int → Row → Prop} {d d' d'' : Int} {rows more : List Row}

theorem append (h : Laid placed d rows d') (h' : Laid placed d' more d'') :
    Laid placed d (rows ++ more) d'' := by
  induction h with
  | nil d => exact h'
  | cons first _ ih => exact .cons first (ih h')

theorem imp (h : Laid placed d rows d') (himp : ∀ d row, placed d row → placed' d row) :
    Laid placed' d rows d' := by
  induction h with
  | nil d => exact .nil d
  | cons first _ ih => exact .cons (himp _ _ first) ih

theorem exists_placed (h : Laid placed d rows d') : ∀ row ∈ rows, ∃ d, placed d row := by
  induction h with
  | nil d => simp
  | cons first _ ih =>
    intro row hr
    rcases List.mem_cons.1 hr with rfl | hr
    · exact ⟨_, first⟩
    · exact ih row hr

theorem of_forall (h : ∀ row ∈ rows, placed d row ∧ depth row.text = 0) :
    Laid placed d rows d := by
  induction rows with
  | nil => exact .nil d
  | cons row rest ih =>
    obtain ⟨hrow, hdepth⟩ := h row (by simp)
    refine .cons hrow ?_
    rw [hdepth, Int.add_zero]
    exact ih fun row' hr => h row' (by simp [hr])

theorem depth_eq (c : RenderConfig) (h : Laid placed d rows d') :
    d' = d + depth (rows.flatMap (Row.line c)) := by
  induction h with
  | nil d => simp
  | @cons d d' row rest first _ ih =>
    rw [ih, List.flatMap_cons, depth_append, depth_line, Int.add_assoc]

theorem placed_of_append (c : RenderConfig) {before after : List Row} {row : Row}
    (h : Laid placed d (before ++ row :: after) d') :
    placed (d + depth (before.flatMap (Row.line c))) row := by
  induction before generalizing d with
  | nil =>
    cases h with
    | cons first _ => simpa using first
  | cons first rest ih =>
    cases h with
    | cons _ below =>
      have hrow := ih below
      rwa [Int.add_assoc, ← depth_line c, ← depth_append, ← List.flatMap_cons] at hrow

end Laid

/-- A line below the first one of a text. -/
def Row.Inner (d : Int) (row : Row) : Prop :=
  0 < d ∧ row.Placed d

/-- What follows the first line of a passage ends at the level of the passage. -/
def Passage.Closes (level : Nat) (p : Passage) : Prop :=
  Laid Row.Inner (level + depth p.first) p.rest level

theorem Passage.Closes.laid_rows {p : Passage} {level : Nat} (h : p.Closes level)
    (hl : 0 < level) (hs : StartsStatement p.first) : Laid Row.Inner level (p.rows level) level :=
  .cons ⟨by omega, placed_statement hs level⟩ h

theorem Passage.Closes.behind {p : Passage} {level : Nat} (h : p.Closes level) {front : List Char}
    (hf : depth front = 0) : (p.behind front).Closes level := by
  unfold Passage.Closes
  rw [Passage.behind, depth_append, hf, Int.zero_add]
  exact h

theorem closes_ofText {text : List Char} (h : depth text = 0) (level : Nat) :
    (⟨text, []⟩ : Passage).Closes level := by
  have hnil : Laid Row.Inner level [] level := .nil level
  unfold Passage.Closes
  rwa [h, Int.add_zero]

/-! ### Pieces of lines -/

section

variable (c : RenderConfig)

theorem depth_attrList {t : AttrTable} (ho : t.Clear '\x7b') (hc : t.Clear '\x7d') :
    depth (attrList c t).toList = 0 :=
  depth_eq_zero (notMem_attrList isInline_open c ho) (notMem_attrList isInline_close c hc)

theorem depth_nodeId (id : NodeId) : depth (nodeId c id).toList = 0 :=
  depth_eq_zero (notMem_nodeId isInline_open c id) (notMem_nodeId isInline_close c id)

theorem depth_entryText {entry : String × AttrValue}
    (ho : '\x7b' ∉ entry.1.toList ∧ '\x7b' ∉ entry.2.written.toList)
    (hc : '\x7d' ∉ entry.1.toList ∧ '\x7d' ∉ entry.2.written.toList) :
    depth (entryText [] entry) = 0 :=
  depth_eq_zero (notMem_entryText isInline_open (by simp) ho)
    (notMem_entryText isInline_close (by simp) hc)

theorem laid_entries {t : AttrTable} (h : t.Lawful)
    (ho : t.Clear '\x7b') (hc : t.Clear '\x7d') {d : Int} {level : Nat} {setting : Bool}
    (hplaced : ∀ text, SetsValue text → Row.Inner d ⟨level, setting, text⟩) :
    Laid Row.Inner d (t.entries.map fun entry => ⟨level, setting, entryText [] entry⟩) d := by
  refine .of_forall fun row hr => ?_
  obtain ⟨entry, he, rfl⟩ := List.mem_map.1 hr
  exact ⟨hplaced _ ⟨_, _, (h.isWord_entry he).1, rfl⟩, depth_entryText (ho entry he) (hc entry he)⟩

theorem parts_attrList (t : AttrTable) :
    (attrList c t).toList = [] ∨ Parts (attrList c t).toList := by
  unfold attrList
  split
  · exact .inl rfl
  · obtain ⟨rest, hrest⟩ := exists_entryList_cons c t
    exact .inr (hrest ▸ parts_cons (by decide) (by decide) rest)

theorem startsStatement_nodeId (id : NodeId) {more : List Char} (hm : more = [] ∨ Parts more) :
    StartsStatement ((nodeId c id).toList ++ more) := by
  refine ⟨id.name.text.toList, portText c id ++ more, isWord_name _, ?_, by simp [toList_nodeId]⟩
  unfold portText
  split
  · exact hm
  · obtain ⟨ch, hsep, hbreak, heq, -⟩ := exists_separator_cons c
    rw [hsep]
    exact .inr (parts_cons hbreak heq _)

theorem startsStatement_subgraphHead (name : Option Identifier) :
    StartsStatement (subgraphHead name).toList := by
  refine ⟨"subgraph".toList, ' ' :: (nameText name ++ ['\x7b']), isWord_subgraph,
    .inr (parts_cons (by decide) (by decide) _), ?_⟩
  rw [toList_subgraphHead]
  rfl

theorem depth_subgraphHead (name : Option Identifier) : depth (subgraphHead name).toList = 1 := by
  have hword : depth "subgraph ".toList = 0 := rfl
  have hopen : depth ['\x7b'] = 1 := rfl
  have hname : depth (nameText name) = 0 :=
    depth_eq_zero (notMem_nameText isInline_open name) (notMem_nameText isInline_close name)
  rw [toList_subgraphHead, depth_append, depth_append, hword, hname, hopen]
  rfl

end

end Dot

/-! ### Items -/

open Dot

section

variable (c : RenderConfig)

theorem Endpoint.startsStatement_passage (e : Endpoint) (level : Nat) {next : Passage}
    (hn : next.first = [] ∨ Parts next.first) :
    StartsStatement (e.passage c level next).first := by
  cases e with
  | node id => exact startsStatement_nodeId c id hn
  | subgraph inner =>
    obtain ⟨header, items⟩ := inner
    exact startsStatement_subgraphHead header.name

variable {operator : EdgeOperator}

mutual

theorem Item.laid_rows : ∀ (x : Item) {level : Nat}, 0 < level → x.Proper operator →
    x.Clear '\x7b' → x.Clear '\x7d' → Laid Row.Inner level (x.rows c level) level
  | .node id attrs, level, hl, _, ho, hc => by
    have hclosed := (closes_ofText (depth_attrList c ho hc) level).behind (depth_nodeId c id)
    exact hclosed.laid_rows hl (startsStatement_nodeId c id (parts_attrList c attrs))
  | .edge tail head o attrs, level, hl, ⟨htail, hhead, _, _⟩, ⟨hto, hho, hoo, hao⟩,
      ⟨htc, hhc, hoc, hac⟩ => by
    have hsign : depth (' ' :: (o.text.toList ++ [' '])) = 0 :=
      depth_eq_zero (by simp [hoo]) (by simp [hoc])
    have hnext := (head.closes_passage hl hhead hho hhc
      (closes_ofText (depth_attrList c hao hac) level)).behind hsign
    have hspace : Parts (' ' :: (o.text.toList ++ [' '] ++
        (head.passage c level ⟨(attrList c attrs).toList, []⟩).first)) :=
      parts_cons (by decide) (by decide) _
    exact (tail.closes_passage hl htail hto htc hnext).laid_rows hl
      (tail.startsStatement_passage c level (.inr hspace))
  | .defaults kind standalone attrs, level, hl, ⟨hstandalone, _⟩, ho, hc => by
    subst hstandalone
    have hdefaults : depth (defaults c kind true attrs).toList = 0 :=
      depth_eq_zero (notMem_defaults isInline_open c kind true ho)
        (notMem_defaults isInline_close c kind true hc)
    obtain ⟨rest, hrest⟩ := exists_entryList_cons c attrs
    refine (closes_ofText hdefaults level).laid_rows hl ⟨kind.text.toList, '[' :: rest,
      isWord_kind kind, .inr (parts_cons (by decide) (by decide) rest), ?_⟩
    simp [defaults, hrest]
  | .subgraph inner, level, hl, h, ho, hc => by
    have hclosed := inner.closes_passage hl h ho hc (closes_ofText depth_nil level)
    obtain ⟨header, items⟩ := inner
    exact hclosed.laid_rows hl (startsStatement_subgraphHead header.name)

theorem Endpoint.closes_passage : ∀ (e : Endpoint) {level : Nat}, 0 < level →
    e.Proper operator → e.Clear '\x7b' → e.Clear '\x7d' → ∀ {next : Passage},
    next.Closes level → (e.passage c level next).Closes level
  | .node id, _, _, _, _, _, _, hn => hn.behind (depth_nodeId c id)
  | .subgraph inner, _, hl, h, ho, hc, _, hn => inner.closes_passage hl h ho hc hn

/-- A subgraph ends at the level at which it starts, whatever comes behind its closing brace. -/
theorem Outline.closes_passage : ∀ (o : Outline) {level : Nat}, 0 < level →
    o.Proper operator → o.Clear '\x7b' → o.Clear '\x7d' → ∀ {next : Passage},
    next.Closes level → (o.passage c level next).Closes level
  | ⟨header, items⟩, level, hl, ⟨_, hattrs, hitems⟩, ⟨hao, hio⟩, ⟨hac, hic⟩, next, hn => by
    have hsettings : Laid Row.Inner (level + 1) (settingRows level header.attrs) (level + 1) := by
      refine laid_entries (hattrs.lawful .subgraph) hao hac fun text ht => ?_
      exact ⟨by omega, placed_setting ht hl⟩
    have hbelow := laid_itemRows items (Nat.succ_pos level) hitems hio hic
    have hclosing : Laid Row.Inner (level + 1) ((next.behind ['\x7d']).rows level) level := by
      refine .cons ⟨by omega, placed_closing level next.first⟩ ?_
      have hdepth : (level : Int) + 1 + depth ('\x7d' :: next.first) =
          level + depth next.first := by
        rw [depth_close_cons]
        omega
      show Laid Row.Inner ((level : Int) + 1 + depth ('\x7d' :: next.first)) next.rest level
      rw [hdepth]
      exact hn
    unfold Passage.Closes
    rw [Outline.passage, depth_subgraphHead]
    exact hsettings.append (hbelow.append hclosing)

theorem laid_itemRows : ∀ (items : List Item) {level : Nat}, 0 < level →
    properItems operator items → clearItems '\x7b' items → clearItems '\x7d' items →
    Laid Row.Inner level (itemRows c level items) level
  | [], level, _, _, _, _ => .nil level
  | x :: rest, _, hl, ⟨hx, hrest⟩, ⟨hxo, hro⟩, ⟨hxc, hrc⟩ =>
    (x.laid_rows hl hx hxo hxc).append (laid_itemRows rest hl hrest hro hrc)

end

end

/-! ### The whole text -/

section

variable (c : RenderConfig) {strict directed : Bool}

namespace Dot

theorem depth_rootHead (name : Option Identifier) (strict : Bool) :
    depth (rootHead (graphWord directed) name strict).toList = 1 := by
  have hstrict : depth ("strict".toList ++ [' ']) = 0 := rfl
  have hword : depth (graphWord directed).toList = 0 := depth_of_isWord (isWord_graphWord directed)
  have hname : depth (nameText name) = 0 :=
    depth_eq_zero (notMem_nameText isInline_open name) (notMem_nameText isInline_close name)
  have hrest : depth (' ' :: (nameText name ++ ['\x7b'])) = 1 := by
    rw [← List.singleton_append, depth_append, depth_append, hname]
    rfl
  rw [toList_rootHead, depth_append, depth_append, hword, hrest]
  cases strict <;> rfl

theorem startsStatement_rootHead (directed : Bool) (name : Option Identifier) (strict : Bool) :
    StartsStatement (rootHead (graphWord directed) name strict).toList := by
  rw [toList_rootHead]
  cases strict with
  | true =>
    exact ⟨"strict".toList,
      ' ' :: ((graphWord directed).toList ++ ' ' :: (nameText name ++ ['\x7b'])), isWord_strict,
      .inr (parts_cons (by decide) (by decide) _), by simp⟩
  | false =>
    exact ⟨(graphWord directed).toList, ' ' :: (nameText name ++ ['\x7b']),
      isWord_graphWord directed, .inr (parts_cons (by decide) (by decide) _), by simp⟩

theorem entryText_ne_nil (lead : List Char) (entry : String × AttrValue) :
    entryText lead entry ≠ [] := by
  simp [entryText]

theorem text_eq_nil_iff {t : AttrTable} {rows before after : List Row} {row : Row}
    (hrows : ∀ row ∈ rows, row.text ≠ []) (h : rootSettingRows t ++ rows = before ++ row :: after) :
    row.text = [] ↔ t.isEmpty = false ∧ before.length = t.entries.length := by
  cases ht : t.isEmpty with
  | true =>
    have hmem : row ∈ rows := by
      simp only [rootSettingRows, ht, if_true, List.nil_append] at h
      simp [h]
    simp [hrows row hmem]
  | false =>
    have hsettings : ∀ row ∈ t.entries.map (fun entry => (⟨1, false, entryText [] entry⟩ : Row)),
        row.text ≠ [] := by
      intro row hr
      obtain ⟨entry, -, rfl⟩ := List.mem_map.1 hr
      exact entryText_ne_nil [] entry
    simp only [rootSettingRows, ht, Bool.false_eq_true, if_false, List.append_assoc,
      List.singleton_append] at h
    simp only [true_and]
    constructor
    · intro he
      have hfront := fun hm => hsettings row hm he
      have hback := fun hm => hrows row hm he
      obtain ⟨rfl, -⟩ := (List.append_cons_inj_of_notMem hfront hback).1 h
      simp
    · intro hlength
      have hsame := (List.append_inj h (by simp [hlength])).2
      rw [← (List.cons.inj hsame).1]
      rfl

/-- A line of a root graph below the first: the empty one, or one that is indented by its depth. -/
def Row.InnerOrEmpty (d : Int) (row : Row) : Prop :=
  (d = 1 ∧ row = emptyRow) ∨ row.Inner d

theorem Row.Inner.text_ne_nil {d : Int} {row : Row} (h : row.Inner d) : row.text ≠ [] := by
  obtain ⟨ch, rest, htext, -, -⟩ := h.2.start
  simp [htext]

theorem laid_rootSettingRows {t : AttrTable} (h : t.Sound Schema.rootGraph)
    (ho : t.Clear '\x7b') (hc : t.Clear '\x7d') :
    Laid Row.InnerOrEmpty 1 (rootSettingRows t) 1 := by
  have hentries : Laid Row.Inner 1
      (t.entries.map fun entry => ⟨1, false, entryText [] entry⟩) 1 :=
    laid_entries (h.lawful .rootGraph) ho hc fun text ht => ⟨by decide, placed_rootSetting ht⟩
  have hempty : Laid Row.InnerOrEmpty 1 [emptyRow] 1 :=
    .of_forall fun row hr => by
      obtain rfl := List.mem_singleton.1 hr
      exact ⟨.inl ⟨rfl, rfl⟩, rfl⟩
  unfold rootSettingRows
  split
  · exact .nil 1
  · exact (hentries.imp fun _ _ => .inr).append hempty

end Dot

variable {g : RootOutline} {strict directed : Bool}

theorem RootOutline.Proper.laid_itemRows (h : g.Proper strict directed) (ho : g.body.Clear '\x7b')
    (hc : g.body.Clear '\x7d') :
    Laid Row.Inner 1 (itemRows c 1 g.body.items ++ [⟨0, false, ['\x7d']⟩]) 0 := by
  obtain ⟨⟨header, items⟩, given⟩ := g
  have hclosing : Laid Row.Inner 1 [⟨0, false, ['\x7d']⟩] 0 :=
    .cons ⟨by decide, placed_closing 0 []⟩ (.nil 0)
  exact (DotGraph.laid_itemRows c items Nat.one_pos h.items ho.2 hc.2).append hclosing

/-- Below its first line a graph is one brace deep, and at its end no brace is open. -/
theorem RootOutline.Proper.laid_rows (h : g.Proper strict directed) (ho : g.body.Clear '\x7b')
    (hc : g.body.Clear '\x7d') :
    Laid Row.InnerOrEmpty 1 (rootSettingRows g.body.header.attrs ++
      (itemRows c 1 g.body.items ++ [⟨0, false, ['\x7d']⟩])) 0 := by
  have hattrs : g.body.header.attrs.Clear '\x7b' ∧ g.body.header.attrs.Clear '\x7d' := by
    obtain ⟨⟨header, items⟩, given⟩ := g
    exact ⟨ho.1, hc.1⟩
  exact (laid_rootSettingRows h.attrs hattrs.1 hattrs.2).append
    ((h.laid_itemRows c ho hc).imp fun _ _ => .inr)

theorem RootOutline.Proper.depth_text (h : g.Proper strict directed) (ho : g.body.Clear '\x7b')
    (hc : g.body.Clear '\x7d') : depth (root c (graphWord directed) g).toList = 0 := by
  have htext := congrArg depth (g.rowsText_rows c (graphWord directed))
  have hlast : depth ['\n'] = 0 := rfl
  rw [depth_append, hlast, depth_cons_break, depth_rowsText, Int.add_zero] at htext
  have hbelow := (h.laid_rows c ho hc).depth_eq c
  rw [← htext, RootOutline.rows, List.flatMap_cons, depth_append, depth_line, depth_rootHead]
  exact hbelow.symm

/-- The lines of a whole graph, each at the depth that the braces above it make. -/
theorem RootOutline.Proper.placed_rows (h : g.Proper strict directed) (ho : g.body.Clear '\x7b')
    (hc : g.body.Clear '\x7d') {before after : List Row} {row : Row}
    (hrows : g.rows c (graphWord directed) = before ++ row :: after) :
    let d := depth (before.flatMap (Row.line c))
    0 ≤ d ∧ (before ≠ [] → 0 < d) ∧
      (row.line c = [] ↔ g.body.header.attrs.isEmpty = false ∧
        before.length = g.body.header.attrs.entries.length + 1) ∧
      (row.line c ≠ [] → row.Placed d) := by
  intro d
  have hitems := h.laid_itemRows c ho hc
  cases before with
  | nil =>
    obtain ⟨rfl, -⟩ := List.cons.inj hrows
    have hplaced := placed_statement
      (startsStatement_rootHead directed g.body.header.name g.strict.counts) 0
    exact ⟨Int.le_refl 0, by simp, by simp [hplaced.line_ne_nil c], fun _ => hplaced⟩
  | cons first before =>
    have hlength : (first :: before).length = g.body.header.attrs.entries.length + 1 ↔
        before.length = g.body.header.attrs.entries.length := by simp
    obtain ⟨rfl, hbelow⟩ := List.cons.inj hrows
    have hlaid := h.laid_rows c ho hc
    rw [hbelow] at hlaid
    have hnil := text_eq_nil_iff
      (fun row hr => (hitems.exists_placed row hr).elim fun _ hi => hi.text_ne_nil) hbelow
    have hd : d = 1 + depth (before.flatMap (Row.line c)) := by
      simp only [d, List.flatMap_cons, depth_append, depth_line, depth_rootHead]
    have hrow := hlaid.placed_of_append c
    rw [← hd] at hrow
    rw [hlength, ← hnil]
    rcases hrow with ⟨hone, rfl⟩ | hinner
    · have hempty : emptyRow.line c = [] := by simp [emptyRow, Row.line, indentText_zero]
      have hnone : emptyRow.text = [] := rfl
      simp [hone, hempty, hnone]
    · have hne := hinner.2.line_ne_nil c
      exact ⟨Int.le_of_lt hinner.1, fun _ => hinner.1, by simp [hne, hinner.text_ne_nil],
        fun _ => hinner.2⟩

end

namespace Store

open Dot

variable {σ : Store}

/-- Whatever calls were made, the lines of the text of a root graph are indented by the braces above
them, if no text in it breaks a line or holds a brace.  A line starts behind as many units as braces
are open, and behind one less if it closes a brace or sets an attribute of a subgraph; these are the
lines that set a value where more than one brace is open.  Only the line behind the attributes of
the graph is empty, should it have any.  Below the first line some brace is open, and in the end
none. -/
theorem Reachable.level_of_depth (h : σ.Reachable) {r : RootId} {root : Root}
    (hr : σ.root? r = some root) (c : RenderConfig) :
    ∃ g word text, σ.rootOutline? r = some g ∧ σ.keyword? r = some word ∧
      σ.dot? r c = some text ∧
      ((∀ t ∈ g.tables, t.Lacks '\n' ∧ t.Lacks '\x7b' ∧ t.Lacks '\x7d') →
        text.toList.splitOn '\n' = (g.rows c word).map (Row.line c) ++ [[]] ∧
        depth text.toList = 0 ∧
        ∀ before row after, g.rows c word = before ++ row :: after →
          let d := depth (before.flatMap (Row.line c))
          0 ≤ d ∧ (before ≠ [] → 0 < d) ∧
            (row.line c = [] ↔ g.body.header.attrs.isEmpty = false ∧
              before.length = g.body.header.attrs.entries.length + 1) ∧
            (row.line c ≠ [] → row.Placed d)) := by
  obtain ⟨body, ho, hg⟩ := h.exists_rootOutline? hr
  obtain ⟨strict, directed, hproper⟩ := h.proper hg
  refine ⟨_, _, _, hg, keyword?_eq hg hproper, dot?_eq hg hproper c, fun hl => ?_⟩
  have hbreak := hproper.clear isInline_break fun t ht => (hl t ht).1
  have hopen := hproper.clear isInline_open fun t ht => (hl t ht).2.1
  have hclose := hproper.clear isInline_close fun t ht => (hl t ht).2.2
  exact ⟨RootOutline.splitOn_text c hbreak directed, hproper.depth_text c hopen hclose,
    fun before row after hrows => hproper.placed_rows c hopen hclose hrows⟩

/-- Between the subgraphs at the ends of an edge stands a line that closes the one and opens the
other, one level above what two open braces ask for. -/
theorem level_of_depth_threeLinks :
    ∃ (text : String) (rows : List Row) (row : Row), threeLinks.dot? ⟨0⟩ .default = some text ∧
      text.toList.splitOn '\n' = rows.map (Row.line .default) ++ [[]] ∧ depth text.toList = 0 ∧
      rows[6]? = some row ∧ row.text = "\x7d -> subgraph s \x7b".toList ∧
      (row.level : Int) = depth ((rows.take 6).flatMap (Row.line .default)) - 1 := by
  obtain ⟨root, hr⟩ : ∃ root, threeLinks.root? ⟨0⟩ = some root := by
    rw [threeLinks_eq]
    exact Option.isSome_iff_exists.1 (by decide +kernel)
  obtain ⟨g, word, text, hg, hword, htext, hlevels⟩ :=
    reachable_threeLinks.level_of_depth hr .default
  have hl : ∀ t ∈ g.tables, t.Lacks '\n' ∧ t.Lacks '\x7b' ∧ t.Lacks '\x7d' := by
    have htables : ((threeLinks.rootOutline? ⟨0⟩).map RootOutline.tables).all
        (fun ts => ts.all fun t =>
          decide (t.Lacks '\n' ∧ t.Lacks '\x7b' ∧ t.Lacks '\x7d')) = true := by
      rw [threeLinks_eq]
      decide +kernel
    rw [hg] at htables
    simpa using htables
  have hsixth : (threeLinks.rootOutline? ⟨0⟩).bind (fun g =>
      (threeLinks.keyword? ⟨0⟩).bind fun word => ((g.rows .default word)[6]?).map Row.text) =
      some "\x7d -> subgraph s \x7b".toList := by
    rw [threeLinks_eq]
    decide +kernel
  rw [hg, hword] at hsixth
  obtain ⟨row, hrow, hstart⟩ := Option.map_eq_some_iff.1 hsixth
  obtain ⟨hlt, hget⟩ := List.getElem?_eq_some_iff.1 hrow
  have hsplit : g.rows .default word =
      (g.rows .default word).take 6 ++ row :: (g.rows .default word).drop 7 := by
    rw [← hget, ← List.drop_eq_getElem_cons hlt, List.take_append_drop]
  obtain ⟨hlines, hbalance, hplaced⟩ := hlevels hl
  obtain ⟨-, -, -, hplaced⟩ := hplaced _ _ _ hsplit
  have hne : row.line .default ≠ [] := by simp [Row.line, hstart]
  have hlevel := (hplaced hne).level
  rw [hstart] at hlevel
  exact ⟨text, _, row, htext, hlines, hbalance, hrow, hstart, by simpa using hlevel⟩

end Store

end DotGraph
