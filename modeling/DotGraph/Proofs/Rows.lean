import DotGraph.Proofs.ClearTexts

/-!
The text of an outline as a list of lines, each with its level.  A subgraph at the end of an edge
starts and ends in the middle of lines; so its lines are made for given text behind it.
-/

namespace DotGraph

open Text

namespace Dot

/-- A line: how deep it is indented, whether it sets an attribute of a subgraph, and what stands
behind its indentation. -/
structure Row where
  level : Nat
  setting : Bool
  text : List Char

/-- A passage of a text: what it adds to the line on which it starts, and the lines below. -/
structure Passage where
  first : List Char
  rest : List Row

variable (c : RenderConfig)

def Row.line (row : Row) : List Char :=
  indentText c row.level ++ row.text

def rowsText (rows : List Row) : List Char :=
  rows.flatMap fun row => '\n' :: row.line c

namespace Passage

def text (p : Passage) : List Char :=
  p.first ++ rowsText c p.rest

def behind (front : List Char) (p : Passage) : Passage :=
  ⟨front ++ p.first, p.rest⟩

/-- The passage on lines of its own. -/
def rows (level : Nat) (p : Passage) : List Row :=
  ⟨level, false, p.first⟩ :: p.rest

end Passage

def settingRows (level : Nat) (t : AttrTable) : List Row :=
  t.entries.map fun entry => ⟨level, true, entryText [] entry⟩

def emptyRow : Row := ⟨0, false, []⟩

/-- The lines between the first line of a root graph and its statements. -/
def rootSettingRows (t : AttrTable) : List Row :=
  if t.isEmpty then []
  else t.entries.map (fun entry => ⟨1, false, entryText [] entry⟩) ++ [emptyRow]

end Dot

open Dot

mutual

def Item.rows (c : RenderConfig) (level : Nat) : Item → List Row
  | .node id attrs => [⟨level, false, (nodeId c id).toList ++ (attrList c attrs).toList⟩]
  | .edge tail head operator attrs =>
    let headPassage := head.passage c level ⟨(attrList c attrs).toList, []⟩
    (tail.passage c level
      (headPassage.behind (' ' :: (operator.text.toList ++ [' '])))).rows level
  | .defaults kind standalone attrs =>
    [⟨level, false, (defaults c kind standalone attrs).toList⟩]
  | .subgraph inner => (inner.passage c level ⟨[], []⟩).rows level

/-- An end of an edge, and what follows it. -/
def Endpoint.passage (c : RenderConfig) (level : Nat) : Endpoint → Passage → Passage
  | .node id, next => next.behind (nodeId c id).toList
  | .subgraph inner, next => inner.passage c level next

/-- A subgraph from its first word on, and what follows its closing brace. -/
def Outline.passage (c : RenderConfig) (level : Nat) : Outline → Passage → Passage
  | ⟨header, items⟩, next =>
    ⟨(subgraphHead header.name).toList,
      settingRows level header.attrs ++ (itemRows c (level + 1) items ++
        (next.behind ['\x7d']).rows level)⟩

def itemRows (c : RenderConfig) (level : Nat) : List Item → List Row
  | [] => []
  | x :: rest => x.rows c level ++ itemRows c level rest

end

/-- The lines of a whole graph; behind the last of them only the line break follows. -/
def RootOutline.rows (c : RenderConfig) (word : String) (g : RootOutline) : List Row :=
  let header := g.body.header
  ⟨0, false, (rootHead word header.name g.strict.counts).toList⟩ ::
    (rootSettingRows header.attrs ++ (itemRows c 1 g.body.items ++ [⟨0, false, ['\x7d']⟩]))

namespace Dot

variable (c : RenderConfig)

@[simp] theorem rowsText_nil : rowsText c [] = [] := rfl

@[simp] theorem rowsText_cons (row : Row) (rest : List Row) :
    rowsText c (row :: rest) = '\n' :: (row.line c ++ rowsText c rest) := rfl

@[simp] theorem rowsText_append (rows more : List Row) :
    rowsText c (rows ++ more) = rowsText c rows ++ rowsText c more :=
  List.flatMap_append

@[simp] theorem Passage.text_behind (front : List Char) (p : Passage) :
    (p.behind front).text c = front ++ p.text c := by
  simp [Passage.text, Passage.behind]

theorem Passage.rowsText_rows (level : Nat) (p : Passage) :
    rowsText c (p.rows level) = '\n' :: (indentText c level ++ p.text c) := by
  simp [Passage.rows, Passage.text, Row.line]

theorem entryText_append (lead more : List Char) (entry : String × AttrValue) :
    entryText (lead ++ more) entry = lead ++ entryText more entry := by
  simp [entryText]

/-- Lines that hold one entry each, and how the entries of a table are written. -/
theorem rowsText_entries (level : Nat) (setting : Bool) (entries : Entries String AttrValue) :
    rowsText c (entries.map fun entry => ⟨level, setting, entryText [] entry⟩) =
      entriesText '\n' (indentText c level) entries := by
  simp only [rowsText, entriesText, List.flatMap_map, Row.line, ← entryText_append,
    List.append_nil]

theorem indentText_zero : indentText c 0 = [] := by
  simp [indentText, indent, indentation]

end Dot

/-! ### The lines make up the text -/

section

variable (c : RenderConfig)

mutual

theorem Item.rowsText_rows : ∀ (x : Item) (level : Nat),
    rowsText c (x.rows c level) = '\n' :: (item c level x).toList
  | .node id attrs, level => by
    simp [Item.rows, item, Row.line, indentText]
  | .edge tail head operator attrs, level => by
    rw [Item.rows, Passage.rowsText_rows, Endpoint.text_passage tail level, Passage.text_behind,
      Endpoint.text_passage head level]
    simp [item, indentText, Passage.text]
  | .defaults kind standalone attrs, level => by
    simp [Item.rows, item, Row.line, indentText]
  | .subgraph inner, level => by
    rw [Item.rows, Passage.rowsText_rows, Outline.text_passage inner level]
    simp [item, subgraph_false, indentText, Passage.text]

theorem Endpoint.text_passage : ∀ (e : Endpoint) (level : Nat) (next : Passage),
    (e.passage c level next).text c = (endpoint c level e).toList ++ next.text c
  | .node id, level, next => by
    rw [Endpoint.passage, Passage.text_behind, endpoint]
  | .subgraph inner, level, next => by
    rw [Endpoint.passage, Outline.text_passage inner level next, endpoint]

theorem Outline.text_passage : ∀ (o : Outline) (level : Nat) (next : Passage),
    (o.passage c level next).text c = (subgraph c level true o).toList ++ next.text c
  | ⟨header, items⟩, level, next => by
    have hitems := rowsText_itemRows items (level + 1)
    rw [toList_subgraph, ← rowsText_entries c level true, ← Int.natCast_succ, ← hitems]
    simp [Outline.passage, Passage.text, Passage.behind, Passage.rows, settingRows, Row.line,
      toList_subgraphHead]

theorem rowsText_itemRows : ∀ (items : List Item) (level : Nat),
    rowsText c (itemRows c level items) = linesText (itemList c level items)
  | [], _ => rfl
  | x :: rest, level => by
    simp [itemRows, itemList, x.rowsText_rows level, rowsText_itemRows rest level]

end

theorem RootOutline.rowsText_rows (word : String) (g : RootOutline) :
    rowsText c (g.rows c word) ++ ['\n'] = '\n' :: (root c word g).toList := by
  have hitems := rowsText_itemRows c g.body.items 1
  have hone : ((1 : Nat) : Int) = 1 := rfl
  rw [hone] at hitems
  have hattrs := rowsText_entries c 1 false g.body.header.attrs.entries
  rw [hone] at hattrs
  rw [toList_root, RootOutline.rows, rootSettingRows]
  cases ht : g.body.header.attrs.isEmpty with
  | true =>
    simp [Row.line, indentText_zero, linesText_rootAttributes_of_isEmpty c ht, hitems]
  | false =>
    simp [Row.line, emptyRow, indentText_zero, linesText_rootAttributes c ht, hitems, hattrs]

end

/-! ### Levels -/

namespace Dot

def Row.deeper (k : Nat) (row : Row) : Row :=
  { row with level := row.level + k }

def Passage.deeper (k : Nat) (p : Passage) : Passage :=
  ⟨p.first, p.rest.map (Row.deeper k)⟩

theorem indentText_add (c : RenderConfig) (level k : Nat) :
    indentText c ((level + k : Nat) : Int) = indentText c k ++ indentText c level := by
  have hsum : ((level + k : Nat) : Int).toNat = k + level := by omega
  simp only [indentText, indent, indentation, hsum, times_add, String.toList_append,
    Int.toNat_natCast]

theorem Row.line_deeper (c : RenderConfig) (k : Nat) (row : Row) :
    (row.deeper k).line c = indentText c k ++ row.line c := by
  simp only [Row.line, Row.deeper, indentText_add, List.append_assoc]

theorem Passage.rows_deeper (k level : Nat) (p : Passage) :
    (p.deeper k).rows (level + k) = (p.rows level).map (Row.deeper k) := by
  simp [Passage.rows, Passage.deeper, Row.deeper]

theorem Passage.behind_deeper (k : Nat) (front : List Char) (p : Passage) :
    (p.deeper k).behind front = (p.behind front).deeper k := rfl

end Dot

section

variable (c : RenderConfig) (k : Nat)

mutual

/-- The lines of an item differ from level to level by the same number of levels. -/
theorem Item.rows_add : ∀ (x : Item) (level : Nat),
    x.rows c (level + k) = (x.rows c level).map (Row.deeper k)
  | .node id attrs, level => by simp [Item.rows, Row.deeper]
  | .edge tail head operator attrs, level => by
    have hnext : (⟨(attrList c attrs).toList, []⟩ : Passage) =
        (⟨(attrList c attrs).toList, []⟩ : Passage).deeper k := rfl
    rw [Item.rows, Item.rows, hnext, head.passage_add level, Passage.behind_deeper,
      tail.passage_add level, Passage.rows_deeper]
    rfl
  | .defaults kind standalone attrs, level => by simp [Item.rows, Row.deeper]
  | .subgraph inner, level => by
    have hnext : (⟨[], []⟩ : Passage) = (⟨[], []⟩ : Passage).deeper k := rfl
    rw [Item.rows, Item.rows, hnext, inner.passage_add level, Passage.rows_deeper]
    rfl

theorem Endpoint.passage_add : ∀ (e : Endpoint) (level : Nat) (next : Passage),
    e.passage c (level + k) (next.deeper k) = (e.passage c level next).deeper k
  | .node _, _, _ => rfl
  | .subgraph inner, level, next => inner.passage_add level next

theorem Outline.passage_add : ∀ (o : Outline) (level : Nat) (next : Passage),
    o.passage c (level + k) (next.deeper k) = (o.passage c level next).deeper k
  | ⟨header, items⟩, level, next => by
    have hitems := itemRows_add items (level + 1)
    rw [Nat.add_right_comm] at hitems
    simp only [Outline.passage, Passage.deeper, List.map_append, hitems]
    simp [settingRows, Row.deeper, Passage.rows, Passage.behind]

theorem itemRows_add : ∀ (items : List Item) (level : Nat),
    itemRows c (level + k) items = (itemRows c level items).map (Row.deeper k)
  | [], _ => rfl
  | x :: rest, level => by
    simp only [itemRows, x.rows_add level, itemRows_add rest level, List.map_append]

end

end

/-! ### Where the text breaks into lines -/

namespace Dot

/-- No line of a passage holds a line break. -/
structure Passage.Unbroken (p : Passage) : Prop where
  first : '\n' ∉ p.first
  rest : ∀ row ∈ p.rest, '\n' ∉ row.text

theorem Passage.Unbroken.behind {p : Passage} (h : p.Unbroken) {front : List Char}
    (hf : '\n' ∉ front) : (p.behind front).Unbroken :=
  ⟨by simp [Passage.behind, hf, h.first], h.rest⟩

theorem Passage.Unbroken.rows {p : Passage} (h : p.Unbroken) (level : Nat) :
    ∀ row ∈ p.rows level, '\n' ∉ row.text := by
  have hall := And.intro h.first h.rest
  simpa [Passage.rows] using hall

theorem unbroken_ofText {text : List Char} (h : '\n' ∉ text) : (⟨text, []⟩ : Passage).Unbroken :=
  ⟨h, by simp⟩

theorem isInline_break : isInline '\n' = false := by decide

theorem notMem_break_subgraphHead (name : Option Identifier) :
    '\n' ∉ (subgraphHead name).toList := by
  have hword : '\n' ∉ "subgraph ".toList := by decide
  have hname := notMem_nameText isInline_break name
  simp only [toList_subgraphHead, List.mem_append, List.mem_singleton, not_or]
  exact ⟨hword, hname, by decide⟩

theorem splitOn_of_rowsText (c : RenderConfig) {rows : List Row} {text : List Char}
    (h : ∀ row ∈ rows, '\n' ∉ row.text) (ht : rowsText c rows = '\n' :: text) :
    text.splitOn '\n' = rows.map (Row.line c) := by
  have hne : rows.map (Row.line c) ≠ [] := by
    intro he
    rw [List.map_eq_nil_iff.1 he] at ht
    cases ht
  have hline : ∀ line ∈ rows.map (Row.line c), '\n' ∉ line := by
    intro line hm
    obtain ⟨row, hr, rfl⟩ := List.mem_map.1 hm
    simp [Row.line, h row hr, notMem_indentText isInline_break c]
  have htext : ['\n'].intercalate (rows.map (Row.line c)) = text := by
    have hcons := cons_intercalate '\n' hne
    rw [List.flatMap_map] at hcons
    exact (List.cons.inj (hcons.trans ht)).2
  rw [← htext, List.splitOn_intercalate '\n' hline hne]

end Dot

section

variable (c : RenderConfig)

mutual

theorem Item.notMem_break_rows : ∀ (x : Item) (level : Nat), x.Clear '\n' →
    ∀ row ∈ x.rows c level, '\n' ∉ row.text
  | .node id attrs, level, h => by
    have hid := notMem_nodeId isInline_break c id
    have hattrs := notMem_attrList isInline_break c h
    simp [Item.rows, hid, hattrs]
  | .edge tail head operator attrs, level, ⟨htail, hhead, hoperator, hattrs⟩ => by
    have hlist := unbroken_ofText (notMem_attrList isInline_break c hattrs)
    have hfront : '\n' ∉ ' ' :: (operator.text.toList ++ [' ']) := by simp [hoperator]
    have hnext := (head.unbroken_passage level hhead hlist).behind hfront
    exact (tail.unbroken_passage level htail hnext).rows level
  | .defaults kind standalone attrs, level, h => by
    have hdefaults := notMem_defaults isInline_break c kind standalone h
    simpa [Item.rows] using hdefaults
  | .subgraph inner, level, h =>
    (inner.unbroken_passage level h (unbroken_ofText (by simp))).rows level

theorem Endpoint.unbroken_passage : ∀ (e : Endpoint) (level : Nat), e.Clear '\n' →
    ∀ {next : Passage}, next.Unbroken → (e.passage c level next).Unbroken
  | .node id, _, _, _, hnext => hnext.behind (notMem_nodeId isInline_break c id)
  | .subgraph inner, level, h, _, hnext => inner.unbroken_passage level h hnext

theorem Outline.unbroken_passage : ∀ (o : Outline) (level : Nat), o.Clear '\n' →
    ∀ {next : Passage}, next.Unbroken → (o.passage c level next).Unbroken
  | ⟨header, items⟩, level, ⟨hattrs, hitems⟩, next, hnext => by
    have hbrace : '\n' ∉ ['\x7d'] := by decide
    have hclose := (hnext.behind hbrace).rows level
    have hbelow := notMem_break_itemRows items (level + 1) hitems
    have hsettings : ∀ row ∈ settingRows level header.attrs, '\n' ∉ row.text := by
      intro row hr
      obtain ⟨entry, he, rfl⟩ := List.mem_map.1 hr
      exact notMem_entryText isInline_break (by simp) (hattrs entry he)
    refine ⟨notMem_break_subgraphHead header.name, fun row hr => ?_⟩
    rcases List.mem_append.1 hr with hr | hr
    · exact hsettings row hr
    · rcases List.mem_append.1 hr with hr | hr
      · exact hbelow row hr
      · exact hclose row hr

theorem notMem_break_itemRows : ∀ (items : List Item) (level : Nat), clearItems '\n' items →
    ∀ row ∈ itemRows c level items, '\n' ∉ row.text
  | [], _, _ => by simp [itemRows]
  | x :: rest, level, ⟨hx, hrest⟩ => by
    have hfirst := x.notMem_break_rows level hx
    have hothers := notMem_break_itemRows rest level hrest
    intro row hr
    rcases List.mem_append.1 hr with hr | hr
    · exact hfirst row hr
    · exact hothers row hr

end

theorem Item.splitOn_text {x : Item} (h : x.Clear '\n') (level : Nat) :
    (item c level x).toList.splitOn '\n' = (x.rows c level).map (Row.line c) :=
  splitOn_of_rowsText c (x.notMem_break_rows c level h) (x.rowsText_rows c level)

theorem RootOutline.notMem_break_rows {g : RootOutline} (h : g.body.Clear '\n') (directed : Bool) :
    ∀ row ∈ g.rows c (graphWord directed), '\n' ∉ row.text := by
  obtain ⟨⟨header, items⟩, given⟩ := g
  obtain ⟨hattrs, hitems⟩ := h
  have hhead := notMem_rootHead isInline_break (by decide) directed header.name given.counts
  have hbelow := notMem_break_itemRows c items 1 hitems
  have hsettings : ∀ row ∈ rootSettingRows header.attrs, '\n' ∉ row.text := by
    unfold rootSettingRows
    split
    · simp
    · intro row hr
      rcases List.mem_append.1 hr with hr | hr
      · obtain ⟨entry, he, rfl⟩ := List.mem_map.1 hr
        exact notMem_entryText isInline_break (by simp) (hattrs entry he)
      · obtain rfl := List.mem_singleton.1 hr
        simp [emptyRow]
  intro row hr
  rcases List.mem_cons.1 hr with rfl | hr
  · exact hhead
  · rcases List.mem_append.1 hr with hr | hr
    · exact hsettings row hr
    · rcases List.mem_append.1 hr with hr | hr
      · exact hbelow row hr
      · obtain rfl := List.mem_singleton.1 hr
        decide

/-- The lines of a whole graph are those of its text, and behind the last of them nothing
follows. -/
theorem RootOutline.splitOn_text {g : RootOutline} (h : g.body.Clear '\n') (directed : Bool) :
    (root c (graphWord directed) g).toList.splitOn '\n' =
      (g.rows c (graphWord directed)).map (Row.line c) ++ [[]] := by
  have htext : rowsText c (g.rows c (graphWord directed) ++ [emptyRow]) =
      '\n' :: (root c (graphWord directed) g).toList := by
    rw [← g.rowsText_rows, rowsText_append]
    simp [emptyRow, Row.line, indentText_zero]
  have hlast : '\n' ∉ emptyRow.text := by simp [emptyRow]
  have hrows : ∀ row ∈ g.rows c (graphWord directed) ++ [emptyRow], '\n' ∉ row.text := by
    intro row hr
    rcases List.mem_append.1 hr with hr | hr
    · exact g.notMem_break_rows c h directed row hr
    · exact List.mem_singleton.1 hr ▸ hlast
  rw [splitOn_of_rowsText c hrows htext, List.map_append]
  simp [emptyRow, Row.line, indentText_zero]

end

end DotGraph
