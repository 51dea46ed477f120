import DotGraph.Proofs.OutlineText

/-!
How lines start.  Every statement starts with its indentation and a word, behind which no value
follows; so the lines of attributes, those of statements and the closing brace are told apart.
-/

namespace DotGraph

open Text

/-! ### What can be read -/

/-- An item as it stands below a root graph, without a quote in any text. -/
structure Item.Readable (directed : Bool) (x : Item) : Prop where
  proper : x.Proper (.ofDirected directed)
  legible : ∀ t ∈ x.tables, t.Legible

structure Endpoint.Readable (directed : Bool) (e : Endpoint) : Prop where
  proper : e.Proper (.ofDirected directed)
  legible : ∀ t ∈ e.tables, t.Legible

structure Outline.Readable (directed : Bool) (o : Outline) : Prop where
  proper : o.Proper (.ofDirected directed)
  legible : ∀ t ∈ o.tables, t.Legible

structure ReadableItems (directed : Bool) (items : List Item) : Prop where
  proper : properItems (.ofDirected directed) items
  legible : ∀ t ∈ itemTables items, t.Legible

variable {directed : Bool}

theorem readable_edge {tail head : Endpoint} {operator : EdgeOperator} {attrs : AttrTable}
    (h : (Item.edge tail head operator attrs).Readable directed) :
    tail.Readable directed ∧ head.Readable directed ∧ operator = .ofDirected directed ∧
      attrs.Legible := by
  obtain ⟨⟨htail, hhead, ho, -⟩, hl⟩ := h
  simp only [Item.tables, List.mem_append, List.mem_singleton] at hl
  exact ⟨⟨htail, fun t ht => hl t (.inl (.inl ht))⟩, ⟨hhead, fun t ht => hl t (.inl (.inr ht))⟩, ho,
    hl attrs (.inr rfl)⟩

theorem readable_outline {header : Header} {items : List Item}
    (h : (Outline.mk header items).Readable directed) :
    header.attrs.Legible ∧ ReadableItems directed items := by
  obtain ⟨⟨-, -, hitems⟩, hl⟩ := h
  simp only [Outline.tables, List.mem_cons] at hl
  exact ⟨hl _ (.inl rfl), hitems, fun t ht => hl t (.inr ht)⟩

theorem readable_cons {x : Item} {rest : List Item} (h : ReadableItems directed (x :: rest)) :
    x.Readable directed ∧ ReadableItems directed rest := by
  obtain ⟨⟨hx, hrest⟩, hl⟩ := h
  simp only [itemTables, List.mem_append] at hl
  exact ⟨⟨hx, fun t ht => hl t (.inl ht)⟩, hrest, fun t ht => hl t (.inr ht)⟩

namespace Item

/-- The node or subgraph with which the text of an item starts. -/
def lead? : Item → Option Endpoint
  | node id _ => some (.node id)
  | edge tail _ _ _ => some tail
  | defaults _ _ _ => none
  | subgraph inner => some (.subgraph inner)

theorem Readable.lead {x : Item} {e : Endpoint} (hx : x.Readable directed)
    (he : x.lead? = some e) : e.Readable directed := by
  cases x with
  | node id attrs =>
    cases he
    exact ⟨trivial, by simp [Endpoint.tables]⟩
  | edge tail head operator attrs =>
    cases he
    exact (readable_edge hx).1
  | defaults kind standalone attrs => cases he
  | subgraph inner =>
    cases he
    exact ⟨hx.proper, hx.legible⟩

end Item

/-! ### First words -/

def Endpoint.firstWord : Endpoint → String
  | node id => id.name.text
  | subgraph _ => "subgraph"

def Item.firstWord : Item → String
  | node id _ => id.name.text
  | edge tail _ _ _ => tail.firstWord
  | defaults kind _ _ => kind.text
  | subgraph _ => "subgraph"

theorem isWord_subgraph : IsWord "subgraph".toList := by decide

theorem Endpoint.isWord_firstWord (e : Endpoint) : IsWord e.firstWord.toList := by
  cases e with
  | node id => exact isWord_name _
  | subgraph inner => exact isWord_subgraph

theorem Item.isWord_firstWord (x : Item) : IsWord x.firstWord.toList := by
  cases x with
  | node id attrs => exact isWord_name _
  | edge tail head operator attrs => exact tail.isWord_firstWord
  | defaults kind standalone attrs => exact isWord_kind _
  | subgraph inner => exact isWord_subgraph

/-- No statement starts like defaults without being such. -/
theorem Endpoint.firstWord_ne_kind (e : Endpoint) (kind : DefaultKind) :
    e.firstWord ≠ kind.text := by
  cases e with
  | node id =>
    have hk : kind.text ∈ Identifier.keywords := by cases kind <;> decide
    exact name_ne_keyword id.name hk
  | subgraph inner =>
    show "subgraph" ≠ kind.text
    cases kind <;> decide

namespace Dot

variable (c : RenderConfig) (level : Int)

/-- A text that neither goes on with a word nor sets a value. -/
def Parts (r : List Char) : Prop :=
  ∃ ch rest, r = ch :: rest ∧ isWordChar ch = false ∧ ch ≠ '='

theorem Parts.breaks {r : List Char} (h : Parts r) : Breaks r := by
  obtain ⟨ch, rest, rfl, hc, -⟩ := h
  exact breaks_cons hc rest

theorem parts_cons {ch : Char} (hc : isWordChar ch = false) (hne : ch ≠ '=') (r : List Char) :
    Parts (ch :: r) :=
  ⟨ch, r, rfl, hc, hne⟩

theorem Ends.parts {r : List Char} (h : Ends r) : Parts r := by
  obtain ⟨rest, rfl | rfl | rfl⟩ := h <;> exact parts_cons (by decide) (by decide) _

/-! ### The text of each constructor -/

theorem toList_subgraph (header : Header) (items : List Item) :
    (subgraph c level true ⟨header, items⟩).toList =
      "subgraph ".toList ++ (nameText header.name ++ '\x7b' ::
        (entriesText '\n' (indentText c level) header.attrs.entries ++
          (linesText (itemList c (level + 1) items) ++
            '\n' :: (indentText c level ++ ['\x7d'])))) := by
  rw [subgraph, if_pos rfl, String.empty_append, toList_lines, toList_subgraphHead]
  simp [linesText_bareAttributes, indentText]

/-- What stands behind the node or subgraph with which an item starts. -/
def behindLead : Item → List Char
  | .node _ attrs => (attrList c attrs).toList
  | .edge _ head operator attrs =>
    ' ' :: (operator.text.toList ++
      ' ' :: ((endpoint c level head).toList ++ (attrList c attrs).toList))
  | .defaults _ _ _ => []
  | .subgraph _ => []

theorem toList_item_of_lead {x : Item} {e : Endpoint} (h : x.lead? = some e) :
    (item c level x).toList =
      indentText c level ++ ((endpoint c level e).toList ++ behindLead c level x) := by
  cases x with
  | node id attrs =>
    cases h
    simp [item, endpoint, behindLead, indentText]
  | edge tail head operator attrs =>
    cases h
    simp [item, behindLead, indentText]
  | defaults kind standalone attrs => cases h
  | subgraph inner =>
    cases h
    simp [item, endpoint, behindLead, indentText, subgraph_false]

theorem toList_item_defaults {kind : DefaultKind} {standalone : Bool} {attrs : AttrTable}
    (h : (Item.defaults kind standalone attrs).Readable directed) :
    (item c level (.defaults kind standalone attrs)).toList =
      indentText c level ++ (kind.text.toList ++ (entryList c attrs).toList) := by
  obtain ⟨⟨rfl, -⟩, -⟩ := h
  simp [item, defaults, indentText]

theorem exists_operator_cons (directed : Bool) :
    ∃ rest, (EdgeOperator.ofDirected directed).text.toList = '-' :: rest := by
  cases directed with
  | true => exact ⟨['>'], rfl⟩
  | false => exact ⟨['-'], rfl⟩

theorem exists_entryList_cons (t : AttrTable) : ∃ rest, (entryList c t).toList = '[' :: rest :=
  ⟨_, by simp [entryList]; rfl⟩

theorem ends_attrList (t : AttrTable) (r : List Char) :
    Ends ((attrList c t).toList ++ '\n' :: r) := by
  unfold attrList
  split
  · exact ⟨r, .inl rfl⟩
  · obtain ⟨rest, hrest⟩ := exists_entryList_cons c t
    exact ⟨rest ++ '\n' :: r, .inr (.inl (by simp [hrest]))⟩

theorem attrList_ne_space (t : AttrTable) (r r' : List Char) :
    (attrList c t).toList ++ '\n' :: r ≠ ' ' :: r' := by
  unfold attrList
  split
  · simp
  · obtain ⟨rest, hrest⟩ := exists_entryList_cons c t
    simp [hrest]

theorem ends_behindLead {x : Item} (hx : x.Readable directed) (r : List Char) :
    Ends (behindLead c level x ++ '\n' :: r) := by
  cases x with
  | node id attrs => exact ends_attrList c attrs r
  | edge tail head operator attrs =>
    obtain ⟨-, -, rfl, -⟩ := readable_edge hx
    obtain ⟨rest, hrest⟩ := exists_operator_cons directed
    exact ⟨_, .inr (.inr (by simp [behindLead, hrest]; rfl))⟩
  | defaults kind standalone attrs => exact ⟨r, .inl rfl⟩
  | subgraph inner => exact ⟨r, .inl rfl⟩

/-! ### Every statement starts with a word -/

theorem exists_endpoint_firstWord (e : Endpoint) {r : List Char} (hr : Ends r) :
    ∃ f, Parts f ∧ (endpoint c level e).toList ++ r = e.firstWord.toList ++ f := by
  cases e with
  | node id =>
    refine ⟨portText c id ++ r, ?_, by simp [endpoint, toList_nodeId, Endpoint.firstWord]⟩
    unfold portText
    split
    · exact hr.parts
    · obtain ⟨ch, hsep, hbreak, heq, -⟩ := exists_separator_cons c
      rw [hsep]
      exact parts_cons hbreak heq _
  | subgraph inner =>
    obtain ⟨header, items⟩ := inner
    have hword (body : List Char) : "subgraph ".toList ++ body ++ r =
        "subgraph".toList ++ ' ' :: (body ++ r) := by
      have hspace : "subgraph ".toList = "subgraph".toList ++ [' '] := by decide
      rw [hspace, List.append_assoc, List.append_assoc]
      rfl
    rw [endpoint, toList_subgraph, hword]
    exact ⟨_, parts_cons (by decide) (by decide) _, rfl⟩

theorem exists_item_firstWord {x : Item} (hx : x.Readable directed) (r : List Char) :
    ∃ f, Parts f ∧ (item c level x).toList ++ '\n' :: r =
      indentText c level ++ (x.firstWord.toList ++ f) := by
  have lead : ∀ e, x.lead? = some e → x.firstWord = e.firstWord →
      ∃ f, Parts f ∧ (item c level x).toList ++ '\n' :: r =
        indentText c level ++ (x.firstWord.toList ++ f) := by
    intro e he hw
    obtain ⟨f, hf, htext⟩ := exists_endpoint_firstWord c level e (ends_behindLead c level hx r)
    refine ⟨f, hf, ?_⟩
    rw [toList_item_of_lead c level he, hw, ← htext]
    simp
  cases x with
  | node id attrs => exact lead _ rfl rfl
  | edge tail head operator attrs => exact lead _ rfl rfl
  | subgraph inner => exact lead _ rfl rfl
  | defaults kind standalone attrs =>
    obtain ⟨rest, hrest⟩ := exists_entryList_cons c attrs
    refine ⟨'[' :: (rest ++ '\n' :: r), parts_cons (by decide) (by decide) _, ?_⟩
    rw [toList_item_defaults c level hx, hrest]
    simp [Item.firstWord]

/-! ### Where attributes and statements end -/

/-- A text that does not go on with a line that starts with a word. -/
def NoItem (lead r : List Char) : Prop :=
  ∀ w rest, IsWord w → r ≠ '\n' :: (lead ++ (w ++ rest))

theorem NoItem.noEntry {lead r : List Char} (h : NoItem lead r) : NoEntry '\n' lead r :=
  fun w rest hw => h w ('=' :: rest) hw

theorem noItem_closing {lead close more : List Char} (hlead : lead = close ++ more)
    (hb : IsBlank more) (r : List Char) : NoItem lead ('\n' :: (close ++ '\x7d' :: r)) := by
  intro w rest hw h
  rw [hlead, List.append_assoc] at h
  have hrest := List.append_cancel_left (List.cons.inj h).2
  exact hb.append_word_ne hw (by decide) (by decide) (by decide) hrest.symm

theorem exists_lines_cons (lines : List String) (r : List Char) :
    ∃ rest, linesText lines ++ '\n' :: r = '\n' :: rest := by
  cases lines with
  | nil => exact ⟨r, rfl⟩
  | cons line rest => exact ⟨_, rfl⟩

/-- A statement is no attribute, not even where no indentation tells them apart. -/
theorem noEntry_items {lead more : List Char} (hlead : indentText c level = lead ++ more)
    (hb : IsBlank more) {items : List Item} (hitems : ReadableItems directed items)
    {r : List Char} (hr : NoItem lead ('\n' :: r)) :
    NoEntry '\n' lead (linesText (itemList c level items) ++ '\n' :: r) := by
  cases items with
  | nil => exact hr.noEntry
  | cons x rest =>
    obtain ⟨hx, -⟩ := readable_cons hitems
    intro w q hw h
    obtain ⟨q', hq'⟩ := exists_lines_cons (itemList c level rest) r
    obtain ⟨f, hf, htext⟩ := exists_item_firstWord c level hx q'
    rw [itemList, linesText_cons, List.cons_append, List.append_assoc, hq', htext, hlead,
      List.append_assoc] at h
    have hline := List.append_cancel_left (List.cons.inj h).2
    obtain rfl := hb.eq_nil_of_append hw hline
    have hbreak : isWordChar '=' = false := by decide
    obtain ⟨-, hrest⟩ := word_append_inj x.isWord_firstWord hw hf.breaks (breaks_cons hbreak q)
      hline
    obtain ⟨ch, rest, rfl, -, hne⟩ := hf
    exact hne (List.cons.inj hrest).1

end Dot

end DotGraph
