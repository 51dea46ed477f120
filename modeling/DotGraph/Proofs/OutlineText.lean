import DotGraph.Proofs.AttributeText
import DotGraph.Proofs.Outlines

/-!
The text of an outline, line by line.  A line starts with its indentation and a word, and what
follows the word tells attributes and statements apart.
-/

namespace DotGraph

open Text

mutual

/-- The tables of an item, in the order of its text. -/
def Item.tables : Item → List AttrTable
  | .node _ attrs => [attrs]
  | .edge tail head _ attrs => tail.tables ++ head.tables ++ [attrs]
  | .defaults _ _ attrs => [attrs]
  | .subgraph inner => inner.tables

def Endpoint.tables : Endpoint → List AttrTable
  | .node _ => []
  | .subgraph inner => inner.tables

def Outline.tables : Outline → List AttrTable
  | ⟨header, items⟩ => header.attrs :: itemTables items

def itemTables : List Item → List AttrTable
  | [] => []
  | x :: rest => x.tables ++ itemTables rest

end

mutual

/-- An item with every attribute value replaced by the text under which it is written. -/
def Item.inTexts : Item → Item
  | .node id attrs => .node id attrs.inTexts
  | .edge tail head operator attrs => .edge tail.inTexts head.inTexts operator attrs.inTexts
  | .defaults kind standalone attrs => .defaults kind standalone attrs.inTexts
  | .subgraph inner => .subgraph inner.inTexts

def Endpoint.inTexts : Endpoint → Endpoint
  | .node id => .node id
  | .subgraph inner => .subgraph inner.inTexts

def Outline.inTexts : Outline → Outline
  | ⟨header, items⟩ => ⟨{ header with attrs := header.attrs.inTexts }, itemsInTexts items⟩

def itemsInTexts : List Item → List Item
  | [] => []
  | x :: rest => x.inTexts :: itemsInTexts rest

end

@[simp] theorem Endpoint.isNode_inTexts (e : Endpoint) : e.inTexts.isNode = e.isNode := by
  cases e <;> rfl

namespace Dot

variable (c : RenderConfig)

/-! ### Lines -/

def linesText (lines : List String) : List Char :=
  lines.flatMap fun line => '\n' :: line.toList

@[simp] theorem linesText_nil : linesText [] = [] := rfl

@[simp] theorem linesText_cons (line : String) (rest : List String) :
    linesText (line :: rest) = '\n' :: (line.toList ++ linesText rest) := rfl

@[simp] theorem linesText_append (lines more : List String) :
    linesText (lines ++ more) = linesText lines ++ linesText more :=
  List.flatMap_append

theorem toList_lines (first : String) (rest : List String) :
    ("\n".intercalate (first :: rest)).toList = first.toList ++ linesText rest := by
  have hsep : "\n".toList = ['\n'] := rfl
  have hne : (first :: rest).map String.toList ≠ [] := by simp
  have h := cons_intercalate '\n' hne
  rw [List.flatMap_map] at h
  rw [String.toList_intercalate, hsep]
  exact (List.cons.inj h).2

def indentText (level : Int) : List Char :=
  (indent c level).toList

theorem linesText_bareAttributes (t : AttrTable) (level : Int) :
    linesText (bareAttributes c t level) = entriesText '\n' (indentText c level) t.entries := by
  unfold bareAttributes
  cases ht : t.isEmpty with
  | true => simp [entries_eq_nil ht, entriesText]
  | false =>
    have hsep : "\n".toList = ['\n'] := rfl
    simpa [indentText, indent] using cons_written hsep ht level c.indent

/-! ### Blanks -/

def IsBlank (text : List Char) : Prop :=
  ∀ ch ∈ text, ch = ' ' ∨ ch = '\t'

theorem isBlank_indentText (level : Int) : IsBlank (indentText c level) := by
  have hblank := c.blank
  simp only [DotGraph.isBlank, List.all_eq_true, Bool.or_eq_true, beq_iff_eq] at hblank
  intro ch h
  simp only [indentText, indent, indentation, times_eq_join, String.toList_join,
    List.mem_flatMap] at h
  obtain ⟨unit, hu, hc⟩ := h
  obtain rfl := List.eq_of_mem_replicate hu
  exact hblank ch hc

theorem exists_indentText_succ (level : Int) :
    ∃ more, IsBlank more ∧ indentText c (level + 1) = indentText c level ++ more := by
  by_cases hneg : level < 0
  · have hzero : (level + 1).toNat = level.toNat := by omega
    exact ⟨[], by simp [IsBlank], by simp [indentText, indent, indentation, hzero]⟩
  · have hsucc : (level + 1).toNat = level.toNat + 1 := by omega
    refine ⟨indentText c 1, isBlank_indentText c 1, ?_⟩
    have hone : (1 : Int).toNat = 1 := rfl
    simp only [indentText, indent, indentation, hsucc, times_add, String.toList_append, hone]

theorem IsBlank.append_word_ne {blank w r r' : List Char} {ch : Char} (hb : IsBlank blank)
    (hw : IsWord w) (hc : isWordChar ch = false) (hs : ch ≠ ' ') (ht : ch ≠ '\t') :
    blank ++ (w ++ r) ≠ ch :: r' := by
  cases blank with
  | nil => exact hw.append_ne_cons hc
  | cons b blank =>
    intro h
    obtain rfl : b = ch := (List.cons.inj h).1
    rcases hb b (by simp) with rfl | rfl
    · exact hs rfl
    · exact ht rfl

theorem IsBlank.eq_nil_of_append {blank w r r' : List Char} (hb : IsBlank blank) (hw : IsWord w)
    (h : blank ++ r = w ++ r') : blank = [] := by
  cases blank with
  | nil => rfl
  | cons b blank =>
    have hbreak : isWordChar b = false := by
      rcases hb b (by simp) with rfl | rfl <;> decide
    exact absurd h.symm (hw.append_ne_cons hbreak)

/-! ### Node ids -/

/-- What may follow an end of an edge: the end of the line, a list or an operator. -/
def Ends (r : List Char) : Prop :=
  ∃ rest, r = '\n' :: rest ∨ r = '[' :: rest ∨ r = ' ' :: '-' :: rest

theorem Ends.breaks {r : List Char} (h : Ends r) : Breaks r := by
  obtain ⟨rest, rfl | rfl | rfl⟩ := h <;> exact breaks_cons (by decide) _

def portText (id : NodeId) : List Char :=
  match id.port with
  | none => []
  | some port => c.portSeparator.text.toList ++ port.text.toList

theorem toList_nodeId (id : NodeId) :
    (nodeId c id).toList = id.name.text.toList ++ portText c id := by
  obtain ⟨name, port⟩ := id
  cases port with
  | none => simp [nodeId, NodeId.written, portText]
  | some port => simp [nodeId, NodeId.written, portText]

theorem exists_separator_cons :
    ∃ ch, c.portSeparator.text.toList = [ch] ∧ isWordChar ch = false ∧ ch ≠ '=' ∧ ch ≠ '\n' ∧
      ch ≠ '[' := by
  cases c.portSeparator with
  | space => exact ⟨' ', by decide⟩
  | colon => exact ⟨':', by decide⟩

theorem port_ne_ends {port : CompassPoint} {r r' : List Char} (hr : Ends r') :
    c.portSeparator.text.toList ++ (port.text.toList ++ r) ≠ r' := by
  obtain ⟨ch, hsep, -, -, hn, ho⟩ := exists_separator_cons c
  obtain ⟨rest, rfl | rfl | rfl⟩ := hr
  · intro h
    simp [hsep, hn] at h
  · intro h
    simp [hsep, ho] at h
  · intro h
    rw [hsep] at h
    have hp := (List.cons.inj h).2
    cases port <;> simp [CompassPoint.text] at hp

theorem nodeId_append_inj {id id' : NodeId} {r r' : List Char} (hr : Ends r) (hr' : Ends r')
    (h : (nodeId c id).toList ++ r = (nodeId c id').toList ++ r') : id = id' ∧ r = r' := by
  obtain ⟨ch, hsep, hbreak, -⟩ := exists_separator_cons c
  have hport : ∀ (id : NodeId) {r : List Char}, Ends r → Breaks (portText c id ++ r) := by
    intro id r hr
    unfold portText
    split
    · exact hr.breaks
    · rw [hsep]
      exact breaks_cons hbreak _
  rw [toList_nodeId, toList_nodeId, List.append_assoc, List.append_assoc] at h
  obtain ⟨hname, hrest⟩ := word_append_inj (isWord_name _) (isWord_name _) (hport id hr)
    (hport id' hr') h
  obtain ⟨⟨name, hid⟩, port⟩ := id
  obtain ⟨⟨name', hid'⟩, port'⟩ := id'
  obtain rfl : name = name' := String.toList_inj.1 hname
  cases port with
  | none =>
    cases port' with
    | none => exact ⟨rfl, hrest⟩
    | some port' => exact absurd hrest.symm (by simpa [portText] using port_ne_ends c hr)
  | some port =>
    cases port' with
    | none => exact absurd hrest (by simpa [portText] using port_ne_ends c hr')
    | some port' =>
      simp only [portText, List.append_assoc, List.append_cancel_left_eq] at hrest
      obtain ⟨htext, hr⟩ := word_append_inj (isWord_port port) (isWord_port port') hr.breaks
        hr'.breaks hrest
      have hp : some port = some port' := by
        rw [← CompassPoint.ofText?_text port, String.toList_inj.1 htext, CompassPoint.ofText?_text]
      exact ⟨by rw [hp], hr⟩

/-! ### Heads -/

def nameText : Option Identifier → List Char
  | none => []
  | some name => name.text.toList ++ [' ']

theorem toList_subgraphHead (name : Option Identifier) :
    (subgraphHead name).toList = "subgraph ".toList ++ (nameText name ++ ['\x7b']) := by
  cases name <;> simp [subgraphHead, nameText]

theorem nameText_append_inj {name name' : Option Identifier} {r r' : List Char}
    (h : nameText name ++ '\x7b' :: r = nameText name' ++ '\x7b' :: r') :
    name = name' ∧ r = r' := by
  have hbrace : isWordChar '\x7b' = false := by decide
  have hspace : isWordChar ' ' = false := by decide
  cases name with
  | none =>
    cases name' with
    | none => exact ⟨rfl, (List.cons.inj h).2⟩
    | some name' =>
      refine absurd h.symm ?_
      simpa [nameText] using (isWord_name name').append_ne_cons hbrace
  | some name =>
    cases name' with
    | none =>
      refine absurd h ?_
      simpa [nameText] using (isWord_name name).append_ne_cons hbrace
    | some name' =>
      have hsplit : name.text.toList ++ ' ' :: '\x7b' :: r =
          name'.text.toList ++ ' ' :: '\x7b' :: r' := by simpa [nameText] using h
      obtain ⟨htext, hr⟩ := word_append_inj (isWord_name name) (isWord_name name')
        (breaks_cons hspace _) (breaks_cons hspace _) hsplit
      obtain ⟨text, hid⟩ := name
      obtain ⟨text', hid'⟩ := name'
      obtain rfl : text = text' := String.toList_inj.1 htext
      exact ⟨rfl, by simpa using hr⟩

end Dot

end DotGraph
