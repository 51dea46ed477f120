import DotGraph.Proofs.GraphText

/-!
Characters that no piece of a text holds.  What stands within a line and outside all braces is made
of words, of blanks, of a few signs and of the texts in the tables, so any other character there
comes from a table.
-/

namespace DotGraph

open Text

/-- The characters of words, blanks, and the signs that stand within a line. -/
def Dot.isInline (ch : Char) : Bool :=
  isWordChar ch || [' ', '\t', ',', '=', ':', '>', '\x22', '[', ']'].contains ch

/-- A text without the character, or anything but a text. -/
def AttrValue.Lacks (ch : Char) : AttrValue → Prop
  | text s => ch ∉ s.toList
  | _ => True

def AttrTable.Lacks (ch : Char) (t : AttrTable) : Prop :=
  ∀ entry ∈ t.entries, entry.2.Lacks ch

instance (ch : Char) (v : AttrValue) : Decidable (v.Lacks ch) :=
  match v with
  | .text s => inferInstanceAs (Decidable (ch ∉ s.toList))
  | .integer _ | .float _ | .flag _ | .token _ => inferInstanceAs (Decidable True)

instance (ch : Char) (t : AttrTable) : Decidable (t.Lacks ch) :=
  inferInstanceAs (Decidable (∀ _ ∈ t.entries, _))

/-- Neither a key of the table nor the text of a value holds the character. -/
def AttrTable.Clear (ch : Char) (t : AttrTable) : Prop :=
  ∀ entry ∈ t.entries, ch ∉ entry.1.toList ∧ ch ∉ entry.2.written.toList

mutual

/-- An item with tables and operators that are clear of the character. -/
def Item.Clear (ch : Char) : Item → Prop
  | .node _ attrs => attrs.Clear ch
  | .edge tail head operator attrs =>
    tail.Clear ch ∧ head.Clear ch ∧ ch ∉ operator.text.toList ∧ attrs.Clear ch
  | .defaults _ _ attrs => attrs.Clear ch
  | .subgraph inner => inner.Clear ch

def Endpoint.Clear (ch : Char) : Endpoint → Prop
  | .node _ => True
  | .subgraph inner => inner.Clear ch

def Outline.Clear (ch : Char) : Outline → Prop
  | ⟨header, items⟩ => header.attrs.Clear ch ∧ clearItems ch items

def clearItems (ch : Char) : List Item → Prop
  | [] => True
  | x :: rest => x.Clear ch ∧ clearItems ch rest

end

section

variable {ch : Char} (hch : Dot.isInline ch = false)

include hch

theorem ne_of_isInline {c : Char} (hc : Dot.isInline c = true) : ch ≠ c := by
  rintro rfl
  simp [hch] at hc

theorem Text.IsWord.notMem {w : List Char} (hw : IsWord w) : ch ∉ w := by
  intro hm
  have hinline : Dot.isInline ch = true := by simp [Dot.isInline, hw.2 ch hm]
  simp [hch] at hinline

theorem Dot.IsBlank.notMem {text : List Char} (h : Dot.IsBlank text) : ch ∉ text := by
  intro hm
  rcases h ch hm with rfl | rfl
  · exact ne_of_isInline hch (by decide) rfl
  · exact ne_of_isInline hch (by decide) rfl

theorem AttrTable.Lawful.clear {t : AttrTable} (h : t.Lawful) (hl : t.Lacks ch) : t.Clear ch := by
  intro entry he
  obtain ⟨hkey, hvalue⟩ := h.isWord_entry he
  refine ⟨hkey.notMem hch, ?_⟩
  rcases hvalue with ⟨s, hv⟩ | hw
  · have hlacks : ch ∉ s.toList := by
      have hentry := hl entry he
      rwa [hv] at hentry
    rw [hv, AttrValue.toList_written_text]
    have hquote : ch ≠ '\x22' := ne_of_isInline hch (by decide)
    simp [hquote, hlacks]
  · exact hw.notMem hch

namespace Dot

variable {t : AttrTable} (c : RenderConfig)

theorem notMem_entryText {lead : List Char} (hlead : ch ∉ lead) {entry : String × AttrValue}
    (he : ch ∉ entry.1.toList ∧ ch ∉ entry.2.written.toList) : ch ∉ entryText lead entry := by
  have heq : ch ≠ '=' := ne_of_isInline hch (by decide)
  simp [entryText, hlead, he.1, he.2, heq]

theorem notMem_entriesText {sep : Char} (hsep : ch ≠ sep) {lead : List Char} (hlead : ch ∉ lead)
    (h : t.Clear ch) : ch ∉ entriesText sep lead t.entries := by
  intro hm
  obtain ⟨entry, he, hm⟩ := List.mem_flatMap.1 hm
  rcases List.mem_cons.1 hm with hm | hm
  · exact hsep hm
  · exact notMem_entryText hch hlead (h entry he) hm

theorem notMem_entryList (h : t.Clear ch) : ch ∉ (entryList c t).toList := by
  have hopen : ch ≠ '[' := ne_of_isInline hch (by decide)
  have hclose : ch ≠ ']' := ne_of_isInline hch (by decide)
  cases ht : t.isEmpty with
  | true => simp [toList_entryList_of_isEmpty c ht, hopen, hclose]
  | false =>
    have hlead : (indentation 0 c.indent).toList = [] := by simp [indentation]
    have hcomma : ch ≠ ',' := ne_of_isInline hch (by decide)
    have hwritten : ch ∉ ',' :: (t.written 0 "," c.indent).toList := by
      rw [cons_written rfl ht, hlead]
      exact notMem_entriesText hch hcomma (by simp) h
    simp only [List.mem_cons, not_or] at hwritten
    simp [entryList, hopen, hclose, hwritten.2]

theorem notMem_attrList (h : t.Clear ch) : ch ∉ (attrList c t).toList := by
  unfold attrList
  split
  · simp
  · exact notMem_entryList hch c h

theorem notMem_defaults (kind : DefaultKind) (standalone : Bool) (h : t.Clear ch) :
    ch ∉ (defaults c kind standalone t).toList := by
  have hkind : ch ∉ kind.text.toList := (isWord_kind kind).notMem hch
  cases standalone with
  | true => simp [defaults, hkind, notMem_entryList hch c h]
  | false => simpa [defaults] using notMem_attrList hch c h

theorem notMem_nodeId (id : NodeId) : ch ∉ (nodeId c id).toList := by
  rw [toList_nodeId]
  have hname : ch ∉ id.name.text.toList := (isWord_name _).notMem hch
  have hport : ch ∉ portText c id := by
    unfold portText
    split
    · simp
    · rename_i port _
      have hsep : ch ∉ c.portSeparator.text.toList := by
        cases c.portSeparator with
        | space => simpa [PortSeparator.text] using ne_of_isInline hch (c := ' ') (by decide)
        | colon => simpa [PortSeparator.text] using ne_of_isInline hch (c := ':') (by decide)
      have hword : ch ∉ port.text.toList := (isWord_port port).notMem hch
      simp [hsep, hword]
  simp [hname, hport]

theorem notMem_indentText (level : Int) : ch ∉ indentText c level :=
  (isBlank_indentText c level).notMem hch

theorem notMem_operator (directed : Bool) :
    ch ∉ (EdgeOperator.ofDirected directed).text.toList := by
  have hdash : ch ≠ '-' := ne_of_isInline hch (by decide)
  have htip : ch ≠ '>' := ne_of_isInline hch (by decide)
  cases directed <;> simp [EdgeOperator.ofDirected, EdgeOperator.text, hdash, htip]

theorem notMem_nameText (name : Option Identifier) : ch ∉ nameText name := by
  cases name with
  | none => simp [nameText]
  | some name =>
    have hspace : ch ≠ ' ' := ne_of_isInline hch (by decide)
    have hname : ch ∉ name.text.toList := (isWord_name name).notMem hch
    simp [nameText, hspace, hname]

theorem notMem_rootHead (hopen : ch ≠ '\x7b') (directed : Bool) (name : Option Identifier)
    (strict : Bool) : ch ∉ (rootHead (graphWord directed) name strict).toList := by
  have hspace : ch ≠ ' ' := ne_of_isInline hch (by decide)
  have hstrict : ch ∉ "strict".toList := isWord_strict.notMem hch
  have hword : ch ∉ (graphWord directed).toList := (isWord_graphWord directed).notMem hch
  have hname := notMem_nameText hch name
  rw [toList_rootHead]
  cases strict <;>
    simp only [Bool.false_eq_true, if_true, if_false, List.mem_append, List.mem_cons,
      List.not_mem_nil, or_false, false_or, not_or]
  · exact ⟨hword, hspace, hname, hopen⟩
  · exact ⟨⟨hstrict, hspace⟩, hword, hspace, hname, hopen⟩

end Dot

end

/-! ### Outlines -/

section

variable {ch : Char} {directed : Bool}

mutual

theorem Item.clear_of_proper (hch : Dot.isInline ch = false) : ∀ {x : Item},
    x.Proper (.ofDirected directed) → (∀ t ∈ x.tables, t.Lacks ch) → x.Clear ch
  | .node _ attrs, h, hl => h.clear hch (hl attrs (by simp [Item.tables]))
  | .edge tail head _ attrs, ⟨htail, hhead, ho, hattrs⟩, hl => by
    subst ho
    simp only [Item.tables, List.mem_append, List.mem_singleton, or_imp, forall_and,
      forall_eq] at hl
    exact ⟨Endpoint.clear_of_proper hch htail hl.1.1, Endpoint.clear_of_proper hch hhead hl.1.2,
      Dot.notMem_operator hch directed, hattrs.clear hch hl.2⟩
  | .defaults kind _ attrs, ⟨_, hattrs⟩, hl =>
    (hattrs.lawful (.defaults kind)).clear hch (hl attrs (by simp [Item.tables]))
  | .subgraph _, h, hl => Outline.clear_of_proper hch h hl

theorem Endpoint.clear_of_proper (hch : Dot.isInline ch = false) : ∀ {e : Endpoint},
    e.Proper (.ofDirected directed) → (∀ t ∈ e.tables, t.Lacks ch) → e.Clear ch
  | .node _, _, _ => trivial
  | .subgraph _, h, hl => Outline.clear_of_proper hch h hl

theorem Outline.clear_of_proper (hch : Dot.isInline ch = false) : ∀ {o : Outline},
    o.Proper (.ofDirected directed) → (∀ t ∈ o.tables, t.Lacks ch) → o.Clear ch
  | ⟨_, _⟩, ⟨_, hattrs, hitems⟩, hl => by
    simp only [Outline.tables, List.mem_cons, or_imp, forall_and, forall_eq] at hl
    exact ⟨(hattrs.lawful .subgraph).clear hch hl.1, clear_of_properItems hch hitems hl.2⟩

theorem clear_of_properItems (hch : Dot.isInline ch = false) : ∀ {items : List Item},
    properItems (.ofDirected directed) items → (∀ t ∈ itemTables items, t.Lacks ch) →
    clearItems ch items
  | [], _, _ => trivial
  | _ :: _, ⟨hx, hrest⟩, hl => by
    simp only [itemTables, List.mem_append, or_imp, forall_and] at hl
    exact ⟨Item.clear_of_proper hch hx hl.1, clear_of_properItems hch hrest hl.2⟩

end

theorem RootOutline.Proper.clear {g : RootOutline} {strict : Bool} (h : g.Proper strict directed)
    (hch : Dot.isInline ch = false) (hl : ∀ t ∈ g.tables, t.Lacks ch) : g.body.Clear ch := by
  obtain ⟨⟨header, items⟩, given⟩ := g
  simp only [RootOutline.tables, Outline.tables, List.mem_cons, or_imp, forall_and,
    forall_eq] at hl
  exact ⟨(h.attrs.lawful .rootGraph).clear hch hl.1, clear_of_properItems hch h.items hl.2⟩

end

end DotGraph
