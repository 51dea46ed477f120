import DotGraph.Proofs.Exports
import DotGraph.Proofs.UniqueReading

/-!
The text of a whole graph.  Two root graphs without a quote in any of their texts that are written
alike show the same JSON view, if values are shown as they are written.
-/

namespace DotGraph

open Text

/-- A text without a double quote, or anything but a text. -/
def AttrValue.Unquoted : AttrValue → Prop
  | text s => '\x22' ∉ s.toList
  | _ => True

instance (v : AttrValue) : Decidable v.Unquoted :=
  match v with
  | .text s => inferInstanceAs (Decidable ('\x22' ∉ s.toList))
  | .integer _ | .float _ | .flag _ | .token _ => inferInstanceAs (Decidable True)

theorem Schema.IsStandard.wordsOnly {schema : Schema} (h : schema.IsStandard) :
    WordsOnly schema := by
  cases h with
  | rootGraph => exact wordsOnly_rootGraph
  | subgraph => exact wordsOnly_subgraph
  | defaults kind => exact wordsOnly_defaults kind

namespace AttrTable

def Unquoted (t : AttrTable) : Prop :=
  ∀ entry ∈ t.entries, entry.2.Unquoted

instance (t : AttrTable) : Decidable t.Unquoted :=
  inferInstanceAs (Decidable (∀ _ ∈ t.entries, _))

theorem Lawful.isWord_entry {t : AttrTable} (h : t.Lawful) {entry : String × AttrValue}
    (he : entry ∈ t.entries) :
    IsWord entry.1.toList ∧ ((∃ s, entry.2 = .text s) ∨ IsWord entry.2.written.toList) := by
  obtain ⟨spec, hspec, htakes⟩ := h.sound.declared entry he
  obtain ⟨hkey, htokens⟩ := h.standard.wordsOnly _ (Entries.mem_of_get? hspec)
  refine ⟨hkey, ?_⟩
  cases hv : entry.2 with
  | text s => exact .inl ⟨s, rfl⟩
  | integer n => exact .inr (isWord_toString_int n)
  | float x => exact .inr (isWord_numeral x)
  | flag b => exact .inr (isWord_flag b)
  | token t =>
    rw [hv] at htakes
    cases hd : spec.domain with
    | choices v =>
      rw [hd] at htakes
      exact .inr (htokens v (by simp [hd, AttrDomain.vocabulary?]) t htakes)
    | strings => simp [hd, AttrDomain.Takes] at htakes
    | numbers => simp [hd, AttrDomain.Takes] at htakes
    | flags => simp [hd, AttrDomain.Takes] at htakes

theorem Lawful.legible {t : AttrTable} (h : t.Lawful) (hq : t.Unquoted) : t.Legible := by
  intro entry he
  obtain ⟨hkey, hvalue⟩ := h.isWord_entry he
  refine ⟨hkey, ?_⟩
  have hunquoted := hq entry he
  cases hv : entry.2 with
  | text s =>
    rw [hv] at hunquoted
    exact hunquoted
  | _ =>
    have hword : IsWord entry.2.written.toList := by simpa [hv] using hvalue
    rwa [hv] at hword

end AttrTable

/-! ### Tables below a root graph -/

section

variable {operator : EdgeOperator}

mutual

theorem Item.lawful_tables : ∀ {x : Item}, x.Proper operator → ∀ t ∈ x.tables, t.Lawful
  | .node _ _, h => by
    simp only [Item.tables, List.mem_singleton, forall_eq]
    exact h
  | .edge tail head _ _, ⟨htail, hhead, _, hattrs⟩ => by
    simp only [Item.tables, List.mem_append, List.mem_singleton, or_imp, forall_and, forall_eq]
    exact ⟨⟨Endpoint.lawful_tables htail, Endpoint.lawful_tables hhead⟩, hattrs⟩
  | .defaults kind _ _, ⟨_, hattrs⟩ => by
    simp only [Item.tables, List.mem_singleton, forall_eq]
    exact hattrs.lawful (.defaults kind)
  | .subgraph _, h => Outline.lawful_tables h

theorem Endpoint.lawful_tables : ∀ {e : Endpoint}, e.Proper operator → ∀ t ∈ e.tables, t.Lawful
  | .node _, _ => by simp [Endpoint.tables]
  | .subgraph _, h => Outline.lawful_tables h

theorem Outline.lawful_tables : ∀ {o : Outline}, o.Proper operator → ∀ t ∈ o.tables, t.Lawful
  | ⟨_, _⟩, ⟨_, hattrs, hitems⟩ => by
    simp only [Outline.tables, List.mem_cons, or_imp, forall_and, forall_eq]
    exact ⟨hattrs.lawful .subgraph, lawful_itemTables hitems⟩

theorem lawful_itemTables : ∀ {items : List Item}, properItems operator items →
    ∀ t ∈ itemTables items, t.Lawful
  | [], _ => by simp [itemTables]
  | _ :: _, ⟨hx, hrest⟩ => by
    simp only [itemTables, List.mem_append, or_imp, forall_and]
    exact ⟨Item.lawful_tables hx, lawful_itemTables hrest⟩

end

end

/-! ### The first line -/

/-- The word with which the text of a graph of one direction or the other starts. -/
def graphWord (directed : Bool) : String :=
  if directed then "digraph" else "graph"

theorem keyword?_ofDirected (directed : Bool) :
    (EdgeOperator.ofDirected directed).keyword? = some (graphWord directed) := by
  cases directed <;> rfl

theorem isWord_graphWord (directed : Bool) : IsWord (graphWord directed).toList := by
  cases directed <;> decide

theorem isWord_strict : IsWord "strict".toList := by decide

theorem graphWord_ne_strict (directed : Bool) : graphWord directed ≠ "strict" := by
  cases directed <;> decide

theorem graphWord_inj {directed directed' : Bool} (h : graphWord directed = graphWord directed') :
    directed = directed' := by
  cases directed <;> cases directed' <;> simp_all [graphWord]

namespace Dot

theorem toList_rootHead (word : String) (name : Option Identifier) (strict : Bool) :
    (rootHead word name strict).toList =
      (if strict then "strict".toList ++ [' '] else []) ++
        (word.toList ++ ' ' :: (nameText name ++ ['\x7b'])) := by
  have hstrict : "strict ".toList = "strict".toList ++ [' '] := by decide
  have hspace : " ".toList = [' '] := rfl
  cases strict <;> cases name <;> simp [rootHead, nameText, hstrict, hspace]

theorem rootHead_append_inj {directed directed' strict strict' : Bool}
    {name name' : Option Identifier} {r r' : List Char}
    (h : (rootHead (graphWord directed) name strict).toList ++ r =
      (rootHead (graphWord directed') name' strict').toList ++ r') :
    strict = strict' ∧ directed = directed' ∧ name = name' ∧ r = r' := by
  have hspace : isWordChar ' ' = false := by decide
  have behind : ∀ {q q' : List Char},
      (graphWord directed).toList ++ ' ' :: (nameText name ++ '\x7b' :: q) =
        (graphWord directed').toList ++ ' ' :: (nameText name' ++ '\x7b' :: q') →
      directed = directed' ∧ name = name' ∧ q = q' := by
    intro q q' hq
    obtain ⟨hword, hrest⟩ := word_append_inj (isWord_graphWord directed)
      (isWord_graphWord directed') (breaks_cons hspace _) (breaks_cons hspace _) hq
    exact ⟨graphWord_inj (String.toList_inj.1 hword),
      nameText_append_inj (List.cons.inj hrest).2⟩
  have strictOnly : ∀ (directed : Bool) (q q' : List Char),
      "strict".toList ++ ' ' :: q ≠ (graphWord directed).toList ++ ' ' :: q' := by
    intro directed q q' hq
    have hword := (word_append_inj isWord_strict (isWord_graphWord directed)
      (breaks_cons hspace _) (breaks_cons hspace _) hq).1
    exact graphWord_ne_strict directed (String.toList_inj.1 hword).symm
  rw [toList_rootHead, toList_rootHead] at h
  cases strict <;> cases strict' <;>
    simp only [Bool.false_eq_true, if_true, if_false, List.nil_append, List.append_assoc,
      List.cons_append] at h
  · exact ⟨rfl, behind h⟩
  · exact absurd h.symm (strictOnly directed _ _)
  · exact absurd h (strictOnly directed' _ _)
  · exact ⟨rfl, behind (List.cons.inj (List.append_cancel_left h)).2⟩

/-! ### Attributes and statements of the root graph -/

variable (c : RenderConfig)

theorem toList_root (word : String) (g : RootOutline) :
    (root c word g).toList =
      (rootHead word g.body.header.name g.strict.counts).toList ++
        (linesText (rootAttributes c g.body.header.attrs) ++
          (linesText (itemList c 1 g.body.items) ++ ['\n', '\x7d', '\n'])) := by
  simp only [root, String.toList_append, toList_lines, linesText_append, linesText_cons,
    linesText_nil, List.append_assoc]
  rfl

theorem linesText_rootAttributes_of_isEmpty {t : AttrTable} (ht : t.isEmpty = true) :
    linesText (rootAttributes c t) = [] := by
  simp [rootAttributes, ht]

theorem linesText_rootAttributes {t : AttrTable} (ht : t.isEmpty = false) :
    linesText (rootAttributes c t) = entriesText '\n' (indentText c 1) t.entries ++ ['\n'] := by
  have hsep : "\n".toList = ['\n'] := rfl
  have h := cons_written hsep ht 1 c.indent
  rw [indentText, indent, ← h]
  simp [rootAttributes, ht]

theorem noEntry_emptyLine (items : List Item) :
    NoEntry '\n' (indentText c 1)
      ('\n' :: (linesText (itemList c 1 items) ++ ['\n', '\x7d', '\n'])) := by
  intro w rest hw h
  obtain ⟨q, hq⟩ := exists_lines_cons (itemList c 1 items) ['\x7d', '\n']
  rw [hq] at h
  exact (isBlank_indentText c 1).append_word_ne hw (by decide) (by decide) (by decide)
    (List.cons.inj h).2.symm

theorem entriesText_append_ne {t : AttrTable} (hl : t.Legible) (ht : t.isEmpty = false)
    {lead r r' : List Char} (hr : NoEntry '\n' lead r') :
    entriesText '\n' lead t.entries ++ r ≠ r' := by
  cases he : t.entries with
  | nil => simp [AttrTable.isEmpty, he] at ht
  | cons entry rest =>
    have h := hr _ (entry.2.written.toList ++ (entriesText '\n' lead rest ++ r))
      (hl entry (by simp [he])).1
    intro heq
    refine h ?_
    rw [← heq]
    simp [entriesText, entryText]

variable {c} {directed : Bool} {t t' : AttrTable} {items items' : List Item}

theorem noItem_end (c : RenderConfig) : NoItem (indentText c 1) ['\n', '\x7d', '\n'] := by
  have hlead : indentText c 1 = [] ++ indentText c 1 := rfl
  exact noItem_closing hlead (isBlank_indentText c 1) ['\n']

theorem rootItems_inj (hi : ReadableItems directed items) (hi' : ReadableItems directed items')
    (h : linesText (itemList c 1 items) ++ ['\n', '\x7d', '\n'] =
      linesText (itemList c 1 items') ++ ['\n', '\x7d', '\n']) :
    itemsToJson (itemsInTexts items) = itemsToJson (itemsInTexts items') := by
  exact (itemsRead items 1 hi items' _ _ hi' (noItem_end c) (noItem_end c) h).1

theorem rootBody_inj (ht : t.Legible) (ht' : t'.Legible) (hi : ReadableItems directed items)
    (hi' : ReadableItems directed items')
    (h : linesText (rootAttributes c t) ++
        (linesText (itemList c 1 items) ++ ['\n', '\x7d', '\n']) =
      linesText (rootAttributes c t') ++
        (linesText (itemList c 1 items') ++ ['\n', '\x7d', '\n'])) :
    t.inTexts.toJson = t'.inTexts.toJson ∧
      itemsToJson (itemsInTexts items) = itemsToJson (itemsInTexts items') := by
  have hlead : indentText c 1 = indentText c 1 ++ [] := (List.append_nil _).symm
  have hnext : ∀ {items : List Item}, ReadableItems directed items → NoEntry '\n' (indentText c 1)
      (linesText (itemList c 1 items) ++ ['\n', '\x7d', '\n']) :=
    fun hi => noEntry_items c 1 hlead (by simp [IsBlank]) hi (noItem_end c)
  have hbreak : isWordChar '\n' = false := by decide
  cases he : t.isEmpty <;> cases he' : t'.isEmpty
  · rw [linesText_rootAttributes c he, linesText_rootAttributes c he', List.append_assoc,
      List.append_assoc] at h
    obtain ⟨hmap, hrest⟩ := entriesText_append_inj hbreak ht ht' (breaks_cons hbreak _)
      (breaks_cons hbreak _) (noEntry_emptyLine c items) (noEntry_emptyLine c items') h
    exact ⟨toJson_inTexts_eq hmap, rootItems_inj hi hi' (List.cons.inj hrest).2⟩
  · rw [linesText_rootAttributes c he, linesText_rootAttributes_of_isEmpty c he',
      List.append_assoc] at h
    exact absurd h (entriesText_append_ne ht he (hnext hi'))
  · rw [linesText_rootAttributes c he', linesText_rootAttributes_of_isEmpty c he,
      List.append_assoc] at h
    exact absurd h.symm (entriesText_append_ne ht' he' (hnext hi))
  · rw [linesText_rootAttributes_of_isEmpty c he, linesText_rootAttributes_of_isEmpty c he'] at h
    exact ⟨toJson_inTexts_eq (by simp [entries_eq_nil he, entries_eq_nil he']),
      rootItems_inj hi hi' h⟩

end Dot

/-! ### Whole graphs -/

namespace RootOutline

def tables (g : RootOutline) : List AttrTable :=
  g.body.tables

/-- The outline with every attribute value replaced by the text under which it is written. -/
def inTexts (g : RootOutline) : RootOutline :=
  { g with body := g.body.inTexts }

variable {g g' : RootOutline} {strict directed : Bool}

theorem Proper.readable (h : g.Proper strict directed) (hq : ∀ t ∈ g.tables, t.Unquoted) :
    g.body.header.attrs.Legible ∧ ReadableItems directed g.body.items := by
  obtain ⟨⟨header, items⟩, s⟩ := g
  simp only [tables, Outline.tables, List.mem_cons, or_imp, forall_and, forall_eq] at hq
  exact ⟨(h.attrs.lawful .rootGraph).legible hq.1, h.items,
    fun t ht => (lawful_itemTables h.items t ht).legible (hq.2 t ht)⟩

theorem Proper.toJson?_inTexts (h : g.Proper strict directed) :
    g.inTexts.toJson? = some (.object [("name", .ofName g.body.header.name),
      ("strict", .flag strict), ("directed", .flag directed),
      ("attrs", g.body.header.attrs.inTexts.toJson),
      ("statements", .array (itemsToJson (itemsInTexts g.body.items)))]) := by
  obtain ⟨⟨⟨source, name, operator, attrs⟩, items⟩, s⟩ := g
  obtain ⟨rfl, rfl, -, -⟩ := h
  cases directed <;> rfl

theorem toJson?_inTexts_of_root_eq {strict' directed' : Bool} (h : g.Proper strict directed)
    (h' : g'.Proper strict' directed') (hq : ∀ t ∈ g.tables, t.Unquoted)
    (hq' : ∀ t ∈ g'.tables, t.Unquoted) {c : RenderConfig}
    (ht : Dot.root c (graphWord directed) g = Dot.root c (graphWord directed') g') :
    g.inTexts.toJson? = g'.inTexts.toJson? := by
  obtain ⟨hattrs, hitems⟩ := h.readable hq
  obtain ⟨hattrs', hitems'⟩ := h'.readable hq'
  have htext := congrArg String.toList ht
  rw [Dot.toList_root, Dot.toList_root, h.strict_eq, h'.strict_eq, Datum.counts_flag,
    Datum.counts_flag] at htext
  obtain ⟨rfl, rfl, hname, hbody⟩ := Dot.rootHead_append_inj htext
  obtain ⟨htable, hjson⟩ := Dot.rootBody_inj hattrs hattrs' hitems hitems' hbody
  rw [h.toJson?_inTexts, h'.toJson?_inTexts, hname, htable, hjson]

end RootOutline

namespace Store

variable {σ σ' : Store}

theorem keyword?_eq {r : RootId} {g : RootOutline} {strict directed : Bool}
    (hg : σ.rootOutline? r = some g) (hp : g.Proper strict directed) :
    σ.keyword? r = some (graphWord directed) := by
  obtain ⟨root, hr, ho, -⟩ := eq_some_of_rootOutline? hg
  obtain ⟨body, hbody, hheader, -⟩ := eq_some_of_bodyWith? (b := .root r) ho
  obtain rfl : root.body = body := by simpa [body?, hr] using hbody
  have hop := hp.operator_eq
  rw [hheader] at hop
  simp only [keyword?, hr, Option.bind_some]
  rw [show root.body.operator = .ofDirected directed from hop, keyword?_ofDirected]

theorem dot?_eq {r : RootId} {g : RootOutline} {strict directed : Bool}
    (hg : σ.rootOutline? r = some g) (hp : g.Proper strict directed) (c : RenderConfig) :
    σ.dot? r c = some (Dot.root c (graphWord directed) g) := by
  simp [dot?, keyword?_eq hg hp, hg]

/-- Root graphs of reachable stores in which no text holds a double quote: if some configuration
writes two of them alike, their JSON views are there and the same, once every value is replaced by
its text. -/
theorem views_eq_of_dot?_eq (h : σ.Reachable) (h' : σ'.Reachable) {r r' : RootId}
    {g g' : RootOutline} (hg : σ.rootOutline? r = some g) (hg' : σ'.rootOutline? r' = some g')
    (hq : ∀ t ∈ g.tables, t.Unquoted) (hq' : ∀ t ∈ g'.tables, t.Unquoted) (c : RenderConfig)
    (ht : σ.dot? r c = σ'.dot? r' c) :
    ∃ view, g.inTexts.toJson? = some view ∧ g'.inTexts.toJson? = some view := by
  obtain ⟨strict, directed, hp⟩ := h.proper hg
  obtain ⟨strict', directed', hp'⟩ := h'.proper hg'
  rw [dot?_eq hg hp c, dot?_eq hg' hp' c] at ht
  have hview := RootOutline.toJson?_inTexts_of_root_eq hp hp' hq hq' (Option.some.inj ht)
  exact ⟨_, hp.toJson?_inTexts, hview ▸ hp.toJson?_inTexts⟩

def plainRun : List Call :=
  [.graph (.text "g") true false
    [.ask (.set (.root ⟨0⟩) [("rankdir", .text "LR")]),
      .ask (.insert (.root ⟨0⟩) (.node (.text "a") .absent)
        [("label", .text "x\n\x7d"), ("width", .integer 2)]),
      .ask (.insert (.root ⟨0⟩) (.edge (.datum (.text "a")) (.datum (.text "b"))) [])] none]

/-- The same graph made step by step, with a value that is removed again. -/
def detourRun : List Call :=
  [.ask (.newRoot (.text "g") true false), .ask (.newSubgraph .absent true),
    .ask (.insert (.root ⟨0⟩) (.node (.text "a") .absent)
      [("shape", .text "box"), ("label", .text "x\n\x7d")]),
    .ask (.insert (.root ⟨0⟩) (.edge (.datum (.text "a")) (.datum (.text "b"))) []),
    .ask (.edit (.statement ⟨0⟩) (.unset (.text "shape"))),
    .ask (.set (.statement ⟨0⟩) [("width", .integer 2)]),
    .ask (.set (.root ⟨0⟩) [("rankdir", .text "LR")])]

theorem isSome_plainRun : ((empty.after plainRun).rootOutline? ⟨0⟩).isSome = true := by
  decide +kernel

theorem isSome_detourRun : ((empty.after detourRun).rootOutline? ⟨0⟩).isSome = true := by
  decide +kernel

theorem views_eq_after_detour :
    ∃ g g' view, (empty.after plainRun).rootOutline? ⟨0⟩ = some g ∧
      (empty.after detourRun).rootOutline? ⟨0⟩ = some g' ∧
      g.inTexts.toJson? = some view ∧ g'.inTexts.toJson? = some view := by
  have hg := Option.eq_some_of_isSome isSome_plainRun
  have hg' := Option.eq_some_of_isSome isSome_detourRun
  obtain ⟨view, hview, hview'⟩ := views_eq_of_dot?_eq ⟨plainRun, rfl⟩ ⟨detourRun, rfl⟩ hg hg'
    (by decide +kernel) (by decide +kernel) .default (by decide +kernel)
  exact ⟨_, _, view, hg, hg', hview, hview'⟩

end Store

end DotGraph
