import DotGraph.Dot
import DotGraph.Json.Graph
import DotGraph.Proofs.Words

/-!
The text of attributes, read back.  As long as no quoted text holds a quote, the text of a list of
entries tells where it ends, which keys it has and how each value is written.
-/

namespace DotGraph

open Text

namespace AttrValue

/-- A text that does not hold the quote that ends it, or a value whose text is a word. -/
def Legible : AttrValue → Prop
  | text s => '\x22' ∉ s.toList
  | v => IsWord v.written.toList

theorem toList_written_text (s : String) :
    (text s).written.toList = '\x22' :: (s.toList ++ ['\x22']) := by
  simp [written]

/-- A value is quoted or it is a word. -/
theorem Legible.cases {v : AttrValue} (h : v.Legible) :
    (∃ s : String, v.written.toList = '\x22' :: (s.toList ++ ['\x22']) ∧ '\x22' ∉ s.toList) ∨
      IsWord v.written.toList := by
  cases v with
  | text s => exact .inl ⟨s, toList_written_text s, h⟩
  | integer n => exact .inr h
  | float x => exact .inr h
  | flag b => exact .inr h
  | token t => exact .inr h

theorem isWordChar_quote : isWordChar '\x22' = false := by decide

theorem written_append_inj {v v' : AttrValue} (hv : v.Legible) (hv' : v'.Legible)
    {r r' : List Char} (hr : Breaks r) (hr' : Breaks r')
    (h : v.written.toList ++ r = v'.written.toList ++ r') : v.written = v'.written ∧ r = r' := by
  have key : v.written.toList = v'.written.toList ∧ r = r' := by
    rcases hv.cases with ⟨s, hs, hq⟩ | hw <;> rcases hv'.cases with ⟨s', hs', hq'⟩ | hw'
    · simp only [hs, hs', List.cons_append, List.append_assoc, List.nil_append, List.cons.injEq,
        true_and] at h ⊢
      have hinside : ∀ text : List Char, '\x22' ∉ text → ∀ c ∈ text, (c != '\x22') = true := by
        intro text hq c hc
        have hne : c ≠ '\x22' := fun he => hq (he ▸ hc)
        simpa using hne
      have hinj := append_inj_of_stops (hinside _ hq) (hinside _ hq') (by simp) (by simp) h
      exact ⟨by rw [hinj.1], (List.cons.inj hinj.2).2⟩
    · rw [hs, List.cons_append] at h
      exact absurd h.symm (hw'.append_ne_cons isWordChar_quote)
    · rw [hs', List.cons_append] at h
      exact absurd h (hw.append_ne_cons isWordChar_quote)
    · exact word_append_inj hw hw' hr hr' h
  exact ⟨String.toList_inj.1 key.1, key.2⟩

end AttrValue

namespace AttrTable

/-- A table all of whose keys are words and all of whose values are legible. -/
def Legible (t : AttrTable) : Prop :=
  ∀ entry ∈ t.entries, IsWord entry.1.toList ∧ entry.2.Legible

/-- The table with every value replaced by the text under which it is written. -/
def inTexts (t : AttrTable) : AttrTable :=
  { t with entries := t.entries.map fun entry => (entry.1, .text entry.2.written) }

end AttrTable

namespace Dot

/-! ### Entries behind a separator each -/

variable {sep : Char} {lead : List Char}

def entryText (lead : List Char) (entry : String × AttrValue) : List Char :=
  lead ++ (entry.1.toList ++ '=' :: entry.2.written.toList)

def entriesText (sep : Char) (lead : List Char) (entries : Entries String AttrValue) :
    List Char :=
  entries.flatMap fun entry => sep :: entryText lead entry

/-- A text that does not go on with one more entry. -/
def NoEntry (sep : Char) (lead r : List Char) : Prop :=
  ∀ w rest, IsWord w → r ≠ sep :: (lead ++ (w ++ '=' :: rest))

theorem breaks_entriesText (hsep : isWordChar sep = false) (entries : Entries String AttrValue)
    {r : List Char} (hr : Breaks r) : Breaks (entriesText sep lead entries ++ r) := by
  cases entries with
  | nil => exact hr
  | cons entry rest => exact breaks_cons hsep _

theorem entryText_append_inj {entry entry' : String × AttrValue}
    (he : IsWord entry.1.toList ∧ entry.2.Legible)
    (he' : IsWord entry'.1.toList ∧ entry'.2.Legible) {r r' : List Char} (hr : Breaks r)
    (hr' : Breaks r') (h : entryText lead entry ++ r = entryText lead entry' ++ r') :
    (entry.1, entry.2.written) = (entry'.1, entry'.2.written) ∧ r = r' := by
  have hsplit : entry.1.toList ++ '=' :: (entry.2.written.toList ++ r) =
      entry'.1.toList ++ '=' :: (entry'.2.written.toList ++ r') := by
    simpa [entryText] using h
  have hbreak : isWordChar '=' = false := by decide
  obtain ⟨hkey, hrest⟩ := word_append_inj he.1 he'.1 (breaks_cons hbreak _) (breaks_cons hbreak _)
    hsplit
  obtain ⟨hvalue, hr⟩ := AttrValue.written_append_inj he.2 he'.2 hr hr' (List.cons.inj hrest).2
  exact ⟨by rw [String.toList_inj.1 hkey, hvalue], hr⟩

theorem entriesText_append_inj (hsep : isWordChar sep = false)
    {entries entries' : Entries String AttrValue}
    (he : ∀ entry ∈ entries, IsWord entry.1.toList ∧ entry.2.Legible)
    (he' : ∀ entry ∈ entries', IsWord entry.1.toList ∧ entry.2.Legible) {r r' : List Char}
    (hr : Breaks r) (hr' : Breaks r') (hn : NoEntry sep lead r) (hn' : NoEntry sep lead r')
    (h : entriesText sep lead entries ++ r = entriesText sep lead entries' ++ r') :
    entries.map (fun entry => (entry.1, entry.2.written)) =
        entries'.map (fun entry => (entry.1, entry.2.written)) ∧
      r = r' := by
  induction entries generalizing entries' with
  | nil =>
    cases entries' with
    | nil => exact ⟨rfl, h⟩
    | cons entry rest =>
      refine absurd ?_ (hn _ (entry.2.written.toList ++ (entriesText sep lead rest ++ r'))
        (he' entry (by simp)).1)
      simpa [entriesText, entryText] using h
  | cons entry rest ih =>
    cases entries' with
    | nil =>
      refine absurd ?_ (hn' _ (entry.2.written.toList ++ (entriesText sep lead rest ++ r))
        (he entry (by simp)).1)
      simpa [entriesText, entryText] using h.symm
    | cons entry' rest' =>
      have hsplit : entryText lead entry ++ (entriesText sep lead rest ++ r) =
          entryText lead entry' ++ (entriesText sep lead rest' ++ r') := by
        simpa [entriesText] using h
      obtain ⟨hentry, hrest⟩ := entryText_append_inj (he entry (by simp)) (he' entry' (by simp))
        (breaks_entriesText hsep rest hr) (breaks_entriesText hsep rest' hr') hsplit
      obtain ⟨htail, hr⟩ := ih (fun e hm => he e (by simp [hm])) (fun e hm => he' e (by simp [hm]))
        hrest
      exact ⟨by rw [List.map_cons, List.map_cons, hentry, htail], hr⟩

/-! ### Tables -/

variable {t t' : AttrTable}

theorem toJson_inTexts_eq
    (h : t.entries.map (fun entry => (entry.1, entry.2.written)) =
      t'.entries.map (fun entry => (entry.1, entry.2.written))) :
    t.inTexts.toJson = t'.inTexts.toJson := by
  have he := congrArg (List.map fun pair : String × String => (pair.1, Json.text pair.2)) h
  rw [List.map_map, List.map_map] at he
  simp only [AttrTable.toJson, AttrTable.inTexts, List.map_map]
  exact congrArg Json.object he

/-- A separator in front of joined texts stands in front of each. -/
theorem cons_intercalate (sep : Char) {texts : List (List Char)} (h : texts ≠ []) :
    sep :: [sep].intercalate texts = texts.flatMap (sep :: ·) := by
  induction texts with
  | nil => exact absurd rfl h
  | cons text rest ih =>
    cases rest with
    | nil => simp
    | cons text' rest =>
      rw [List.intercalate_cons_cons, List.flatMap_cons, ← ih (by simp)]
      simp

theorem cons_written {separator : String} (hsep : separator.toList = [sep])
    (ht : t.isEmpty = false) (level : Int) (unit : String) :
    sep :: (t.written level separator unit).toList =
      entriesText sep (indentation level unit).toList t.entries := by
  have hne : t.entries ≠ [] := by
    intro h
    simp [AttrTable.isEmpty, h] at ht
  simp only [AttrTable.written, AttrTable.writtenBehind, String.toList_intercalate, hsep,
    List.map_map]
  rw [cons_intercalate sep (by simpa using hne), List.flatMap_map]
  simp [entriesText, entryText]

variable (c : RenderConfig)

theorem entries_eq_nil (ht : t.isEmpty = true) : t.entries = [] := by
  simpa [AttrTable.isEmpty] using ht

theorem toList_entryList_of_isEmpty (ht : t.isEmpty = true) :
    (entryList c t).toList = ['[', ']'] := by
  simp [entryList, AttrTable.written, AttrTable.writtenBehind, entries_eq_nil ht]

/-- The comma that would stand in front of the first entry makes all entries alike. -/
theorem exists_toList_entryList (hl : t.Legible) (ht : t.isEmpty = false) :
    ∃ text, (entryList c t).toList = '[' :: (text ++ [']']) ∧
      ',' :: text = entriesText ',' [] t.entries ∧ ∃ w rest, IsWord w ∧ text = w ++ rest := by
  have hlead : (indentation 0 c.indent).toList = [] := by simp [indentation]
  have hentries : ',' :: (t.written 0 "," c.indent).toList = entriesText ',' [] t.entries := by
    rw [cons_written rfl ht, hlead]
  refine ⟨(t.written 0 "," c.indent).toList, by simp [entryList], hentries, ?_⟩
  cases he : t.entries with
  | nil => simp [AttrTable.isEmpty, he] at ht
  | cons entry rest =>
    rw [he] at hentries
    exact ⟨_, _, (hl entry (by simp [he])).1, (List.cons.inj hentries).2.trans (by
      simp [entryText]; rfl)⟩

theorem noEntry_of_ne {sep ch : Char} (hne : ch ≠ sep) (lead r : List Char) :
    NoEntry sep lead (ch :: r) :=
  fun _ _ _ h => hne (List.cons.inj h).1

theorem entryList_append_inj (ht : t.Legible) (ht' : t'.Legible) {r r' : List Char}
    (h : (entryList c t).toList ++ r = (entryList c t').toList ++ r') :
    t.inTexts.toJson = t'.inTexts.toJson ∧ r = r' := by
  have hclose : isWordChar ']' = false := by decide
  cases he : t.isEmpty <;> cases he' : t'.isEmpty
  · obtain ⟨text, htext, hentries, -⟩ := exists_toList_entryList c ht he
    obtain ⟨text', htext', hentries', -⟩ := exists_toList_entryList c ht' he'
    have hin : ',' :: text ++ ']' :: r = ',' :: text' ++ ']' :: r' := by
      simpa [htext, htext'] using h
    rw [hentries, hentries'] at hin
    obtain ⟨hmap, hr⟩ := entriesText_append_inj (by decide) ht ht' (breaks_cons hclose r)
      (breaks_cons hclose r') (noEntry_of_ne (by decide) _ r) (noEntry_of_ne (by decide) _ r') hin
    exact ⟨toJson_inTexts_eq hmap, (List.cons.inj hr).2⟩
  · obtain ⟨text, htext, -, w, rest, hw, rfl⟩ := exists_toList_entryList c ht he
    rw [htext, toList_entryList_of_isEmpty c he'] at h
    refine absurd (List.cons.inj h).2 ?_
    simpa using hw.append_ne_cons hclose
  · obtain ⟨text, htext, -, w, rest, hw, rfl⟩ := exists_toList_entryList c ht' he'
    rw [htext, toList_entryList_of_isEmpty c he] at h
    refine absurd (List.cons.inj h).2.symm ?_
    simpa using hw.append_ne_cons hclose
  · have hr : r = r' := by
      simpa [toList_entryList_of_isEmpty c he, toList_entryList_of_isEmpty c he'] using h
    exact ⟨toJson_inTexts_eq (by simp [entries_eq_nil he, entries_eq_nil he']), hr⟩

theorem attrList_append_inj (ht : t.Legible) (ht' : t'.Legible) {r r' : List Char}
    (h : (attrList c t).toList ++ '\n' :: r = (attrList c t').toList ++ '\n' :: r') :
    t.inTexts.toJson = t'.inTexts.toJson ∧ r = r' := by
  have hopen : ∀ t : AttrTable, ∃ rest, (entryList c t).toList = '[' :: rest :=
    fun t => ⟨_, by simp [entryList]; rfl⟩
  unfold attrList at h
  cases he : t.isEmpty <;> cases he' : t'.isEmpty <;>
    simp only [he, he', Bool.false_eq_true, if_false, if_true] at h
  · obtain ⟨hjson, hr⟩ := entryList_append_inj c ht ht' h
    exact ⟨hjson, (List.cons.inj hr).2⟩
  · obtain ⟨rest, hrest⟩ := hopen t
    simp [hrest] at h
  · obtain ⟨rest, hrest⟩ := hopen t'
    simp [hrest] at h
  · have hr : r = r' := by simpa using h
    exact ⟨toJson_inTexts_eq (by simp [entries_eq_nil he, entries_eq_nil he']), hr⟩

end Dot

end DotGraph
