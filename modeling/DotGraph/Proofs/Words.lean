import DotGraph.Attribute.Schema
import DotGraph.RenderConfig
import Mathlib.Data.List.Basic

/-!
Words: the runs of characters that a graph text writes bare.  Names, keys, keywords, ports,
numerals and tokens are words; whatever follows one breaks it off.
-/

namespace DotGraph.Text

def isWordChar (c : Char) : Bool :=
  Identifier.isNamePart c || c == '.' || c == '-'

def IsWord (w : List Char) : Prop :=
  w ≠ [] ∧ ∀ c ∈ w, isWordChar c = true

-- Decided along the list, not by a search through all characters.
instance (w : List Char) : Decidable (IsWord w) :=
  decidable_of_iff ((!w.isEmpty && w.all isWordChar) = true) (by simp [IsWord])

/-- A text that does not go on with the word in front of it. -/
def Breaks (r : List Char) : Prop :=
  ∀ c ∈ r.head?, isWordChar c = false

theorem breaks_cons {c : Char} (h : isWordChar c = false) (r : List Char) : Breaks (c :: r) := by
  simpa [Breaks] using h

theorem takeWhile_append_of_stops {p : Char → Bool} {w r : List Char}
    (hw : ∀ c ∈ w, p c = true) (hr : ∀ c ∈ r.head?, p c = false) : (w ++ r).takeWhile p = w := by
  rw [List.takeWhile_append_of_pos hw]
  cases r with
  | nil => simp
  | cons c r =>
    have hc : p c = false := hr c rfl
    simp [hc]

/-- A run of characters of one class ends where a character of another class follows. -/
theorem append_inj_of_stops {p : Char → Bool} {w w' r r' : List Char}
    (hw : ∀ c ∈ w, p c = true) (hw' : ∀ c ∈ w', p c = true) (hr : ∀ c ∈ r.head?, p c = false)
    (hr' : ∀ c ∈ r'.head?, p c = false) (h : w ++ r = w' ++ r') : w = w' ∧ r = r' := by
  have hws : w = w' := by
    rw [← takeWhile_append_of_stops hw hr, h, takeWhile_append_of_stops hw' hr']
  subst hws
  exact ⟨rfl, List.append_cancel_left h⟩

theorem word_append_inj {w w' r r' : List Char} (hw : IsWord w) (hw' : IsWord w') (hr : Breaks r)
    (hr' : Breaks r') (h : w ++ r = w' ++ r') : w = w' ∧ r = r' :=
  append_inj_of_stops hw.2 hw'.2 hr hr' h

theorem IsWord.exists_cons {w : List Char} (hw : IsWord w) :
    ∃ c rest, w = c :: rest ∧ isWordChar c = true := by
  obtain ⟨hne, hall⟩ := hw
  cases w with
  | nil => exact absurd rfl hne
  | cons c rest => exact ⟨c, rest, rfl, hall c (by simp)⟩

theorem IsWord.append_ne_cons {w r r' : List Char} {c : Char} (hw : IsWord w)
    (hc : isWordChar c = false) : w ++ r ≠ c :: r' := by
  obtain ⟨c', rest, rfl, hc'⟩ := hw.exists_cons
  intro h
  obtain rfl : c' = c := (List.cons.inj h).1
  simp [hc'] at hc

/-! ### Digits and numerals -/

theorem isWordChar_of_isDigit {c : Char} (h : isDigit c = true) : isWordChar c = true := by
  simp [isWordChar, Identifier.isNamePart, h]

theorem isDigit_of_char_isDigit {c : Char} (h : c.isDigit = true) : isDigit c = true := by
  simp only [Char.isDigit, Bool.and_eq_true, decide_eq_true_eq, ge_iff_le,
    UInt32.le_iff_toNat_le] at h
  have hrange : 48 ≤ c.toNat ∧ c.toNat ≤ 57 := h
  simp [isDigit, hrange]

theorem isWordChar_of_mem_toDigits {n : Nat} {c : Char} (h : c ∈ Nat.toDigits 10 n) :
    isWordChar c = true :=
  isWordChar_of_isDigit (isDigit_of_char_isDigit
    (Nat.isDigit_of_mem_toDigits (by decide) (by decide) h))

theorem isWord_toDigits (n : Nat) : IsWord (Nat.toDigits 10 n) :=
  ⟨Nat.toDigits_ne_nil, fun _ => isWordChar_of_mem_toDigits⟩

theorem IsWord.cons {w : List Char} {c : Char} (hc : isWordChar c = true) (hw : IsWord w) :
    IsWord (c :: w) := by
  refine ⟨by simp, fun c' h => ?_⟩
  rcases List.mem_cons.1 h with rfl | h
  · exact hc
  · exact hw.2 c' h

theorem IsWord.append {w w' : List Char} (hw : IsWord w) (hw' : ∀ c ∈ w', isWordChar c = true) :
    IsWord (w ++ w') := by
  refine ⟨by simp [hw.1], fun c h => ?_⟩
  rcases List.mem_append.1 h with h | h
  · exact hw.2 c h
  · exact hw' c h

theorem isWord_toString_int (n : Int) : IsWord (toString n).toList := by
  rw [Int.toString_eq_repr, Int.repr_eq_if]
  split
  · rw [Nat.toList_repr]
    exact isWord_toDigits _
  · rw [String.toList_append, Nat.toList_repr]
    exact .cons (by decide) (isWord_toDigits _)

theorem isWord_positional (d : Decimal) : IsWord d.positional := by
  have hdigits : ∀ c ∈ d.digits, isWordChar c = true := fun c => isWordChar_of_mem_toDigits
  have hunsigned : ∀ w, IsWord w → IsWord (d.signText ++ w) := by
    intro w hw
    unfold Decimal.signText
    split
    · exact .cons (by decide) hw
    · exact hw
  refine hunsigned _ ?_
  split
  · refine (isWord_toDigits _).append fun c h => ?_
    obtain rfl := List.eq_of_mem_replicate h
    decide
  · split
    · refine ⟨by simp, fun c h => ?_⟩
      rcases List.mem_append.1 h with h | h
      · exact hdigits c (List.mem_of_mem_take h)
      · rcases List.mem_cons.1 h with rfl | h
        · decide
        · exact hdigits c (List.mem_of_mem_drop h)
    · refine .cons (by decide) (.cons (by decide) ?_)
      refine ⟨by simp [Decimal.digits, Nat.toDigits_ne_nil], fun c h => ?_⟩
      rcases List.mem_append.1 h with h | h
      · obtain rfl := List.eq_of_mem_replicate h
        decide
      · exact hdigits c h

theorem isWord_numeral (x : Finite64) : IsWord x.numeral.toList := by
  simp only [Finite64.numeral, String.toList_ofList]
  split
  · refine (isWord_positional _).append fun c h => ?_
    split at h
    · have hpoint : ['.', '0'].all isWordChar = true := by decide
      exact List.all_eq_true.1 hpoint c h
    · simp at h
  · exact isWord_positional _

/-! ### Names -/

theorem isWordChar_of_isNamePart {c : Char} (h : Identifier.isNamePart c = true) :
    isWordChar c = true := by
  simp [isWordChar, h]

theorem isWord_of_isName {text : List Char} (h : Identifier.isName text = true) : IsWord text := by
  cases text with
  | nil => simp [Identifier.isName] at h
  | cons c rest =>
    simp only [Identifier.isName, Bool.and_eq_true, List.all_eq_true] at h
    refine ⟨by simp, fun c' hc => isWordChar_of_isNamePart ?_⟩
    rcases List.mem_cons.1 hc with rfl | hc
    · simp [Identifier.isNamePart, h.1]
    · exact h.2 c' hc

theorem isWord_of_isUnsignedNumeral {text : List Char}
    (h : Identifier.isUnsignedNumeral text = true) : IsWord text := by
  have hsplit := takeDigits_append text
  have hfront : ∀ c ∈ (takeDigits text).1, isWordChar c = true :=
    fun c hc => isWordChar_of_isDigit (isDigit_of_mem_takeDigits hc)
  have hfraction : ∀ fraction : List Char, fraction.all isDigit = true →
      ∀ c ∈ '.' :: fraction, isWordChar c = true := by
    intro fraction hall c hc
    rcases List.mem_cons.1 hc with rfl | hc
    · decide
    · exact isWordChar_of_isDigit (List.all_eq_true.1 hall c hc)
  unfold Identifier.isUnsignedNumeral at h
  split at h
  · rename_i fraction heq
    rw [heq] at hsplit
    simp only [Bool.and_eq_true] at h
    exact hsplit ▸ ⟨by simp, fun c hc => hfraction fraction h.2 c (by simpa using hc)⟩
  · rename_i c front heq
    rw [heq] at hsplit hfront
    exact hsplit ▸ ⟨by simp, fun c' hc => hfront c' (by simpa using hc)⟩
  · rename_i front fraction heq
    rw [heq] at hsplit hfront
    refine hsplit ▸ ⟨by simp, fun c hc => ?_⟩
    rcases List.mem_append.1 hc with hc | hc
    · exact hfront c hc
    · exact hfraction fraction h c hc
  · cases h

theorem isWord_name (name : Identifier) : IsWord name.text.toList := by
  have h := name.wellFormed
  simp only [isIdentifier, Bool.and_eq_true, Bool.or_eq_true] at h
  rcases h.2 with h | h
  · exact isWord_of_isName h
  · unfold Identifier.isNumeral at h
    split at h
    · rename_i rest heq
      rw [heq]
      exact .cons (by decide) (isWord_of_isUnsignedNumeral h)
    · exact isWord_of_isUnsignedNumeral h

theorem isWord_port (p : CompassPoint) : IsWord p.text.toList := by
  cases p <;> decide

theorem isWord_kind (kind : DefaultKind) : IsWord kind.text.toList := by
  cases kind <;> decide

theorem isWord_flag (b : Bool) : IsWord (if b then "true" else "false").toList := by
  cases b <;> decide

theorem name_ne_keyword (name : Identifier) {word : String} (h : word ∈ Identifier.keywords) :
    name.text ≠ word := by
  intro he
  have hname := name.wellFormed
  rw [he] at hname
  have hall : ∀ word ∈ Identifier.keywords, isIdentifier word = false := by decide
  simp [hall word h] at hname

/-! ### Keys and tokens -/

/-- Keys and the values of tokens that a schema knows are words. -/
def WordsOnly (schema : Schema) : Prop :=
  ∀ entry ∈ schema, IsWord entry.1.toList ∧
    ∀ v ∈ entry.2.domain.vocabulary?, ∀ t ∈ v.tokens, IsWord t.value.toList

instance (schema : Schema) : Decidable (WordsOnly schema) :=
  decidable_of_iff
    (schema.all (fun entry => decide (IsWord entry.1.toList) &&
      entry.2.domain.vocabulary?.all fun v =>
        v.tokens.all fun t => decide (IsWord t.value.toList)) = true)
    (by simp [WordsOnly, Option.all_eq_true])

theorem wordsOnly_rootGraph : WordsOnly Schema.rootGraph := by decide +kernel

theorem wordsOnly_subgraph : WordsOnly Schema.subgraph := by decide +kernel

theorem wordsOnly_defaults (kind : DefaultKind) : WordsOnly (Schema.defaults kind) := by
  cases kind <;> decide +kernel

end DotGraph.Text
