import DotGraph.Proofs.Numerals
import DotGraph.Proofs.Outcomes

/-!
The grammar of identifiers.  Names, numerals and the words of the graph language are described by
what they are made of; the check accepts what the grammar derives, and only that makes a node id, a
root graph or a subgraph.
-/

namespace DotGraph

open Text

namespace Identifier

/-! ### The grammar -/

/-- A letter, small as it is or the capital to it. -/
def SameLetter (c small : Char) : Prop :=
  c = small ∨ 'A' ≤ c ∧ c ≤ 'Z' ∧ c.toNat + 32 = small.toNat

def SpellsKeyword (text : List Char) : Prop :=
  ∃ word ∈ ["node", "edge", "graph", "digraph", "subgraph", "strict"],
    List.Forall₂ SameLetter text word.toList

def Digit (c : Char) : Prop :=
  '0' ≤ c ∧ c ≤ '9'

def NameStart (c : Char) : Prop :=
  ('A' ≤ c ∧ c ≤ 'Z') ∨ ('a' ≤ c ∧ c ≤ 'z') ∨ c = '_' ∨ ('\u0080' ≤ c ∧ c ≤ '\uffff')

def SpellsName (text : List Char) : Prop :=
  ∃ c rest, text = c :: rest ∧ NameStart c ∧ ∀ d ∈ rest, NameStart d ∨ Digit d

/-- Digits behind a point, digits alone, or digits in front of a point and any behind it. -/
inductive SpellsUnsigned : List Char → Prop
  | fraction {digits : List Char} (hne : digits ≠ []) (h : ∀ c ∈ digits, Digit c) :
    SpellsUnsigned ('.' :: digits)
  | whole {digits : List Char} (hne : digits ≠ []) (h : ∀ c ∈ digits, Digit c) :
    SpellsUnsigned digits
  | mixed {whole fraction : List Char} (hne : whole ≠ []) (hwhole : ∀ c ∈ whole, Digit c)
    (hfraction : ∀ c ∈ fraction, Digit c) : SpellsUnsigned (whole ++ '.' :: fraction)

def SpellsNumeral (text : List Char) : Prop :=
  SpellsUnsigned text ∨ ∃ rest, text = '-' :: rest ∧ SpellsUnsigned rest

/-- What the grammar derives: a name or a numeral that is no word of the graph language. -/
def Spells (text : List Char) : Prop :=
  ¬ SpellsKeyword text ∧ (SpellsName text ∨ SpellsNumeral text)

/-! ### Characters -/

theorem isDigit_iff (c : Char) : isDigit c = true ↔ Digit c := by
  simp only [isDigit, Digit, Bool.and_eq_true, decide_eq_true_eq, Char.le_def,
    UInt32.le_iff_toNat_le]
  exact Iff.rfl

theorem isNameStart_iff (c : Char) : isNameStart c = true ↔ NameStart c := by
  simp only [isNameStart, NameStart, Bool.or_eq_true, Bool.and_eq_true, decide_eq_true_eq,
    beq_iff_eq, Char.le_def, UInt32.le_iff_toNat_le, or_assoc]
  exact Iff.rfl

theorem isNamePart_iff (c : Char) : isNamePart c = true ↔ NameStart c ∨ Digit c := by
  rw [isNamePart, Bool.or_eq_true, isNameStart_iff, isDigit_iff]

theorem toLower_of_capital {c : Char} (h : 'A' ≤ c ∧ c ≤ 'Z') :
    c.toLower.toNat = c.toNat + 32 := by
  have hhigh : c.val.toNat ≤ 90 := UInt32.le_iff_toNat_le.1 h.2
  have hval : c.toLower.val = c.val + 32 := by
    unfold Char.toLower
    exact congrArg Char.val (dif_pos h)
  change c.toLower.val.toNat = c.val.toNat + 32
  rw [hval, UInt32.toNat_add]
  change (c.val.toNat + 32) % 2 ^ 32 = c.val.toNat + 32
  omega

theorem toLower_of_not_capital {c : Char} (h : ¬ ('A' ≤ c ∧ c ≤ 'Z')) : c.toLower = c := by
  unfold Char.toLower
  exact dif_neg h

theorem toLower_eq_iff {small : Char} (h : small.toLower = small) (c : Char) :
    c.toLower = small ↔ SameLetter c small := by
  by_cases hc : 'A' ≤ c ∧ c ≤ 'Z'
  · have hne : c ≠ small := by
      rintro rfl
      have hlower := toLower_of_capital hc
      rw [h] at hlower
      omega
    rw [← Char.toNat_inj, toLower_of_capital hc, SameLetter]
    simp [hne, hc]
  · rw [toLower_of_not_capital hc, SameLetter]
    refine ⟨.inl, ?_⟩
    rintro (heq | ⟨hlow, hhigh, -⟩)
    · exact heq
    · exact absurd ⟨hlow, hhigh⟩ hc

/-! ### Keywords, names and numerals -/

theorem map_toLower_eq_iff {word : List Char} (hword : ∀ w ∈ word, w.toLower = w)
    (text : List Char) : text.map Char.toLower = word ↔ List.Forall₂ SameLetter text word := by
  induction word generalizing text with
  | nil => cases text <;> simp
  | cons w word ih =>
    have hw : w.toLower = w := hword w (by simp)
    cases text with
    | nil => simp
    | cons c text =>
      rw [List.map_cons, List.cons.injEq, List.forall₂_cons, toLower_eq_iff hw,
        ih (fun w h => hword w (by simp [h]))]

theorem isKeyword_iff (text : List Char) : isKeyword text = true ↔ SpellsKeyword text := by
  have hsmall : ∀ word ∈ keywords, ∀ w ∈ word.toList, w.toLower = w := by
    have hall : (keywords.all fun word => word.toList.all fun w => w.toLower == w) = true := by
      decide
    simpa only [List.all_eq_true, beq_iff_eq] using hall
  simp only [isKeyword, List.any_eq_true, beq_iff_eq]
  refine exists_congr fun word => and_congr_right fun hword => ?_
  exact map_toLower_eq_iff (hsmall word hword) text

theorem isName_iff (text : List Char) : isName text = true ↔ SpellsName text := by
  cases text with
  | nil => simp [isName, SpellsName]
  | cons c rest =>
    simp only [isName, SpellsName, Bool.and_eq_true, List.all_eq_true, isNameStart_iff,
      isNamePart_iff, List.cons.injEq]
    constructor
    · rintro ⟨hc, hrest⟩
      exact ⟨c, rest, ⟨rfl, rfl⟩, hc, hrest⟩
    · rintro ⟨c', rest', ⟨rfl, rfl⟩, hc, hrest⟩
      exact ⟨hc, hrest⟩

theorem spellsUnsigned_of_isUnsignedNumeral {text : List Char}
    (h : isUnsignedNumeral text = true) : SpellsUnsigned text := by
  have hsplit := takeDigits_append text
  have hdigits : ∀ c ∈ (takeDigits text).1, Digit c :=
    fun c hc => (isDigit_iff c).1 (isDigit_of_mem_takeDigits hc)
  have hall {fraction : List Char} (h : fraction.all isDigit = true) : ∀ c ∈ fraction, Digit c :=
    fun c hc => (isDigit_iff c).1 (List.all_eq_true.1 h c hc)
  unfold isUnsignedNumeral at h
  rw [← hsplit]
  split at h
  · rename_i fraction heq
    rw [Bool.and_eq_true] at h
    rw [heq]
    exact .fraction (by simpa using h.1) (hall h.2)
  · rename_i c whole heq
    rw [heq, List.append_nil]
    exact .whole (by simp) (by simpa [heq] using hdigits)
  · rename_i c whole fraction heq
    rw [heq]
    exact .mixed (by simp) (by simpa [heq] using hdigits) (hall h)
  · cases h

theorem isUnsignedNumeral_of_spellsUnsigned {text : List Char} (h : SpellsUnsigned text) :
    isUnsignedNumeral text = true := by
  have hall {digits : List Char} (h : ∀ c ∈ digits, Digit c) : ∀ c ∈ digits, isDigit c = true :=
    fun c hc => (isDigit_iff c).2 (h c hc)
  cases h with
  | @fraction digits hne h =>
    have htake : takeDigits ('.' :: digits) = ([], '.' :: digits) :=
      takeDigits_append_of_stops (w := []) (by simp) (by simp [isDigit])
    simp only [isUnsignedNumeral, htake, Bool.and_eq_true, List.all_eq_true]
    exact ⟨by simpa using hne, hall h⟩
  | whole hne h =>
    obtain ⟨c, rest, rfl⟩ := List.exists_cons_of_ne_nil hne
    simp only [isUnsignedNumeral, Decimal.takeDigits_of_digits (hall h)]
  | @mixed whole fraction hne hwhole hfraction =>
    obtain ⟨c, rest, rfl⟩ := List.exists_cons_of_ne_nil hne
    have htake : takeDigits (c :: rest ++ '.' :: fraction) = (c :: rest, '.' :: fraction) :=
      takeDigits_append_of_stops (hall hwhole) (by simp [isDigit])
    simp only [isUnsignedNumeral, htake, List.all_eq_true]
    exact hall hfraction

theorem isUnsignedNumeral_iff (text : List Char) :
    isUnsignedNumeral text = true ↔ SpellsUnsigned text :=
  ⟨spellsUnsigned_of_isUnsignedNumeral, isUnsignedNumeral_of_spellsUnsigned⟩

theorem not_spellsUnsigned_minus (rest : List Char) : ¬ SpellsUnsigned ('-' :: rest) := by
  rw [← isUnsignedNumeral_iff]
  have htake : takeDigits ('-' :: rest) = ([], '-' :: rest) :=
    takeDigits_append_of_stops (w := []) (by simp) (by simp [isDigit])
  simp [isUnsignedNumeral, htake]

theorem isNumeral_iff (text : List Char) : isNumeral text = true ↔ SpellsNumeral text := by
  unfold isNumeral SpellsNumeral
  split
  · rename_i rest
    rw [isUnsignedNumeral_iff]
    simp [not_spellsUnsigned_minus]
  · rename_i text hne
    rw [isUnsignedNumeral_iff]
    refine ⟨.inl, ?_⟩
    rintro (h | ⟨rest, rfl, -⟩)
    · exact h
    · exact absurd rfl (hne rest)

theorem isIdentifier_iff (text : String) : isIdentifier text = true ↔ Spells text.toList := by
  simp only [isIdentifier, Spells, Bool.and_eq_true, Bool.not_eq_true', Bool.or_eq_true,
    isName_iff, isNumeral_iff, ← isKeyword_iff, Bool.not_eq_true]

/-! ### The characters of identifiers -/

/-- The characters that separate and enclose in a graph text. -/
def separators : List Char :=
  [' ', '\t', '\n', ':', '\x22', '[', ']', '\x7b', '\x7d', '(', ')', '<', '>', ',', '=']

theorem mem_of_spellsUnsigned {text : List Char} (h : SpellsUnsigned text) {c : Char}
    (hc : c ∈ text) : c = '.' ∨ Digit c := by
  cases h with
  | fraction _ h =>
    rcases List.mem_cons.1 hc with rfl | hc
    · exact .inl rfl
    · exact .inr (h c hc)
  | whole _ h => exact .inr (h c hc)
  | mixed _ hwhole hfraction =>
    rcases List.mem_append.1 hc with hc | hc
    · exact .inr (hwhole c hc)
    rcases List.mem_cons.1 hc with rfl | hc
    · exact .inl rfl
    · exact .inr (hfraction c hc)

/-- An identifier is made of the characters of names, a point and a minus sign. -/
theorem mem_of_spells {text : List Char} (h : Spells text) {c : Char} (hc : c ∈ text) :
    NameStart c ∨ Digit c ∨ c = '.' ∨ c = '-' := by
  obtain ⟨-, ⟨first, rest, rfl, hfirst, hrest⟩ | h | ⟨rest, rfl, h⟩⟩ := h
  · rcases List.mem_cons.1 hc with rfl | hc
    · exact .inl hfirst
    · rcases hrest c hc with h | h
      · exact .inl h
      · exact .inr (.inl h)
  · rcases mem_of_spellsUnsigned h hc with h | h
    · exact .inr (.inr (.inl h))
    · exact .inr (.inl h)
  · rcases List.mem_cons.1 hc with rfl | hc
    · exact .inr (.inr (.inr rfl))
    rcases mem_of_spellsUnsigned h hc with h | h
    · exact .inr (.inr (.inl h))
    · exact .inr (.inl h)

theorem notMem_separators_of_spells {text : List Char} (h : Spells text) {c : Char}
    (hc : c ∈ text) : c ∉ separators ∧ c.toNat ≤ 0xFFFF := by
  have hpart : isNamePart c = true ∨ c = '.' ∨ c = '-' := by
    rw [isNamePart_iff, or_assoc]
    exact mem_of_spells h hc
  have hword : separators.all (fun s => !isNamePart s && s != '.' && s != '-') = true := by decide
  constructor
  · intro hmem
    have hs := List.all_eq_true.1 hword c hmem
    simp only [Bool.and_eq_true, Bool.not_eq_true', bne_iff_ne] at hs
    obtain ⟨⟨hname, hpoint⟩, hminus⟩ := hs
    simp [hname, hpoint, hminus] at hpart
  · rcases hpart with hpart | rfl | rfl
    · simp only [isNamePart, isNameStart, isDigit, Bool.or_eq_true, Bool.and_eq_true,
        decide_eq_true_eq, beq_iff_eq] at hpart
      rcases hpart with ((((h | h) | rfl) | h) | h)
      · omega
      · omega
      · decide
      · omega
      · omega
    · decide
    · decide

/-! ### Making things with a name -/

theorem graphName_of_isIdentifier {text : String} (h : isIdentifier text = true) :
    graphName (.text text) = .ok (some ⟨text, h⟩) := by
  simp [graphName, ofDatum?, ofText?, h]

theorem graphName_of_not_isIdentifier {text : String} (h : isIdentifier text = false) :
    graphName (.text text) = .error (.graphName (.text text)) := by
  simp [graphName, ofDatum?, (ofText?_eq_none_iff text).2 h]

theorem refused_of_not_isIdentifier {text : String} (h : isIdentifier text = false)
    (port strict : Datum) (operator : EdgeOperator) (σ : Store) :
    NodeId.ofDatum (.text text) port = .error (.nodeName (.text text)) ∧
    (Build.newRoot (.text text) strict operator).Fails σ (.naming (.graphName (.text text))) σ ∧
    (Build.newSubgraph (.text text) operator).Fails σ (.naming (.graphName (.text text))) σ := by
  refine ⟨?_, ?_, ?_⟩
  · simp [NodeId.ofDatum, ofDatum?, (ofText?_eq_none_iff text).2 h]
  · simp only [Build.newRoot, graphName_of_not_isIdentifier h]
    rfl
  · simp only [Build.newSubgraph, graphName_of_not_isIdentifier h]
    rfl

theorem made_of_isIdentifier {text : String} (h : isIdentifier text = true) (strict : Datum)
    (operator : EdgeOperator) (σ : Store) :
    NodeId.ofDatum (.text text) .absent = .ok ⟨⟨text, h⟩, none⟩ ∧
    (Build.newRoot (.text text) strict operator).Yields σ ⟨σ.roots.size⟩
      (σ.makeRoot (some ⟨text, h⟩) operator strict) ∧
    (Build.newSubgraph (.text text) operator).Yields σ ⟨σ.subgraphs.size⟩
      (σ.makeSubgraph (some ⟨text, h⟩) operator) := by
  refine ⟨?_, Build.yields_newRoot operator (graphName_of_isIdentifier h) σ,
    Build.yields_newSubgraph operator (graphName_of_isIdentifier h) σ⟩
  simp only [NodeId.ofDatum, ofDatum?, ofText?, h, dif_pos]
  rfl

/-- The check accepts what the grammar derives; an accepted text neither separates nor encloses
anything and stays in the basic plane; and a text names a node, a root graph and a subgraph if and
only if it is accepted. -/
theorem accepts_what_is_spelled (text : String) :
    (isIdentifier text = true ↔ Spells text.toList) ∧
    (isIdentifier text = true → ∀ c ∈ text.toList, c ∉ separators ∧ c.toNat ≤ 0xFFFF) ∧
    (∀ h : isIdentifier text = true, ∀ strict operator σ,
      NodeId.ofDatum (.text text) .absent = .ok ⟨⟨text, h⟩, none⟩ ∧
      (Build.newRoot (.text text) strict operator).Yields σ ⟨σ.roots.size⟩
        (σ.makeRoot (some ⟨text, h⟩) operator strict) ∧
      (Build.newSubgraph (.text text) operator).Yields σ ⟨σ.subgraphs.size⟩
        (σ.makeSubgraph (some ⟨text, h⟩) operator)) ∧
    (isIdentifier text = false → ∀ port strict operator σ,
      NodeId.ofDatum (.text text) port = .error (.nodeName (.text text)) ∧
      (Build.newRoot (.text text) strict operator).Fails σ (.naming (.graphName (.text text))) σ ∧
      (Build.newSubgraph (.text text) operator).Fails σ (.naming (.graphName (.text text))) σ) :=
  ⟨isIdentifier_iff text,
    fun h _ hc => notMem_separators_of_spells ((isIdentifier_iff text).1 h) hc,
    fun h strict operator σ => made_of_isIdentifier h strict operator σ,
    fun h port strict operator σ => refused_of_not_isIdentifier h port strict operator σ⟩

/-- A numeral may end with its point, and a word of the language is none in any letters. -/
theorem spells_point_and_not_keyword :
    Spells "-12.".toList ∧ NodeId.ofDatum (.text "-12.") .absent = .ok ⟨⟨"-12.", by decide⟩, none⟩ ∧
    (Build.newRoot (.text "DiGraph") .absent .directed).Fails .empty
      (.naming (.graphName (.text "DiGraph"))) .empty := by
  have hpoint := accepts_what_is_spelled "-12."
  have hword := accepts_what_is_spelled "DiGraph"
  refine ⟨hpoint.1.1 (by decide), ?_, ?_⟩
  · exact (hpoint.2.2.1 (by decide) .absent .directed .empty).1
  · exact (hword.2.2.2 (by decide) .absent .absent .directed .empty).2.1

end Identifier

end DotGraph
