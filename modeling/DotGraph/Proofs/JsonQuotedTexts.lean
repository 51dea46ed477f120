import DotGraph.Json.Printer
import DotGraph.Json.Reader
import Mathlib.Tactic.IntervalCases

/-!
Quoted texts of the JSON notation.  Each character is written in ASCII, by itself, by a letter
behind a backslash or by its 16-bit units, and what is written for it is read as this character.
-/

namespace DotGraph

namespace Text

theorem hexValue?_hexDigit {n : Nat} (h : n < 16) : hexValue? (hexDigit n) = some n := by
  interval_cases n <;> rfl

namespace Piece

theorem assemble_unit {c : Char} (rest : List Piece) :
    assemble (unit c.toNat :: rest) = char c :: assemble rest := by
  have hvalid : c.toNat < 0xD800 ∨ (0xDFFF < c.toNat ∧ c.toNat < 0x110000) := c.valid
  have hhigh : isHighUnit c.toNat = false := by
    simp only [isHighUnit, Bool.and_eq_false_iff, decide_eq_false_iff_not]
    omega
  have hlow : isLowUnit c.toNat = false := by
    simp only [isLowUnit, Bool.and_eq_false_iff, decide_eq_false_iff_not]
    omega
  have hunit : ofUnit c.toNat = char c := by
    simp [ofUnit, hhigh, hlow, Char.ofNat_toNat]
  match rest with
  | [] => simp [assemble, hunit]
  | char c' :: rest => simp [assemble, hunit]
  | unit n :: rest => simp [assemble, hunit, hhigh]

theorem assemble_pair {high low : Nat} (hhigh : isHighUnit high = true)
    (hlow : isLowUnit low = true) (rest : List Piece) :
    assemble (unit high :: unit low :: rest) = char (ofPair high low) :: assemble rest := by
  simp [assemble, hhigh, hlow]

end Piece

end Text

namespace Json

open Text

theorem hex_eq (n : Nat) : hex 4 n =
    [hexDigit (n / 16 / 16 / 16 % 16), hexDigit (n / 16 / 16 % 16), hexDigit (n / 16 % 16),
      hexDigit (n % 16)] := rfl

theorem pieces?_escapedUnit {n : Nat} (h : n < 0x10000) (rest : List Char) :
    pieces? (escapedUnit n ++ rest) =
      (pieces? rest).map fun found => (.unit n :: found.1, found.2) := by
  have hdigit (m : Nat) : hexValue? (hexDigit (m % 16)) = some (m % 16) :=
    hexValue?_hexDigit (Nat.mod_lt m (by decide))
  have hunit : hexUnit? (hexDigit (n / 16 / 16 / 16 % 16)) (hexDigit (n / 16 / 16 % 16))
      (hexDigit (n / 16 % 16)) (hexDigit (n % 16)) = some n := by
    simp only [hexUnit?, hdigit, Option.pure_def, Option.bind_eq_bind, Option.bind_some,
      Option.some.injEq]
    omega
  rw [escapedUnit, hex_eq]
  simp only [List.cons_append, List.nil_append, pieces?, hunit]
  cases pieces? rest <;> rfl

theorem pieces?_short {e c : Char} (h : shortEscape? e = some c) (rest : List Char) :
    pieces? ('\x5c' :: e :: rest) =
      (pieces? rest).map fun found => (.char c :: found.1, found.2) := by
  have hu : e ≠ 'u' := by
    rintro rfl
    cases h
  rw [pieces?.eq_4 e rest fun _ _ _ _ _ heq _ => hu heq]
  simp only [h, Option.bind_eq_bind, Option.bind_some]
  cases pieces? rest <;> rfl

theorem pieces?_plain {c : Char} (hquote : c ≠ '\x22') (hback : c ≠ '\x5c') (h : 32 ≤ c.toNat)
    (rest : List Char) :
    pieces? (c :: rest) = (pieces? rest).map fun found => (.char c :: found.1, found.2) := by
  have hplain : ¬ (c = '\x5c' ∨ c.toNat < 32) := by
    rintro (heq | hlt)
    · exact hback heq
    · omega
  rw [pieces?.eq_5 c rest hquote (fun _ _ _ _ _ heq _ => hback heq) fun _ _ heq _ => hback heq,
    if_neg hplain]
  cases pieces? rest <;> rfl

/-- Whatever follows, a text is read as pieces that make one character. -/
def ReadsAs (text : List Char) (c : Char) : Prop :=
  ∃ pieces : List Piece,
    (∀ rest, pieces? (text ++ rest) =
      (pieces? rest).map fun found => (pieces ++ found.1, found.2)) ∧
    ∀ more, Piece.assemble (pieces ++ more) = .char c :: Piece.assemble more

theorem readsAs_short {e c : Char} (h : shortEscape? e = some c) : ReadsAs ['\x5c', e] c :=
  ⟨[.char c], fun rest => pieces?_short h rest, fun more => by simp [Piece.assemble]⟩

theorem readsAs_plain {c : Char} (hquote : c ≠ '\x22') (hback : c ≠ '\x5c') (h : 32 ≤ c.toNat) :
    ReadsAs [c] c :=
  ⟨[.char c], fun rest => pieces?_plain hquote hback h rest, fun more => by simp [Piece.assemble]⟩

theorem readsAs_units (c : Char) : ReadsAs ((units16 c).flatMap escapedUnit) c := by
  have hvalid : c.toNat < 0xD800 ∨ (0xDFFF < c.toNat ∧ c.toNat < 0x110000) := c.valid
  by_cases hplane : c.toNat < 0x10000
  · refine ⟨[.unit c.toNat], fun rest => ?_, fun more => Piece.assemble_unit more⟩
    simp only [units16, hplane, if_true, List.flatMap_singleton]
    exact pieces?_escapedUnit hplane rest
  · obtain ⟨high, hhigh⟩ : ∃ high, high = 0xD800 + (c.toNat - 0x10000) / 0x400 := ⟨_, rfl⟩
    obtain ⟨low, hlow⟩ : ∃ low, low = 0xDC00 + (c.toNat - 0x10000) % 0x400 := ⟨_, rfl⟩
    have hunits : units16 c = [high, low] := by
      simp only [units16, hplane, if_false, hhigh, hlow]
    have hisHigh : isHighUnit high = true := by
      simp only [isHighUnit, Bool.and_eq_true, decide_eq_true_eq]
      omega
    have hisLow : isLowUnit low = true := by
      simp only [isLowUnit, Bool.and_eq_true, decide_eq_true_eq]
      omega
    have hpair : ofPair high low = c := by
      have hcode : 0x10000 + (high - 0xD800) * 0x400 + (low - 0xDC00) = c.toNat := by omega
      rw [ofPair, hcode, Char.ofNat_toNat]
    refine ⟨[.unit high, .unit low], fun rest => ?_, fun more => ?_⟩
    · rw [hunits, List.flatMap_cons, List.flatMap_singleton, List.append_assoc,
        pieces?_escapedUnit (by omega), pieces?_escapedUnit (by omega), Option.map_map]
      rfl
    · rw [← hpair]
      exact Piece.assemble_pair hisHigh hisLow more

theorem readsAs_escaped (c : Char) : ReadsAs (escaped c) c := by
  unfold escaped
  split
  · rename_i h
    exact readsAs_short (by rcases h with rfl | rfl <;> rfl)
  rename_i hself
  obtain ⟨hquote, hback⟩ := not_or.1 hself
  split
  · rename_i h
    exact readsAs_plain hquote hback h.1
  split
  · rename_i h
    exact readsAs_short (by rw [h]; rfl)
  split
  · rename_i h
    exact readsAs_short (by rw [h]; rfl)
  split
  · rename_i h
    exact readsAs_short (by rw [h]; rfl)
  split
  · rename_i h
    obtain rfl : c = '\x08' := Char.toNat_inj.1 h
    exact readsAs_short rfl
  split
  · rename_i h
    obtain rfl : c = '\x0c' := Char.toNat_inj.1 h
    exact readsAs_short rfl
  · exact readsAs_units c

/-- A text with its closing quote is read as it was written. -/
theorem quotedRest?_escaped (text rest : List Char) :
    quotedRest? (text.flatMap escaped ++ '\x22' :: rest) = some (text.map .char, rest) := by
  have hpieces : ∃ pieces, pieces? (text.flatMap escaped ++ '\x22' :: rest) = some (pieces, rest) ∧
      Piece.assemble pieces = text.map .char := by
    induction text with
    | nil => exact ⟨[], pieces?.eq_2 rest, rfl⟩
    | cons c text ih =>
      obtain ⟨pieces, hread, hmake⟩ := ih
      obtain ⟨front, hfront, hchar⟩ := readsAs_escaped c
      refine ⟨front ++ pieces, ?_, ?_⟩
      · rw [List.flatMap_cons, List.append_assoc, hfront, hread]
        rfl
      · rw [hchar, hmake, List.map_cons]
  obtain ⟨pieces, hread, hmake⟩ := hpieces
  simp only [quotedRest?, hread, Option.bind_eq_bind, Option.bind_some, hmake, Option.pure_def]

end Json

end DotGraph
