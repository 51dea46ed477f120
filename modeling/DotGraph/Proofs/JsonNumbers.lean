import DotGraph.Json.Printer
import DotGraph.Json.Reader
import DotGraph.Proofs.Numerals

/-!
Numbers of the JSON notation.  A whole number is read as the whole number that it was written for,
and any other number as the floating-point number of which its text is the shortest decimal.
-/

namespace DotGraph

open Text

namespace Numeral

/-- No zero stands in front of other digits, and a point is followed by digits. -/
structure Tidy (n : Numeral) : Prop where
  whole : n.whole = ['0'] ∨ ∀ rest, n.whole ≠ '0' :: rest
  fraction : n.fraction ≠ some []

theorem tidy_of_unsigned {n : Numeral}
    (hzero : ∀ rest, n.unsigned = '0' :: rest → ∀ c ∈ rest.head?, isDigit c = false)
    (hlast : n.unsigned.getLast? ≠ some '.') : n.Tidy := by
  constructor
  · obtain ⟨c, whole, hwhole⟩ := List.exists_cons_of_ne_nil n.whole_ne_nil
    rw [hwhole]
    by_cases hc : c = '0'
    · subst hc
      left
      have hhead := hzero (whole ++ fractionText n.fraction) (by simp [unsigned, hwhole])
      cases whole with
      | nil => rfl
      | cons c whole =>
        have hdigit : isDigit c = true := n.isDigit_whole c (by simp [hwhole])
        simp [hhead c rfl] at hdigit
    · right
      rintro rest ⟨⟩
      exact hc rfl
  · intro hnone
    refine hlast ?_
    simp [unsigned, hnone, fractionText]

end Numeral

/-! ### Shortest decimals -/

theorem Text.toDigits_ne_zero_cons {n : Nat} (h : 0 < n) (rest : List Char) :
    Nat.toDigits 10 n ≠ '0' :: rest := by
  induction n using Nat.strongRecOn generalizing rest with
  | ind n ih =>
    intro heq
    by_cases hlt : n < 10
    · rw [Nat.toDigits_of_lt_base hlt] at heq
      exact h.ne' (Nat.digitChar_eq_zero.1 (List.cons.inj heq).1)
    · obtain ⟨c, more, hdigits⟩ :=
        List.exists_cons_of_ne_nil (Nat.toDigits_ne_nil (n := n / 10) (b := 10))
      rw [Nat.toDigits_of_base_le (by decide) (by omega), hdigits] at heq
      obtain rfl : c = '0' := (List.cons.inj heq).1
      exact ih (n / 10) (by omega) (by omega) more hdigits

namespace Decimal

variable {d : Decimal}

theorem digits_ne_zero_cons (h : d.coefficient ≠ 0) (rest : List Char) : d.digits ≠ '0' :: rest :=
  toDigits_ne_zero_cons (Nat.pos_of_ne_zero h) rest

theorem digits_of_zero (h : d.coefficient = 0) : d.digits = ['0'] := by
  rw [digits, h, Nat.toDigits_zero]

theorem unsigned_eq {n : Numeral} (hsign : n.negative = d.negative) {body : List Char}
    (h : n.text = d.signText ++ body) : n.unsigned = body := by
  rw [Numeral.text, hsign] at h
  exact List.append_cancel_left h

theorem getLast?_ne_point {front digits : List Char} (hne : digits ≠ [])
    (h : ∀ c ∈ digits, isDigit c = true) : (front ++ digits).getLast? ≠ some '.' := by
  rw [List.getLast?_append_of_ne_nil front hne]
  intro heq
  have hdigit := h '.' (List.mem_of_getLast? heq)
  simp [isDigit] at hdigit

end Decimal

namespace Finite64

variable (x : Finite64)

theorem shortest_exponent_of_zero (h : x.shortest.coefficient = 0) : x.shortest.exponent = 0 := by
  have hread := x.isShortest_shortest.readsBack
  rw [Binary64.ofDecimal, if_pos h] at hread
  have hzero : x.significand = 0 := by
    rw [← Binary64.finite.inj hread]
    rfl
  rw [shortest, if_pos hzero]

theorem tidy_of_plain {n : Numeral} (hsign : n.negative = x.shortest.negative)
    (h : n.text =
      x.shortest.positional ++ (if 0 ≤ x.shortest.exponent then ['.', '0'] else [])) : n.Tidy := by
  rw [Decimal.positional, List.append_assoc] at h
  have hbody := Decimal.unsigned_eq hsign h
  by_cases hexponent : 0 ≤ x.shortest.exponent
  · simp only [hexponent, if_true] at hbody
    refine Numeral.tidy_of_unsigned ?_ ?_
    · intro rest hrest
      by_cases hzero : x.shortest.coefficient = 0
      · simp only [hbody, Decimal.digits_of_zero hzero, x.shortest_exponent_of_zero hzero,
          Int.toNat_zero, List.replicate_zero, List.cons_append, List.nil_append,
          List.cons.injEq, true_and] at hrest
        simp [← hrest, isDigit]
      · obtain ⟨c, more, hdigits⟩ := List.exists_cons_of_ne_nil x.shortest.digits_ne_nil
        rw [hbody, hdigits] at hrest
        obtain rfl : c = '0' := (List.cons.inj hrest).1
        exact absurd hdigits (Decimal.digits_ne_zero_cons hzero more)
    · rw [hbody, show (['.', '0'] : List Char) = ['.'] ++ ['0'] from rfl, ← List.append_assoc]
      exact Decimal.getLast?_ne_point (by simp) (by simp [isDigit])
  · have hcoefficient : x.shortest.coefficient ≠ 0 := by
      intro hzero
      exact hexponent (x.shortest_exponent_of_zero hzero).ge
    by_cases hpoint : 0 < x.shortest.point
    · simp only [hexponent, hpoint, if_false, if_true, List.append_nil] at hbody
      refine Numeral.tidy_of_unsigned ?_ ?_
      · intro rest hrest
        obtain ⟨c, more, hdigits⟩ := List.exists_cons_of_ne_nil x.shortest.digits_ne_nil
        obtain ⟨k, hk⟩ : ∃ k, x.shortest.point.toNat = k + 1 :=
          ⟨x.shortest.point.toNat - 1, by omega⟩
        rw [hbody, hdigits, hk, List.take_succ_cons] at hrest
        obtain rfl : c = '0' := (List.cons.inj hrest).1
        exact absurd hdigits (Decimal.digits_ne_zero_cons hcoefficient more)
      · have hne : x.shortest.digits.drop x.shortest.point.toNat ≠ [] := by
          have hlength : (x.shortest.digits.length : Int) + x.shortest.exponent =
            x.shortest.point := rfl
          rw [ne_eq, List.drop_eq_nil_iff]
          omega
        rw [hbody, ← List.singleton_append, ← List.append_assoc]
        exact Decimal.getLast?_ne_point hne fun c hc =>
          x.shortest.isDigit_of_mem_digits (List.mem_of_mem_drop hc)
    · simp only [hexponent, hpoint, if_false, List.append_nil] at hbody
      refine Numeral.tidy_of_unsigned ?_ ?_
      · intro rest hrest
        rw [hbody] at hrest
        obtain rfl := (List.cons.inj hrest).2
        simp [isDigit]
      · rw [hbody, ← List.cons_append, ← List.cons_append]
        exact Decimal.getLast?_ne_point x.shortest.digits_ne_nil fun c hc =>
          x.shortest.isDigit_of_mem_digits hc

end Finite64

/-! ### Reading a number -/

namespace Json

/-- What may stand behind a value: nothing, a blank, a comma or a closing bracket. -/
def Stops (rest : List Char) : Prop :=
  ∀ c ∈ rest.head?, isBlankChar c = true ∨ c = ',' ∨ c = ']' ∨ c = '\x7d'

theorem Stops.not_number {rest : List Char} (h : Stops rest) {c : Char} (hc : c ∈ rest.head?) :
    isDigit c = false ∧ c ≠ '.' ∧ c ≠ 'e' ∧ c ≠ 'E' := by
  have hcases := h c hc
  simp only [isBlankChar, Bool.or_eq_true, beq_iff_eq] at hcases
  rcases hcases with (((rfl | rfl) | rfl) | rfl) | rfl | rfl | rfl <;> decide

theorem takeWhole?_append {n : Numeral} (hn : n.Tidy) {rest : List Char}
    (hrest : ∀ c ∈ rest.head?, isDigit c = false) :
    takeWhole? (n.whole ++ rest) = some (n.whole, rest) := by
  have htake := takeDigits_append_of_stops n.isDigit_whole hrest
  unfold takeWhole?
  rw [htake]
  rcases hn.whole with hzero | hne
  · rw [hzero]
    rfl
  · split
    · rename_i h
      exact absurd (congrArg Prod.fst h) n.whole_ne_nil
    · rename_i h
      exact absurd (congrArg Prod.fst h) (hne _)
    · rfl

theorem takeFraction?_append {n : Numeral} (hn : n.Tidy) {rest : List Char}
    (hrest : ∀ c ∈ rest.head?, isDigit c = false ∧ c ≠ '.') :
    Decimal.takeFraction? (Numeral.fractionText n.fraction ++ rest) =
      n.fraction.map fun fraction => (fraction, rest) := by
  have hdigits := n.isDigit_fraction
  have hne := hn.fraction
  cases hf : n.fraction with
  | none =>
    rw [Numeral.fractionText, List.nil_append]
    cases rest with
    | nil => rfl
    | cons c rest =>
      have hpoint : c ≠ '.' := (hrest c rfl).2
      unfold Decimal.takeFraction?
      split
      · rename_i heq
        exact absurd (List.cons.inj heq).1 hpoint
      · rfl
  | some fraction =>
    rw [hf] at hdigits hne
    have htake := takeDigits_append_of_stops hdigits fun c hc => (hrest c hc).1
    obtain ⟨c, more, rfl⟩ := List.exists_cons_of_ne_nil fun h => hne (congrArg some h)
    simp only [Option.getD_some] at htake
    simp only [Numeral.fractionText, List.cons_append, Decimal.takeFraction?] at htake ⊢
    rw [htake]
    rfl

/-- The text of an exponent, if there is one. -/
def exponentTail : Option Int → List Char
  | none => []
  | some e => 'e' :: Decimal.exponentText e

theorem takeExponent?_tail (exponent : Option Int) {rest : List Char} (hrest : Stops rest) :
    Decimal.takeExponent? (exponentTail exponent ++ rest) = exponent.map fun e => (e, rest) := by
  cases exponent with
  | none =>
    rw [exponentTail, List.nil_append]
    cases rest with
    | nil => rfl
    | cons c rest =>
      obtain ⟨-, -, hsmall, hcapital⟩ := hrest.not_number (c := c) rfl
      simp [Decimal.takeExponent?, hsmall, hcapital]
  | some e => exact Decimal.takeExponent?_append e _ fun c hc => (hrest.not_number hc).1

variable (d : Dialect)

/-- A tidy numeral with or without an exponent: without a fraction and an exponent it is whole. -/
theorem unsigned_append {n : Numeral} (hn : n.Tidy) (exponent : Option Int) {rest : List Char}
    (hrest : Stops rest) :
    unsigned d n.negative (n.unsigned ++ (exponentTail exponent ++ rest)) =
      if n.fraction.isNone && exponent.isNone then wholeNumber d n.negative n.whole rest
      else .ok (float (Binary64.ofDecimal
        (.ofParts n.negative n.whole (n.fraction.getD []) (exponent.getD 0))), rest) := by
  have htail : ∀ c ∈ (exponentTail exponent ++ rest).head?, isDigit c = false ∧ c ≠ '.' := by
    cases exponent with
    | none => exact fun c hc => ⟨(hrest.not_number hc).1, (hrest.not_number hc).2.1⟩
    | some e => simp [exponentTail, isDigit]
  have hfront : ∀ c ∈ (Numeral.fractionText n.fraction ++ (exponentTail exponent ++ rest)).head?,
      isDigit c = false := by
    cases n.fraction with
    | none => exact fun c hc => (htail c hc).1
    | some fraction => simp [Numeral.fractionText, isDigit]
  have hwhole := takeWhole?_append hn hfront
  have hfraction := takeFraction?_append hn htail
  have hexponent := takeExponent?_tail exponent hrest
  have hpoint : (n.fraction.map fun fraction => (fraction, exponentTail exponent ++ rest)).getD
      ([], Numeral.fractionText n.fraction ++ (exponentTail exponent ++ rest)) =
        (n.fraction.getD [], exponentTail exponent ++ rest) := by
    cases n.fraction <;> rfl
  have hpower : (exponent.map fun e => (e, rest)).getD (0, exponentTail exponent ++ rest) =
      (exponent.getD 0, rest) := by
    cases exponent <;> rfl
  simp only [unsigned, Numeral.unsigned, List.append_assoc, hwhole, orMalformed, bind, Except.bind,
    hfraction, hpoint, hexponent, hpower, Option.isNone_map, pure, Except.pure]

/-! ### Numbers among the values -/

theorem exists_cons_text (n : Numeral) (tail : List Char) :
    ∃ c rest, n.text ++ tail = c :: rest ∧ (isDigit c = true ∨ c = '-') := by
  obtain ⟨c, rest, hc, hdigit⟩ := n.exists_unsigned_cons
  unfold Numeral.text
  cases n.negative with
  | true => exact ⟨'-', n.unsigned ++ tail, rfl, .inr rfl⟩
  | false => exact ⟨c, rest ++ tail, by simp [hc], .inl hdigit⟩

theorem word?_text (n : Numeral) (tail : List Char) : word? (n.text ++ tail) = none := by
  obtain ⟨c, rest, hc, hdigit⟩ := n.exists_unsigned_cons
  have hN : c ≠ 'N' := Numeral.ne_of_isDigit hdigit (by decide)
  have hI : c ≠ 'I' := Numeral.ne_of_isDigit hdigit (by decide)
  have hminus : c ≠ '-' := Numeral.ne_of_isDigit hdigit (by decide)
  unfold Numeral.text
  rw [hc]
  cases n.negative <;> simp [word?, hN, hI, hminus]

theorem number_text (n : Numeral) (tail : List Char) :
    number d (n.text ++ tail) = unsigned d n.negative (n.unsigned ++ tail) := by
  have hword : (if d.words then word? (n.text ++ tail) else none) = none := by
    rw [word?_text, ite_self]
  obtain ⟨c, rest, hc, hdigit⟩ := n.exists_unsigned_cons
  have hminus : c ≠ '-' := Numeral.ne_of_isDigit hdigit (by decide)
  unfold number
  rw [hword]
  unfold Numeral.text
  rw [hc]
  cases n.negative with
  | true => rfl
  | false => simp [hminus]

theorem scalar_text (n : Numeral) (tail : List Char) :
    scalar d (n.text ++ tail) = unsigned d n.negative (n.unsigned ++ tail) := by
  rw [← number_text]
  obtain ⟨c, rest, hc, hfirst⟩ := exists_cons_text n tail
  have hletter : c ≠ 'n' ∧ c ≠ 't' ∧ c ≠ 'f' := by
    rcases hfirst with hdigit | rfl
    · exact ⟨Numeral.ne_of_isDigit hdigit (by decide), Numeral.ne_of_isDigit hdigit (by decide),
        Numeral.ne_of_isDigit hdigit (by decide)⟩
    · decide
  rw [hc]
  simp [scalar, hletter.1, hletter.2.1, hletter.2.2]

theorem tidy_ofInt (k : Int) : (Numeral.ofInt k).Tidy := by
  refine ⟨?_, by simp [Numeral.ofInt]⟩
  by_cases hk : k.natAbs = 0
  · left
    simp only [Numeral.ofInt, hk, Nat.toDigits_zero]
  · exact .inr (toDigits_ne_zero_cons (Nat.pos_of_ne_zero hk))

theorem wholeNumber_of_fits (negative : Bool) {digits : List Char}
    (hlimit : ∀ limit ∈ d.digitLimit, digits.length ≤ limit) (rest : List Char) :
    wholeNumber d negative digits rest = .ok
      (integer (if negative then -(digitsValue digits : Int) else digitsValue digits), rest) := by
  have hfits : ¬ d.digitLimit.any (· < digits.length) = true := by
    rw [Option.any_eq_true]
    rintro ⟨limit, hlimits, hlt⟩
    exact absurd (hlimit limit hlimits) (by simpa using hlt)
  exact if_neg hfits

/-- A whole number with no more digits than the limit is read as itself. -/
theorem scalar_integer {k : Int}
    (hlimit : ∀ limit ∈ d.digitLimit, (Nat.toDigits 10 k.natAbs).length ≤ limit) {rest : List Char}
    (hrest : Stops rest) : scalar d ((toString k).toList ++ rest) = .ok (integer k, rest) := by
  have hread := unsigned_append d (tidy_ofInt k) none hrest
  have hvalue : (if k < 0 then -(k.natAbs : Int) else k.natAbs) = k := by
    split <;> omega
  rw [Numeral.text_ofInt, scalar_text]
  refine hread.trans ((if_pos rfl).trans ((wholeNumber_of_fits d _ hlimit rest).trans ?_))
  simp only [Numeral.ofInt, digitsValue_toDigits, decide_eq_true_eq, hvalue]

theorem ofDecimal_of_denotes {x : Finite64} {e : Decimal} (hsign : e.negative = x.shortest.negative)
    (hvalue : e.value = x.shortest.value) : Binary64.ofDecimal e = .finite x := by
  have hread := (Binary64.ofDecimal_eq_finite_iff _ x).1 x.isShortest_shortest.readsBack
  have hmagnitude : e.magnitude = x.shortest.magnitude := by
    unfold Decimal.value at hvalue
    rw [hsign] at hvalue
    split at hvalue
    · exact neg_inj.1 hvalue
    · exact hvalue
  rw [Binary64.ofDecimal_eq_finite_iff, hsign, hmagnitude]
  exact hread

theorem isNone_fraction_of_mem {n : Numeral} (h : '.' ∈ n.text) : n.fraction.isNone = false := by
  cases hf : n.fraction with
  | some fraction => rfl
  | none =>
    rw [Numeral.text, Numeral.unsigned, hf, Numeral.fractionText, List.append_nil] at h
    rcases List.mem_append.1 h with hsign | hwhole
    · cases n.negative <;> simp at hsign
    · have hdigit := n.isDigit_whole _ hwhole
      simp [isDigit] at hdigit

theorem point_mem_plain (e : Decimal) :
    '.' ∈ e.positional ++ (if 0 ≤ e.exponent then ['.', '0'] else []) := by
  unfold Decimal.positional
  split
  · simp
  · split <;> simp

/-- A floating-point number is read as itself, whether it is shown with an exponent or not. -/
theorem scalar_shown (x : Finite64) {rest : List Char} (hrest : Stops rest) :
    scalar d (x.shown.toList ++ rest) = .ok (float (.finite x), rest) := by
  unfold Finite64.shown
  rw [String.toList_ofList]
  split
  · obtain ⟨n, hn, ht⟩ := x.exists_numeral_plain
    have hread := unsigned_append d (x.tidy_of_plain hn.negative ht) none hrest
    have hpoint : n.fraction.isNone = false :=
      isNone_fraction_of_mem (ht ▸ point_mem_plain x.shortest)
    rw [hpoint, Bool.false_and, if_neg Bool.false_ne_true] at hread
    rw [← ht, scalar_text]
    have hdecimal : Binary64.ofDecimal n.decimal = .finite x :=
      ofDecimal_of_denotes hn.negative hn.value
    exact hread.trans (by rw [← hdecimal]; rfl)
  · obtain ⟨n, c, hnegative, hwhole, hdigits, hfraction, ht⟩ := x.shortest.exists_mantissa
    have htidy : n.Tidy := by
      refine ⟨?_, hfraction⟩
      rw [hwhole]
      by_cases hc : c = '0'
      · exact .inl (by rw [hc])
      · exact .inr fun rest heq => hc (List.cons.inj heq).1
    have hread := unsigned_append d htidy (some (x.shortest.point - 1)) hrest
    rw [Option.isNone_some, Bool.and_false, if_neg Bool.false_ne_true, hwhole, hnegative,
      Option.getD_some, x.shortest.ofParts_mantissa hdigits,
      x.isShortest_shortest.readsBack] at hread
    rw [Decimal.scientific, ← ht, List.append_assoc, scalar_text, hnegative]
    exact hread

end Json

end DotGraph
