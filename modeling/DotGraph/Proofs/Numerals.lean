import DotGraph.Attribute.Spec
import DotGraph.Proofs.ShortestDecimals
import DotGraph.Proofs.Words

/-!
Numbers as numerals.  A number is written with a sign, digits and a point among them or none, and
never with an exponent; so its text is an identifier, and it denotes the number exactly.
-/

namespace DotGraph

open Text

/-! ### Rows of digits -/

namespace Text

theorem digitsValue_eq (digits : List Char) : digitsValue digits = Nat.ofDigitChars 10 digits 0 :=
  Nat.ofDigitChars_eq_foldl.symm

theorem digitsValue_append (digits more : List Char) :
    digitsValue (digits ++ more) = digitsValue digits * 10 ^ more.length + digitsValue more := by
  rw [digitsValue_eq, digitsValue_eq, digitsValue_eq, Nat.ofDigitChars_append,
    Nat.ofDigitChars_eq_ofDigitChars_zero, Nat.mul_comm]

theorem digitsValue_zeros (n : Nat) : digitsValue (List.replicate n '0') = 0 := by
  rw [digitsValue_eq, Nat.ofDigitChars_replicate_zero, Nat.mul_zero]

theorem digitsValue_toDigits (n : Nat) : digitsValue (Nat.toDigits 10 n) = n := by
  rw [digitsValue_eq, Nat.ofDigitChars_ten_toDigits]

theorem isDigit_of_mem_toDigits {n : Nat} {c : Char} (h : c ∈ Nat.toDigits 10 n) :
    isDigit c = true :=
  isDigit_of_char_isDigit (Nat.isDigit_of_mem_toDigits (by decide) (by decide) h)

theorem isDigit_of_mem_zeros {n : Nat} {c : Char} (h : c ∈ List.replicate n '0') :
    isDigit c = true := by
  obtain rfl := List.eq_of_mem_replicate h
  decide

theorem toLower_of_isDigit {c : Char} (h : isDigit c = true) : c.toLower = c := by
  simp only [isDigit, Bool.and_eq_true, decide_eq_true_eq] at h
  have hupper : ¬ (c.val ≥ 'A'.val ∧ c.val ≤ 'Z'.val) := by
    rintro ⟨hlow, -⟩
    have hle : 65 ≤ c.toNat := UInt32.le_iff_toNat_le.1 hlow
    omega
  unfold Char.toLower
  rw [dif_neg hupper]

theorem takeDigits_append_of_stops {w r : List Char} (hw : ∀ c ∈ w, isDigit c = true)
    (hr : ∀ c ∈ r.head?, isDigit c = false) : takeDigits (w ++ r) = (w, r) := by
  have hfront : (takeDigits (w ++ r)).1 = w := takeWhile_append_of_stops hw hr
  have hsplit := takeDigits_append (w ++ r)
  rw [hfront] at hsplit
  exact Prod.ext hfront (List.append_cancel_left hsplit)

end Text

/-! ### Numerals -/

namespace Identifier

theorem isKeyword_of_head {c : Char} {rest : List Char} (h : isDigit c = true ∨ c = '-') :
    isKeyword (c :: rest) = false := by
  have hletters : ∀ word ∈ keywords, ∀ w ∈ word.toList.head?, isDigit w = false ∧ w ≠ '-' := by
    simp [keywords, isDigit]
  have hlower : c.toLower = c := by
    rcases h with h | rfl
    · exact toLower_of_isDigit h
    · rfl
  refine List.any_eq_false.2 fun word hword heq => ?_
  have hfirst : word.toList.head? = some c := by
    rw [← eq_of_beq heq, List.map_cons, hlower]
    rfl
  obtain ⟨hdigit, hminus⟩ := hletters word hword c hfirst
  rcases h with h | h
  · simp [hdigit] at h
  · exact hminus h

end Identifier

/-- A sign, digits, and possibly a point with more digits or none behind it. -/
structure Numeral where
  negative : Bool
  whole : List Char
  fraction : Option (List Char)
  whole_ne_nil : whole ≠ []
  isDigit_whole : ∀ c ∈ whole, isDigit c = true
  isDigit_fraction : ∀ c ∈ fraction.getD [], isDigit c = true

namespace Numeral

variable (n : Numeral)

def fractionText : Option (List Char) → List Char
  | none => []
  | some fraction => '.' :: fraction

def unsigned : List Char :=
  n.whole ++ fractionText n.fraction

def text : List Char :=
  (if n.negative then ['-'] else []) ++ n.unsigned

def decimal : Decimal :=
  .ofParts n.negative n.whole (n.fraction.getD []) 0

theorem exists_unsigned_cons : ∃ c rest, n.unsigned = c :: rest ∧ isDigit c = true := by
  obtain ⟨c, rest, hc⟩ := List.exists_cons_of_ne_nil n.whole_ne_nil
  refine ⟨c, rest ++ fractionText n.fraction, by simp [unsigned, hc], n.isDigit_whole c ?_⟩
  simp [hc]

theorem ne_of_isDigit {c ch : Char} (hc : isDigit c = true) (hch : isDigit ch = false) :
    c ≠ ch := by
  rintro rfl
  simp [hc] at hch

theorem head?_fractionText (f : Option (List Char)) :
    ∀ c ∈ (fractionText f).head?, isDigit c = false := by
  cases f <;> simp [fractionText, isDigit]

/-! A numeral is an identifier. -/

theorem isUnsignedNumeral : Identifier.isUnsignedNumeral n.unsigned = true := by
  have hsplit := takeDigits_append_of_stops n.isDigit_whole (head?_fractionText n.fraction)
  obtain ⟨c, rest, hc⟩ := List.exists_cons_of_ne_nil n.whole_ne_nil
  have hfraction := n.isDigit_fraction
  unfold Identifier.isUnsignedNumeral unsigned
  rw [hsplit, hc]
  cases hf : n.fraction with
  | none => rfl
  | some fraction =>
    rw [hf] at hfraction
    exact List.all_eq_true.2 hfraction

theorem isNumeral_text : Identifier.isNumeral n.text = true := by
  have hu := n.isUnsignedNumeral
  obtain ⟨c, rest, hc, hdigit⟩ := n.exists_unsigned_cons
  unfold text
  cases n.negative with
  | true => exact hu
  | false =>
    have hminus : c ≠ '-' := ne_of_isDigit hdigit (by decide)
    rw [hc] at hu ⊢
    simpa [Identifier.isNumeral, hminus] using hu

theorem isIdentifier_text {s : String} (h : s.toList = n.text) : isIdentifier s = true := by
  have hkeyword : Identifier.isKeyword n.text = false := by
    obtain ⟨c, rest, hc, hdigit⟩ := n.exists_unsigned_cons
    unfold text
    cases n.negative with
    | true => exact Identifier.isKeyword_of_head (.inr rfl)
    | false =>
      rw [hc]
      exact Identifier.isKeyword_of_head (.inl hdigit)
  simp [isIdentifier, h, hkeyword, n.isNumeral_text]

/-! ### Reading a numeral -/

theorem takeSign_text (tail : List Char) :
    Decimal.takeSign (n.text ++ tail) = (n.negative, n.unsigned ++ tail) := by
  obtain ⟨c, rest, hc, hdigit⟩ := n.exists_unsigned_cons
  unfold text
  cases n.negative with
  | true => rfl
  | false =>
    have hminus : c ≠ '-' := ne_of_isDigit hdigit (by decide)
    have hplus : c ≠ '+' := ne_of_isDigit hdigit (by decide)
    rw [hc]
    simp [Decimal.takeSign, hminus, hplus]

/-- Behind a numeral stands nothing, or a whole exponent. -/
def Ends (tail : List Char) (exponent : Int) : Prop :=
  (tail = [] ∧ exponent = 0) ∨
    ∃ rest, tail = 'e' :: rest ∧ Decimal.takeExponent? tail = some (exponent, [])

theorem read?_append {tail : List Char} {exponent : Int} (ht : Ends tail exponent) :
    Decimal.read? (n.text ++ tail) =
      some (.ofParts n.negative n.whole (n.fraction.getD []) exponent) := by
  have hstop : ∀ c ∈ tail.head?, isDigit c = false := by
    rcases ht with ⟨rfl, -⟩ | ⟨rest, rfl, -⟩ <;> simp [isDigit]
  have hne : n.whole.isEmpty = false := by simpa using n.whole_ne_nil
  have hfront : ∀ c ∈ (fractionText n.fraction ++ tail).head?, isDigit c = false := by
    cases n.fraction with
    | none => exact hstop
    | some fraction => simp [fractionText, isDigit]
  have hwhole : takeDigits (n.unsigned ++ tail) = (n.whole, fractionText n.fraction ++ tail) := by
    rw [unsigned, List.append_assoc]
    exact takeDigits_append_of_stops n.isDigit_whole hfront
  have hfraction := n.isDigit_fraction
  unfold Decimal.read?
  rw [n.takeSign_text]
  simp only [hwhole]
  cases hf : n.fraction with
  | none =>
    rcases ht with ⟨rfl, rfl⟩ | ⟨rest, rfl, he⟩
    · simp [fractionText, hne]
    · simp [fractionText, hne, he]
  | some fraction =>
    rw [hf] at hfraction
    have hdigits : takeDigits (fraction ++ tail) = (fraction, tail) :=
      takeDigits_append_of_stops hfraction hstop
    rcases ht with ⟨rfl, rfl⟩ | ⟨rest, rfl, he⟩
    · rw [List.append_nil] at hdigits
      simp [fractionText, hdigits, hne]
    · simp [fractionText, hdigits, hne, he]

theorem read?_text : Decimal.read? n.text = some n.decimal := by
  have hread := n.read?_append (.inl ⟨rfl, rfl⟩)
  rwa [List.append_nil] at hread

end Numeral

/-! ### Numbers as numerals -/

namespace Decimal

variable (d : Decimal)

theorem isDigit_of_mem_digits {c : Char} (h : c ∈ d.digits) : isDigit c = true :=
  isDigit_of_mem_toDigits h

theorem digits_ne_nil : d.digits ≠ [] :=
  Nat.toDigits_ne_nil

theorem digitsValue_digits : digitsValue d.digits = d.coefficient :=
  digitsValue_toDigits d.coefficient

/-- Zeros behind the coefficient move the exponent down and keep the number. -/
theorem value_shift (negative : Bool) (coefficient : Nat) (exponent : Int) (k : Nat) :
    value ⟨negative, coefficient * 10 ^ k, exponent - k⟩ =
      value ⟨negative, coefficient, exponent⟩ := by
  have hpow : (10 : ℚ) ^ k * 10 ^ (exponent - k) = 10 ^ exponent := by
    rw [← zpow_natCast, ← zpow_add₀ (by norm_num), add_sub_cancel]
  simp only [value, magnitude, Nat.cast_mul, Nat.cast_pow, Nat.cast_ofNat, mul_assoc, hpow]

/-- The numeral has the sign of the decimal and denotes the same number. -/
structure Denotes (n : Numeral) (d : Decimal) : Prop where
  negative : n.negative = d.negative
  value : n.decimal.value = d.value

theorem denotes_of_decimal_eq {n : Numeral} (h : n.decimal = d) : Denotes n d :=
  ⟨congrArg Decimal.negative h, congrArg Decimal.value h⟩

theorem exists_numeral_of_nonneg (h : 0 ≤ d.exponent) (zeros : Option Nat) :
    ∃ n : Numeral, Denotes n d ∧
      n.text = d.positional ++ Numeral.fractionText (zeros.map (List.replicate · '0')) := by
  have hwhole : ∀ c ∈ d.digits ++ List.replicate d.exponent.toNat '0', isDigit c = true := by
    intro c hc
    rcases List.mem_append.1 hc with hc | hc
    · exact d.isDigit_of_mem_digits hc
    · exact isDigit_of_mem_zeros hc
  have hfraction : (zeros.map (List.replicate · '0')).getD [] =
      List.replicate (zeros.getD 0) '0' := by
    cases zeros <;> rfl
  refine ⟨⟨d.negative, d.digits ++ List.replicate d.exponent.toNat '0',
    zeros.map (List.replicate · '0'), by simp [d.digits_ne_nil], hwhole, ?_⟩, ⟨rfl, ?_⟩, ?_⟩
  · rw [hfraction]
    exact fun c hc => isDigit_of_mem_zeros hc
  · have hcoefficient : digitsValue (d.digits ++ List.replicate d.exponent.toNat '0' ++
        List.replicate (zeros.getD 0) '0') =
          d.coefficient * 10 ^ d.exponent.toNat * 10 ^ zeros.getD 0 := by
      simp only [digitsValue_append, digitsValue_zeros, digitsValue_digits, List.length_replicate,
        Nat.add_zero]
    calc (ofParts d.negative (d.digits ++ List.replicate d.exponent.toNat '0')
          ((zeros.map (List.replicate · '0')).getD []) 0).value
        = value ⟨d.negative, d.coefficient * 10 ^ d.exponent.toNat * 10 ^ zeros.getD 0,
            0 - (zeros.getD 0 : Int)⟩ := by
          rw [hfraction, ofParts, hcoefficient, List.length_replicate]
      _ = value ⟨d.negative, d.coefficient * 10 ^ d.exponent.toNat, 0⟩ := value_shift ..
      _ = value ⟨d.negative, d.coefficient * 10 ^ d.exponent.toNat,
            d.exponent - d.exponent.toNat⟩ := by rw [Int.toNat_of_nonneg h, Int.sub_self]
      _ = d.value := value_shift ..
  · simp [Numeral.text, Numeral.unsigned, positional, signText, h]

theorem exists_numeral_of_point_pos (h : d.exponent < 0) (hpoint : 0 < d.point) :
    ∃ n : Numeral, Denotes n d ∧ n.text = d.positional := by
  have hne : d.digits.take d.point.toNat ≠ [] := by
    rw [ne_eq, List.take_eq_nil_iff]
    rintro (hzero | hnil)
    · omega
    · exact d.digits_ne_nil hnil
  have hexponent : 0 - ((d.digits.drop d.point.toNat).length : Int) = d.exponent := by
    have hlength : (d.digits.length : Int) + d.exponent = d.point := rfl
    rw [List.length_drop]
    omega
  refine ⟨⟨d.negative, d.digits.take d.point.toNat, some (d.digits.drop d.point.toNat), hne,
    fun c hc => d.isDigit_of_mem_digits (List.mem_of_mem_take hc),
    fun c hc => d.isDigit_of_mem_digits (List.mem_of_mem_drop hc)⟩,
    d.denotes_of_decimal_eq ?_, ?_⟩
  · simp only [Numeral.decimal, ofParts, Option.getD_some, List.take_append_drop,
      digitsValue_digits, hexponent]
  · simp [Numeral.text, Numeral.unsigned, Numeral.fractionText, positional, signText, hpoint,
      Int.not_le.2 h]

theorem exists_numeral_of_point_nonpos (h : d.exponent < 0) (hpoint : ¬ 0 < d.point) :
    ∃ n : Numeral, Denotes n d ∧ n.text = d.positional := by
  have hfraction : ∀ c ∈ List.replicate (-d.point).toNat '0' ++ d.digits, isDigit c = true := by
    intro c hc
    rcases List.mem_append.1 hc with hc | hc
    · exact isDigit_of_mem_zeros hc
    · exact d.isDigit_of_mem_digits hc
  have hcoefficient :
      digitsValue (['0'] ++ (List.replicate (-d.point).toNat '0' ++ d.digits)) = d.coefficient := by
    simp only [digitsValue_append, digitsValue_zeros, digitsValue_digits, Nat.zero_mul,
      Nat.zero_add, show digitsValue ['0'] = 0 from rfl]
  have hexponent :
      0 - ((List.replicate (-d.point).toNat '0' ++ d.digits).length : Int) = d.exponent := by
    have hlength : (d.digits.length : Int) + d.exponent = d.point := rfl
    rw [List.length_append, List.length_replicate]
    omega
  refine ⟨⟨d.negative, ['0'], some (List.replicate (-d.point).toNat '0' ++ d.digits), by simp,
    by simp [isDigit], hfraction⟩, d.denotes_of_decimal_eq ?_, ?_⟩
  · simp only [Numeral.decimal, ofParts, Option.getD_some, hcoefficient, hexponent]
  · simp [Numeral.text, Numeral.unsigned, Numeral.fractionText, positional, signText, hpoint,
      Int.not_le.2 h]

/-- Wherever its point stands, a decimal written in full is a numeral of its number. -/
theorem exists_numeral_positional : ∃ n : Numeral, Denotes n d ∧ n.text = d.positional := by
  by_cases h : 0 ≤ d.exponent
  · obtain ⟨n, hn, ht⟩ := d.exists_numeral_of_nonneg h none
    exact ⟨n, hn, by simpa [Numeral.fractionText] using ht⟩
  · have hneg : d.exponent < 0 := Int.not_le.1 h
    by_cases hpoint : 0 < d.point
    · exact d.exists_numeral_of_point_pos hneg hpoint
    · exact d.exists_numeral_of_point_nonpos hneg hpoint

/-! ### The form with an exponent -/

theorem takeDigits_of_digits {digits : List Char} (h : ∀ c ∈ digits, isDigit c = true) :
    takeDigits digits = (digits, []) := by
  have hsplit := takeDigits_append_of_stops (r := []) h (by simp)
  rwa [List.append_nil] at hsplit

theorem takeExponent?_append (e : Int) (rest : List Char)
    (hrest : ∀ c ∈ rest.head?, isDigit c = false) :
    takeExponent? ('e' :: exponentText e ++ rest) = some (e, rest) := by
  obtain ⟨digits, hdigits, hne, hall, hvalue⟩ : ∃ digits,
      exponentText e = (if e < 0 then '-' else '+') :: digits ∧ digits ≠ [] ∧
        (∀ c ∈ digits, isDigit c = true) ∧ digitsValue digits = e.natAbs := by
    refine ⟨_, rfl, ?_⟩
    have hall : ∀ c ∈ Nat.toDigits 10 e.natAbs, isDigit c = true :=
      fun c hc => isDigit_of_mem_toDigits hc
    split
    · refine ⟨by simp, ?_, digitsValue_toDigits e.natAbs⟩
      simpa [isDigit] using hall
    · exact ⟨Nat.toDigits_ne_nil, hall, digitsValue_toDigits e.natAbs⟩
  have htake := takeDigits_append_of_stops hall hrest
  obtain ⟨c, more, rfl⟩ := List.exists_cons_of_ne_nil hne
  rw [hdigits, List.cons_append, List.cons_append]
  by_cases he : e < 0
  · simp only [takeExponent?, takeSign, he, if_true, htake, hvalue]
    simp only [true_or, if_true, Option.some.injEq, Prod.mk.injEq, and_true]
    omega
  · simp only [takeExponent?, takeSign, he, if_false, htake, hvalue]
    simp only [true_or, if_true, Bool.false_eq_true, if_false, Option.some.injEq, Prod.mk.injEq,
      and_true]
    omega

theorem takeExponent?_exponentText (e : Int) :
    takeExponent? ('e' :: exponentText e) = some (e, []) := by
  have htake := takeExponent?_append e [] (by simp)
  rwa [List.append_nil] at htake

theorem exists_mantissa : ∃ (n : Numeral) (c : Char), n.negative = d.negative ∧ n.whole = [c] ∧
    c :: n.fraction.getD [] = d.digits ∧ n.fraction ≠ some [] ∧
    n.text = d.signText ++ mantissaText d.digits := by
  obtain ⟨c, rest, hc⟩ := List.exists_cons_of_ne_nil d.digits_ne_nil
  have hall : ∀ ch ∈ c :: rest, isDigit ch = true :=
    fun ch hch => d.isDigit_of_mem_digits (hc ▸ hch)
  refine
    ⟨⟨d.negative, [c], if rest = [] then none else some rest, by simp, ?_, ?_⟩, c, rfl, rfl, ?_⟩
  · simpa using hall c List.mem_cons_self
  · split
    · simp
    · exact fun ch hch => hall ch (List.mem_cons_of_mem c hch)
  · cases rest with
    | nil => simp [Numeral.text, Numeral.unsigned, Numeral.fractionText, signText, hc, mantissaText]
    | cons r rest =>
      simp [Numeral.text, Numeral.unsigned, Numeral.fractionText, signText, hc, mantissaText]

theorem ofParts_mantissa {c : Char} {rest : List Char} (h : c :: rest = d.digits) :
    ofParts d.negative [c] rest (d.point - 1) = d := by
  have hvalue : digitsValue ([c] ++ rest) = d.coefficient := by
    rw [← d.digitsValue_digits, ← h]
    rfl
  have hexponent : d.point - 1 - rest.length = d.exponent := by
    simp only [point, ← h, List.length_cons, Nat.cast_add, Nat.cast_one]
    omega
  rw [ofParts, hvalue, hexponent]

/-- The form with an exponent keeps the coefficient digit by digit. -/
theorem read?_scientific : read? d.scientific = some d := by
  obtain ⟨n, c, hnegative, hwhole, hdigits, -, htext⟩ := d.exists_mantissa
  have hends : Numeral.Ends ('e' :: exponentText (d.point - 1)) (d.point - 1) :=
    .inr ⟨_, rfl, takeExponent?_exponentText (d.point - 1)⟩
  rw [scientific, ← htext, n.read?_append hends, hnegative, hwhole, d.ofParts_mantissa hdigits]

end Decimal

/-! ### Numbers of a table -/

namespace Finite64

variable (x : Finite64)

theorem exists_numeral_plain :
    ∃ n : Numeral, Decimal.Denotes n x.shortest ∧
      n.text = x.shortest.positional ++ (if 0 ≤ x.shortest.exponent then ['.', '0'] else []) := by
  by_cases h : 0 ≤ x.shortest.exponent
  · obtain ⟨n, hn, ht⟩ := x.shortest.exists_numeral_of_nonneg h (some 1)
    exact ⟨n, hn, by simpa [Numeral.fractionText, h] using ht⟩
  · obtain ⟨n, hn, ht⟩ := x.shortest.exists_numeral_positional
    exact ⟨n, hn, by simpa [h] using ht⟩

/-- Written without an exponent, a number is a numeral of what its shortest decimal denotes. -/
theorem exists_numeral :
    ∃ n : Numeral, Decimal.Denotes n x.shortest ∧ x.numeral.toList = n.text := by
  unfold numeral
  rw [String.toList_ofList]
  split
  · obtain ⟨n, hn, ht⟩ := x.exists_numeral_plain
    exact ⟨n, hn, ht.symm⟩
  · obtain ⟨n, hn, ht⟩ := x.shortest.exists_numeral_positional
    exact ⟨n, hn, ht.symm⟩

/-- Shown in either form, a number is read as what its shortest decimal denotes. -/
theorem read?_shown : ∃ d, Decimal.read? x.shown.toList = some d ∧
    d.negative = x.shortest.negative ∧ d.value = x.shortest.value := by
  unfold shown
  rw [String.toList_ofList]
  split
  · obtain ⟨n, hn, ht⟩ := x.exists_numeral_plain
    exact ⟨n.decimal, ht ▸ n.read?_text, hn.negative, hn.value⟩
  · exact ⟨x.shortest, x.shortest.read?_scientific, rfl, rfl⟩

/-- The number nearest to `10 ^ -5`, which is shown with an exponent. -/
def hundredThousandth : Finite64 :=
  ⟨false, 5902958103587057, -69, by decide⟩

example : hundredThousandth.shown = "1e-05" := by decide +kernel

example : hundredThousandth.numeral = "0.00001" := by decide +kernel

end Finite64

namespace Numeral

/-- The digits of a whole number, behind its sign. -/
def ofInt (k : Int) : Numeral where
  negative := k < 0
  whole := Nat.toDigits 10 k.natAbs
  fraction := none
  whole_ne_nil := Nat.toDigits_ne_nil
  isDigit_whole := fun _ h => isDigit_of_mem_toDigits h
  isDigit_fraction := by simp

theorem text_ofInt (k : Int) : (toString k).toList = (ofInt k).text := by
  rw [Int.toString_eq_repr, Int.repr_eq_if]
  by_cases hk : 0 ≤ k
  · have hnatAbs : k.toNat = k.natAbs := by omega
    simp [hk, Int.not_lt.2 hk, Nat.toList_repr, ofInt, text, unsigned, fractionText, hnatAbs]
  · have hnatAbs : (-k).toNat = k.natAbs := by omega
    simp [hk, Int.not_le.1 hk, Nat.toList_repr, ofInt, text, unsigned, fractionText, hnatAbs]

theorem value_ofInt (k : Int) : (ofInt k).decimal.value = k := by
  have hdecimal : (ofInt k).decimal = ⟨k < 0, k.natAbs, 0⟩ := by
    simp [decimal, ofInt, Decimal.ofParts, digitsValue_toDigits]
  have hnatAbs : (k.natAbs : ℚ) = ((k.natAbs : Int) : ℚ) := (Int.cast_natCast _).symm
  rw [hdecimal, Decimal.value, Decimal.magnitude, zpow_zero, mul_one, hnatAbs]
  by_cases hk : k < 0
  · have hsign : (k.natAbs : Int) = -k := by omega
    simp only [hk, decide_true, if_true, hsign, Int.cast_neg, neg_neg]
  · have hsign : (k.natAbs : Int) = k := by omega
    simp only [hk, decide_false, Bool.false_eq_true, if_false, hsign]

end Numeral

/-! ### Numbers in a graph text -/

namespace Numeral

theorem mem_text {n : Numeral} {c : Char} (h : c ∈ n.text) :
    c = '-' ∨ c = '.' ∨ isDigit c = true := by
  have hfraction := n.isDigit_fraction
  unfold text unsigned fractionText at h
  rcases List.mem_append.1 h with h | h
  · left
    cases hn : n.negative <;> simp_all
  rcases List.mem_append.1 h with h | h
  · exact .inr (.inr (n.isDigit_whole c h))
  cases hf : n.fraction with
  | none => simp [hf] at h
  | some fraction =>
    rw [hf] at h hfraction
    rcases List.mem_cons.1 h with rfl | h
    · exact .inr (.inl rfl)
    · exact .inr (.inr (hfraction c h))

theorem written {n : Numeral} {text : String} (h : text.toList = n.text) :
    Identifier.isNumeral text.toList = true ∧ isIdentifier text = true ∧
      (∀ c ∈ text.toList, c = '-' ∨ c = '.' ∨ isDigit c = true) ∧
      Decimal.read? text.toList = some n.decimal := by
  refine ⟨?_, n.isIdentifier_text h, ?_, ?_⟩ <;> rw [h]
  · exact n.isNumeral_text
  · exact fun c => mem_text
  · exact n.read?_text

end Numeral

namespace AttrSpec

theorem coerce_number {spec : AttrSpec} (hspec : spec.domain.kind = .number) (given : Datum)
    (v : AttrValue) :
    spec.coerce given = .ok v ↔
      (∃ k, given = .integer k ∧ v = .integer k) ∨
        ∃ x, given = .float (.finite x) ∧ v = .float x := by
  obtain ⟨name, domain⟩ := spec
  cases domain <;> cases hspec
  cases given with
  | integer k => simp [coerce, AttrDomain.coerce, eq_comm]
  | float x => cases x <;> simp [coerce, AttrDomain.coerce, eq_comm]
  | _ => simp [coerce, AttrDomain.coerce]

/-- A number attribute takes the whole numbers and the finite floating-point numbers.  What it
writes is a numeral of digits, a sign and a point, which needs no quotes.  It denotes a whole number
exactly, and any other number as its shortest decimal does, which is also what is shown of it. -/
theorem numbers_written_exactly {spec : AttrSpec} (hspec : spec.domain.kind = .number) :
    (∀ k, spec.coerce (.integer k) = .ok (.integer k)) ∧
    (∀ x, spec.coerce (.float (.finite x)) = .ok (.float x)) ∧
    ∀ given v, spec.coerce given = .ok v →
      Identifier.isNumeral v.written.toList = true ∧ isIdentifier v.written = true ∧
      (∀ c ∈ v.written.toList, c = '-' ∨ c = '.' ∨ isDigit c = true) ∧
      ∃ d, Decimal.read? v.written.toList = some d ∧
        ((∃ k : Int, given = .integer k ∧ d.value = k) ∨
          ∃ x shortest shown, given = .float (.finite x) ∧ x.IsShortest shortest ∧
            d.negative = shortest.negative ∧ d.value = shortest.value ∧
            Decimal.read? x.shown.toList = some shown ∧
            shown.negative = shortest.negative ∧ shown.value = shortest.value) := by
  refine ⟨fun k => (coerce_number hspec _ _).2 (.inl ⟨k, rfl, rfl⟩),
    fun x => (coerce_number hspec _ _).2 (.inr ⟨x, rfl, rfl⟩), fun given v h => ?_⟩
  rcases (coerce_number hspec given v).1 h with ⟨k, rfl, rfl⟩ | ⟨x, rfl, rfl⟩
  · obtain ⟨hnumeral, hidentifier, hcharacters, hread⟩ := Numeral.written (Numeral.text_ofInt k)
    exact ⟨hnumeral, hidentifier, hcharacters, _, hread, .inl ⟨k, rfl, Numeral.value_ofInt k⟩⟩
  · obtain ⟨n, hn, htext⟩ := x.exists_numeral
    obtain ⟨hnumeral, hidentifier, hcharacters, hread⟩ := Numeral.written htext
    obtain ⟨shown, hshown, hsign, hvalue⟩ := x.read?_shown
    exact ⟨hnumeral, hidentifier, hcharacters, _, hread, .inr ⟨x, x.shortest, shown, rfl,
      x.isShortest_shortest, hn.negative, hn.value, hshown, hsign, hvalue⟩⟩

/-- A weight that is shown with an exponent and written without one. -/
theorem numbers_written_exactly_weight :
    (AttrSpec.mk "weight" .numbers).domain.kind = .number ∧
      (AttrSpec.mk "weight" .numbers).coerce (.float (.finite Finite64.hundredThousandth)) =
        .ok (.float Finite64.hundredThousandth) ∧
      isIdentifier (AttrValue.float Finite64.hundredThousandth).written = true ∧
      ∃ d shortest,
        Decimal.read? (AttrValue.float Finite64.hundredThousandth).written.toList = some d ∧
        Finite64.hundredThousandth.IsShortest shortest ∧ d.value = shortest.value := by
  have hspec : (AttrSpec.mk "weight" .numbers).domain.kind = .number := rfl
  have hwritten := numbers_written_exactly hspec
  have hcoerce := hwritten.2.1 Finite64.hundredThousandth
  obtain ⟨-, hidentifier, -, d, hread, hcases⟩ := hwritten.2.2 _ _ hcoerce
  refine ⟨hspec, hcoerce, hidentifier, ?_⟩
  rcases hcases with ⟨k, ⟨⟩, -⟩ | ⟨x, shortest, -, ⟨⟩, hshortest, -, hvalue, -⟩
  exact ⟨d, shortest, hread, hshortest, hvalue⟩

end AttrSpec

end DotGraph
