import DotGraph.Binary64
import Mathlib.Algebra.Order.Field.Power
import Mathlib.Algebra.Order.Field.Rat
import Mathlib.Tactic.Linarith
import Mathlib.Tactic.Positivity
import Mathlib.Tactic.Ring

/-!
Rounding.  A number is rounded on the grid that has room for 53 bits of it; the result depends on
the number alone, not on the ratio or the decimal that names it, and grows with it.
-/

namespace DotGraph

/-! ### Ratios -/

/-- A ratio divided by a power, as a ratio again. -/
def scaled (base : Nat) (e : Int) (num den : Nat) : Nat × Nat :=
  if 0 ≤ e then (num, den * Nat.pow base e.toNat) else (num * Nat.pow base (-e).toNat, den)

/-- The leading place of a ratio is where those of its two parts say, or one place lower. -/
theorem lead_bounds {b num den : ℚ} {i j : Int} (hb : 0 < b) (hnum : b ^ i ≤ num)
    (hnum' : num < b ^ (i + 1)) (hden : b ^ j ≤ den) (hden' : den < b ^ (j + 1)) :
    b ^ (i - j - 1) ≤ num / den ∧ num / den < b ^ (i - j + 1) := by
  have hpos : 0 < den := (zpow_pos hb j).trans_le hden
  constructor
  · rw [le_div_iff₀ hpos]
    calc b ^ (i - j - 1) * den ≤ b ^ (i - j - 1) * b ^ (j + 1) := by gcongr
      _ = b ^ i := by rw [← zpow_add₀ hb.ne']; congr 1; omega
      _ ≤ num := hnum
  · rw [div_lt_iff₀ hpos]
    calc num < b ^ (i + 1) := hnum'
      _ = b ^ (i - j + 1) * b ^ j := by rw [← zpow_add₀ hb.ne']; congr 1; omega
      _ ≤ b ^ (i - j + 1) * den := by gcongr

section Ratios

variable {base den : Nat} (num : Nat) (e : Int)

theorem scaled_den_pos (hbase : 0 < base) (hden : 0 < den) : 0 < (scaled base e num den).2 := by
  unfold scaled
  split
  · exact Nat.mul_pos hden (Nat.pow_pos hbase)
  · exact hden

theorem scaled_ratio (hbase : 0 < base) :
    ((scaled base e num den).1 : ℚ) / (scaled base e num den).2 = num / den / base ^ e := by
  have hb : (base : ℚ) ≠ 0 := by positivity
  unfold scaled
  split
  next he =>
    obtain ⟨n, rfl⟩ := Int.eq_ofNat_of_zero_le he
    simp [div_div]
  next he =>
    obtain ⟨n, rfl⟩ : ∃ n : Nat, e = -n := ⟨(-e).toNat, by omega⟩
    simp [zpow_neg]
    ring

theorem scaled_le_iff (hbase : 0 < base) (hden : 0 < den) :
    (scaled base e num den).2 ≤ (scaled base e num den).1 ↔ (base : ℚ) ^ e ≤ num / den := by
  have hpos : (0 : ℚ) < (scaled base e num den).2 := by
    exact_mod_cast scaled_den_pos num e hbase hden
  have hpow : (0 : ℚ) < (base : ℚ) ^ e := by positivity
  rw [← one_le_div hpow, ← scaled_ratio num e hbase, one_le_div hpos, Nat.cast_le]

theorem reaches_iff (hbase : 0 < base) (hden : 0 < den) :
    (if 0 ≤ e then decide (den * Nat.pow base e.toNat ≤ num)
      else decide (den ≤ num * Nat.pow base (-e).toNat)) = true ↔ (base : ℚ) ^ e ≤ num / den := by
  rw [← scaled_le_iff num e hbase hden]
  unfold scaled
  split <;> exact decide_eq_true_iff

end Ratios

/-! ### Nearest whole numbers -/

/-- No whole number is nearer, and halfway between two it is the even one. -/
structure Nearest (q : ℚ) (m : Nat) : Prop where
  low : (m : ℚ) - 1 / 2 ≤ q
  high : q ≤ m + 1 / 2
  inside : m % 2 = 1 → (m : ℚ) - 1 / 2 < q ∧ q < m + 1 / 2

theorem nearest_natCast (m : Nat) : Nearest m m :=
  ⟨by linarith, by linarith, fun _ => ⟨by linarith, by linarith⟩⟩

theorem Nearest.mono {q q' : ℚ} {m m' : Nat} (h : Nearest q m) (h' : Nearest q' m') (hq : q ≤ q') :
    m ≤ m' := by
  by_contra hlt
  have hle : (m' : ℚ) + 1 ≤ m := by exact_mod_cast (show m' + 1 ≤ m by omega)
  have hnext : (m : ℚ) = m' + 1 := by linarith [h.low, h'.high]
  have hsucc : m = m' + 1 := by exact_mod_cast hnext
  rcases Nat.mod_two_eq_zero_or_one m with hm | hm
  · have hodd := h'.inside (by omega)
    linarith [h.low, hodd.2]
  · have hodd := h.inside hm
    linarith [h'.high, hodd.1]

theorem Nearest.eq_of_near {q : ℚ} {m n : Nat} (h : Nearest q m) (hlow : (n : ℚ) - 1 / 2 < q)
    (hhigh : q < n + 1 / 2) : m = n := by
  have hle : (m : ℚ) < n + 1 := by linarith [h.low]
  have hge : (n : ℚ) < m + 1 := by linarith [h.high]
  have hle' : m < n + 1 := by exact_mod_cast hle
  have hge' : n < m + 1 := by exact_mod_cast hge
  omega

namespace Binary64

theorem cast_div_eq (num : Nat) {den : Nat} (hden : 0 < den) :
    (num : ℚ) / den = ↑(num / den) + ↑(num % den) / den := by
  have hpos : (den : ℚ) ≠ 0 := by positivity
  rw [div_eq_iff hpos, add_mul, div_mul_cancel₀ _ hpos]
  exact_mod_cast (Nat.div_add_mod' num den).symm

theorem nearest_roundHalfEven (num : Nat) {den : Nat} (hden : 0 < den) :
    Nearest (num / den) (roundHalfEven num den) := by
  have hpos : (0 : ℚ) < den := by positivity
  have hlow : (0 : ℚ) ≤ ↑(num % den) / den := by positivity
  have hhigh : (↑(num % den) : ℚ) / den < 1 := by
    rw [div_lt_one hpos]
    exact_mod_cast Nat.mod_lt num hden
  have hhalf : (↑(num % den) : ℚ) / den ≤ 1 / 2 ↔ 2 * (num % den) ≤ den := by
    rw [div_le_div_iff₀ hpos (by norm_num)]
    norm_cast
    omega
  have hhalf' : (1 : ℚ) / 2 ≤ ↑(num % den) / den ↔ den ≤ 2 * (num % den) := by
    rw [div_le_div_iff₀ (by norm_num) hpos]
    norm_cast
    omega
  rw [cast_div_eq num hden]
  unfold roundHalfEven
  generalize (↑(num % den) : ℚ) / den = rest at *
  dsimp only
  split
  next hdown =>
    refine ⟨by linarith, by linarith [hhalf.2 (by omega)], fun hodd => ⟨by linarith, ?_⟩⟩
    have hlt : rest < 1 / 2 := by
      rw [← not_le, hhalf']
      omega
    linarith
  next hup =>
    have hnext : (↑(num / den + 1) : ℚ) = ↑(num / den) + 1 := Nat.cast_succ _
    refine ⟨by linarith [hhalf'.2 (by omega)], by linarith, fun hodd => ⟨?_, by linarith⟩⟩
    have hlt : 1 / 2 < rest := by
      rw [← not_le, hhalf]
      omega
    linarith

end Binary64

/-! ### Grids -/

theorem two_zpow_add (e : Int) (n : Nat) : (2 : ℚ) ^ (e + n) = 2 ^ n * 2 ^ e := by
  rw [zpow_add₀ two_ne_zero, zpow_natCast, mul_comm]

/-- The multiples of `2 ^ e` are the grid on which the number is rounded: the coarsest one that has
room for 53 bits of it, but none coarser than the last. -/
structure Grid (q : ℚ) (e : Int) : Prop where
  least : -1074 ≤ e
  lt : q < 2 ^ (e + 53)
  le : 2 ^ (e + 52) ≤ q ∨ e = -1074

theorem Grid.mono {q q' : ℚ} {e e' : Int} (h : Grid q e) (h' : Grid q' e') (hq : q ≤ q') :
    e ≤ e' := by
  by_contra hlt
  have hpow : (2 : ℚ) ^ (e + 52) ≤ q := h.le.resolve_right (by have := h'.least; omega)
  have hle : (2 : ℚ) ^ (e' + 53) ≤ 2 ^ (e + 52) := zpow_le_zpow_right₀ (by norm_num) (by omega)
  linarith [h'.lt]

namespace Binary64

theorem log2_lead {n : Nat} (hn : 0 < n) :
    (2 : ℚ) ^ (n.log2 : Int) ≤ n ∧ (n : ℚ) < 2 ^ ((n.log2 : Int) + 1) := by
  constructor
  · exact_mod_cast Nat.log2_self_le hn.ne'
  · exact_mod_cast Nat.lt_log2_self

theorem grid_of_lead {q : ℚ} {lead : Int} (hlow : (2 : ℚ) ^ lead ≤ q) (hhigh : q < 2 ^ (lead + 1)) :
    Grid q (max (-1074) (lead - 52)) := by
  refine ⟨by omega, hhigh.trans_le (zpow_le_zpow_right₀ (by norm_num) (by omega)), ?_⟩
  rcases le_total (lead - 52) (-1074) with hle | hle
  · exact .inr (by omega)
  · rw [max_eq_right hle, sub_add_cancel]
    exact .inl hlow

theorem grid_gridExponent {num den : Nat} (hnum : 0 < num) (hden : 0 < den) :
    Grid (num / den) (gridExponent num den) := by
  obtain ⟨hnumLow, hnumHigh⟩ := log2_lead hnum
  obtain ⟨hdenLow, hdenHigh⟩ := log2_lead hden
  obtain ⟨hlow, hhigh⟩ := lead_bounds two_pos hnumLow hnumHigh hdenLow hdenHigh
  have hreaches := reaches_iff num ((num.log2 : Int) - den.log2) two_pos hden
  push_cast at hreaches
  unfold gridExponent
  dsimp only
  by_cases hreached : (2 : ℚ) ^ ((num.log2 : Int) - den.log2) ≤ num / den
  · rw [if_pos (hreaches.2 hreached)]
    exact grid_of_lead hreached hhigh
  · rw [if_neg fun h => hreached (hreaches.1 h)]
    exact grid_of_lead hlow (by rwa [sub_add_cancel, ← not_le])

end Binary64

/-! ### Magnitudes -/

namespace Finite64

variable (x : Finite64)

/-- The number without its sign. -/
def magnitude : ℚ :=
  x.significand * 2 ^ x.exponent

def value : ℚ :=
  if x.negative then -x.magnitude else x.magnitude

theorem magnitude_nonneg : 0 ≤ x.magnitude := by
  unfold magnitude
  positivity

theorem grid_magnitude : Grid x.magnitude x.exponent := by
  obtain ⟨hsignificand, hleast, -, hnormal⟩ := x.canonical
  have hpow : (0 : ℚ) < 2 ^ x.exponent := by positivity
  refine ⟨hleast, ?_, hnormal.imp_left fun h => ?_⟩
  · have hcast : (x.significand : ℚ) < 2 ^ 53 := by exact_mod_cast hsignificand
    calc x.magnitude < 2 ^ 53 * 2 ^ x.exponent := mul_lt_mul_of_pos_right hcast hpow
      _ = 2 ^ (x.exponent + 53) := (two_zpow_add ..).symm
  · have hcast : (2 : ℚ) ^ 52 ≤ x.significand := by exact_mod_cast h
    calc (2 : ℚ) ^ (x.exponent + 52) = 2 ^ 52 * 2 ^ x.exponent := two_zpow_add ..
      _ ≤ x.magnitude := mul_le_mul_of_nonneg_right hcast hpow.le

theorem magnitude_lt : x.magnitude < 2 ^ (1024 : Int) := by
  have hlargest := x.canonical.2.2.1
  exact x.grid_magnitude.lt.trans_le (zpow_le_zpow_right₀ (by norm_num) (by omega))

/-- A finite number is known by its sign and its magnitude. -/
theorem eq_of_magnitude_eq {x y : Finite64} (hsign : x.negative = y.negative)
    (h : x.magnitude = y.magnitude) : x = y := by
  have hexponent : x.exponent = y.exponent :=
    le_antisymm (x.grid_magnitude.mono y.grid_magnitude h.le)
      (y.grid_magnitude.mono x.grid_magnitude h.ge)
  have hpow : (2 : ℚ) ^ y.exponent ≠ 0 := by positivity
  have hsignificand : x.significand = y.significand := by
    rw [magnitude, magnitude, hexponent, mul_left_inj' hpow] at h
    exact_mod_cast h
  cases x
  cases y
  simp_all

end Finite64

/-! ### Rounding -/

/-- The whole number nearest to `q` on its grid. -/
structure Rounds (q : ℚ) (m : Nat) (e : Int) : Prop where
  grid : Grid q e
  nearest : Nearest (q / 2 ^ e) m

theorem div_zpow_lt {q : ℚ} {e : Int} {n : Nat} (h : q < 2 ^ (e + n)) :
    q / 2 ^ e < (2 ^ n : Nat) := by
  have hpow : (0 : ℚ) < 2 ^ e := by positivity
  rw [div_lt_iff₀ hpow, Nat.cast_pow, Nat.cast_ofNat, ← two_zpow_add]
  exact h

namespace Rounds

variable {q q' : ℚ} {m m' : Nat} {e e' : Int}

theorem le_carry (h : Rounds q m e) : m ≤ 2 ^ 53 := by
  have hlt : q / 2 ^ e < (2 ^ 53 : Nat) := div_zpow_lt h.grid.lt
  exact h.nearest.mono (nearest_natCast _) hlt.le

theorem normal_le (h : Rounds q m e) (hq : 2 ^ (e + 52) ≤ q) : 2 ^ 52 ≤ m := by
  have hpow : (0 : ℚ) < 2 ^ e := by positivity
  have hle : ((2 ^ 52 : Nat) : ℚ) ≤ q / 2 ^ e := by
    rw [le_div_iff₀ hpow, Nat.cast_pow, Nat.cast_ofNat, ← two_zpow_add]
    exact hq
  exact (nearest_natCast _).mono h.nearest hle

/-- Where no carry moves it to the next grid, and otherwise at the first number of that grid, the
rounded number stands below those of any higher grid. -/
theorem mono (h : Rounds q m e) (h' : Rounds q' m' e') (hq : q ≤ q') :
    (m : ℚ) * 2 ^ e ≤ m' * 2 ^ e' := by
  have hpow : (0 : ℚ) < 2 ^ e := by positivity
  have hpow' : (0 : ℚ) < 2 ^ e' := by positivity
  rcases (h.grid.mono h'.grid hq).eq_or_lt with rfl | hlt
  · have hdiv : q / 2 ^ e ≤ q' / 2 ^ e := by gcongr
    have hle : (m : ℚ) ≤ m' := by exact_mod_cast h.nearest.mono h'.nearest hdiv
    gcongr
  · have hnormal : (2 : ℚ) ^ (e' + 52) ≤ q' :=
      h'.grid.le.resolve_right (by have := h.grid.least; omega)
    have hm : (m : ℚ) ≤ 2 ^ 53 := by exact_mod_cast h.le_carry
    have hm' : (2 : ℚ) ^ 52 ≤ m' := by exact_mod_cast h'.normal_le hnormal
    calc (m : ℚ) * 2 ^ e ≤ 2 ^ 53 * 2 ^ e := by gcongr
      _ = 2 ^ (e + 53) := (two_zpow_add ..).symm
      _ ≤ 2 ^ (e' + 52) := zpow_le_zpow_right₀ (by norm_num) (by omega)
      _ = 2 ^ 52 * 2 ^ e' := two_zpow_add ..
      _ ≤ m' * 2 ^ e' := by gcongr

theorem unique (h : Rounds q m e) (h' : Rounds q m' e') : (m : ℚ) * 2 ^ e = m' * 2 ^ e' :=
  le_antisymm (h.mono h' le_rfl) (h'.mono h le_rfl)

end Rounds

/-- The number is rounded to a finite one of this magnitude. -/
def RoundsTo (q : ℚ) (x : Finite64) : Prop :=
  ∃ m e, Rounds q m e ∧ (m : ℚ) * 2 ^ e = x.magnitude

theorem roundsTo_magnitude (x : Finite64) : RoundsTo x.magnitude x := by
  have hpow : (2 : ℚ) ^ x.exponent ≠ 0 := by positivity
  refine ⟨x.significand, x.exponent, ⟨x.grid_magnitude, ?_⟩, rfl⟩
  rw [Finite64.magnitude, mul_div_cancel_right₀ _ hpow]
  exact nearest_natCast x.significand

namespace Binary64

theorem ofParts_cases {q : ℚ} {m : Nat} {e : Int} (h : Rounds q m e) (negative : Bool) :
    (∃ y : Finite64, ofParts negative m e = .finite y ∧ y.negative = negative ∧
        y.magnitude = m * 2 ^ e) ∨
      (ofParts negative m e = .infinite negative ∧ (2 : ℚ) ^ (1024 : Int) ≤ m * 2 ^ e) := by
  have hcarry : m ≤ 2 ^ 53 := h.le_carry
  have hleast := h.grid.least
  have hnormal : 2 ^ 52 ≤ m ∨ e = -1074 := h.grid.le.imp_left h.normal_le
  have hlarge : ∀ n : Nat, 2 ^ n ≤ m → 1024 ≤ e + n → (2 : ℚ) ^ (1024 : Int) ≤ m * 2 ^ e := by
    intro n hm he
    have hcast : (2 : ℚ) ^ n ≤ m := by exact_mod_cast hm
    calc (2 : ℚ) ^ (1024 : Int) ≤ 2 ^ (e + n) := zpow_le_zpow_right₀ (by norm_num) he
      _ = 2 ^ n * 2 ^ e := two_zpow_add ..
      _ ≤ m * 2 ^ e := by gcongr
  unfold ofParts
  split
  next => exact .inl ⟨_, rfl, rfl, rfl⟩
  next hparts =>
    simp only [CanonicalParts, Nat.pow_eq] at hparts
    split
    next hcarried =>
      simp only [CanonicalParts, Nat.pow_eq] at hcarried
      obtain rfl : m = 2 ^ 53 := by omega
      refine .inl ⟨_, rfl, rfl, ?_⟩
      have htwo : (2 : ℚ) ^ (e + 1) = 2 * 2 ^ e := by
        rw [zpow_add_one₀ (by norm_num), mul_comm]
      simp only [Finite64.magnitude, htwo]
      norm_num
      ring
    next hcarried =>
      simp only [CanonicalParts, Nat.pow_eq] at hcarried
      refine .inr ⟨rfl, ?_⟩
      by_cases hm : m = 2 ^ 53
      · exact hlarge 53 hm.ge (by omega)
      · exact hlarge 52 (by omega) (by omega)

/-- The parts of a rounded number give the finite number of their magnitude, if there is one. -/
theorem ofParts_eq_finite_iff {q : ℚ} {m : Nat} {e : Int} (h : Rounds q m e) (negative : Bool)
    (x : Finite64) :
    ofParts negative m e = .finite x ↔ x.negative = negative ∧ RoundsTo q x := by
  have hto : RoundsTo q x ↔ (m : ℚ) * 2 ^ e = x.magnitude := by
    constructor
    · rintro ⟨m', e', h', hx⟩
      exact (h.unique h').trans hx
    · exact fun hx => ⟨m, e, h, hx⟩
  rw [hto]
  rcases ofParts_cases h negative with ⟨y, hy, hsign, hmagnitude⟩ | ⟨hinfinite, hlarge⟩
  · rw [hy, Binary64.finite.injEq, ← hsign, ← hmagnitude]
    constructor
    · rintro rfl
      exact ⟨rfl, rfl⟩
    · exact fun ⟨hs, hm⟩ => Finite64.eq_of_magnitude_eq hs.symm hm
  · rw [hinfinite]
    constructor
    · rintro ⟨⟩
    · exact fun ⟨_, hm⟩ => absurd (hm ▸ hlarge) (not_le.2 x.magnitude_lt)

theorem rounds_gridExponent {num den : Nat} (hnum : 0 < num) (hden : 0 < den) :
    ∃ m, Rounds (num / den) m (gridExponent num den) ∧
      ∀ negative, ofRatio negative num den = ofParts negative m (gridExponent num den) := by
  have hpos := scaled_den_pos num (gridExponent num den) two_pos hden
  have hscaled : ((scaled 2 (gridExponent num den) num den).1 : ℚ) / _ = _ :=
    scaled_ratio num (gridExponent num den) two_pos
  push_cast at hscaled
  refine ⟨roundHalfEven (scaled 2 (gridExponent num den) num den).1
    (scaled 2 (gridExponent num den) num den).2, ⟨grid_gridExponent hnum hden, ?_⟩, ?_⟩
  · rw [← hscaled]
    exact nearest_roundHalfEven _ hpos
  · intro negative
    unfold ofRatio scaled
    rw [if_neg hnum.ne']
    dsimp only
    split <;> rfl

theorem ofRatio_eq_finite_iff {num den : Nat} (hnum : 0 < num) (hden : 0 < den) (negative : Bool)
    (x : Finite64) :
    ofRatio negative num den = .finite x ↔ x.negative = negative ∧ RoundsTo (num / den) x := by
  obtain ⟨m, hrounds, hratio⟩ := rounds_gridExponent hnum hden
  rw [hratio]
  exact ofParts_eq_finite_iff hrounds negative x

end Binary64

theorem exists_rounds {q : ℚ} (hq : 0 ≤ q) : ∃ m e, Rounds q m e := by
  rcases hq.eq_or_lt with rfl | hpos
  · refine ⟨0, -1074, ⟨le_rfl, by positivity, .inr rfl⟩, ?_⟩
    rw [zero_div]
    exact nearest_natCast 0
  · obtain ⟨n, hn⟩ := Int.eq_ofNat_of_zero_le (Rat.num_nonneg.2 hq)
    have hnum : 0 < n := by
      have := Rat.num_pos.2 hpos
      omega
    obtain ⟨m, hrounds, -⟩ := Binary64.rounds_gridExponent hnum q.den_pos
    have hratio : (n : ℚ) / q.den = q := by
      rw [← Int.cast_natCast, ← hn]
      exact q.num_div_den
    exact ⟨m, _, hratio ▸ hrounds⟩

namespace RoundsTo

variable {a b c q : ℚ} {x y : Finite64}

theorem between (ha : RoundsTo a x) (hc : RoundsTo c x) (hb : 0 ≤ b) (hab : a ≤ b) (hbc : b ≤ c) :
    RoundsTo b x := by
  obtain ⟨ma, ea, hra, hxa⟩ := ha
  obtain ⟨mc, ec, hrc, hxc⟩ := hc
  obtain ⟨m, e, hr⟩ := exists_rounds hb
  exact ⟨m, e, hr, le_antisymm (hxc ▸ hr.mono hrc hbc) (hxa ▸ hra.mono hr hab)⟩

theorem finite_eq_iff (h : RoundsTo q y) :
    Binary64.finite y = .finite x ↔ x.negative = y.negative ∧ RoundsTo q x := by
  obtain ⟨m, e, hr, hy⟩ := h
  constructor
  · rintro ⟨⟩
    exact ⟨rfl, m, e, hr, hy⟩
  · rintro ⟨hsign, m', e', hr', hx⟩
    rw [Finite64.eq_of_magnitude_eq hsign (hx ▸ hy ▸ hr'.unique hr)]

theorem zero_of_lt (hq : 0 ≤ q) (h : q < 2 ^ (-1075 : Int)) (negative : Bool) :
    RoundsTo q (.zero negative) := by
  have hpow : (0 : ℚ) < 2 ^ (-1074 : Int) := by positivity
  have hhalf : (2 : ℚ) ^ (-1075 : Int) = 1 / 2 * 2 ^ (-1074 : Int) := by
    rw [show (-1075 : Int) = -1074 - 1 by norm_num, zpow_sub_one₀ (by norm_num)]
    ring
  refine ⟨0, -1074, ⟨⟨le_rfl, ?_, .inr rfl⟩, ?_⟩, ?_⟩
  · exact h.trans_le (zpow_le_zpow_right₀ (by norm_num) (by norm_num))
  · have hnonneg : 0 ≤ q / 2 ^ (-1074 : Int) := by positivity
    have hle : q / 2 ^ (-1074 : Int) ≤ 1 / 2 := by
      rw [div_le_iff₀ hpow, ← hhalf]
      exact h.le
    refine ⟨?_, ?_, by simp⟩ <;> rw [Nat.cast_zero] <;> linarith
  · simp only [Finite64.magnitude, Finite64.zero, Nat.cast_zero, zero_mul]

theorem lt_of_finite (h : RoundsTo q x) : q < 2 ^ (1024 : Int) := by
  by_contra hle
  obtain ⟨m, e, hr, hx⟩ := h
  have hlarge : Rounds (2 ^ (1024 : Int)) (2 ^ 52) 972 := by
    refine ⟨⟨by norm_num, zpow_lt_zpow_right₀ (by norm_num) (by norm_num), .inl le_rfl⟩, ?_⟩
    have hdiv : (2 : ℚ) ^ (1024 : Int) / 2 ^ (972 : Int) = (2 ^ 52 : Nat) := by
      rw [← zpow_sub₀ (by norm_num)]
      norm_num
    rw [hdiv]
    exact nearest_natCast (2 ^ 52)
  have hle' : (2 : ℚ) ^ (1024 : Int) ≤ m * 2 ^ e := by
    calc (2 : ℚ) ^ (1024 : Int) = 2 ^ (52 : Int) * 2 ^ (972 : Int) := zpow_add₀ two_ne_zero 52 972
      _ = (2 ^ 52 : Nat) * 2 ^ (972 : Int) := by
          rw [Nat.cast_pow, Nat.cast_ofNat, ← zpow_natCast, Nat.cast_ofNat]
      _ ≤ m * 2 ^ e := hlarge.mono hr (not_lt.1 hle)
  exact absurd (hx ▸ hle') (not_le.2 x.magnitude_lt)

end RoundsTo

/-! ### Decimals -/

/-- A row of digits without a zero in front says between which powers of ten its number lies. -/
theorem toDigits_lead {n : Nat} (hn : 0 < n) :
    (10 : ℚ) ^ ((Nat.toDigits 10 n).length - 1 : Int) ≤ n ∧
      (n : ℚ) < 10 ^ ((Nat.toDigits 10 n).length - 1 + 1 : Int) := by
  obtain ⟨k, hk⟩ : ∃ k, (Nat.toDigits 10 n).length = k + 1 :=
    ⟨_, (Nat.succ_pred_eq_of_pos Nat.length_toDigits_pos).symm⟩
  have hhigh : n < 10 ^ (k + 1) :=
    (Nat.length_toDigits_le_iff (by norm_num) k.succ_pos).1 hk.le
  have hlow : 10 ^ k ≤ n := by
    rcases k.eq_zero_or_pos with rfl | hpos
    · exact hn
    · rw [← not_lt, ← Nat.length_toDigits_le_iff (by norm_num) hpos]
      omega
  rw [hk]
  constructor
  · rw [Nat.cast_add_one, add_sub_cancel_right, zpow_natCast]
    exact_mod_cast hlow
  · rw [sub_add_cancel, zpow_natCast]
    exact_mod_cast hhigh

theorem two_zpow_le_ten_zpow {n k : Int} (hk : 0 ≤ k) (h : n ≤ 3 * k) : (2 : ℚ) ^ n ≤ 10 ^ k := by
  obtain ⟨k, rfl⟩ := Int.eq_ofNat_of_zero_le hk
  calc (2 : ℚ) ^ n ≤ 2 ^ ((3 * k : Nat) : Int) := zpow_le_zpow_right₀ (by norm_num) (by omega)
    _ = (2 ^ 3) ^ k := by rw [zpow_natCast, pow_mul]
    _ ≤ 10 ^ k := by gcongr; norm_num
    _ = 10 ^ (k : Int) := (zpow_natCast 10 k).symm

namespace Decimal

variable (d : Decimal)

/-- The number that a decimal denotes, without its sign. -/
def magnitude : ℚ :=
  d.coefficient * 10 ^ d.exponent

/-- The number that a decimal denotes. -/
def value : ℚ :=
  if d.negative then -d.magnitude else d.magnitude

theorem magnitude_nonneg : 0 ≤ d.magnitude := by
  unfold magnitude
  positivity

/-- The point says between which powers of ten a decimal lies. -/
theorem magnitude_bounds (h : 0 < d.coefficient) :
    (10 : ℚ) ^ (d.point - 1) ≤ d.magnitude ∧ d.magnitude < 10 ^ d.point := by
  obtain ⟨hlow, hhigh⟩ := toDigits_lead h
  have hpow : (0 : ℚ) < 10 ^ d.exponent := by positivity
  unfold magnitude
  constructor
  · calc (10 : ℚ) ^ (d.point - 1) = 10 ^ (d.digits.length - 1 : Int) * 10 ^ d.exponent := by
          rw [← zpow_add₀ (by norm_num)]
          congr 1
          unfold point
          omega
      _ ≤ d.coefficient * 10 ^ d.exponent := mul_le_mul_of_nonneg_right hlow hpow.le
  · calc (d.coefficient : ℚ) * 10 ^ d.exponent
        < 10 ^ (d.digits.length - 1 + 1 : Int) * 10 ^ d.exponent :=
          mul_lt_mul_of_pos_right hhigh hpow
      _ = 10 ^ d.point := by
          rw [← zpow_add₀ (by norm_num)]
          congr 1
          unfold point
          omega

theorem roundsTo_zero_of_coefficient (h : d.coefficient = 0) :
    RoundsTo d.magnitude (.zero d.negative) := by
  refine .zero_of_lt d.magnitude_nonneg ?_ d.negative
  rw [magnitude, h, Nat.cast_zero, zero_mul]
  positivity

/-- So far above one, there is no finite number. -/
theorem not_roundsTo_of_point (h : 0 < d.coefficient) (hlarge : 400 < d.point) (x : Finite64) :
    ¬ RoundsTo d.magnitude x := by
  intro hto
  have hle : (10 : ℚ) ^ (400 : Int) ≤ 10 ^ (d.point - 1) :=
    zpow_le_zpow_right₀ (by norm_num) (by omega)
  have hten : (2 : ℚ) ^ (1024 : Int) ≤ 10 ^ (400 : Int) :=
    two_zpow_le_ten_zpow (by norm_num) (by norm_num)
  exact absurd hto.lt_of_finite (not_lt.2 (hten.trans (hle.trans (d.magnitude_bounds h).1)))

/-- So far below one, there is no finite number but zero. -/
theorem roundsTo_zero_of_point (h : 0 < d.coefficient) (hsmall : d.point < -400) :
    RoundsTo d.magnitude (.zero d.negative) := by
  have hle : (10 : ℚ) ^ d.point ≤ 10 ^ (-400 : Int) :=
    zpow_le_zpow_right₀ (by norm_num) (by omega)
  have hten : (10 : ℚ) ^ (-400 : Int) ≤ 2 ^ (-1075 : Int) := by
    rw [zpow_neg, zpow_neg]
    gcongr
    exact two_zpow_le_ten_zpow (by norm_num) (by norm_num)
  exact .zero_of_lt d.magnitude_nonneg ((d.magnitude_bounds h).2.trans_le (hle.trans hten)) _

theorem ratio_of_nonneg (h : 0 ≤ d.exponent) :
    ((d.coefficient * Nat.pow 10 d.exponent.toNat : Nat) : ℚ) / (1 : Nat) = d.magnitude := by
  obtain ⟨n, hn⟩ := Int.eq_ofNat_of_zero_le h
  simp [magnitude, hn]

theorem ratio_of_neg (h : d.exponent < 0) :
    (d.coefficient : ℚ) / (Nat.pow 10 (-d.exponent).toNat : Nat) = d.magnitude := by
  obtain ⟨n, hn⟩ : ∃ n : Nat, d.exponent = -n := ⟨(-d.exponent).toNat, by omega⟩
  simp [magnitude, hn, zpow_neg, div_eq_mul_inv]

end Decimal

namespace Binary64

/-- A decimal is read as what its number is rounded to, however it is written. -/
theorem ofDecimal_eq_finite_iff (d : Decimal) (x : Finite64) :
    ofDecimal d = .finite x ↔ x.negative = d.negative ∧ RoundsTo d.magnitude x := by
  unfold ofDecimal
  split
  next hzero => exact (d.roundsTo_zero_of_coefficient hzero).finite_eq_iff
  next hcoefficient =>
    have hpos : 0 < d.coefficient := Nat.pos_of_ne_zero hcoefficient
    split
    next hlarge =>
      constructor
      · rintro ⟨⟩
      · exact fun h => absurd h.2 (d.not_roundsTo_of_point hpos hlarge x)
    next =>
      split
      next hsmall => exact (d.roundsTo_zero_of_point hpos hsmall).finite_eq_iff
      next =>
        split
        next hexponent =>
          rw [← d.ratio_of_nonneg hexponent]
          exact ofRatio_eq_finite_iff (Nat.mul_pos hpos (Nat.pow_pos (by norm_num))) one_pos _ x
        next hexponent =>
          rw [← d.ratio_of_neg (not_le.1 hexponent)]
          exact ofRatio_eq_finite_iff hpos (Nat.pow_pos (by norm_num)) d.negative x

end Binary64

end DotGraph
