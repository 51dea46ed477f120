import DotGraph.Binary64.Shortest
import DotGraph.Proofs.Rounding

/-!
Shortest decimals.  Of the decimals that are read as a finite number, the one under which the number
is shown has the fewest digits, and of those with as few digits none is nearer to the number.
-/

namespace DotGraph

/-! ### Decimals near a number -/

namespace RoundsTo

variable {q : ℚ} {x : Finite64}

theorem of_exponent {m : Nat} (hr : Rounds q m x.exponent)
    (hlow : x.magnitude - 2 ^ x.exponent / 2 < q) (hhigh : q < x.magnitude + 2 ^ x.exponent / 2) :
    RoundsTo q x := by
  have hpow : (0 : ℚ) < 2 ^ x.exponent := by positivity
  have hm : m = x.significand := by
    refine hr.nearest.eq_of_near ?_ ?_
    · rw [lt_div_iff₀ hpow]
      unfold Finite64.magnitude at hlow
      linarith
    · rw [div_lt_iff₀ hpow]
      unfold Finite64.magnitude at hhigh
      linarith
  exact ⟨m, x.exponent, hr, by rw [hm]; rfl⟩

/-- A number that stands above `x` by less than `2 ^ -54` of it is rounded to it. -/
theorem of_near_above (hle : x.magnitude ≤ q) (hnear : (q - x.magnitude) * 2 ^ 54 < x.magnitude) :
    RoundsTo q x := by
  obtain ⟨m, e, hr⟩ := exists_rounds (x.magnitude_nonneg.trans hle)
  have hpow : (0 : ℚ) < 2 ^ x.exponent := by positivity
  have hbound : (x.significand : ℚ) + 1 ≤ 2 ^ 53 := by exact_mod_cast x.canonical.1
  have hmagnitude : x.magnitude ≤ (2 ^ 53 - 1) * 2 ^ x.exponent := by
    unfold Finite64.magnitude
    gcongr
    linarith
  have hexponent : x.exponent = e := by
    refine le_antisymm (x.grid_magnitude.mono hr.grid hle) (not_lt.1 fun hlt => ?_)
    have hnormal : (2 : ℚ) ^ (e + 52) ≤ q :=
      hr.grid.le.resolve_right (by have := x.grid_magnitude.least; omega)
    have hcarry : (2 : ℚ) ^ (x.exponent + 53) ≤ 2 ^ (e + 52) :=
      zpow_le_zpow_right₀ (by norm_num) (by omega)
    have hstep : (2 : ℚ) ^ (x.exponent + 53) = 2 ^ 53 * 2 ^ x.exponent := two_zpow_add ..
    linarith
  subst hexponent
  exact of_exponent hr (by linarith) (by linarith)

/-- A number so near below `x` has a finer grid only if `x` is the first number of its own, and then
it is the next finer one. -/
theorem first_of_grid_lt {e : Int} (hgrid : Grid q e) (hexponent : e < x.exponent)
    (hnear : (x.magnitude - q) * 2 ^ 54 < x.magnitude) :
    x.significand = 2 ^ 52 ∧ x.exponent = e + 1 := by
  have hpow : (0 : ℚ) < 2 ^ x.exponent := by positivity
  have hlt := x.grid_magnitude.lt
  have hstep : (2 : ℚ) ^ (x.exponent + 53) = 2 ^ 53 * 2 ^ x.exponent := two_zpow_add ..
  have hnormal : (2 : ℚ) ^ (x.exponent + 52) ≤ x.magnitude :=
    x.grid_magnitude.le.resolve_right (by have := hgrid.least; omega)
  have hstep' : (2 : ℚ) ^ (x.exponent + 52) = 2 ^ 52 * 2 ^ x.exponent := two_zpow_add ..
  have hlower : q < 2 ^ (e + 53) := hgrid.lt
  constructor
  · have hcarry : (2 : ℚ) ^ (e + 53) ≤ 2 ^ (x.exponent + 52) :=
      zpow_le_zpow_right₀ (by norm_num) (by omega)
    have hle : (2 ^ 52 : ℚ) ≤ x.significand := by
      rw [hstep', Finite64.magnitude] at hnormal
      exact le_of_mul_le_mul_right hnormal hpow
    have hlt : (x.significand : ℚ) < 2 ^ 52 + 1 := by
      refine lt_of_mul_lt_mul_right ?_ hpow.le
      change x.magnitude < _
      linarith
    have hle' : 2 ^ 52 ≤ x.significand := by exact_mod_cast hle
    have hlt' : x.significand < 2 ^ 52 + 1 := by exact_mod_cast hlt
    omega
  · by_contra hne
    have hcarry : (2 : ℚ) ^ (e + 53) ≤ 2 ^ (x.exponent + 52 - 1) :=
      zpow_le_zpow_right₀ (by norm_num) (by omega)
    rw [zpow_sub_one₀ two_ne_zero, hstep'] at hcarry
    linarith

/-- A number that stands below `x` by less than `2 ^ -54` of it is rounded to it.  If `x` is the
first number of its grid, the next grid has half its step, and this is half a step of that one. -/
theorem of_near_below (hle : q ≤ x.magnitude) (hnear : (x.magnitude - q) * 2 ^ 54 < x.magnitude) :
    RoundsTo q x := by
  obtain ⟨m, e, hr⟩ := exists_rounds (show 0 ≤ q by linarith [x.magnitude_nonneg])
  rcases (hr.grid.mono x.grid_magnitude hle).eq_or_lt with rfl | hexponent
  · have hlt := x.grid_magnitude.lt
    have hstep : (2 : ℚ) ^ (x.exponent + 53) = 2 ^ 53 * 2 ^ x.exponent := two_zpow_add ..
    exact of_exponent hr (by linarith) (by linarith)
  · obtain ⟨hfirst, hnext⟩ := first_of_grid_lt hr.grid hexponent hnear
    have hpow : (0 : ℚ) < 2 ^ e := by positivity
    have hmagnitude : x.magnitude = 2 ^ 53 * 2 ^ e := by
      rw [Finite64.magnitude, hfirst, hnext, zpow_add_one₀ two_ne_zero]
      push_cast
      ring
    have hm : m = 2 ^ 53 := by
      refine hr.nearest.eq_of_near ?_ ?_
      · rw [lt_div_iff₀ hpow]
        push_cast
        linarith
      · rw [div_lt_iff₀ hpow]
        push_cast
        linarith
    refine ⟨m, e, hr, ?_⟩
    rw [hm, hmagnitude]
    push_cast
    rfl

end RoundsTo

/-! ### Trimming -/

namespace Decimal

variable (d : Decimal)

theorem trimmed_negative : d.trimmed.negative = d.negative := by
  fun_induction trimmed d with
  | case1 d _ ih => exact ih
  | case2 d _ => rfl

theorem trimmed_magnitude : d.trimmed.magnitude = d.magnitude := by
  fun_induction trimmed d with
  | case1 d h ih =>
    have hcoefficient : (d.coefficient : ℚ) = ↑(d.coefficient / 10) * 10 := by
      exact_mod_cast (show d.coefficient = d.coefficient / 10 * 10 by omega)
    rw [ih]
    simp only [magnitude, zpow_add_one₀ (show (10 : ℚ) ≠ 0 by norm_num), hcoefficient]
    ring
  | case2 d _ => rfl

theorem length_digits_le_iff {k : Nat} (hk : 0 < k) :
    d.digits.length ≤ k ↔ d.coefficient < 10 ^ k :=
  Nat.length_toDigits_le_iff (by norm_num) hk

theorem length_digits_trimmed_le {k : Nat} (hk : 0 < k) (h : d.coefficient ≤ 10 ^ k) :
    d.trimmed.digits.length ≤ k := by
  rw [length_digits_le_iff _ hk]
  have hcases : d.coefficient < 10 ^ k ∨ ∃ j, d.coefficient = 10 ^ j :=
    h.lt_or_eq.imp_right fun h => ⟨k, h⟩
  clear h
  fun_induction trimmed d with
  | case1 d h ih =>
    refine ih (hcases.imp (fun hlt => (Nat.div_le_self _ _).trans_lt hlt) ?_)
    rintro ⟨_ | j, hj⟩
    · omega
    · exact ⟨j, by simp [hj, Nat.pow_succ]⟩
  | case2 d h =>
    rcases hcases with hlt | ⟨_ | j, hj⟩
    · exact hlt
    · simpa [hj] using Nat.one_lt_pow hk.ne' (by norm_num : 1 < 10)
    · exact absurd ⟨by simp [hj], by simp [hj, Nat.pow_succ]⟩ h

end Decimal

/-! ### The two neighbours of a number -/

namespace Finite64

variable (x : Finite64)

theorem ratio_snd_pos : 0 < x.ratio.2 := by
  unfold ratio
  split
  · exact one_pos
  · exact Nat.pow_pos (by norm_num)

theorem ratio_eq : (x.ratio.1 : ℚ) / x.ratio.2 = x.magnitude := by
  unfold ratio magnitude
  split
  next h =>
    obtain ⟨n, hn⟩ := Int.eq_ofNat_of_zero_le h
    simp [hn]
  next h =>
    obtain ⟨n, hn⟩ : ∃ n : Nat, x.exponent = -n := ⟨(-x.exponent).toNat, by omega⟩
    simp [hn, zpow_neg, div_eq_mul_inv]

theorem decimalPoint_bounds {num den : Nat} (hnum : 0 < num) (hden : 0 < den) :
    (10 : ℚ) ^ (decimalPoint num den - 1) ≤ num / den ∧
      (num : ℚ) / den < 10 ^ decimalPoint num den := by
  obtain ⟨hnumLow, hnumHigh⟩ := toDigits_lead hnum
  obtain ⟨hdenLow, hdenHigh⟩ := toDigits_lead hden
  obtain ⟨hlow, hhigh⟩ := lead_bounds (by norm_num) hnumLow hnumHigh hdenLow hdenHigh
  rw [sub_sub_sub_cancel_right] at hlow hhigh
  have hreaches := reaches_iff num
    ((Nat.toDigits 10 num).length - (Nat.toDigits 10 den).length) (show 0 < 10 by norm_num) hden
  push_cast at hreaches
  unfold decimalPoint
  dsimp only
  by_cases hreached :
      (10 : ℚ) ^ ((Nat.toDigits 10 num).length - (Nat.toDigits 10 den).length : Int) ≤ num / den
  · rw [if_pos (hreaches.2 hreached), add_sub_cancel_right]
    exact ⟨hreached, hhigh⟩
  · rw [if_neg fun h => hreached (hreaches.1 h)]
    exact ⟨hlow, not_le.1 hreached⟩

/-- The place of the last of so many digits. -/
def lastPlace (count : Nat) : Int :=
  decimalPoint x.ratio.1 x.ratio.2 - count

/-- The number in units of that place, as a ratio. -/
def inUnits (count : Nat) : Nat × Nat :=
  scaled 10 (x.lastPlace count) x.ratio.1 x.ratio.2

/-- The number in units of that place, without its fraction. -/
def wholeUnits (count : Nat) : Nat :=
  (x.inUnits count).1 / (x.inUnits count).2

def below (count : Nat) : Decimal :=
  (Decimal.mk x.negative (x.wholeUnits count) (x.lastPlace count)).trimmed

def above (count : Nat) : Decimal :=
  (Decimal.mk x.negative (x.wholeUnits count + 1) (x.lastPlace count)).trimmed

theorem magnitude_below (count : Nat) :
    (x.below count).magnitude = x.wholeUnits count * 10 ^ x.lastPlace count :=
  Decimal.trimmed_magnitude _

theorem magnitude_above (count : Nat) :
    (x.above count).magnitude = (x.wholeUnits count + 1) * 10 ^ x.lastPlace count := by
  rw [above, Decimal.trimmed_magnitude, Decimal.magnitude, Nat.cast_succ]

theorem inUnits_snd_pos (count : Nat) : 0 < (x.inUnits count).2 :=
  scaled_den_pos _ _ (by norm_num) x.ratio_snd_pos

theorem inUnits_eq (count : Nat) :
    ((x.inUnits count).1 : ℚ) / (x.inUnits count).2 = x.magnitude / 10 ^ x.lastPlace count := by
  have hratio : ((x.inUnits count).1 : ℚ) / (x.inUnits count).2 = _ :=
    scaled_ratio x.ratio.1 (x.lastPlace count) (by norm_num)
  rwa [x.ratio_eq, Nat.cast_ofNat] at hratio

theorem candidates_eq_ite (count : Nat) :
    x.candidates count =
      if 2 * ((x.inUnits count).1 % (x.inUnits count).2) < (x.inUnits count).2 ∨
          (2 * ((x.inUnits count).1 % (x.inUnits count).2) = (x.inUnits count).2 ∧
            x.wholeUnits count % 2 = 0) then [x.below count, x.above count]
      else [x.above count, x.below count] := rfl

/-- Where the number stands between its two neighbours, and which of them comes first. -/
theorem exists_rest (count : Nat) : ∃ rest : ℚ, 0 ≤ rest ∧ rest < 1 ∧
    x.magnitude = (x.wholeUnits count + rest) * 10 ^ x.lastPlace count ∧
    ((x.candidates count = [x.below count, x.above count] ∧ rest ≤ 1 / 2) ∨
      (x.candidates count = [x.above count, x.below count] ∧ 1 / 2 ≤ rest)) := by
  have hpos := x.inUnits_snd_pos count
  have heq := x.inUnits_eq count
  have hcandidates := x.candidates_eq_ite count
  unfold wholeUnits at hcandidates ⊢
  generalize (x.inUnits count).1 = num at *
  generalize (x.inUnits count).2 = den at *
  have hcast : (0 : ℚ) < den := by exact_mod_cast hpos
  have hpow : (10 : ℚ) ^ x.lastPlace count ≠ 0 := by positivity
  refine ⟨↑(num % den) / den, by positivity, ?_, ?_, ?_⟩
  · rw [div_lt_one hcast]
    exact_mod_cast Nat.mod_lt num hpos
  · rw [← Binary64.cast_div_eq num hpos, heq, div_mul_cancel₀ _ hpow]
  · rw [hcandidates]
    split
    next h =>
      refine .inl ⟨rfl, ?_⟩
      rw [div_le_div_iff₀ hcast (by norm_num)]
      norm_cast
      omega
    next h =>
      refine .inr ⟨rfl, ?_⟩
      rw [div_le_div_iff₀ (by norm_num) hcast]
      norm_cast
      omega

theorem below_le (count : Nat) : (x.below count).magnitude ≤ x.magnitude := by
  obtain ⟨rest, hrest, -, heq, -⟩ := x.exists_rest count
  rw [magnitude_below, heq]
  gcongr
  linarith

theorem lt_above (count : Nat) : x.magnitude < (x.above count).magnitude := by
  obtain ⟨rest, -, hrest, heq, -⟩ := x.exists_rest count
  rw [magnitude_above, heq]
  gcongr

/-- The nearer neighbour comes first, and is away by half a unit at most. -/
theorem candidates_eq (count : Nat) : ∃ first second, x.candidates count = [first, second] ∧
    (∀ d, d = x.below count ∨ d = x.above count ↔ d = first ∨ d = second) ∧
    |first.magnitude - x.magnitude| ≤ |second.magnitude - x.magnitude| ∧
    |first.magnitude - x.magnitude| ≤ 10 ^ x.lastPlace count / 2 := by
  obtain ⟨rest, hlow, hhigh, heq, hcases⟩ := x.exists_rest count
  have hpow : (0 : ℚ) < 10 ^ x.lastPlace count := by positivity
  have hbelow : |(x.below count).magnitude - x.magnitude| = rest * 10 ^ x.lastPlace count := by
    rw [abs_of_nonpos (by linarith [x.below_le count]), magnitude_below, heq]
    ring
  have habove : |(x.above count).magnitude - x.magnitude| =
      (1 - rest) * 10 ^ x.lastPlace count := by
    rw [abs_of_nonneg (by linarith [x.lt_above count]), magnitude_above, heq]
    ring
  rcases hcases with ⟨hcandidates, hhalf⟩ | ⟨hcandidates, hhalf⟩
  · refine ⟨_, _, hcandidates, fun d => Iff.rfl, ?_, ?_⟩
    · rw [hbelow, habove]
      gcongr
      linarith
    · rw [hbelow]
      nlinarith
  · refine ⟨_, _, hcandidates, fun d => or_comm, ?_, ?_⟩
    · rw [hbelow, habove]
      gcongr
      linarith
    · rw [habove]
      nlinarith

section Digits

variable {x} {count : Nat}

theorem ratio_fst_pos (hx : 0 < x.significand) : 0 < x.ratio.1 := by
  unfold ratio
  split
  · exact Nat.mul_pos hx (Nat.pow_pos (by norm_num))
  · exact hx

theorem le_wholeUnits (hx : 0 < x.significand) (hcount : 0 < count) :
    (10 : ℚ) ^ (x.lastPlace count + count - 1) ≤ (x.below count).magnitude := by
  obtain ⟨hlow, -⟩ := decimalPoint_bounds (ratio_fst_pos hx) x.ratio_snd_pos
  obtain ⟨k, rfl⟩ : ∃ k, count = k + 1 := ⟨_, (Nat.succ_pred_eq_of_pos hcount).symm⟩
  have hpow : (0 : ℚ) < 10 ^ x.lastPlace (k + 1) := by positivity
  have hfirst : (10 : ℚ) ^ (x.lastPlace (k + 1) + (k + 1 : Nat) - 1) =
      (10 ^ k : Nat) * 10 ^ x.lastPlace (k + 1) := by
    rw [Nat.cast_pow, Nat.cast_ofNat, ← zpow_natCast, ← zpow_add₀ (by norm_num)]
    congr 1
    push_cast
    ring
  have hplace : decimalPoint x.ratio.1 x.ratio.2 - 1 = x.lastPlace (k + 1) + (k + 1 : Nat) - 1 := by
    unfold lastPlace
    ring
  rw [x.ratio_eq, hplace, hfirst] at hlow
  have habove := hlow.trans_lt (x.lt_above (k + 1))
  rw [magnitude_above] at habove
  have hlt : ((10 ^ k : Nat) : ℚ) < x.wholeUnits (k + 1) + 1 :=
    lt_of_mul_lt_mul_right habove hpow.le
  have hle : 10 ^ k ≤ x.wholeUnits (k + 1) := Nat.lt_succ_iff.1 (by exact_mod_cast hlt)
  rw [hfirst, magnitude_below]
  gcongr

theorem wholeUnits_lt (hx : 0 < x.significand) : x.wholeUnits count < 10 ^ count := by
  obtain ⟨-, hhigh⟩ := decimalPoint_bounds (ratio_fst_pos hx) x.ratio_snd_pos
  have hpow : (0 : ℚ) < 10 ^ x.lastPlace count := by positivity
  have hplace : decimalPoint x.ratio.1 x.ratio.2 = count + x.lastPlace count := by
    unfold lastPlace
    ring
  rw [x.ratio_eq, hplace, zpow_add₀ (by norm_num), zpow_natCast] at hhigh
  have hbelow := (x.below_le count).trans_lt hhigh
  rw [magnitude_below] at hbelow
  exact_mod_cast lt_of_mul_lt_mul_right hbelow hpow.le

theorem not_between (hx : 0 < x.significand) (hcount : 0 < count) {d : Decimal}
    (hd : d.coefficient < 10 ^ count) :
    d.magnitude ≤ (x.below count).magnitude ∨ (x.above count).magnitude ≤ d.magnitude := by
  by_cases hplace : x.lastPlace count ≤ d.exponent
  · obtain ⟨n, hn⟩ : ∃ n : Nat, d.exponent = n + x.lastPlace count :=
      ⟨(d.exponent - x.lastPlace count).toNat, by omega⟩
    have heq : d.magnitude = ↑(d.coefficient * 10 ^ n) * 10 ^ x.lastPlace count := by
      rw [Decimal.magnitude, hn, zpow_add₀ (by norm_num), zpow_natCast]
      push_cast
      ring
    rw [heq, magnitude_below, magnitude_above]
    rcases Nat.lt_or_ge (x.wholeUnits count) (d.coefficient * 10 ^ n) with hlt | hge
    · right
      gcongr
      exact_mod_cast hlt
    · left
      gcongr
  · left
    have hcast : (d.coefficient : ℚ) ≤ 10 ^ count := by exact_mod_cast hd.le
    calc d.magnitude ≤ 10 ^ count * 10 ^ d.exponent := by
          unfold Decimal.magnitude
          gcongr
      _ = 10 ^ (count + d.exponent) := by rw [zpow_add₀ (by norm_num), zpow_natCast]
      _ ≤ 10 ^ (x.lastPlace count + count - 1) := zpow_le_zpow_right₀ (by norm_num) (by omega)
      _ ≤ (x.below count).magnitude := le_wholeUnits hx hcount

end Digits

/-! ### The search -/

theorem readsBack_iff (d : Decimal) :
    x.readsBack d = true ↔ x.negative = d.negative ∧ RoundsTo d.magnitude x := by
  rw [readsBack, decide_eq_true_iff, Binary64.ofDecimal_eq_finite_iff]

section Search

variable {x} {count : Nat}

theorem negative_below : (x.below count).negative = x.negative :=
  Decimal.trimmed_negative _

theorem negative_above : (x.above count).negative = x.negative :=
  Decimal.trimmed_negative _

theorem exists_neighbour (hx : 0 < x.significand) (hcount : 0 < count) {d : Decimal}
    (hd : d.coefficient < 10 ^ count) (hread : x.readsBack d = true) :
    ∃ c, (c = x.below count ∨ c = x.above count) ∧ x.readsBack c = true ∧
      |c.magnitude - x.magnitude| ≤ |d.magnitude - x.magnitude| := by
  obtain ⟨-, hround⟩ := (x.readsBack_iff d).1 hread
  rcases not_between hx hcount hd with hle | hge
  · refine ⟨_, .inl rfl, (x.readsBack_iff _).2 ⟨negative_below.symm, ?_⟩, ?_⟩
    · exact hround.between (roundsTo_magnitude x) (Decimal.magnitude_nonneg _) hle
        (x.below_le count)
    · rw [abs_of_nonpos (by linarith [x.below_le count]),
        abs_of_nonpos (by linarith [x.below_le count])]
      linarith
  · refine ⟨_, .inr rfl, (x.readsBack_iff _).2 ⟨negative_above.symm, ?_⟩, ?_⟩
    · exact (roundsTo_magnitude x).between hround (Decimal.magnitude_nonneg _) (x.lt_above count).le
        hge
    · rw [abs_of_nonneg (by linarith [x.lt_above count]),
        abs_of_nonneg (by linarith [x.lt_above count])]
      linarith

/-- What the search finds among the neighbours is as near as any decimal of so many digits that is
read as the number. -/
theorem exists_found (hx : 0 < x.significand) (hcount : 0 < count) {d : Decimal}
    (hd : d.coefficient < 10 ^ count) (hread : x.readsBack d = true) :
    ∃ c, (x.candidates count).find? x.readsBack = some c ∧
      |c.magnitude - x.magnitude| ≤ |d.magnitude - x.magnitude| := by
  obtain ⟨c, hc, hcread, hcnear⟩ := exists_neighbour hx hcount hd hread
  obtain ⟨first, second, hcandidates, hsame, hnearer, -⟩ := x.candidates_eq count
  rw [hcandidates]
  cases hfirst : x.readsBack first with
  | true =>
    refine ⟨first, by simp [hfirst], ?_⟩
    rcases (hsame c).1 hc with rfl | rfl
    · exact hcnear
    · exact hnearer.trans hcnear
  | false =>
    rcases (hsame c).1 hc with rfl | rfl
    · simp [hfirst] at hcread
    · exact ⟨c, by simp [hfirst, hcread], hcnear⟩

theorem found_spec (hx : 0 < x.significand) (hcount : 0 < count) {c : Decimal}
    (h : (x.candidates count).find? x.readsBack = some c) :
    x.readsBack c = true ∧ c.digits.length ≤ count := by
  refine ⟨List.find?_some h, ?_⟩
  obtain ⟨first, second, hcandidates, hsame, -, -⟩ := x.candidates_eq count
  have hmem : c = x.below count ∨ c = x.above count := by
    have := List.mem_of_find?_eq_some h
    rw [hcandidates] at this
    simpa [hsame] using this
  have hlt : x.wholeUnits count < 10 ^ count := wholeUnits_lt hx
  rcases hmem with rfl | rfl
  · exact Decimal.length_digits_trimmed_le _ hcount hlt.le
  · exact Decimal.length_digits_trimmed_le _ hcount hlt

/-- Seventeen digits are enough: half a unit of their last place is less than `2 ^ -54` of the
number. -/
theorem exists_found_seventeen (hx : 0 < x.significand) :
    ∃ c, (x.candidates 17).find? x.readsBack = some c := by
  obtain ⟨first, second, hcandidates, hsame, -, hhalf⟩ := x.candidates_eq 17
  have hpow : (0 : ℚ) < 10 ^ x.lastPlace 17 := by positivity
  have hlarge : (10 : ℚ) ^ 16 * 10 ^ x.lastPlace 17 ≤ x.magnitude := by
    calc (10 : ℚ) ^ 16 * 10 ^ x.lastPlace 17 = 10 ^ (x.lastPlace 17 + (17 : Nat) - 1) := by
          rw [add_sub_assoc, zpow_add₀ (by norm_num), mul_comm]
          norm_num
      _ ≤ (x.below 17).magnitude := le_wholeUnits hx (by norm_num)
      _ ≤ x.magnitude := x.below_le 17
  obtain ⟨hlow, hhigh⟩ := abs_le.1 hhalf
  have hround : RoundsTo first.magnitude x := by
    rcases le_total x.magnitude first.magnitude with hle | hle
    · exact .of_near_above hle (by linarith)
    · exact .of_near_below hle (by linarith)
  have hsign : x.negative = first.negative := by
    rcases (hsame first).2 (.inl rfl) with rfl | rfl
    · exact negative_below.symm
    · exact negative_above.symm
  have hread : x.readsBack first = true := (x.readsBack_iff first).2 ⟨hsign, hround⟩
  exact ⟨first, by simp [hcandidates, hread]⟩

end Search

/-! ### The shortest decimal -/

/-- The decimal is read as the number, no decimal with fewer digits is, and none with as few digits
is nearer to it. -/
structure IsShortest (d : Decimal) : Prop where
  readsBack : Binary64.ofDecimal d = .finite x
  fewest : ∀ e : Decimal, Binary64.ofDecimal e = .finite x → d.digits.length ≤ e.digits.length
  nearest : ∀ e : Decimal, Binary64.ofDecimal e = .finite x → e.digits.length = d.digits.length →
    |d.value - x.value| ≤ |e.value - x.value|

variable {x}

theorem abs_value_sub {d : Decimal} (h : Binary64.ofDecimal d = .finite x) :
    |d.value - x.value| = |d.magnitude - x.magnitude| := by
  obtain ⟨hsign, -⟩ := (Binary64.ofDecimal_eq_finite_iff d x).1 h
  unfold Decimal.value value
  rw [hsign]
  cases d.negative with
  | false => rfl
  | true =>
    simp only [if_true]
    rw [← abs_neg]
    congr 1
    ring

theorem isShortest_of_zero (hx : x.significand = 0) : x.IsShortest ⟨x.negative, 0, 0⟩ := by
  have hmagnitude : x.magnitude = 0 := by simp [magnitude, hx]
  have hzero : Decimal.magnitude ⟨x.negative, 0, 0⟩ = 0 := by simp [Decimal.magnitude]
  have hread : Binary64.ofDecimal ⟨x.negative, 0, 0⟩ = .finite x :=
    (Binary64.ofDecimal_eq_finite_iff _ x).2
      ⟨rfl, hzero.trans hmagnitude.symm ▸ roundsTo_magnitude x⟩
  have hdigits : (Decimal.mk x.negative 0 0).digits.length ≤ 1 :=
    (Decimal.length_digits_le_iff _ one_pos).2 (by norm_num)
  refine ⟨hread, fun e _ => hdigits.trans Nat.length_toDigits_pos, fun e _ _ => ?_⟩
  rw [abs_value_sub hread, hzero, hmagnitude, sub_zero, abs_zero]
  exact abs_nonneg _

/-- The first count of digits with which the search succeeds is the least with which it can. -/
theorem isShortest_of_found {n : Nat} {d : Decimal} (hx : 0 < x.significand)
    (hfound : (x.candidates (n + 1)).find? x.readsBack = some d)
    (hfirst : ∀ k < n, (x.candidates (k + 1)).find? x.readsBack = none) : x.IsShortest d := by
  obtain ⟨hread, hlength⟩ := found_spec hx n.succ_pos hfound
  have hreads : ∀ e : Decimal, Binary64.ofDecimal e = .finite x → x.readsBack e = true :=
    fun e he => decide_eq_true he
  refine ⟨of_decide_eq_true hread, fun e he => ?_, fun e he hdigits => ?_⟩
  · by_contra hlt
    have hpos : 0 < e.digits.length := Nat.length_toDigits_pos
    obtain ⟨k, hk⟩ : ∃ k, e.digits.length = k + 1 := ⟨_, (Nat.succ_pred_eq_of_pos hpos).symm⟩
    obtain ⟨c, hc, -⟩ := exists_found hx k.succ_pos
      ((e.length_digits_le_iff k.succ_pos).1 hk.le) (hreads e he)
    rw [hfirst k (by omega)] at hc
    cases hc
  · obtain ⟨c, hc, hnear⟩ := exists_found hx n.succ_pos
      ((e.length_digits_le_iff n.succ_pos).1 (hdigits.le.trans hlength)) (hreads e he)
    rw [hfound] at hc
    cases hc
    rw [abs_value_sub he, abs_value_sub (of_decide_eq_true hread)]
    exact hnear

theorem exists_first_of_findSome? {α : Type} {f : Nat → Option α} {n : Nat} {a : α}
    (h : (List.range n).findSome? f = some a) : ∃ k < n, f k = some a ∧ ∀ j < k, f j = none := by
  induction n with
  | zero => cases h
  | succ n ih =>
    rw [List.range_succ, List.findSome?_append, Option.or_eq_some_iff] at h
    rcases h with h | ⟨hnone, h⟩
    · obtain ⟨k, hk, hf, hfirst⟩ := ih h
      exact ⟨k, by omega, hf, hfirst⟩
    · refine ⟨n, n.lt_succ_self, by simpa using h, fun j hj => ?_⟩
      exact List.findSome?_eq_none_iff.1 hnone j (List.mem_range.2 hj)

theorem isShortest_shortest (x : Finite64) : x.IsShortest x.shortest := by
  unfold shortest
  split
  next hx => exact isShortest_of_zero hx
  next hx =>
    have hpos : 0 < x.significand := Nat.pos_of_ne_zero hx
    cases hsearch : (List.range 17).findSome? fun n => (x.candidates (n + 1)).find? x.readsBack with
    | some d =>
      obtain ⟨n, -, hfound, hfirst⟩ := exists_first_of_findSome? hsearch
      exact isShortest_of_found hpos hfound hfirst
    | none =>
      obtain ⟨c, hc⟩ := exists_found_seventeen hpos
      have hnone := List.findSome?_eq_none_iff.1 hsearch 16 (List.mem_range.2 (by norm_num))
      rw [hc] at hnone
      cases hnone

end Finite64

end DotGraph
