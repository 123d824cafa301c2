/-
The shortest digits of a binary64 number lie in its interval: a grid of decimal numbers is taken only if one of its
points does, and the grid of seventeen digits is fine enough for that.
-/
import PluginTools.Proofs.Rounding

namespace PluginTools.Double

/-! ## Grids -/

/-- The step of the grid of multiples of `10 ^ p`, against `2 ^ q / 4`, as a fraction. -/
def gridStep (q p : Int) : Nat × Nat :=
  (Nat.pow 10 p.toNat * Nat.pow 2 (2 - q).toNat, Nat.pow 2 (q - 2).toNat * Nat.pow 10 (-p).toNat)

theorem gridStep_pos (q p : Int) : 0 < (gridStep q p).1 ∧ 0 < (gridStep q p).2 := by
  simp only [gridStep, Nat.pow_eq]
  exact ⟨by positivity, by positivity⟩

theorem toNat_pow (b : Nat) (hb : 0 < b) (k : Int) :
    ((Nat.pow b k.toNat : Nat) : ℚ) = b ^ k * ((Nat.pow b (-k).toNat : Nat) : ℚ) := by
  have hb' : (b : ℚ) ≠ 0 := by positivity
  rcases Int.le_total 0 k with h | h
  · rw [pow_toNat b h, show (-k).toNat = 0 by omega]
    simp
  · rw [pow_toNat b (show 0 ≤ -k by omega), ← zpow_add₀ hb', add_neg_cancel, show k.toNat = 0 by omega]
    simp

theorem gridStep_eq (q p : Int) : ((gridStep q p).1 : ℚ) = 10 ^ p * 2 ^ (2 - q) * (gridStep q p).2 := by
  have hten := toNat_pow 10 (by decide) p
  have htwo := toNat_pow 2 (by decide) (2 - q)
  rw [neg_sub] at htwo
  simp only [gridStep, Nat.cast_mul, hten, htwo]
  push_cast
  ring

/-- A point of a grid against multiples of `2 ^ q`. -/
theorem mul_le_point_iff (q p : Int) (g : Nat) (k : ℚ) :
    (k * 2 ^ q ≤ 4 * (g * 10 ^ p : ℚ) ↔ k * (gridStep q p).2 ≤ g * (gridStep q p).1) ∧
      (4 * (g * 10 ^ p : ℚ) ≤ k * 2 ^ q ↔ g * (gridStep q p).1 ≤ k * (gridStep q p).2) ∧
      (k * 2 ^ q < 4 * (g * 10 ^ p : ℚ) ↔ k * (gridStep q p).2 < g * (gridStep q p).1) ∧
      (4 * (g * 10 ^ p : ℚ) < k * 2 ^ q ↔ g * (gridStep q p).1 < k * (gridStep q p).2) := by
  have hb : (0 : ℚ) < (gridStep q p).2 := by exact_mod_cast (gridStep_pos q p).2
  have hpoint : 4 * (g * 10 ^ p : ℚ) = g * (10 ^ p * 2 ^ (2 - q)) * 2 ^ q := by
    rw [show (2 : Int) - q = 2 + -q by omega, two_zpow_add, zpow_neg]
    have := (two_zpow_pos q).ne'
    field_simp
    norm_num
    ring
  have hstep : (g * (gridStep q p).1 : ℚ) = g * (10 ^ p * 2 ^ (2 - q)) * (gridStep q p).2 := by
    rw [gridStep_eq]
    ring
  have hq := two_zpow_pos q
  rw [hpoint, hstep, mul_le_mul_iff_left₀ hq, mul_le_mul_iff_left₀ hq, mul_lt_mul_iff_left₀ hq,
    mul_lt_mul_iff_left₀ hq, mul_le_mul_iff_left₀ hb, mul_le_mul_iff_left₀ hb, mul_lt_mul_iff_left₀ hb,
    mul_lt_mul_iff_left₀ hb]
  exact ⟨.rfl, .rfl, .rfl, .rfl⟩

/-- Comparison with an end of an interval, which belongs to it for an even mantissa. -/
def inside (m x y : Nat) : Bool := if m % 2 = 0 then decide (x ≤ y) else decide (x < y)

theorem inside_iff {m x y : Nat} : inside m x y ↔ x ≤ y ∧ (m % 2 = 1 → x < y) := by
  unfold inside
  split
  · simp only [decide_eq_true_eq]
    omega
  · simp only [decide_eq_true_eq]
    omega

/-- The greatest point of a grid up to a number. -/
def pointBelow (m : Nat) (q p : Int) : Nat := 4 * m * (gridStep q p).2 / (gridStep q p).1

theorem gridPoint?_eq (m : Nat) (q p : Int) : gridPoint? m q p =
    match inside m (lowEnd m q * (gridStep q p).2) (pointBelow m q p * (gridStep q p).1),
      inside m ((pointBelow m q p + 1) * (gridStep q p).1) ((4 * m + 2) * (gridStep q p).2) with
    | true, false => some (pointBelow m q p)
    | false, true => some (pointBelow m q p + 1)
    | true, true => some (if 2 * (4 * m * (gridStep q p).2) < (2 * pointBelow m q p + 1) * (gridStep q p).1
        then pointBelow m q p else pointBelow m q p + 1)
    | false, false => none := rfl

/-- The two points of a grid beside a number. -/
theorem pointBelow_spec (m : Nat) (q p : Int) : pointBelow m q p * (gridStep q p).1 ≤ 4 * m * (gridStep q p).2 ∧
    4 * m * (gridStep q p).2 < (pointBelow m q p + 1) * (gridStep q p).1 :=
  ⟨Nat.div_mul_le_self _ _, Nat.lt_mul_of_div_lt (Nat.lt_succ_self _) (gridStep_pos q p).1⟩

variable {m g : Nat} {q p : Int}

theorem roundsTo_of_inside (hlow : inside m (lowEnd m q * (gridStep q p).2) (g * (gridStep q p).1))
    (hhigh : inside m (g * (gridStep q p).1) ((4 * m + 2) * (gridStep q p).2)) : RoundsTo (g * 10 ^ p) m q := by
  rw [inside_iff] at hlow hhigh
  obtain ⟨hlow, hlowstrict⟩ := hlow
  obtain ⟨hhigh, hhighstrict⟩ := hhigh
  have hlowend := mul_le_point_iff q p g (lowEnd m q)
  have hhighend := mul_le_point_iff q p g (4 * m + 2)
  refine ⟨hlowend.1.2 (by exact_mod_cast hlow), hhighend.2.1.2 (by exact_mod_cast hhigh), fun hodd => ?_⟩
  exact ⟨hlowend.2.2.1.2 (by exact_mod_cast hlowstrict hodd), hhighend.2.2.2.2 (by exact_mod_cast hhighstrict hodd)⟩

theorem lowEnd_lt (hm : 0 < m) (q : Int) : lowEnd m q < 4 * m := by
  unfold lowEnd
  split <;> omega

/-- The lower point lies below the upper end, and the upper point above the lower end. -/
theorem inside_points (hm : 0 < m) (q p : Int) :
    inside m (pointBelow m q p * (gridStep q p).1) ((4 * m + 2) * (gridStep q p).2) ∧
      inside m (lowEnd m q * (gridStep q p).2) ((pointBelow m q p + 1) * (gridStep q p).1) := by
  obtain ⟨hbelow, habove⟩ := pointBelow_spec m q p
  have hhigh : 4 * m * (gridStep q p).2 < (4 * m + 2) * (gridStep q p).2 :=
    Nat.mul_lt_mul_of_pos_right (by omega) (gridStep_pos q p).2
  have hlow : lowEnd m q * (gridStep q p).2 < 4 * m * (gridStep q p).2 :=
    Nat.mul_lt_mul_of_pos_right (lowEnd_lt hm q) (gridStep_pos q p).2
  rw [inside_iff, inside_iff]
  exact ⟨⟨by omega, fun _ => by omega⟩, ⟨by omega, fun _ => by omega⟩⟩

/-- **A point that a grid gives lies in the interval.** -/
theorem roundsTo_of_gridPoint? (hm : 0 < m) (h : gridPoint? m q p = some g) : RoundsTo (g * 10 ^ p) m q := by
  obtain ⟨hbelow, habove⟩ := inside_points hm q p
  rw [gridPoint?_eq] at h
  split at h
  · next hlow hhigh =>
    cases h
    exact roundsTo_of_inside hlow hbelow
  · next hlow hhigh =>
    cases h
    exact roundsTo_of_inside habove hhigh
  · next hlow hhigh =>
    cases h
    split
    · exact roundsTo_of_inside hlow hbelow
    · exact roundsTo_of_inside habove hhigh
  · cases h

/-- A grid gives a point if its step is smaller than the interval. -/
theorem gridPoint?_isSome (h : (gridStep q p).1 + lowEnd m q * (gridStep q p).2 < (4 * m + 2) * (gridStep q p).2) :
    (gridPoint? m q p).isSome := by
  rw [gridPoint?_eq]
  split
  · rfl
  · rfl
  · rfl
  · next hlow hhigh =>
    have hlow : ¬inside m (lowEnd m q * (gridStep q p).2) (pointBelow m q p * (gridStep q p).1) := by simp [hlow]
    have hhigh : ¬inside m ((pointBelow m q p + 1) * (gridStep q p).1) ((4 * m + 2) * (gridStep q p).2) := by simp [hhigh]
    rw [inside_iff] at hlow hhigh
    rw [Nat.add_mul] at hhigh
    omega

/-- A grid on which a number lies gives the number. -/
theorem gridPoint?_of_exact (hm : 0 < m) (h : g * (gridStep q p).1 = 4 * m * (gridStep q p).2) : gridPoint? m q p = some g := by
  obtain ⟨ha, hb⟩ := gridStep_pos q p
  have hpoint : pointBelow m q p = g := by
    rw [pointBelow, ← h, Nat.mul_div_cancel _ ha]
  have hinside : inside m (lowEnd m q * (gridStep q p).2) (g * (gridStep q p).1) = true := by
    have hlow : lowEnd m q * (gridStep q p).2 < 4 * m * (gridStep q p).2 :=
      Nat.mul_lt_mul_of_pos_right (lowEnd_lt hm q) hb
    rw [inside_iff, h]
    exact ⟨by omega, fun _ => hlow⟩
  have hnear : 2 * (4 * m * (gridStep q p).2) < (2 * g + 1) * (gridStep q p).1 := by
    rw [← h, Nat.add_mul, Nat.mul_assoc]
    omega
  rw [gridPoint?_eq, hpoint, hinside]
  cases inside m ((g + 1) * (gridStep q p).1) ((4 * m + 2) * (gridStep q p).2) with
  | false => rfl
  | true => simp [hnear]

/-- The grid of seventeen digits of a number gives a point. -/
theorem gridPoint?_seventeen {top : Int} (hm : 0 < m) (hcanonical : IsCanonical m q) (htop : (10 : ℚ) ^ top ≤ m * 2 ^ q) :
    (gridPoint? m q (top - 16)).isSome := by
  refine gridPoint?_isSome ?_
  obtain ⟨ha, hb⟩ := gridStep_pos q (top - 16)
  have hb : (0 : ℚ) < (gridStep q (top - 16)).2 := by exact_mod_cast hb
  have hstep : ((gridStep q (top - 16)).1 : ℚ) * 10 ^ 16 ≤ 4 * m * (gridStep q (top - 16)).2 := by
    have hpow : (10 : ℚ) ^ (top - 16) * 10 ^ 16 = 10 ^ top := by
      rw [← zpow_natCast, ← zpow_add₀ (by norm_num)]
      norm_num
    have hfour : (2 : ℚ) ^ (2 - q) = 4 * (2 ^ q)⁻¹ := by
      rw [show (2 : Int) - q = 2 + -q by omega, two_zpow_add, zpow_neg]
      norm_num
    have hle : (10 : ℚ) ^ top * (2 ^ q)⁻¹ ≤ m := by
      rw [mul_inv_le_iff₀ (two_zpow_pos q)]
      exact htop
    calc ((gridStep q (top - 16)).1 : ℚ) * 10 ^ 16
        = 4 * (10 ^ top * (2 ^ q)⁻¹) * (gridStep q (top - 16)).2 := by
          rw [gridStep_eq, hfour, ← hpow]
          ring
      _ ≤ 4 * m * (gridStep q (top - 16)).2 := by gcongr
  have hwidth : (4 * m : ℚ) / 10 ^ 16 + lowEnd m q < 4 * m + 2 := by
    have hlt : (m : ℚ) ≤ 9007199254740992 := by exact_mod_cast hcanonical.lt.le
    unfold lowEnd
    split
    · next h =>
      have hm : m = 2 ^ 52 := h.1
      subst hm
      norm_num
    · push_cast [show 2 ≤ 4 * m by omega]
      have hsmall : (4 * m : ℚ) / 10 ^ 16 < 4 := by
        rw [div_lt_iff₀ (by norm_num)]
        linarith
      linarith
  have hlt : ((gridStep q (top - 16)).1 : ℚ) + lowEnd m q * (gridStep q (top - 16)).2 <
      (4 * m + 2) * (gridStep q (top - 16)).2 := by
    have hdiv : ((gridStep q (top - 16)).1 : ℚ) ≤ 4 * m / 10 ^ 16 * (gridStep q (top - 16)).2 := by
      rw [div_mul_eq_mul_div, le_div_iff₀ (by norm_num)]
      exact hstep
    have hmul := mul_lt_mul_of_pos_right hwidth hb
    linarith
  exact_mod_cast hlt

/-! ## The leading digit -/

/-- An estimate of the decimal exponent of a power of two, and of ten against two. -/
theorem ten_zpow_le_two_zpow {e : Int} (hlow : -1075 ≤ e) (hhigh : e ≤ 1024) :
    (10 : ℚ) ^ (e * 1233 / 4096 - 1) ≤ 2 ^ e := by
  obtain ⟨k, hk⟩ : ∃ k : Int, k = e * 1233 / 4096 - 1 := ⟨_, rfl⟩
  have hle : 4096 * (k + 1) ≤ e * 1233 := by omega
  have hlt : e * 1233 < 4096 * (k + 2) := by omega
  rw [← hk]
  rcases Int.le_total 0 k with hpos | hneg
  · -- `10 ^ 59` is just below `2 ^ 196`.
    obtain ⟨i, rfl⟩ := Int.eq_ofNat_of_zero_le hpos
    obtain ⟨j, rfl⟩ := Int.eq_ofNat_of_zero_le (show 0 ≤ e by omega)
    have hpow : (10 ^ i) ^ 59 ≤ (2 ^ j) ^ 59 := by
      calc (10 ^ i) ^ 59 = (10 ^ 59) ^ i := by rw [← pow_mul, ← pow_mul, Nat.mul_comm]
        _ ≤ (2 ^ 196) ^ i := Nat.pow_le_pow_left (by norm_num) i
        _ = 2 ^ (196 * i) := by rw [← pow_mul]
        _ ≤ 2 ^ (j * 59) := Nat.pow_le_pow_right (by norm_num) (by omega)
        _ = (2 ^ j) ^ 59 := by rw [← pow_mul]
    have hle : 10 ^ i ≤ 2 ^ j := (Nat.pow_le_pow_iff_left (by norm_num)).1 hpow
    exact_mod_cast hle
  · obtain ⟨i, hi⟩ := Int.eq_ofNat_of_zero_le (show 0 ≤ -k by omega)
    obtain rfl : k = -i := by omega
    rcases Int.le_total 0 e with hpos | hnegative
    · calc (10 : ℚ) ^ (-i : Int) ≤ 10 ^ (0 : Int) := zpow_le_zpow_right₀ (by norm_num) (by omega)
        _ = 2 ^ (0 : Int) := by norm_num
        _ ≤ 2 ^ e := zpow_le_zpow_right₀ (by norm_num) hpos
    · -- `2 ^ 93` is just below `10 ^ 28`.
      obtain ⟨j, hj⟩ := Int.eq_ofNat_of_zero_le (show 0 ≤ -e by omega)
      obtain rfl : e = -j := by omega
      have hpow : (2 ^ j) ^ 28 ≤ (10 ^ i) ^ 28 := by
        calc (2 ^ j) ^ 28 = 2 ^ (j * 28) := by rw [← pow_mul]
          _ ≤ 2 ^ (93 * i) := Nat.pow_le_pow_right (by norm_num) (by omega)
          _ = (2 ^ 93) ^ i := by rw [← pow_mul]
          _ ≤ (10 ^ 28) ^ i := Nat.pow_le_pow_left (by norm_num) i
          _ = (10 ^ i) ^ 28 := by rw [← pow_mul, ← pow_mul, Nat.mul_comm]
      have hle : 2 ^ j ≤ 10 ^ i := (Nat.pow_le_pow_iff_left (by norm_num)).1 hpow
      have hle : (2 : ℚ) ^ j ≤ 10 ^ i := by exact_mod_cast hle
      rw [zpow_neg, zpow_neg, zpow_natCast, zpow_natCast]
      exact inv_anti₀ (by positivity) hle

/-- A number as the fraction of its digits. -/
theorem fraction_eq (m : Nat) (q : Int) : 0 < (fraction m q).2 ∧
    ((fraction m q).1 / (fraction m q).2 : ℚ) = m * 2 ^ q := by
  unfold fraction
  split
  · next h =>
    have hpow := pow_toNat 2 h
    push_cast [hpow]
    simp
  · next h =>
    refine ⟨Nat.pow_pos (by decide), ?_⟩
    rw [pow_toNat 2 (show 0 ≤ -q by omega), zpow_neg]
    simp

/-- The difference of the lengths in bits of the parts of the fraction. -/
theorem log2_fraction (hm : 0 < m) (q : Int) :
    ((fraction m q).1.log2 : Int) - ((fraction m q).2.log2 : Int) = m.log2 + q := by
  unfold fraction
  split
  · next h =>
    have hlog : (m * 2 ^ q.toNat).log2 = m.log2 + q.toNat := by
      have hpos : 0 < m * 2 ^ q.toNat := by positivity
      rw [Nat.log2_eq_iff (by omega), Nat.pow_add, show m.log2 + q.toNat + 1 = (m.log2 + 1) + q.toNat by omega, Nat.pow_add]
      exact ⟨Nat.mul_le_mul_right _ (Nat.log2_self_le (by omega)), Nat.mul_lt_mul_of_pos_right Nat.lt_log2_self (by positivity)⟩
    have hone : Nat.log2 1 = 0 := rfl
    rw [Nat.pow_eq, hlog, hone]
    push_cast [Int.toNat_of_nonneg h]
    omega
  · next h =>
    dsimp only
    rw [Nat.pow_eq, Nat.log2_two_pow]
    omega

/-- Whether a power of ten is at most a fraction. -/
def fits (num den : Nat) (e : Int) : Bool :=
  if 0 ≤ e then decide (Nat.pow 10 e.toNat * den ≤ num) else decide (den ≤ num * Nat.pow 10 (-e).toNat)

theorem decimalExponent_eq (num den : Nat) : decimalExponent num den =
    let guess := ((num.log2 : Int) - (den.log2 : Int)) * 1233 / 4096
    if fits num den (guess + 1) then (if fits num den (guess + 2) then guess + 2 else guess + 1)
    else if fits num den guess then guess
    else guess - 1 := rfl

theorem fits_iff {num den : Nat} (hden : 0 < den) (e : Int) : fits num den e ↔ (10 : ℚ) ^ e ≤ num / den := by
  have hden' : (0 : ℚ) < den := by positivity
  rw [le_div_iff₀ hden', fits]
  split
  · next h =>
    have hpow : ((Nat.pow 10 e.toNat : Nat) : ℚ) = 10 ^ e := by simpa using pow_toNat 10 h
    rw [decide_eq_true_eq, ← hpow]
    norm_cast
  · next h =>
    have hpow : ((Nat.pow 10 (-e).toNat : Nat) : ℚ) = 10 ^ (-e) := by simpa using pow_toNat 10 (show 0 ≤ -e by omega)
    have hpos : (0 : ℚ) < 10 ^ (-e) := zpow_pos (by norm_num) _
    rw [decide_eq_true_eq, ← neg_neg e, zpow_neg, inv_mul_le_iff₀ hpos, neg_neg, mul_comm num, ← hpow]
    norm_cast

/-- **The decimal exponent of a number**: the power of ten is at most the number. -/
theorem ten_zpow_decimalExponent_le (hm : 0 < m) (hcanonical : IsCanonical m q) :
    (10 : ℚ) ^ decimalExponent (fraction m q).1 (fraction m q).2 ≤ m * 2 ^ q := by
  obtain ⟨hden, hvalue⟩ := fraction_eq m q
  have hlog := log2_fraction hm q
  have hlt : m.log2 < 53 := (Nat.log2_lt (by omega)).2 hcanonical.lt
  have hlow := hcanonical.low
  have hhigh := hcanonical.high
  rw [minExponent_eq] at hlow
  rw [maxExponent_eq] at hhigh
  have hpower : (2 : ℚ) ^ (m.log2 + q) ≤ m * 2 ^ q := by
    rw [two_zpow_add, zpow_natCast]
    have hle : (2 : ℚ) ^ m.log2 ≤ m := by exact_mod_cast Nat.log2_self_le (by omega)
    exact mul_le_mul_of_nonneg_right hle (two_zpow_pos q).le
  have hleast := (ten_zpow_le_two_zpow (e := m.log2 + q) (by omega) (by omega)).trans hpower
  have hfits : ∀ e, fits (fraction m q).1 (fraction m q).2 e = true → (10 : ℚ) ^ e ≤ m * 2 ^ q := fun e h =>
    hvalue ▸ (fits_iff hden e).1 h
  simp only [decimalExponent_eq, hlog]
  generalize (m.log2 + q) * 1233 / 4096 = guess at hleast ⊢
  split
  · next hone =>
    split
    · next htwo => exact hfits _ htwo
    · exact hfits _ hone
  · split
    · next hzero => exact hfits _ hzero
    · exact hleast

/-! ## The first grid -/

/-- The grids are tried one by one, and the first that gives a point is taken. -/
theorem firstGrid_spec {top : Int} {more count : Nat}
    (h : ∃ c, count ≤ c ∧ c < count + more ∧ (gridPoint? m q (top + 1 - c)).isSome) :
    ∃ c g, count ≤ c ∧ firstGrid m q top more count = (g, top + 1 - c) ∧ gridPoint? m q (top + 1 - c) = some g ∧
      ∀ d, count ≤ d → (gridPoint? m q (top + 1 - d)).isSome → c ≤ d := by
  induction more generalizing count with
  | zero =>
    obtain ⟨c, hle, hlt, -⟩ := h
    omega
  | succ more ih =>
    cases hgrid : gridPoint? m q (top + 1 - count) with
    | some g => exact ⟨count, g, Nat.le_refl _, by simp [firstGrid, hgrid], hgrid, fun d hd _ => hd⟩
    | none =>
      have hne : ∀ d, count ≤ d → (gridPoint? m q (top + 1 - d)).isSome → count + 1 ≤ d := by
        intro d hd hsome
        rcases Nat.lt_or_eq_of_le hd with hlt | rfl
        · exact hlt
        · simp [hgrid] at hsome
      obtain ⟨c, hle, hlt, hsome⟩ := h
      obtain ⟨c, g, hc, hfirst, hpoint, hleast⟩ := ih ⟨c, hne c hle hsome, by omega, hsome⟩
      refine ⟨c, g, by omega, ?_, hpoint, fun d hd hsome => hleast d (hne d hd hsome) hsome⟩
      rw [firstGrid]
      simp only [hgrid]
      exact hfirst

/-- Zeros at the end are moved into the exponent. -/
theorem dropZeros_spec (fuel : Nat) (hg : 0 < g) (p : Int) : ∃ g' p', dropZeros fuel g p = (g', p') ∧ 0 < g' ∧
    (g' * 10 ^ p' : ℚ) = g * 10 ^ p ∧ p ≤ p' := by
  induction fuel generalizing g p with
  | zero => exact ⟨g, p, rfl, hg, rfl, Int.le_refl _⟩
  | succ fuel ih =>
    by_cases hzero : g % 10 = 0
    · obtain ⟨g', p', hdrop, hpos, hvalue, hle⟩ := ih (g := g / 10) (by omega) (p + 1)
      refine ⟨g', p', ?_, hpos, ?_, by omega⟩
      · rw [dropZeros, if_pos ⟨by omega, hzero⟩, hdrop]
      · have hdiv : (g : ℚ) = (g / 10 : Nat) * 10 := by exact_mod_cast (by omega : g = g / 10 * 10)
        rw [hvalue, hdiv, zpow_add₀ (by norm_num)]
        norm_num
        ring
    · exact ⟨g, p, by rw [dropZeros, if_neg (by omega)], hg, rfl, Int.le_refl _⟩

/-! ## Shortest digits -/

theorem RoundsTo.pos {x : ℚ} (h : RoundsTo x m q) (hm : 0 < m) : 2 ^ q ≤ 2 * x := by
  have hlow := h.low
  have hend : (2 : ℚ) ≤ lowEnd m q := by
    have : 2 ≤ lowEnd m q := by
      unfold lowEnd
      split <;> omega
    exact_mod_cast this
  have hle := mul_le_mul_of_nonneg_right hend (two_zpow_pos q).le
  linarith

/-- A number that is at least one has its leading digit before the point. -/
theorem decimalExponent_nonneg (hm : 0 < m) (h : (1 : ℚ) ≤ m * 2 ^ q) :
    0 ≤ decimalExponent (fraction m q).1 (fraction m q).2 := by
  obtain ⟨hden, hvalue⟩ := fraction_eq m q
  have hfits : fits (fraction m q).1 (fraction m q).2 0 := by
    rw [fits_iff hden, hvalue]
    simpa using h
  have hguess : 0 ≤ (m.log2 : Int) + q := by
    have hlt : (m : ℚ) < 2 ^ (m.log2 + 1) := by exact_mod_cast Nat.lt_log2_self
    have hpower : (2 : ℚ) ^ (0 : Int) < 2 ^ ((m.log2 : Int) + 1 + q) := by
      rw [two_zpow_add]
      calc (2 : ℚ) ^ (0 : Int) ≤ m * 2 ^ q := by simpa using h
        _ < 2 ^ (m.log2 + 1) * 2 ^ q := mul_lt_mul_of_pos_right hlt (two_zpow_pos q)
        _ = _ := by norm_cast
    have := two_zpow_lt hpower
    omega
  simp only [decimalExponent_eq, log2_fraction hm]
  obtain ⟨guess, hguess_eq⟩ : ∃ guess, guess = ((m.log2 : Int) + q) * 1233 / 4096 := ⟨_, rfl⟩
  rw [← hguess_eq]
  split
  · split <;> omega
  · split
    · omega
    · next hnot =>
      have hne : guess ≠ 0 := by
        rintro rfl
        exact hnot hfits
      omega

/-- **The shortest digits of a number lie in its interval**, and have no fraction if the number is whole. -/
theorem shortest_spec (hm : 0 < m) (hcanonical : IsCanonical m q) : ∃ g p, shortest m q = (g, p) ∧ 0 < g ∧
    RoundsTo (g * 10 ^ p) m q ∧ ∀ n : Nat, (m * 2 ^ q : ℚ) = n → 0 ≤ p := by
  obtain ⟨top, htop⟩ : ∃ top, top = decimalExponent (fraction m q).1 (fraction m q).2 := ⟨_, rfl⟩
  have hpower := ten_zpow_decimalExponent_le hm hcanonical
  rw [← htop] at hpower
  have hseventeen := gridPoint?_seventeen hm hcanonical hpower
  have hgrid : ∃ c : Nat, 1 ≤ c ∧ c < 1 + 17 ∧ (gridPoint? m q (top + 1 - c)).isSome :=
    ⟨17, by omega, by omega, by simpa [show top + 1 - 17 = top - 16 by omega] using hseventeen⟩
  obtain ⟨c, g, hc, hfirst, hpoint, hleast⟩ := firstGrid_spec hgrid
  have hcount : c ≤ 17 := hleast 17 (by omega) (by simpa [show top + 1 - 17 = top - 16 by omega] using hseventeen)
  have hrounds := roundsTo_of_gridPoint? hm hpoint
  have hg : 0 < g := by
    by_contra hzero
    obtain rfl : g = 0 := by omega
    have := hrounds.pos hm
    have := two_zpow_pos q
    simp at *
    linarith
  obtain ⟨g', p', hdrop, hpos, hvalue, hle⟩ := dropZeros_spec 17 hg (top + 1 - c)
  refine ⟨g', p', ?_, hpos, hvalue ▸ hrounds, fun n hn => ?_⟩
  · rw [shortest]
    simp only [← htop, hfirst, hdrop]
  · have hone : (1 : ℚ) ≤ m * 2 ^ q := by
      have hpositive : (0 : ℚ) < m * 2 ^ q := mul_pos (by exact_mod_cast hm) (two_zpow_pos q)
      rw [hn] at hpositive ⊢
      exact_mod_cast hpositive
    have htop_nonneg : 0 ≤ top := htop ▸ decimalExponent_nonneg hm hone
    have hexact : gridPoint? m q 0 = some n := by
      refine gridPoint?_of_exact hm ?_
      have hstep := gridStep_eq q 0
      have hmul : (n * (gridStep q 0).1 : ℚ) = 4 * m * (gridStep q 0).2 := by
        have hcancel : (2 : ℚ) ^ q * (2 ^ q)⁻¹ = 1 := mul_inv_cancel₀ (two_zpow_pos q).ne'
        rw [hstep, ← hn, show (2 : Int) - q = 2 + -q by omega, two_zpow_add, zpow_neg, zpow_zero,
          show (2 : ℚ) ^ (2 : Int) = 4 by norm_num]
        linear_combination 4 * m * (gridStep q 0).2 * hcancel
      exact_mod_cast hmul
    have hzero := hleast (top + 1).toNat (by omega)
      (by rw [show top + 1 - ((top + 1).toNat : Int) = 0 by omega, hexact]; rfl)
    omega

end PluginTools.Double
