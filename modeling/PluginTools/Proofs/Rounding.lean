/-
Rounding of fractions. The nearest binary64 number of a fraction is the one in whose interval the fraction lies:
halfway to the numbers beside it, with the ends for an even mantissa only. Below a power of two the number beside
it is only half as far away.
-/
import Mathlib
import PluginTools.Number.Shortest

namespace PluginTools.Double

/-- A mantissa and an exponent as a finite binary64 number has them. -/
structure IsCanonical (m : Nat) (q : Int) : Prop where
  lt : m < 2 ^ 53
  low : minExponent ≤ q
  high : q ≤ maxExponent
  normal : 2 ^ 52 ≤ m ∨ q = minExponent

/-- The finite numbers, in the one form that each of them has. -/
def IsNumber : Double → Prop
  | .finite _ m q => IsCanonical m q
  | _ => False

/-- The lower end of the interval of `m * 2 ^ q`, in quarters of `2 ^ q`. -/
def lowEnd (m : Nat) (q : Int) : Nat := if m = Nat.pow 2 52 ∧ minExponent < q then 4 * m - 1 else 4 * m - 2

/-- A number lies in the interval of `m * 2 ^ q`. -/
structure RoundsTo (x : ℚ) (m : Nat) (q : Int) : Prop where
  low : lowEnd m q * 2 ^ q ≤ 4 * x
  high : 4 * x ≤ (4 * m + 2) * 2 ^ q
  strict : m % 2 = 1 → lowEnd m q * 2 ^ q < 4 * x ∧ 4 * x < (4 * m + 2) * 2 ^ q

/-! ## Whole numbers -/

section
variable {n d m : Nat}

theorem roundEven_cases (n d : Nat) : (roundEven n d = n / d ∧ 2 * (n % d) ≤ d ∧ (2 * (n % d) = d → n / d % 2 = 0)) ∨
    (roundEven n d = n / d + 1 ∧ d ≤ 2 * (n % d) ∧ (2 * (n % d) = d → n / d % 2 = 1)) := by
  unfold roundEven
  dsimp only
  split
  · exact .inl ⟨rfl, by omega, by omega⟩
  · split
    · exact .inr ⟨rfl, by omega, by omega⟩
    · rcases Nat.mod_two_eq_zero_or_one (n / d) with h | h
      · exact .inl ⟨by omega, by omega, fun _ => h⟩
      · exact .inr ⟨by omega, by omega, fun _ => h⟩

/-- A fraction at most half away from a whole number rounds to it, on a tie if it is even. -/
theorem roundEven_eq (hd : 0 < d) (hlow : 2 * m * d ≤ 2 * n + d) (hhigh : 2 * n ≤ 2 * m * d + d)
    (hstrict : m % 2 = 1 → 2 * m * d < 2 * n + d ∧ 2 * n < 2 * m * d + d) : roundEven n d = m := by
  have hdiv := Nat.div_add_mod n d
  have hrest := Nat.mod_lt n hd
  obtain ⟨k, hk⟩ : ∃ k : Nat, k = n / d := ⟨_, rfl⟩
  rw [← hk, Nat.mul_comm] at hdiv
  have hbelow : k ≤ m := by
    by_contra hlt
    have hle := Nat.mul_le_mul_right d (show m + 1 ≤ k by omega)
    rw [Nat.add_mul] at hle
    have hmul : 2 * m * d = 2 * (m * d) := Nat.mul_assoc _ _ _
    omega
  have habove : m ≤ k + 1 := by
    by_contra hlt
    have hle := Nat.mul_le_mul_right d (show k + 2 ≤ m by omega)
    rw [Nat.add_mul] at hle
    have hmul : 2 * m * d = 2 * (m * d) := Nat.mul_assoc _ _ _
    omega
  have hmul : 2 * m * d = 2 * (m * d) := Nat.mul_assoc _ _ _
  obtain rfl | rfl : m = k ∨ m = k + 1 := by omega
  · rcases roundEven_cases n d with ⟨he, -, -⟩ | ⟨-, hhalf, hodd⟩
    · rw [he, ← hk]
    · have htie : 2 * (n % d) = d := by omega
      have hodd := hodd htie
      rw [← hk] at hodd
      have := hstrict hodd
      omega
  · rw [Nat.add_mul] at hmul
    rcases roundEven_cases n d with ⟨-, hhalf, heven⟩ | ⟨he, -, -⟩
    · have htie : 2 * (n % d) = d := by omega
      have heven := heven htie
      rw [← hk] at heven
      have := hstrict (by omega)
      omega
    · rw [he, ← hk]

end

/-! ## Powers of two -/

theorem two_zpow_pos (q : Int) : (0 : ℚ) < 2 ^ q := zpow_pos (by norm_num) q

theorem two_zpow_add (q k : Int) : (2 : ℚ) ^ (q + k) = 2 ^ q * 2 ^ k := zpow_add₀ (by norm_num) q k

theorem two_zpow_lt {p q : Int} (h : (2 : ℚ) ^ p < 2 ^ q) : p < q := (zpow_lt_zpow_iff_right₀ (by norm_num)).1 h

theorem pow_toNat (b : Nat) {q : Int} (h : 0 ≤ q) : ((Nat.pow b q.toNat : Nat) : ℚ) = (b : ℚ) ^ q := by
  have hq : (q.toNat : Int) = q := Int.toNat_of_nonneg h
  rw [Nat.pow_eq, Nat.cast_pow, ← zpow_natCast, hq]

section
variable {num den : Nat}

theorem scale_pos (hden : 0 < den) (e : Int) : 0 < (scale num den e).2 := by
  unfold scale
  split
  · exact Nat.mul_pos hden (Nat.pow_pos (by decide))
  · exact hden

/-- A scaled fraction is the fraction divided by the power of two. -/
theorem scale_eq (hden : 0 < den) (e : Int) :
    ((scale num den e).1 : ℚ) / (scale num den e).2 = num / den / 2 ^ e := by
  have hden' : (den : ℚ) ≠ 0 := by positivity
  have htwo := (two_zpow_pos e).ne'
  unfold scale
  split
  · next h =>
    push_cast [pow_toNat 2 h]
    field_simp
  · next h =>
    push_cast [pow_toNat 2 (show 0 ≤ -e by omega)]
    rw [zpow_neg]
    field_simp

/-- The exponent at which a fraction is rounded. -/
structure IsUnit (x : ℚ) (q : Int) : Prop where
  low : minExponent ≤ q
  lt : x < 2 ^ (q + 53)
  normal : q = minExponent ∨ 2 ^ (q + 52) ≤ x

theorem IsUnit.unique {x : ℚ} {p q : Int} (hp : IsUnit x p) (hq : IsUnit x q) : p = q := by
  have hle : ∀ {p q}, IsUnit x p → IsUnit x q → p ≤ q := by
    intro p q hp hq
    rcases hp.normal with h | h
    · exact h ▸ hq.low
    · have := two_zpow_lt (lt_of_le_of_lt h hq.lt)
      omega
  exact le_antisymm (hle hp hq) (hle hq hp)

theorem isUnit_exponentOf (hnum : 0 < num) (hden : 0 < den) : IsUnit (num / den) (exponentOf num den) := by
  have hden' : (0 : ℚ) < den := by positivity
  have hlow : (2 : ℚ) ^ num.log2 ≤ num := by exact_mod_cast Nat.log2_self_le (by omega)
  have hhigh : (num : ℚ) < 2 ^ (num.log2 + 1) := by exact_mod_cast Nat.lt_log2_self
  have hdlow : (2 : ℚ) ^ den.log2 ≤ den := by exact_mod_cast Nat.log2_self_le (by omega)
  have hdhigh : (den : ℚ) < 2 ^ (den.log2 + 1) := by exact_mod_cast Nat.lt_log2_self
  obtain ⟨e, he⟩ : ∃ e : Int, e = (num.log2 : Int) - (den.log2 : Int) := ⟨_, rfl⟩
  have hbelow : (2 : ℚ) ^ (e - 1) ≤ num / den := by
    rw [le_div_iff₀ hden']
    calc (2 : ℚ) ^ (e - 1) * den ≤ 2 ^ (e - 1) * 2 ^ (den.log2 + 1) := by gcongr
      _ = 2 ^ num.log2 := by
        rw [← zpow_natCast, ← zpow_natCast, ← zpow_add₀ (by norm_num)]
        congr 1
        push_cast
        omega
      _ ≤ num := hlow
  have habove : (num : ℚ) / den < 2 ^ (e + 1) := by
    rw [div_lt_iff₀ hden']
    calc (num : ℚ) < 2 ^ (num.log2 + 1) := hhigh
      _ = 2 ^ (e + 1) * 2 ^ den.log2 := by
        rw [← zpow_natCast, ← zpow_natCast, ← zpow_add₀ (by norm_num)]
        congr 1
        push_cast
        omega
      _ ≤ 2 ^ (e + 1) * den := by gcongr
  have hfits : (scale num den e).2 ≤ (scale num den e).1 ↔ (2 : ℚ) ^ e ≤ num / den := by
    have hpos : (0 : ℚ) < (scale num den e).2 := by exact_mod_cast scale_pos hden e
    rw [← one_le_div (two_zpow_pos e), ← scale_eq hden, one_le_div hpos, Nat.cast_le]
  have hq : exponentOf num den = max (if (2 : ℚ) ^ e ≤ num / den then e - 52 else e - 53) minExponent := by
    simp only [exponentOf, ← he, hfits]
  rw [hq]
  have hmono : ∀ {k l : Int}, k ≤ l → (2 : ℚ) ^ k ≤ 2 ^ l := fun h => zpow_le_zpow_right₀ (by norm_num) h
  split
  · next h =>
    refine ⟨le_max_right _ _, lt_of_lt_of_le habove (hmono (by omega)), ?_⟩
    rcases max_choice (e - 52) minExponent with hmax | hmax
    · rw [hmax]
      exact .inr (by rwa [show e - 52 + 52 = e by omega])
    · exact .inl hmax
  · next h =>
    refine ⟨le_max_right _ _, lt_of_lt_of_le (not_le.1 h) (hmono (by omega)), ?_⟩
    rcases max_choice (e - 53) minExponent with hmax | hmax
    · rw [hmax]
      exact .inr (by rwa [show e - 53 + 52 = e - 1 by omega])
    · exact .inl hmax

/-- The mantissa of a fraction at an exponent, by comparisons of whole multiples of the power of two. -/
theorem roundEven_scale (hden : 0 < den) {m : Nat} {q : Int} (hlow : (2 * m - 1) * 2 ^ q ≤ 2 * (num / den : ℚ))
    (hhigh : 2 * (num / den : ℚ) ≤ (2 * m + 1) * 2 ^ q)
    (hstrict : m % 2 = 1 → (2 * m - 1) * 2 ^ q < 2 * (num / den : ℚ) ∧ 2 * (num / den : ℚ) < (2 * m + 1) * 2 ^ q) :
    roundEven (scale num den q).1 (scale num den q).2 = m := by
  have hpos : 0 < (scale num den q).2 := scale_pos hden q
  have heq : ((scale num den q).1 : ℚ) / (scale num den q).2 = num / den / 2 ^ q := scale_eq hden q
  generalize scale num den q = fraction at hpos heq ⊢
  obtain ⟨n, d⟩ := fraction
  dsimp only at hpos heq ⊢
  have hd : (0 : ℚ) < d := by exact_mod_cast hpos
  have htwo := two_zpow_pos q
  have hn : (num / den : ℚ) = n / d * 2 ^ q := by
    rw [heq]
    field_simp
  have hle : ∀ a : ℚ, (a * 2 ^ q ≤ 2 * (num / den : ℚ) ↔ a * d ≤ 2 * n) ∧ (2 * (num / den : ℚ) ≤ a * 2 ^ q ↔ 2 * n ≤ a * d) ∧
      (a * 2 ^ q < 2 * (num / den : ℚ) ↔ a * d < 2 * n) ∧ (2 * (num / den : ℚ) < a * 2 ^ q ↔ 2 * n < a * d) := by
    intro a
    have hval : 2 * (num / den : ℚ) = 2 * n / d * 2 ^ q := by
      rw [hn]
      ring
    rw [hval, mul_le_mul_iff_left₀ htwo, mul_le_mul_iff_left₀ htwo, mul_lt_mul_iff_left₀ htwo, mul_lt_mul_iff_left₀ htwo,
      le_div_iff₀ hd, div_le_iff₀ hd, lt_div_iff₀ hd, div_lt_iff₀ hd]
    exact ⟨.rfl, .rfl, .rfl, .rfl⟩
  rw [(hle _).1] at hlow
  rw [(hle _).2.1] at hhigh
  rw [(hle _).2.2.1, (hle _).2.2.2] at hstrict
  refine roundEven_eq hpos ?_ ?_ fun hodd => ?_
  · have : (2 * m * d : ℚ) ≤ 2 * n + d := by linarith
    exact_mod_cast this
  · have : (2 * n : ℚ) ≤ 2 * m * d + d := by linarith
    exact_mod_cast this
  · obtain ⟨hl, hh⟩ := hstrict hodd
    have hl : (2 * m * d : ℚ) < 2 * n + d := by linarith
    have hh : (2 * n : ℚ) < 2 * m * d + d := by linarith
    exact ⟨by exact_mod_cast hl, by exact_mod_cast hh⟩

theorem maxExponent_eq : maxExponent = 971 := rfl

theorem minExponent_eq : minExponent = -1074 := rfl

/-- What a fraction is rounded to, by its exponent and its mantissa there. -/
theorem ofRatio_eq {negative : Bool} (hnum : 0 < num) {q : Int} (hq : exponentOf num den = q) {m : Nat}
    (hm : roundEven (scale num den q).1 (scale num den q).2 = m) : ofRatio negative num den =
      if m = 2 ^ 53 then (if maxExponent < q + 1 then .infinite negative else .finite negative (2 ^ 52) (q + 1))
      else (if maxExponent < q then .infinite negative else .finite negative m q) := by
  have hpow : Nat.pow 2 53 = 2 ^ 53 ∧ Nat.pow 2 52 = 2 ^ 52 := ⟨rfl, rfl⟩
  simp only [ofRatio, hq, hm, hpow, show num ≠ 0 by omega, ↓reduceIte]
  split <;> rfl

theorem le_lowEnd (m : Nat) (q : Int) : (4 * m - 2 : ℚ) ≤ lowEnd m q := by
  have hle : 4 * m ≤ lowEnd m q + 2 := by
    unfold lowEnd
    split <;> omega
  have hle : (4 * m : ℚ) ≤ lowEnd m q + 2 := by exact_mod_cast hle
  linarith

/-- Only the interval of a power of two goes below the power. -/
theorem eq_of_below {x : ℚ} {m : Nat} {q : Int} (hcanonical : IsCanonical m q) (hmin : q ≠ minExponent)
    (h : RoundsTo x m q) (hx : x < 2 ^ (q + 52)) : m = 2 ^ 52 ∧ (4 * 2 ^ 52 - 1) * 2 ^ q ≤ 4 * x := by
  have hnormal := hcanonical.normal.resolve_right hmin
  have hlow := h.low
  have htwo := two_zpow_pos q
  rw [two_zpow_add] at hx
  have hlt : (lowEnd m q : ℚ) < 4 * 2 ^ 52 := by
    by_contra hge
    have hle := mul_le_mul_of_nonneg_right (not_lt.1 hge) htwo.le
    norm_num at hle hx
    linarith
  have hlt : lowEnd m q < 4 * 2 ^ 52 := by exact_mod_cast hlt
  have hm : m = 2 ^ 52 := by
    unfold lowEnd at hlt
    split at hlt <;> omega
  subst hm
  have hend : lowEnd (2 ^ 52) q = 4 * 2 ^ 52 - 1 := if_pos ⟨rfl, lt_of_le_of_ne hcanonical.low (Ne.symm hmin)⟩
  rw [hend] at hlow
  exact ⟨rfl, by norm_num at hlow ⊢; linarith⟩

/-- **A fraction is rounded to the number in whose interval it lies.** -/
theorem ofRatio_of_roundsTo {m : Nat} {q : Int} (hcanonical : IsCanonical m q) (hnum : 0 < num)
    (hden : 0 < den) (h : RoundsTo (num / den) m q) (negative : Bool) :
    ofRatio negative num den = .finite negative m q := by
  have htwo := two_zpow_pos q
  have hlt : (m : ℚ) + 1 ≤ 2 ^ 53 := by exact_mod_cast hcanonical.lt
  have hlow := le_lowEnd m q
  have hunit := isUnit_exponentOf hnum hden
  have hhigh : (num / den : ℚ) < 2 ^ (q + 53) := by
    have hend : (4 * m + 2 : ℚ) * 2 ^ q < 4 * 2 ^ 53 * 2 ^ q := by gcongr; linarith
    rw [two_zpow_add]
    have := h.high
    norm_num at hend ⊢
    linarith
  by_cases hbelow : q = minExponent ∨ (2 : ℚ) ^ (q + 52) ≤ num / den
  · have hq : exponentOf num den = q := hunit.unique ⟨hcanonical.low, hhigh, hbelow⟩
    have hround : roundEven (scale num den q).1 (scale num den q).2 = m := by
      refine roundEven_scale hden ?_ ?_ fun hodd => ?_
      · have hle := mul_le_mul_of_nonneg_right hlow htwo.le
        linarith [h.low]
      · linarith [h.high]
      · obtain ⟨hl, hh⟩ := h.strict hodd
        have hle := mul_le_mul_of_nonneg_right hlow htwo.le
        exact ⟨by linarith, by linarith⟩
    rw [ofRatio_eq hnum hq hround, if_neg (by have := hcanonical.lt; omega), if_neg (by have := hcanonical.high; omega)]
  · obtain ⟨hmin, hpower⟩ := not_or.1 hbelow
    obtain ⟨hm, hend⟩ := eq_of_below hcanonical hmin h (not_le.1 hpower)
    have hhalf : (2 : ℚ) ^ q = 2 * 2 ^ (q - 1) := by
      rw [show q = 1 + (q - 1) by omega, two_zpow_add, show 1 + (q - 1) - 1 = q - 1 by omega]
      norm_num
    have hq : exponentOf num den = q - 1 := by
      refine hunit.unique ⟨?_, ?_, .inr ?_⟩
      · have := hcanonical.low
        omega
      · rw [show q - 1 + 53 = q + 52 by omega]
        exact not_le.1 hpower
      · rw [show q - 1 + 52 = q + 51 by omega, two_zpow_add]
        norm_num at hend ⊢
        linarith
    have hround : roundEven (scale num den (q - 1)).1 (scale num den (q - 1)).2 = 2 ^ 53 := by
      refine roundEven_scale hden ?_ ?_ fun hodd => by norm_num at hodd
      · rw [hhalf] at hend
        push_cast
        linarith
      · have hlt := not_le.1 hpower
        rw [two_zpow_add, hhalf] at hlt
        norm_num at hlt ⊢
        have := two_zpow_pos (q - 1)
        linarith
    rw [ofRatio_eq hnum hq hround, if_pos rfl, show q - 1 + 1 = q by omega, hm,
      if_neg (by have := hcanonical.high; omega)]

end

end PluginTools.Double
