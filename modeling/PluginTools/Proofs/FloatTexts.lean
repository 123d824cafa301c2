/-
The texts of floats. A float is written with the shortest digits in its interval. Where they leave a fraction, or the
float is whole and below the limit, the text has a point and is read back as the float; elsewhere the text is that of
a whole number.
-/
import PluginTools.Proofs.LegibleExpr
import PluginTools.Proofs.ShortestDigits

namespace PluginTools

namespace Double

variable {m n k : Nat} {q : Int}

/-! ## Decimal numbers -/

theorem digitCount_spec (hn : 0 < n) :
    0 < digitCount n ∧ 10 ^ (digitCount n - 1) ≤ n ∧ n < 10 ^ digitCount n := by
  have hpos : 0 < digitCount n := List.length_pos_of_ne_nil Nat.toDigits_ne_nil
  have hiff : ∀ k, 0 < k → (digitCount n ≤ k ↔ n < 10 ^ k) := fun k hk => Nat.length_toDigits_le_iff (by decide) hk
  refine ⟨hpos, ?_, (hiff _ hpos).1 (Nat.le_refl _)⟩
  rcases Nat.eq_zero_or_pos (digitCount n - 1) with h | h
  · rw [h]
    omega
  · have := hiff _ h
    omega

theorem two_pow_le_ten_pow {i j : Nat} (h : i ≤ 3 * j) : (2 : ℚ) ^ i ≤ 10 ^ j := by
  calc (2 : ℚ) ^ i ≤ 2 ^ (3 * j) := pow_le_pow_right₀ (by norm_num) h
    _ = (2 ^ 3) ^ j := pow_mul _ _ _
    _ ≤ 10 ^ j := pow_le_pow_left₀ (by norm_num) (by norm_num) j

/-- A number in the interval of a float is neither too small nor too large for powers of ten to be formed. -/
theorem RoundsTo.bounds {x : ℚ} (h : RoundsTo x m q) (hcanonical : IsCanonical m q) (hm : 0 < m) :
    1 ≤ x * 10 ^ 400 ∧ x < 10 ^ 400 := by
  have hlow := h.pos hm
  have hhigh := h.high
  have hminimum : (2 : ℚ) ^ (-1074 : Int) ≤ 2 ^ q := zpow_le_zpow_right₀ (by norm_num) hcanonical.low
  have hmaximum : (2 : ℚ) ^ q ≤ 2 ^ 971 := by
    rw [← zpow_natCast]
    exact zpow_le_zpow_right₀ (by norm_num) hcanonical.high
  have hlt : (m : ℚ) + 1 ≤ 2 ^ 53 := by exact_mod_cast hcanonical.lt
  constructor
  · have hpower : (2 : ℚ) ^ 1075 ≤ 10 ^ 400 := two_pow_le_ten_pow (by decide)
    have hhalf : (2 : ℚ) ^ (-1074 : Int) * 2 ^ 1075 = 2 := by
      rw [← zpow_natCast, ← zpow_add₀ (by norm_num)]
      norm_num
    have hx : (2 : ℚ) ^ (-1074 : Int) ≤ 2 * x := hminimum.trans hlow
    calc (1 : ℚ) = 2 ^ (-1074 : Int) * 2 ^ 1075 / 2 := by rw [hhalf]; norm_num
      _ ≤ 2 ^ (-1074 : Int) * 10 ^ 400 / 2 := by gcongr
      _ ≤ 2 * x * 10 ^ 400 / 2 := by gcongr
      _ = x * 10 ^ 400 := by rw [mul_assoc, mul_div_cancel_left₀ _ two_ne_zero]
  · have hend : (4 * m + 2 : ℚ) < 2 ^ 55 := by
      norm_num at hlt ⊢
      linarith
    have hpower : (2 : ℚ) ^ 55 * 2 ^ 971 ≤ 10 ^ 400 := by
      rw [← pow_add]
      exact two_pow_le_ten_pow (by decide)
    have hpositive := two_zpow_pos q
    calc x ≤ (4 * m + 2) * 2 ^ q / 4 := by linarith
      _ < (4 * m + 2) * 2 ^ q := by
        have : (0 : ℚ) < (4 * m + 2) * 2 ^ q := by positivity
        linarith
      _ ≤ 2 ^ 55 * 2 ^ 971 := by gcongr
      _ ≤ 10 ^ 400 := hpower

/-- The digits of a number from the powers of ten that it lies between. -/
theorem digits_of_bounds {n k e digits : Nat} (hlow : 10 ^ (digits - 1) ≤ n) (hhigh : n < 10 ^ digits)
    (hleast : 10 ^ k ≤ n * 10 ^ e) (hmost : n < 10 ^ e * 10 ^ k) : k < digits + e ∧ digits - 1 < e + k := by
  rw [← Nat.pow_add] at hmost
  have hbelow : 10 ^ k < 10 ^ (digits + e) := by
    rw [Nat.pow_add]
    exact Nat.lt_of_le_of_lt hleast (Nat.mul_lt_mul_of_pos_right hhigh (Nat.pow_pos (by decide)))
  exact ⟨(Nat.pow_lt_pow_iff_right (by decide)).1 hbelow,
    (Nat.pow_lt_pow_iff_right (by decide)).1 (Nat.lt_of_le_of_lt hlow hmost)⟩

/-- The place of the point of a decimal number in the interval of a float. -/
theorem reach_of_roundsTo (hcanonical : IsCanonical m q) (hm : 0 < m) (hn : 0 < n) (h : RoundsTo (n / 10 ^ k) m q) :
    -400 ≤ -(k : Int) + digitCount n ∧ -(k : Int) + digitCount n ≤ 400 := by
  obtain ⟨hpos, hlow, hhigh⟩ := digitCount_spec hn
  obtain ⟨hleast, hmost⟩ := h.bounds hcanonical hm
  have hten : (0 : ℚ) < 10 ^ k := by positivity
  rw [div_mul_eq_mul_div, le_div_iff₀ hten, one_mul] at hleast
  rw [div_lt_iff₀ hten] at hmost
  obtain ⟨hbelow, habove⟩ := digits_of_bounds hlow hhigh (by exact_mod_cast hleast) (by exact_mod_cast hmost)
  omega

/-- **A decimal number is rounded to the float in whose interval it lies.** -/
theorem ofDecimal_of_roundsTo (hcanonical : IsCanonical m q) (hm : 0 < m) (hn : 0 < n) (h : RoundsTo (n / 10 ^ k) m q)
    (negative : Bool) : ofDecimal negative n (-k) = .finite negative m q := by
  obtain ⟨hlow, hhigh⟩ := reach_of_roundsTo hcanonical hm hn h
  simp only [ofDecimal]
  rw [if_neg (by omega), if_neg (by omega), if_neg (by omega)]
  split
  · next hk =>
    obtain rfl : k = 0 := by omega
    refine ofRatio_of_roundsTo hcanonical ?_ Nat.one_pos (by simpa using h) negative
    simpa using hn
  · refine ofRatio_of_roundsTo hcanonical hn (Nat.pow_pos (by decide)) ?_ negative
    simpa using h

end Double

/-! ## Digits with a point -/

theorem Number.span_digits {ds rest : List Char} (hds : ∀ c ∈ ds, isDigit c)
    (hrest : ∀ c ∈ rest.head?, isDigit c = false) : span (ds ++ rest) = (ds, rest) := by
  rw [span, List.span_eq_takeWhile_dropWhile]
  have htake : rest.takeWhile isDigit = [] := by
    cases rest with
    | nil => rfl
    | cons c rest => simp [hrest c rfl]
  have hdrop : rest.dropWhile isDigit = rest := by
    cases rest with
    | nil => rfl
    | cons c rest => simp [hrest c rfl]
  rw [List.takeWhile_append_of_pos hds, List.dropWhile_append_of_pos hds, htake, hdrop, List.append_nil]

/-- Digits on both sides of a point. -/
structure Pointed (cs ds es : List Char) : Prop where
  text : cs = ds ++ '.' :: es
  before : ds ≠ []
  digits : ∀ c ∈ ds ++ es, Number.isDigit c

namespace Pointed

variable {cs ds es rest : List Char} (h : Pointed cs ds es)
include h

theorem digits_before : ∀ c ∈ ds, Number.isDigit c := fun c hc => h.digits c (List.mem_append_left _ hc)

theorem digits_behind : ∀ c ∈ es, Number.isDigit c := fun c hc => h.digits c (List.mem_append_right _ hc)

theorem mem_of_text {c : Char} (hc : c ∈ cs) : Number.isDigit c ∨ c = '.' := by
  rw [h.text, List.mem_append, List.mem_cons] at hc
  rcases hc with hc | hc | hc
  · exact .inl (h.digits_before c hc)
  · exact .inr hc
  · exact .inl (h.digits_behind c hc)

theorem decimal?_eq (negative : Bool) :
    Number.decimal? negative cs = some (.ofDecimal negative (Nat.ofDigitChars 10 (ds ++ es) 0) (-es.length)) := by
  have hbefore : Number.span cs = (ds, '.' :: es) := by
    rw [h.text]
    exact Number.span_digits h.digits_before (by simp [Number.isDigit])
  have hbehind : Number.span es = (es, []) := by
    have hspan : Number.span (es ++ []) = (es, []) := Number.span_digits h.digits_behind (by simp)
    rwa [List.append_nil] at hspan
  have hvalue := Number.digits?_of_isDigit h.digits 0
  simp [Number.decimal?, hbefore, hbehind, hvalue, h.before]

/-- Digits with a point are read as one number, up to where no word or number goes on. -/
theorem read?_eq (hrest : Layout.endsWord rest) : Numeral.read? (cs ++ rest) =
    some (.literal (.float (.ofDecimal false (Nat.ofDigitChars 10 (ds ++ es) 0) (-es.length))), rest) := by
  have htext : cs ++ rest = ds ++ '.' :: (es ++ rest) := by simp [h.text]
  have hpoint : Layout.endsWord ('.' :: (es ++ rest)) := rfl
  have hfloat : Numeral.floatExpr cs [] =
      .literal (.float (.ofDecimal false (Nat.ofDigitChars 10 (ds ++ es) 0) (-es.length))) := by
    have hplain : '_' ∉ cs := fun hmem => by
      rcases h.mem_of_text hmem with hc | hc <;> exact absurd hc (by decide)
    simp [Numeral.floatExpr, Numeral.withoutUnderscores_eq hplain, h.decimal?_eq]
  rw [htext, Numeral.read?_digits h.before h.digits_before hpoint, Numeral.decimal,
    Numeral.groups_digits h.digits_before hpoint]
  simp only [Numeral.groups_digits h.digits_behind hrest, Numeral.finishFloat, Numeral.exponent?_of_endsWord hrest,
    Numeral.suffix_of_endsWord (show Numeral.imaginarySuffix.all Word.isContinuing by decide) hrest, ← h.text, hfloat]

end Pointed

namespace Double

variable {m n : Nat} {q : Int}

/-- A text of digits with a point is read back as the float in whose interval its value lies. -/
theorem readsBack_of_pointed {cs ds es : List Char} (h : Pointed cs ds es) (hm : 0 < m) (hcanonical : IsCanonical m q)
    (htext : (Double.finite false m q).literalText = cs) (hvalue : Nat.ofDigitChars 10 (ds ++ es) 0 = n) (hn : 0 < n)
    (hrounds : RoundsTo (n / 10 ^ es.length) m q) : (Double.finite false m q).ReadsBack where
  digit := by
    obtain ⟨c, ds, rfl⟩ := List.exists_cons_of_ne_nil h.before
    exact ⟨c, ds ++ '.' :: es, by rw [htext, h.text]; rfl, h.digits c (by simp)⟩
  point := by simp [htext, h.text]
  plain c hc := h.mem_of_text (htext ▸ hc)
  reads hrest := by rw [htext, h.read?_eq hrest, hvalue, ofDecimal_of_roundsTo hcanonical hm hn hrounds]

/-! ## Layout -/

theorem toDigits_mul_pow (hn : 0 < n) (k : Nat) : Nat.toDigits 10 (n * 10 ^ k) = Nat.toDigits 10 n ++ List.replicate k '0' := by
  induction k with
  | zero => simp
  | succ k ih =>
    have hzero : Nat.toDigits 10 0 = ['0'] := rfl
    rw [List.replicate_succ', ← List.append_assoc, ← ih, ← hzero,
      Nat.toDigits_append_toDigits (by decide) (Nat.mul_pos hn (Nat.pow_pos (by decide))) (by decide)]
    congr 1
    ring

/-- Digits that leave no fraction are laid out as a whole number. -/
theorem positional_of_nonneg (hn : 0 < n) {p : Int} (hp : 0 ≤ p) :
    positional (Nat.toDigits 10 n) ((Nat.toDigits 10 n).length + p) = Nat.toDigits 10 (n * 10 ^ p.toNat) := by
  have hpos : 0 < (Nat.toDigits 10 n).length := List.length_pos_of_ne_nil Nat.toDigits_ne_nil
  rw [positional, if_neg (by omega), if_pos (by omega), toDigits_mul_pow hn]
  congr 2
  omega

/-- Digits that leave a fraction are laid out around a point. -/
theorem positional_of_neg {p : Int} (hp : p < 0) : ∃ ds es,
    Pointed (positional (Nat.toDigits 10 n) ((Nat.toDigits 10 n).length + p)) ds es ∧
      Nat.ofDigitChars 10 (ds ++ es) 0 = n ∧ (es.length : Int) = -p := by
  have hdigits : ∀ c ∈ Nat.toDigits 10 n, Number.isDigit c := fun _ => Number.isDigit_of_mem_toDigits
  have hvalue : Nat.ofDigitChars 10 (Nat.toDigits 10 n) 0 = n := Nat.ofDigitChars_toDigits (by decide) (by decide)
  generalize hds : Nat.toDigits 10 n = digits at hdigits hvalue
  by_cases hscale : (digits.length : Int) + p ≤ 0
  · refine ⟨['0'], List.replicate (-(digits.length + p)).toNat '0' ++ digits, ⟨?_, by simp, ?_⟩, ?_, ?_⟩
    · rw [positional, if_pos hscale]
      rfl
    · intro c hc
      simp only [List.mem_append, List.mem_replicate, List.mem_singleton] at hc
      rcases hc with rfl | ⟨-, rfl⟩ | hc
      · decide
      · decide
      · exact hdigits c hc
    · rw [Nat.ofDigitChars_append, Nat.ofDigitChars_append, Nat.ofDigitChars_replicate_zero]
      exact hvalue
    · simp only [List.length_append, List.length_replicate]
      omega
  · refine ⟨digits.take (digits.length + p).toNat, digits.drop (digits.length + p).toNat, ⟨?_, ?_, ?_⟩, ?_, ?_⟩
    · rw [positional, if_neg hscale, if_neg (by omega)]
    · rw [ne_eq, List.take_eq_nil_iff]
      rintro (h | rfl)
      · omega
      · simp at hscale
        omega
    · rwa [List.take_append_drop]
    · rwa [List.take_append_drop]
    · rw [List.length_drop]
      omega

/-! ## Floats -/

theorem literalText_zero : (Double.finite false 0 minExponent).literalText = "0.0".toList := by
  have hwhole : ∀ q, (Double.finite false 0 q).whole? = some 0 := fun q => by simp [whole?]
  simp [literalText, hwhole, wholeLimit, plainText, signed]

theorem pointed_zero : Pointed "0.0".toList ['0'] ['0'] := ⟨rfl, by simp, by simp [Number.isDigit]⟩

theorem readsBack_zero : (Double.finite false 0 minExponent).ReadsBack where
  digit := ⟨'0', ['.', '0'], literalText_zero, by decide⟩
  point := literalText_zero ▸ by decide
  plain c hc := pointed_zero.mem_of_text (literalText_zero ▸ hc)
  reads {rest} hrest := by
    have hvalue : Nat.ofDigitChars 10 (['0'] ++ ['0']) 0 = 0 := rfl
    rw [literalText_zero, pointed_zero.read?_eq hrest, hvalue, ofDecimal, if_pos rfl, zero]

theorem whole?_eq {negative : Bool} (h : (Double.finite negative m q).whole? = some n) : (m * 2 ^ q : ℚ) = n := by
  simp only [whole?] at h
  split at h
  · next hq =>
    cases h
    push_cast [pow_toNat 2 hq]
    rfl
  · next hq =>
    split at h
    · next hzero =>
      cases h
      have hpow : ((Nat.pow 2 (-q).toNat : Nat) : ℚ) = 2 ^ (-q) := by simpa using pow_toNat 2 (show 0 ≤ -q by omega)
      rw [Nat.cast_div (Nat.dvd_of_mod_eq_zero hzero) (by rw [hpow]; exact (two_zpow_pos _).ne'), hpow, zpow_neg]
      simp
    · cases h

/-- The text of a positive float by its shortest digits. -/
theorem plainText_eq (hm : 0 < m) {g : Nat} {p : Int} (h : shortest m q = (g, p)) :
    (Double.finite false m q).plainText = positional (Nat.toDigits 10 g) ((Nat.toDigits 10 g).length + p) := by
  simp [plainText, signed, digitsAndScale, h, show m ≠ 0 by omega]

/-- **A positive float reads back**, or its text is that of a whole number. -/
theorem readsBack_or_whole (hm : 0 < m) (hcanonical : IsCanonical m q) : (Double.finite false m q).ReadsBack ∨
    ∃ n > 0, (Double.finite false m q).literalText = Nat.toDigits 10 n := by
  obtain ⟨g, p, hshortest, hg, hrounds, hwhole⟩ := shortest_spec hm hcanonical
  have hplain := plainText_eq hm hshortest
  by_cases hp : 0 ≤ p
  · rw [positional_of_nonneg hg hp] at hplain
    have hpos : 0 < g * 10 ^ p.toNat := Nat.mul_pos hg (Nat.pow_pos (by decide))
    by_cases hlimit : ∃ n, (Double.finite false m q).whole? = some n ∧ n < wholeLimit
    · obtain ⟨n, hn, hlt⟩ := hlimit
      have hpointed : Pointed (Nat.toDigits 10 (g * 10 ^ p.toNat) ++ '.' :: ['0']) (Nat.toDigits 10 (g * 10 ^ p.toNat)) ['0'] := by
        refine ⟨rfl, Nat.toDigits_ne_nil, fun c hc => ?_⟩
        rcases List.mem_append.1 hc with hc | hc
        · exact Number.isDigit_of_mem_toDigits hc
        · exact List.mem_singleton.1 hc ▸ by decide
      refine .inl (readsBack_of_pointed (n := g * 10 ^ p.toNat * 10) hpointed hm hcanonical ?_ ?_ (by omega) ?_)
      · simp only [literalText, hn, if_pos hlt, hplain]
        rfl
      · rw [Nat.ofDigitChars_append, Nat.ofDigitChars_toDigits (by decide) (by decide), Nat.ofDigitChars_cons,
          Nat.mul_comm 10]
        rfl
      · have hten : ((10 ^ p.toNat : Nat) : ℚ) = 10 ^ p := by simpa using pow_toNat 10 hp
        have hvalue : ((g * 10 ^ p.toNat * 10 : Nat) : ℚ) / 10 ^ ['0'].length = g * 10 ^ p := by
          rw [Nat.cast_mul, Nat.cast_mul, hten]
          norm_num
        exact hvalue ▸ hrounds
    · refine .inr ⟨_, hpos, ?_⟩
      rw [← hplain, literalText]
      split
      · next n hn => rw [if_neg fun hlt => hlimit ⟨n, hn, hlt⟩]
      · rfl
  · obtain ⟨ds, es, hpointed, hvalue, hlength⟩ := positional_of_neg (n := g) (not_le.1 hp)
    have hnone : (Double.finite false m q).whole? = none := by
      cases h : (Double.finite false m q).whole? with
      | none => rfl
      | some n => exact absurd (hwhole n (whole?_eq h)) hp
    refine .inl (readsBack_of_pointed hpointed hm hcanonical ?_ hvalue hg ?_)
    · simp only [literalText, hnone, hplain]
    · have hten : (g / 10 ^ es.length : ℚ) = g * 10 ^ p := by
        rw [show p = -(es.length : Int) by omega, zpow_neg, zpow_natCast]
        rfl
      exact hten ▸ hrounds

/-- **A float reads back** if its text has a point, and otherwise the text is a whole number's. -/
theorem IsNumber.text {d : Double} (h : d.IsNumber) : '.' ∈ d.literalText ∧ d.magnitude.ReadsBack ∨
    '.' ∉ d.literalText ∧ ∃ n > 0, d.magnitude.literalText = Nat.toDigits 10 n := by
  rw [← d.point_mem_magnitude]
  cases d with
  | nan | infinite => cases h
  | finite negative m q =>
    rcases Nat.eq_zero_or_pos m with rfl | hm
    · obtain rfl : q = minExponent := h.normal.resolve_left (by decide)
      exact .inl ⟨readsBack_zero.point, readsBack_zero⟩
    · rcases readsBack_or_whole hm h with hreads | ⟨n, hn, htext⟩
      · exact .inl ⟨hreads.point, hreads⟩
      · refine .inr ⟨fun hmem => ?_, n, hn, htext⟩
        exact absurd (Number.isDigit_of_mem_toDigits (htext ▸ hmem)) (by decide)

end Double
end PluginTools
