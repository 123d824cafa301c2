/-
The literals of whole numbers. `IsInteger` says which texts these are, and `value` gives the number that their digits
stand for; `integerExpr` is what such a text is kept as. What is read as a number is one of them as far as its digits go,
or a text with a point or an exponent (`read?_append`), and where no word and no point goes on behind a literal, all of
it is read (`read?_of_isInteger`).
-/
import Mathlib.Data.Bool.AllAny
import Mathlib.Data.List.Chain
import Mathlib.Data.Nat.Digits.Defs
import PluginTools.Proofs.Integers

namespace PluginTools.Numeral

/-! ## The literals -/

/-- The value of a digit, which is its place among the hexadecimal digits, in either case. -/
def digitValue (c : Char) : Nat :=
  ['0', '1', '2', '3', '4', '5', '6', '7', '8', '9', 'a', 'b', 'c', 'd', 'e', 'f'].idxOf c.toLower

/-- The two are not both underscores. -/
def Apart (c d : Char) : Prop := c = '_' → d ≠ '_'

instance (c d : Char) : Decidable (Apart c d) := inferInstanceAs (Decidable (c = '_' → d ≠ '_'))

/-- One digit or more, with single underscores. -/
structure AreDigits (base : Nat) (cs : List Char) : Prop where
  nonempty : withoutUnderscores cs ≠ []
  digits : ∀ c ∈ withoutUnderscores cs, digitValue c < base
  apart : cs.IsChain Apart

/-- The number that digits stand for; underscores count for nothing. -/
def value (base : Nat) (digits : List Char) : Nat :=
  Nat.ofDigits base ((withoutUnderscores digits).map digitValue).reverse

/-- The letters behind a zero that name a base. -/
def bases : List (Char × Nat) := [('x', 16), ('X', 16), ('o', 8), ('O', 8), ('b', 2), ('B', 2)]

/-- A text that is the literal of a whole number, with its base, its digits and the letter at its end. An underscore does
not start a decimal one, and does not end the digits of another base. -/
inductive IsInteger : (text : List Char) → (base : Nat) → (digits ending : List Char) → Prop
  | decimal {digits ending : List Char} : AreDigits 10 digits → digits.head? ≠ some '_' →
    ending ∈ [[], ['L'], ['l'], ['j'], ['J']] → IsInteger (digits ++ ending) 10 digits ending
  | based {letter : Char} {base : Nat} {digits ending : List Char} : (letter, base) ∈ bases → AreDigits base digits →
    digits.getLast? ≠ some '_' → ending ∈ [[], ['L'], ['l']] →
    IsInteger ('0' :: letter :: (digits ++ ending)) base digits ending

/-- Whether a literal is kept as its value. -/
def Fits (base : Nat) (digits ending : List Char) : Prop := ending = [] ∧ value base digits ≤ 2 ^ 63 - 1

instance (base : Nat) (digits ending : List Char) : Decidable (Fits base digits ending) := inferInstanceAs (Decidable (_ ∧ _))

/-- What the literal of a whole number is kept as: the value if it fits, and the text if not. -/
def integerExpr (text : List Char) (base : Nat) (digits ending : List Char) : Expr :=
  if Fits base digits ending then .literal (.int (value base digits)) else .verbatim "integer" (String.ofList text)

/-- A text with a point or an exponent. -/
def IsFloat (text : List Char) : Prop :=
  ∃ before mark after, text = before ++ mark :: after ∧ (before = [] ∨ AreDigits 10 before) ∧ mark ∈ ['.', 'e', 'E']

/-- What a text with a point or an exponent is kept as. -/
def IsFloatExpr (text : List Char) (e : Expr) : Prop :=
  (∃ d, e = .literal (.float d)) ∨ e = .verbatim "float" (String.ofList text)

/-- No digit of the base stands here. -/
def EndsDigits (base : Nat) (rest : List Char) : Prop := ∀ c ∈ rest.head?, base ≤ digitValue c

/-- What a number's text is kept as, where another text follows. The literal of a whole number goes as far as its digits
do. -/
def KeptAs (text rest : List Char) (e : Expr) : Prop :=
  (∃ base digits ending, IsInteger text base digits ending ∧ (ending = [] → EndsDigits base rest) ∧
    e = integerExpr text base digits ending) ∨ IsFloat text ∧ IsFloatExpr text e

/-! ## Digits -/

/-- Beyond ASCII there are no digits. -/
theorem digitValue_of_le {c : Char} (hc : 128 ≤ c.toNat) : digitValue c = 16 := by
  have hall : ∀ d ∈ ['0', '1', '2', '3', '4', '5', '6', '7', '8', '9', 'a', 'b', 'c', 'd', 'e', 'f'], d.toNat < 128 :=
    List.all_iff_forall_prop.1 (by decide)
  rw [digitValue, Number.toLower_of_le hc]
  exact List.idxOf_eq_length fun h => absurd (hall c h) (Nat.not_lt.2 hc)

theorem digitValue?_eq (c : Char) : Number.digitValue? c = if digitValue c < 16 then some (digitValue c) else none := by
  by_cases hc : c.toNat < 128
  · have hall : ∀ n < 128, Number.digitValue? (Char.ofNat n) =
        if digitValue (Char.ofNat n) < 16 then some (digitValue (Char.ofNat n)) else none := by decide
    simpa only [Char.ofNat_toNat] using hall c.toNat hc
  · rw [digitValue_of_le (Nat.not_lt.1 hc), Number.digitValue?_of_le (Nat.not_lt.1 hc)]
    rfl

theorem digitIn?_eq {base : Nat} (hbase : base ≤ 16) (c : Char) :
    Number.digitIn? base c = if digitValue c < base then some (digitValue c) else none := by
  rw [Number.digitIn?, digitValue?_eq]
  by_cases hc : digitValue c < base
  · simp [hc, Nat.lt_of_lt_of_le hc hbase]
  · by_cases h : digitValue c < 16 <;> simp [hc, h, Nat.not_lt.1 hc]

theorem isSome_digitIn? {base : Nat} (hbase : base ≤ 16) {c : Char} :
    (Number.digitIn? base c).isSome ↔ digitValue c < base := by
  rw [digitIn?_eq hbase]
  split <;> simp_all

theorem ne_underscore_of_digitValue_lt {base : Nat} {c : Char} (hc : digitValue c < base) (hbase : base ≤ 16) : c ≠ '_' := by
  rintro rfl
  exact absurd (Nat.lt_of_lt_of_le hc hbase) (by decide)

/-- Digits are read as the number that they stand for. -/
theorem digits?_eq_some {base : Nat} (hbase : base ≤ 16) {ds : List Char} (hds : ∀ c ∈ ds, digitValue c < base) (n : Nat) :
    Number.digits? base n ds = some (Nat.ofDigits base ((ds.map digitValue).reverse ++ [n])) := by
  induction ds generalizing n with
  | nil => simp [Number.digits?]
  | cons c ds ih =>
    obtain ⟨hc, hds⟩ := List.forall_mem_cons.1 hds
    simp [Number.digits?, digitIn?_eq hbase, hc, ih hds, Nat.ofDigits_append, Nat.ofDigits_cons, Nat.mul_comm, Nat.add_comm]

theorem wholeExpr_eq {base : Nat} (hbase : base ≤ 16) {digits : List Char} (h : AreDigits base digits)
    (text ending : List Char) : wholeExpr base text digits ending = integerExpr text base digits ending := by
  have hwhole : Number.whole? base (withoutUnderscores digits) = some (value base digits) := by
    rw [Number.whole?, if_neg (by simpa using h.nonempty), digits?_eq_some hbase h.digits]
    simp [value, Nat.ofDigits_append]
  have hmax : maxInt = 2 ^ 63 - 1 := rfl
  cases ending with
  | nil =>
    by_cases hfits : value base digits ≤ 2 ^ 63 - 1 <;>
      simp only [wholeExpr, integerExpr, Fits, int?, hwhole, hmax, hfits, List.isEmpty_nil, ↓reduceIte, true_and]
  | cons c ending => simp [wholeExpr, integerExpr, Fits]

theorem areDigits_of_forall {base : Nat} {cs : List Char} (h : ∀ c ∈ cs, c = '_' ∨ digitValue c < base)
    (hne : ∃ c ∈ cs, c ≠ '_') (hapart : cs.IsChain Apart) : AreDigits base cs := by
  refine ⟨?_, fun c hc => ?_, hapart⟩
  · obtain ⟨c, hc, hline⟩ := hne
    exact List.ne_nil_of_mem (List.mem_filter.2 ⟨hc, by simpa using hline⟩)
  · obtain ⟨hmem, hline⟩ := List.mem_filter.1 hc
    exact (h c hmem).resolve_left (by simpa using hline)

theorem digitValue_of_isDigit {c : Char} (h : Number.isDigit c) : digitValue c < 10 := by
  have hdigit := Number.digitIn?_of_isDigit h
  rw [digitIn?_eq (by decide)] at hdigit
  by_contra hlt
  simp [hlt] at hdigit

theorem isDigit_of_digitValue_lt {c : Char} (h : digitValue c < 10) : Number.isDigit c := by
  have hc : c.toNat < 128 := by
    by_contra hle
    rw [digitValue_of_le (Nat.not_lt.1 hle)] at h
    omega
  have hall : ∀ n < 128, digitValue (Char.ofNat n) < 10 → Number.isDigit (Char.ofNat n) := by decide
  simpa only [Char.ofNat_toNat] using hall c.toNat hc (by rwa [Char.ofNat_toNat])

/-! ## Parts of numbers -/

section

variable {cs text rest taken ending : List Char}

/-- A character that is no underscore may stand before any other. -/
theorem isChain_cons_of_ne {c : Char} (hc : c ≠ '_') (h : cs.IsChain Apart) : (c :: cs).IsChain Apart :=
  h.cons fun _ _ hline => absurd hline hc

theorem groups_append {afterDigit : Bool} (h : groups afterDigit cs = (taken, rest)) :
    cs = taken ++ rest ∧ (∀ c ∈ taken, c = '_' ∨ digitValue c < 10) ∧ taken.IsChain Apart ∧
      (afterDigit = false → taken.head? ≠ some '_') ∧ EndsDigits 10 rest := by
  induction cs generalizing afterDigit taken with
  | nil =>
    cases h
    exact ⟨rfl, List.forall_mem_nil _, .nil, fun _ => by simp, by rintro _ ⟨⟩⟩
  | cons c cs ih =>
    rw [groups] at h
    split at h
    · next hc =>
      cases h
      obtain ⟨hcs, hall, hapart, -, hends⟩ := ih rfl
      have hline := ne_underscore_of_digitValue_lt (digitValue_of_isDigit hc) (by decide)
      exact ⟨congrArg (c :: ·) hcs, List.forall_mem_cons.2 ⟨.inr (digitValue_of_isDigit hc), hall⟩,
        isChain_cons_of_ne hline hapart, fun _ => by simpa using hline, hends⟩
    · next hc =>
      split at h
      · next hline =>
        cases h
        obtain ⟨hcs, hall, hapart, hhead, hends⟩ := ih rfl
        simp only [Bool.and_eq_true, beq_iff_eq] at hline
        obtain ⟨rfl, rfl⟩ := hline
        refine ⟨congrArg ('_' :: ·) hcs, List.forall_mem_cons.2 ⟨.inl rfl, hall⟩, ?_, by simp, hends⟩
        exact hapart.cons fun _ hd _ hline => hhead rfl (hline ▸ hd)
      · cases h
        refine ⟨rfl, List.forall_mem_nil _, .nil, fun _ => by simp, ?_⟩
        rintro _ ⟨⟩
        exact Nat.not_lt.1 fun hlt => hc (isDigit_of_digitValue_lt hlt)

/-- The groups at a digit are digits. -/
theorem areDigits_of_groups {c : Char} (hc : Number.isDigit c) (h : groups false (c :: cs) = (taken, rest)) :
    AreDigits 10 taken := by
  obtain ⟨-, hall, hapart, -⟩ := groups_append h
  refine areDigits_of_forall hall ⟨c, ?_, ?_⟩ hapart
  · rw [groups, if_pos hc] at h
    cases h
    exact List.mem_cons_self
  · exact ne_underscore_of_digitValue_lt (digitValue_of_isDigit hc) (by decide)

theorem getLast?_cons_ne_iff {c d : Char} {cs : List Char} :
    (c :: cs).getLast? ≠ some d ↔ (cs = [] → c ≠ d) ∧ cs.getLast? ≠ some d := by
  cases cs <;> simp [List.getLast?_cons_cons]

theorem basedDigits_append {base : Nat} (hbase : base ≤ 16) (h : basedDigits base cs = (taken, rest)) :
    cs = taken ++ rest ∧ (∀ c ∈ taken, c = '_' ∨ digitValue c < base) ∧ taken.IsChain Apart ∧
      taken.getLast? ≠ some '_' ∧ EndsDigits base rest := by
  fun_induction basedDigits base cs generalizing taken with
  | case1 c cs hc taken' rest' heq ih =>
    cases h
    obtain ⟨hcs, hall, hapart, hlast, hends⟩ := ih heq
    have hdigit := (isSome_digitIn? hbase).1 hc
    have hline := ne_underscore_of_digitValue_lt hdigit hbase
    have hchain := isChain_cons_of_ne hline hapart
    have hmore : (c :: taken').getLast? ≠ some '_' := getLast?_cons_ne_iff.2 ⟨fun _ => hline, hlast⟩
    exact ⟨by rw [hcs]; rfl, by simpa using ⟨.inr hdigit, hall⟩, hchain.cons fun _ hd _ => by simp_all,
      by rwa [List.getLast?_cons_cons], hends⟩
  | case2 =>
    cases h
    refine ⟨rfl, List.forall_mem_nil _, .nil, by simp, ?_⟩
    rintro _ ⟨⟩
    exact Nat.le_trans hbase (by decide)
  | case3 c cs _ hc taken' rest' heq ih =>
    cases h
    obtain ⟨hcs, hall, hapart, hlast, hends⟩ := ih heq
    have hdigit := (isSome_digitIn? hbase).1 hc
    have hline := ne_underscore_of_digitValue_lt hdigit hbase
    exact ⟨by rw [hcs]; rfl, by simpa using ⟨.inr hdigit, hall⟩, isChain_cons_of_ne hline hapart,
      getLast?_cons_ne_iff.2 ⟨fun _ => hline, hlast⟩, hends⟩
  | case4 c cs _ hc =>
    cases h
    refine ⟨rfl, List.forall_mem_nil _, .nil, by simp, ?_⟩
    rintro _ ⟨⟩
    exact Nat.not_lt.1 fun hlt => hc ((isSome_digitIn? hbase).2 hlt)
  | case5 =>
    cases h
    exact ⟨rfl, List.forall_mem_nil _, .nil, by simp, by rintro _ ⟨⟩⟩

theorem exponent?_append (h : exponent? cs = some (taken, rest)) :
    cs = taken ++ rest ∧ ∃ mark behind, taken = mark :: behind ∧ mark ∈ ['e', 'E'] := by
  cases cs with
  | nil => cases h
  | cons e cs =>
    unfold exponent? at h
    dsimp only at h
    split at h
    · next he =>
      split at h
      · cases h
      · next hgroups =>
        cases h
        refine ⟨?_, e, _, rfl, by simpa using he⟩
        have hrest := (groups_append hgroups).1
        -- a sign, if there is one, is part of the exponent
        split at hrest <;> simpa using hrest
    · cases h

theorem suffix_append {letters : List Char} (h : suffix letters cs = (ending, rest)) :
    cs = ending ++ rest ∧ (ending = [] ∨ ∃ c ∈ letters, ending = [c]) := by
  cases cs with
  | nil =>
    cases h
    exact ⟨rfl, .inl rfl⟩
  | cons c cs =>
    rw [suffix] at h
    split at h
    · next hc =>
      cases h
      exact ⟨rfl, .inr ⟨c, by simpa using hc, rfl⟩⟩
    · cases h
      exact ⟨rfl, .inl rfl⟩

theorem isFloatExpr_floatExpr (text ending : List Char) : IsFloatExpr (text ++ ending) (floatExpr text ending) := by
  unfold floatExpr
  split
  · exact .inl ⟨_, rfl⟩
  · exact .inr rfl

/-- Behind its leading part a number may go on with an exponent and a letter. -/
theorem finishFloat_append {e : Expr} (h : finishFloat text cs = (e, rest)) :
    ∃ more, cs = more ++ rest ∧ IsFloatExpr (text ++ more) e ∧
      ((exponent? cs).isSome → ∃ mark behind, more = mark :: behind ∧ mark ∈ ['e', 'E']) := by
  unfold finishFloat at h
  rcases hexponent : exponent? cs with _ | ⟨ex, behind⟩
  · rw [hexponent] at h
    rcases hending : suffix imaginarySuffix cs with ⟨ending, behind⟩
    dsimp only at h
    rw [hending] at h
    cases h
    exact ⟨ending, (suffix_append hending).1, isFloatExpr_floatExpr text ending, fun h => by cases h⟩
  · rw [hexponent] at h
    rcases hending : suffix imaginarySuffix behind with ⟨ending, behind'⟩
    dsimp only at h
    rw [hending] at h
    cases h
    obtain ⟨hcs, mark, more, rfl, hmark⟩ := exponent?_append hexponent
    refine ⟨mark :: more ++ ending, ?_, ?_, fun _ => ⟨mark, _, rfl, hmark⟩⟩
    · rw [hcs, (suffix_append hending).1, List.append_assoc]
    · rw [← List.append_assoc]
      exact isFloatExpr_floatExpr _ _

theorem decimal_append {c : Char} (hc : Number.isDigit c) {e : Expr} (h : decimal (c :: cs) = (e, rest)) :
    ∃ text, c :: cs = text ++ rest ∧ KeptAs text rest e := by
  unfold decimal at h
  rcases hgroups : groups false (c :: cs) with ⟨before, behind⟩
  rw [hgroups] at h
  have hbefore := areDigits_of_groups hc hgroups
  obtain ⟨hcs, -, -, hfirst, hends⟩ := groups_append hgroups
  dsimp only at h
  split at h
  · next behind =>
    rcases hafter : groups false behind with ⟨after, behind'⟩
    rw [hafter] at h
    dsimp only at h
    obtain ⟨more, hmore, he, -⟩ := finishFloat_append h
    refine ⟨before ++ '.' :: after ++ more, ?_, .inr ⟨⟨before, '.', after ++ more, by simp, .inr hbefore, by simp⟩, he⟩⟩
    rw [hcs, (groups_append hafter).1, hmore]
    simp
  · split at h
    · next hexponent =>
      obtain ⟨more, hmore, he, hmark⟩ := finishFloat_append h
      obtain ⟨mark, after, rfl, hmem⟩ := hmark hexponent
      refine ⟨_, ?_, .inr ⟨⟨before, mark, after, rfl, .inr hbefore, ?_⟩, he⟩⟩
      · rw [hcs, hmore, List.append_assoc]
      · exact List.mem_cons_of_mem _ hmem
    · rcases hending : suffix (longSuffix ++ imaginarySuffix) behind with ⟨ending, behind'⟩
      rw [hending] at h
      cases h
      obtain ⟨hbehind, hletter⟩ := suffix_append hending
      have hbound : ending = [] → EndsDigits 10 behind' := by
        rintro rfl
        exact (show behind = behind' from hbehind) ▸ hends
      refine ⟨before ++ ending, by rw [hcs, hbehind, List.append_assoc], .inl ⟨10, before, ending,
        .decimal hbefore (hfirst rfl) ?_, hbound, wholeExpr_eq (by decide) hbefore _ _⟩⟩
      rcases hletter with rfl | ⟨letter, hletter, rfl⟩
      · simp
      · simpa [longSuffix, imaginarySuffix] using hletter

theorem mem_bases_of_base? {letter : Char} {base : Nat} (h : base? letter = some base) : (letter, base) ∈ bases := by
  unfold base? at h
  split at h <;> cases h <;> simp [bases]

theorem le_of_mem_bases {letter : Char} {base : Nat} (h : (letter, base) ∈ bases) : base ≤ 16 := by
  have hall : ∀ b ∈ bases, b.2 ≤ 16 := by decide
  exact hall _ h

/-- **What is read as a number** is the literal of a whole number, kept as its value or its text, or a text with a point or
an exponent. -/
theorem read?_append {e : Expr} (h : read? cs = some (e, rest)) : ∃ text, cs = text ++ rest ∧ KeptAs text rest e := by
  unfold read? at h
  split at h
  · next letter more =>
    split at h
    · next base d ds behind hbased =>
      obtain ⟨named, hbase, hnamed⟩ := Option.map_eq_some_iff.1 hbased
      obtain ⟨hnamed, hdigits⟩ := Prod.mk.inj hnamed
      subst hnamed
      have hmem := mem_bases_of_base? hbase
      obtain ⟨hmore, hds, hapart, hlast, hends⟩ := basedDigits_append (le_of_mem_bases hmem) hdigits
      have hdigits := areDigits_of_forall hds ⟨_, List.getLast_mem (List.cons_ne_nil d ds),
        fun h => hlast (h ▸ List.getLast?_eq_some_getLast _)⟩ hapart
      rcases hending : suffix longSuffix behind with ⟨ending, behind'⟩
      rw [hending] at h
      obtain ⟨hbehind, hletter⟩ := suffix_append hending
      obtain ⟨rfl, rfl⟩ := Prod.mk.inj (Option.some.inj h)
      have hbound : ending = [] → EndsDigits named behind' := by
        rintro rfl
        exact (show behind = behind' from hbehind) ▸ hends
      refine ⟨'0' :: letter :: (d :: ds ++ ending), by rw [hmore, hbehind]; simp, .inl ⟨named, d :: ds, ending,
        .based hmem hdigits hlast ?_, hbound, wholeExpr_eq (le_of_mem_bases hmem) hdigits _ _⟩⟩
      rcases hletter with rfl | ⟨letter, hletter, rfl⟩
      · simp
      · simpa [longSuffix] using hletter
    · exact decimal_append (by decide) (Option.some.inj h)
  · next behind =>
    rcases hafter : groups false behind with ⟨_ | ⟨d, ds⟩, behind'⟩
    · rw [hafter] at h
      cases h
    · rw [hafter] at h
      obtain ⟨more, hmore, he, -⟩ := finishFloat_append (Option.some.inj h)
      refine ⟨'.' :: (d :: ds ++ more), ?_, .inr ⟨⟨[], '.', d :: ds ++ more, rfl, .inl rfl, by simp⟩, he⟩⟩
      rw [(groups_append hafter).1, hmore]
      simp
  · split at h
    · next hc => exact decimal_append hc (Option.some.inj h)
    · cases h
  · cases h

/-- At a digit a number is read. -/
theorem read?_isSome {c : Char} (hc : Number.isDigit c) (cs : List Char) : (read? (c :: cs)).isSome := by
  unfold read?
  split
  · split <;> rfl
  · next h =>
    cases h
    exact absurd hc (by decide)
  · next h =>
    cases h
    rw [if_pos hc]
    rfl
  · next h => cases h

/-! ## Literals are read whole -/

open Layout (endsWord)

variable {base : Nat} {digits behind : List Char}

/-- Where a word ends, no digit of any base stands. -/
theorem endsDigits_of_endsWord (hbase : base ≤ 16) (h : endsWord rest) : EndsDigits base rest := by
  cases rest with
  | nil => rintro _ ⟨⟩
  | cons c rest =>
    rintro _ ⟨⟩
    by_cases hc : c.toNat < 128
    · have hall : ∀ n < 128, Word.isContinuing (Char.ofNat n) = false → 16 ≤ digitValue (Char.ofNat n) := by decide
      simp only [endsWord, Bool.and_eq_true, Bool.not_eq_true'] at h
      have hvalue := hall c.toNat hc (by rw [Char.ofNat_toNat]; exact h.1)
      rw [Char.ofNat_toNat] at hvalue
      exact Nat.le_trans hbase hvalue
    · rwa [digitValue_of_le (Nat.not_lt.1 hc)]

/-- Nor does an underscore. -/
theorem head?_ne_of_endsWord (h : endsWord rest) : rest.head? ≠ some '_' := by
  intro hhead
  obtain ⟨_, rfl⟩ := List.head?_eq_some_iff.1 hhead
  exact absurd h (by simp [endsWord, Word.isContinuing])

/-- A letter at the end of a literal stops its digits. -/
theorem endsDigits_ending (hbase : base ≤ 16) (hending : ending ∈ [[], ['L'], ['l'], ['j'], ['J']]) (hrest : endsWord rest) :
    EndsDigits base (ending ++ rest) ∧ (ending ++ rest).head? ≠ some '_' := by
  have hletter : ∀ c ∈ ['L', 'l', 'j', 'J'], 16 ≤ digitValue c ∧ c ≠ '_' := List.all_iff_forall_prop.1 (by decide)
  have hcons : ∀ c ∈ ['L', 'l', 'j', 'J'], EndsDigits base (c :: rest) ∧ (c :: rest).head? ≠ some '_' := fun c hc =>
    ⟨by rintro _ ⟨⟩; exact Nat.le_trans hbase (hletter c hc).1, by simpa using (hletter c hc).2⟩
  simp only [List.mem_cons, List.not_mem_nil, or_false] at hending
  rcases hending with rfl | rfl | rfl | rfl | rfl
  · exact ⟨endsDigits_of_endsWord hbase hrest, head?_ne_of_endsWord hrest⟩
  all_goals exact hcons _ (by decide)

theorem groups_of_apart {afterDigit : Bool} (hall : ∀ c ∈ digits, c = '_' ∨ digitValue c < 10) (hapart : digits.IsChain Apart)
    (hfirst : afterDigit = false → digits.head? ≠ some '_') (hends : EndsDigits 10 behind)
    (hline : behind.head? ≠ some '_') : groups afterDigit (digits ++ behind) = (digits, behind) := by
  induction digits generalizing afterDigit with
  | nil =>
    cases behind with
    | nil => rfl
    | cons c behind =>
      have hc : Number.isDigit c = false := by
        by_contra hdigit
        exact absurd (digitValue_of_isDigit (by simpa using hdigit)) (Nat.not_lt.2 (hends c rfl))
      have hne : c ≠ '_' := by simpa using hline
      simp [groups, hc, hne]
  | cons c ds ih =>
    obtain ⟨hc, hds⟩ := List.forall_mem_cons.1 hall
    obtain ⟨hnext, hmore⟩ := List.isChain_cons.1 hapart
    by_cases hdigit : Number.isDigit c
    · have htaken : groups true (ds ++ behind) = (ds, behind) := ih hds hmore fun h => by cases h
      simp [groups, hdigit, htaken]
    · obtain rfl : c = '_' := hc.resolve_right fun h => hdigit (isDigit_of_digitValue_lt h)
      have htaken : groups false (ds ++ behind) = (ds, behind) := ih hds hmore fun _ h => hnext _ h rfl rfl
      cases afterDigit with
      | false => exact absurd rfl (hfirst rfl)
      | true => simp [groups, hdigit, htaken]

theorem basedDigits_of_apart (hbase : base ≤ 16) (hall : ∀ c ∈ digits, c = '_' ∨ digitValue c < base)
    (hapart : digits.IsChain Apart) (hlast : digits.getLast? ≠ some '_') (hends : EndsDigits base behind)
    (hline : behind.head? ≠ some '_') : basedDigits base (digits ++ behind) = (digits, behind) := by
  fun_induction basedDigits base digits with
  | case1 c cs hc taken rest heq ih =>
    have hlast := (getLast?_cons_ne_iff.1 (getLast?_cons_ne_iff.1 hlast).2).2
    have hmore := ih (fun d hd => hall d (by simp [hd])) hapart.tail.tail hlast
    simp [basedDigits, hc, hmore]
  | case2 c cs hc =>
    have hsecond : c = '_' := (hall c (by simp)).resolve_right fun h => hc ((isSome_digitIn? hbase).2 h)
    exact absurd hsecond ((List.isChain_cons_cons.1 hapart).1 rfl)
  | case3 c cs hpair hc taken rest heq ih =>
    have hmore := ih (fun d hd => hall d (by simp [hd])) hapart.tail (getLast?_cons_ne_iff.1 hlast).2
    have hne := ne_underscore_of_digitValue_lt ((isSome_digitIn? hbase).1 hc) hbase
    rw [List.cons_append, basedDigits]
    · simp [hc, hmore]
    · rintro _ _ rfl
      exact absurd rfl hne
  | case4 c cs hpair hc =>
    obtain rfl : c = '_' := (hall c (by simp)).resolve_right fun h => hc ((isSome_digitIn? hbase).2 h)
    cases cs with
    | nil => exact absurd rfl hlast
    | cons d cs => exact absurd rfl (hpair d cs rfl)
  | case5 =>
    cases behind with
    | nil => rfl
    | cons c behind =>
      have hc : ¬(Number.digitIn? base c).isSome := fun h =>
        absurd ((isSome_digitIn? hbase).1 h) (Nat.not_lt.2 (hends c rfl))
      rw [List.nil_append, basedDigits]
      · simp [hc]
      · rintro _ _ rfl
        exact absurd rfl hline

theorem AreDigits.ne_nil (h : AreDigits base digits) : digits ≠ [] := by
  rintro rfl
  exact h.nonempty rfl

theorem AreDigits.eq_or_lt (h : AreDigits base digits) : ∀ c ∈ digits, c = '_' ∨ digitValue c < base := by
  intro c hc
  by_cases hline : c = '_'
  · exact .inl hline
  · exact .inr (h.digits c (List.mem_filter.2 ⟨hc, by simpa using hline⟩))

/-- The letter of a literal is taken, and nothing of what follows it. -/
theorem suffix_ending {letters : List Char} (hletters : ∀ c ∈ letters, Word.isContinuing c)
    (hending : ending = [] ∨ ∃ c ∈ letters, ending = [c]) (hrest : endsWord rest) :
    suffix letters (ending ++ rest) = (ending, rest) := by
  rcases hending with rfl | ⟨c, hc, rfl⟩
  · cases rest with
    | nil => rfl
    | cons c rest =>
      have hc : c ∉ letters := fun hmem => by simp [endsWord, hletters c hmem] at hrest
      simp [suffix, hc]
  · simp [suffix, hc]

/-- Where no point and no exponent follows its digits, a number is whole. -/
theorem decimal_of_groups {before : List Char} (h : groups false cs = (before, behind)) (hpoint : behind.head? ≠ some '.')
    (hexponent : exponent? behind = none) (hending : suffix (longSuffix ++ imaginarySuffix) behind = (ending, rest)) :
    decimal cs = (wholeExpr 10 (before ++ ending) before ending, rest) := by
  unfold decimal
  rw [h]
  dsimp only
  split
  · exact absurd rfl hpoint
  · simp [hexponent, hending]

/-- Digits are all of a decimal number where a letter or the end of the word follows them. -/
theorem decimal_of_areDigits (hdigits : AreDigits 10 digits) (hfirst : digits.head? ≠ some '_')
    (hending : ending ∈ [[], ['L'], ['l'], ['j'], ['J']]) (hrest : endsWord rest) (hpoint : rest.head? ≠ some '.') :
    decimal (digits ++ (ending ++ rest)) = (integerExpr (digits ++ ending) 10 digits ending, rest) := by
  obtain ⟨hends, hline⟩ : EndsDigits 10 (ending ++ rest) ∧ _ := endsDigits_ending (by decide) hending hrest
  have hletters : ∀ c ∈ longSuffix ++ imaginarySuffix, Word.isContinuing c := List.all_iff_forall_prop.1 (by decide)
  have hother : ∀ c ∈ longSuffix ++ imaginarySuffix, c ≠ '.' ∧ ¬(c = 'e' ∨ c = 'E') :=
    List.all_iff_forall_prop.1 (by decide)
  have hletter : ending = [] ∨ ∃ c ∈ longSuffix ++ imaginarySuffix, ending = [c] := by
    simpa [longSuffix, imaginarySuffix] using hending
  have hbehind : (ending ++ rest).head? ≠ some '.' ∧ exponent? (ending ++ rest) = none := by
    rcases hletter with rfl | ⟨c, hc, rfl⟩
    · exact ⟨hpoint, exponent?_of_endsWord hrest⟩
    · obtain ⟨hne, hmark⟩ : c ≠ '.' ∧ ¬(c = 'e' ∨ c = 'E') := hother c hc
      exact ⟨by simpa using hne, by simp [exponent?, hmark]⟩
  rw [← wholeExpr_eq (by decide) hdigits]
  exact decimal_of_groups (groups_of_apart hdigits.eq_or_lt hdigits.apart (fun _ => hfirst) hends hline) hbehind.1 hbehind.2
    (suffix_ending hletters hletter hrest)

/-- A number that starts with a digit is decimal, unless that is a zero and a letter of a base stands behind it. -/
theorem read?_eq_decimal {c : Char} (hc : Number.isDigit c) (h : ∀ letter ∈ cs.head?, base? letter = none) :
    read? (c :: cs) = some (decimal (c :: cs)) := by
  unfold read?
  split
  · next letter more heq =>
    obtain ⟨rfl, rfl⟩ := List.cons.inj heq
    simp [h letter rfl]
  · next heq =>
    cases heq
    exact absurd hc (by decide)
  · next heq =>
    cases heq
    simp [hc]
  · next heq => cases heq

/-- The literal of a whole number starts with a digit. -/
theorem IsInteger.opens (h : IsInteger text base digits ending) :
    ∃ c cs, text = c :: cs ∧ Number.isDigit c := by
  cases h with
  | @decimal digits ending hdigits hfirst _ =>
    obtain ⟨c, ds, rfl⟩ : ∃ c ds, digits = c :: ds := List.exists_cons_of_ne_nil hdigits.ne_nil
    have hc := (hdigits.eq_or_lt c List.mem_cons_self).resolve_left (by simpa using hfirst)
    exact ⟨c, ds ++ ending, rfl, isDigit_of_digitValue_lt hc⟩
  | based => exact ⟨'0', _, rfl, by decide⟩

theorem base?_eq_some {letter : Char} (h : (letter, base) ∈ bases) : base? letter = some base := by
  have hall : ∀ b ∈ bases, base? b.1 = some b.2 := by decide
  exact hall _ h

/-- Behind the first digit of a decimal number stands no letter of a base. -/
theorem base?_of_areDigits (hdigits : ∀ c ∈ digits, c = '_' ∨ digitValue c < 10)
    (hending : ending ∈ [[], ['L'], ['l'], ['j'], ['J']]) (hrest : endsWord rest) :
    ∀ letter ∈ (digits ++ (ending ++ rest)).head?, base? letter = none := by
  intro letter hletter
  cases digits with
  | nil =>
    simp only [List.mem_cons, List.not_mem_nil, or_false] at hending
    rcases hending with rfl | rfl | rfl | rfl | rfl
    · obtain ⟨_, rfl⟩ := List.head?_eq_some_iff.1 hletter
      exact base?_of_endsWord hrest
    all_goals
      cases hletter
      rfl
  | cons d ds =>
    cases hletter
    rcases hdigits letter List.mem_cons_self with rfl | hd
    · rfl
    · exact base?_of_isDigit (isDigit_of_digitValue_lt hd)

/-- **A literal is read whole** where no word and no point goes on behind it. -/
theorem read?_of_isInteger (h : IsInteger text base digits ending) (hrest : endsWord rest) (hpoint : rest.head? ≠ some '.') :
    read? (text ++ rest) = some (integerExpr text base digits ending, rest) := by
  cases h with
  | @decimal digits ending hdigits hfirst hending =>
    obtain ⟨c, ds, rfl⟩ : ∃ c ds, digits = c :: ds := List.exists_cons_of_ne_nil hdigits.ne_nil
    obtain ⟨hc, hds⟩ := List.forall_mem_cons.1 hdigits.eq_or_lt
    have hdigit : Number.isDigit c := isDigit_of_digitValue_lt (hc.resolve_left (by simpa using hfirst))
    rw [List.append_assoc, List.cons_append, read?_eq_decimal hdigit (base?_of_areDigits hds hending hrest)]
    exact congrArg some (decimal_of_areDigits hdigits hfirst hending hrest hpoint)
  | @based letter base digits ending hbase hdigits hlast hending =>
    have hle := le_of_mem_bases hbase
    obtain ⟨hends, hline⟩ := endsDigits_ending hle (List.mem_append_left [['j'], ['J']] hending) hrest
    have hletter : ending = [] ∨ ∃ c ∈ longSuffix, ending = [c] := by simpa [longSuffix] using hending
    have hread := basedDigits_of_apart hle hdigits.eq_or_lt hdigits.apart hlast hends hline
    have hsuffix := suffix_ending (List.all_iff_forall_prop.1 (by decide)) hletter hrest
    obtain ⟨d, ds, rfl⟩ : ∃ d ds, digits = d :: ds := List.exists_cons_of_ne_nil hdigits.ne_nil
    have htext : '0' :: letter :: (d :: ds ++ ending) ++ rest = '0' :: letter :: (d :: ds ++ (ending ++ rest)) := by simp
    rw [htext, read?]
    simp only [base?_eq_some hbase, Option.map_some, hread, hsuffix, wholeExpr_eq hle hdigits]
    rfl

end

end PluginTools.Numeral
