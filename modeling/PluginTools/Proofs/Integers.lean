/-
A whole number reads back: its decimal digits are read, up to where no word or number goes on, as an `int`
constant of its value while that fits.
-/
import PluginTools.Proofs.Tokens
import PluginTools.Source.Numeral

namespace PluginTools

namespace Number

theorem isDigit_of_mem_toDigits {c : Char} {n : Nat} (h : c ∈ Nat.toDigits 10 n) : isDigit c := by
  have hc := Nat.isDigit_of_mem_toDigits (by decide) (by decide) h
  simpa [isDigit, Char.isDigit, Char.le_def] using hc

theorem digitIn?_of_isDigit {c : Char} (h : isDigit c) : digitIn? 10 c = some (c.toNat - 48) := by
  simp only [isDigit, Bool.and_eq_true, decide_eq_true_eq] at h
  have hlt : c.toNat - 48 < 10 := by
    have hle : c.toNat ≤ '9'.toNat := h.2
    simp only [Char.reduceToNat] at hle
    omega
  simp [digitIn?, digitValue?, h, hlt]

theorem digits?_of_isDigit {cs : List Char} (h : ∀ c ∈ cs, isDigit c) (value : Nat) :
    digits? 10 value cs = some (Nat.ofDigitChars 10 cs value) := by
  induction cs generalizing value with
  | nil => simp [digits?]
  | cons c cs ih =>
    obtain ⟨hc, hcs⟩ := List.forall_mem_cons.1 h
    simp [digits?, digitIn?_of_isDigit hc, ih hcs, Nat.ofDigitChars_cons, Nat.mul_comm]

theorem whole?_toDigits (n : Nat) : whole? 10 (Nat.toDigits 10 n) = some n := by
  simp [whole?, digits?_of_isDigit fun _ => isDigit_of_mem_toDigits]

theorem ofNat_of_isDigit {c : Char} (h : isDigit c) : ∃ n < 58, c = Char.ofNat n := by
  simp only [isDigit, Bool.and_eq_true, decide_eq_true_eq] at h
  have hle : c.toNat ≤ '9'.toNat := h.2
  simp only [Char.reduceToNat] at hle
  exact ⟨c.toNat, by omega, (Char.ofNat_toNat c).symm⟩

theorem isContinuing_of_isDigit {c : Char} (h : isDigit c) : Word.isContinuing c := by
  have hall : ∀ n < 58, isDigit (Char.ofNat n) → Word.isContinuing (Char.ofNat n) := by decide
  obtain ⟨n, hn, rfl⟩ := ofNat_of_isDigit h
  exact hall n hn h

theorem not_isOpening_of_isDigit {c : Char} (h : isDigit c) : Word.isOpening c = false := by
  have hall : ∀ n < 58, isDigit (Char.ofNat n) → Word.isOpening (Char.ofNat n) = false := by decide
  obtain ⟨n, hn, rfl⟩ := ofNat_of_isDigit h
  exact hall n hn h

end Number

namespace Numeral

open Layout (endsWord)

variable {ds rest : List Char}

theorem groups_digits (hds : ∀ c ∈ ds, Number.isDigit c) (hrest : endsWord rest) (afterDigit : Bool) :
    groups afterDigit (ds ++ rest) = (ds, rest) := by
  induction ds generalizing afterDigit with
  | nil =>
    cases rest with
    | nil => rfl
    | cons c rest =>
      simp only [endsWord, Bool.and_eq_true, Bool.not_eq_true'] at hrest
      have hdigit : Number.isDigit c = false := by
        by_contra h
        simp [Number.isContinuing_of_isDigit (by simpa using h)] at hrest
      have hline : c ≠ '_' := by
        rintro rfl
        exact absurd hrest.1 (by decide)
      simp [groups, hdigit, hline]
  | cons c ds ih =>
    obtain ⟨hc, hds⟩ := List.forall_mem_cons.1 hds
    simp [groups, hc, ih hds]

theorem exponent?_of_endsWord (h : endsWord rest) : exponent? rest = none := by
  cases rest with
  | nil => rfl
  | cons c rest =>
    have hc : ¬(c = 'e' ∨ c = 'E') := by
      rintro (rfl | rfl) <;> exact absurd h (by simp [endsWord, Word.isContinuing, Word.isAsciiLetter])
    simp [exponent?, hc]

theorem suffix_of_endsWord {letters : List Char} (hletters : letters.all Word.isContinuing) (h : endsWord rest) :
    suffix letters rest = ([], rest) := by
  cases rest with
  | nil => rfl
  | cons c rest =>
    have hc : c ∉ letters := by
      intro hmem
      simp [endsWord, List.all_eq_true.1 hletters c hmem] at h
    simp [suffix, hc]

theorem decimal_digits (hds : ∀ c ∈ ds, Number.isDigit c) (hrest : endsWord rest) (hpoint : rest.head? ≠ some '.') :
    decimal (ds ++ rest) = (wholeExpr 10 ds ds [], rest) := by
  have hwhole : decimal (ds ++ rest) = (if (exponent? rest).isSome then finishFloat ds rest
      else (wholeExpr 10 (ds ++ (suffix (longSuffix ++ imaginarySuffix) rest).1) ds
          (suffix (longSuffix ++ imaginarySuffix) rest).1,
        (suffix (longSuffix ++ imaginarySuffix) rest).2)) := by
    unfold decimal
    rw [groups_digits hds hrest]
    cases rest with
    | nil => rfl
    | cons c rest =>
      have hc : c ≠ '.' := fun he => hpoint (by simp [he])
      dsimp only
      split
      · next h => exact absurd (List.cons.inj h).1 hc
      · rfl
  rw [hwhole, exponent?_of_endsWord hrest, suffix_of_endsWord (by decide) hrest]
  simp

theorem base?_of_isDigit {c : Char} (h : Number.isDigit c) : base? c = none := by
  unfold base?
  split <;> first | rfl | exact absurd h (by decide)

theorem base?_of_endsWord {c : Char} (h : endsWord (c :: rest)) : base? c = none := by
  unfold base?
  split <;> first | rfl | exact absurd h (by simp [endsWord, Word.isContinuing, Word.isAsciiLetter])

/-- Digits are a decimal number also where the first one is a zero, since no letter follows it. -/
theorem read?_digits (hne : ds ≠ []) (hds : ∀ c ∈ ds, Number.isDigit c) (hrest : endsWord rest) :
    read? (ds ++ rest) = some (decimal (ds ++ rest)) := by
  obtain ⟨c, ds, rfl⟩ := List.exists_cons_of_ne_nil hne
  obtain ⟨hc, hds⟩ := List.forall_mem_cons.1 hds
  have hbase : ∀ letter more, ds ++ rest = letter :: more → base? letter = none := by
    intro letter more h
    cases ds with
    | nil =>
      simp only [List.nil_append] at h
      exact base?_of_endsWord (h ▸ hrest)
    | cons d ds =>
      simp only [List.cons_append, List.cons.injEq] at h
      exact base?_of_isDigit (h.1 ▸ (List.forall_mem_cons.1 hds).1)
  rw [List.cons_append]
  generalize ds ++ rest = t at hbase
  have hpoint : c ≠ '.' := by
    rintro rfl
    exact absurd hc (by decide)
  unfold read?
  split
  · next letter more h =>
    obtain ⟨rfl, rfl⟩ := List.cons.inj h
    simp [hbase letter more rfl]
  · next h => exact absurd (List.cons.inj h).1 hpoint
  · next h =>
    obtain ⟨rfl, rfl⟩ := List.cons.inj h
    simp [hc]
  · next h => simp at h

theorem maxInt_eq : maxInt = 9223372036854775807 := rfl

theorem withoutUnderscores_eq (h : '_' ∉ ds) : withoutUnderscores ds = ds := by
  refine List.filter_eq_self.2 fun c hc => ?_
  have hne : c ≠ '_' := fun he => h (he ▸ hc)
  simpa using hne

theorem withoutUnderscores_of_isDigit (hds : ∀ c ∈ ds, Number.isDigit c) : withoutUnderscores ds = ds :=
  withoutUnderscores_eq fun hmem => absurd (hds _ hmem) (by decide)

/-- **A whole number reads back** while it fits, and is kept with its text otherwise. -/
theorem read?_toDigits (n : Nat) (hrest : endsWord rest) (hpoint : rest.head? ≠ some '.') :
    read? (Nat.toDigits 10 n ++ rest) = some (if n ≤ maxInt then .literal (.int n)
      else .verbatim "integer" (String.ofList (Nat.toDigits 10 n)), rest) := by
  have hdigits : ∀ c ∈ Nat.toDigits 10 n, Number.isDigit c := fun _ => Number.isDigit_of_mem_toDigits
  rw [read?_digits Nat.toDigits_ne_nil hdigits hrest, decimal_digits hdigits hrest hpoint]
  by_cases hn : n ≤ maxInt <;>
    simp [wholeExpr, int?, withoutUnderscores_of_isDigit hdigits, Number.whole?_toDigits, hn]

theorem read?_of_not_isDigit {c : Char} (h : Number.isDigit c = false) (hpoint : c ≠ '.') (cs : List Char) :
    read? (c :: cs) = none := by
  unfold read?
  split
  · next h' =>
    obtain ⟨rfl, -⟩ := List.cons.inj h'
    exact absurd h (by decide)
  · next h' => exact absurd (List.cons.inj h').1 hpoint
  · next h' =>
    obtain ⟨rfl, -⟩ := List.cons.inj h'
    simp [h]
  · rfl

/-- A word is no number. -/
theorem read?_of_isOpening {c : Char} (h : Word.isOpening c) (cs : List Char) : read? (c :: cs) = none := by
  refine read?_of_not_isDigit ?_ ?_ cs
  · by_contra hdigit
    simp [Number.not_isOpening_of_isDigit (by simpa using hdigit)] at h
  · rintro rfl
    exact absurd h (by decide)

end Numeral
end PluginTools
