/-
The escapes in the body of a literal. `reference` is the rule: from left to right, a backslash with a well-formed
escape behind it means what the escape stands for, and every other backslash is itself. `decode` keeps to it, but for
an escape by code that is not well-formed: it takes a plus sign for a digit, and it reads no escape that starts among
the digits it expects. `decode_keeps_or_departs` says so of every body.
-/
import Mathlib
import PluginTools.Text.Quoted

namespace PluginTools.Quoted

/-! ## The rule -/

/-- The letters that stand for a character behind a backslash. -/
def letters : List (Char × Char) :=
  [('\\', '\\'), ('\x27', '\x27'), ('\x22', '\x22'), ('n', '\n'), ('t', '\t'), ('r', '\r'), ('a', '\x07'),
    ('b', '\x08'), ('f', '\x0c'), ('v', '\x0b')]

/-- The letters behind which the code of a character stands, and the number of its hexadecimal digits. -/
def codes : List (Char × Nat) := [('x', 2), ('u', 4), ('U', 8)]

/-- The value of a digit of a base of up to sixteen, in either case. -/
def valueIn? (base : Nat) (c : Char) : Option Nat := (List.range base).find? fun v => Nat.digitChar v = c.toLower

/-- The character whose code the digits are, if they are digits and some character has that code. -/
def coded? (base : Nat) (digits : List Char) : Option Char :=
  (digits.foldlM (fun n c => (valueIn? base c).map (n * base + ·)) 0).bind fun n =>
    if n.isValidChar then some (Char.ofNat n) else none

/-- The octal digits at the head of a text, three at most. -/
def octal (cs : List Char) : List Char := (cs.take 3).takeWhile fun c => (valueIn? 8 c).isSome

/-- The well-formed escape behind a backslash, if there is one: what it stands for, and its length. -/
def escape? : List Char → Option (List Char × Nat)
  | [] => none
  | c :: cs =>
    if c = '\n' then some ([], 1)
    else match letters.lookup c with
      | some d => some ([d], 1)
      | none => match codes.lookup c with
        | some width =>
          if (cs.take width).length = width then (coded? 16 (cs.take width)).map fun d => ([d], 1 + width) else none
        | none =>
          if octal (c :: cs) = [] then none
          else (coded? 8 (octal (c :: cs))).map fun d => ([d], (octal (c :: cs)).length)

/-- The text that a body stands for by the rule. -/
def reference : List Char → List Char
  | [] => []
  | c :: cs =>
    if c = '\\' then
      match escape? cs with
      | some (meaning, length) => meaning ++ reference (cs.drop length)
      | none => '\\' :: reference cs
    else c :: reference cs
termination_by body => body.length
decreasing_by all_goals simp; try omega

section

variable {c : Char} {cs meaning : List Char} {length : Nat}

theorem escape?_cons (c : Char) (cs : List Char) : escape? (c :: cs) =
    if c = '\n' then some ([], 1)
    else match letters.lookup c with
      | some d => some ([d], 1)
      | none => match codes.lookup c with
        | some width =>
          if (cs.take width).length = width then (coded? 16 (cs.take width)).map fun d => ([d], 1 + width) else none
        | none =>
          if octal (c :: cs) = [] then none
          else (coded? 8 (octal (c :: cs))).map fun d => ([d], (octal (c :: cs)).length) := rfl

theorem reference_nil : reference [] = [] := by rw [reference]

theorem reference_eq (c : Char) (cs : List Char) : reference (c :: cs) = if c = '\\' then
      match escape? cs with
      | some (meaning, length) => meaning ++ reference (cs.drop length)
      | none => '\\' :: reference cs
    else c :: reference cs := by rw [reference]

theorem reference_cons (h : c ≠ '\\') : reference (c :: cs) = c :: reference cs := by
  rw [reference_eq, if_neg h]

theorem reference_escape (h : escape? cs = some (meaning, length)) :
    reference ('\\' :: cs) = meaning ++ reference (cs.drop length) := by
  rw [reference_eq, if_pos rfl, h]

theorem reference_lone (h : escape? cs = none) : reference ('\\' :: cs) = '\\' :: reference cs := by
  rw [reference_eq, if_pos rfl, h]

end

/-- Where no escape starts, a text stands for itself. -/
theorem reference_append {front rest : List Char}
    (h : ∀ before behind, front = before ++ '\\' :: behind → escape? (behind ++ rest) = none) :
    reference (front ++ rest) = front ++ reference rest := by
  induction front with
  | nil => rfl
  | cons c front ih =>
    have ih := ih fun before behind hfront => h (c :: before) behind (by rw [hfront, List.cons_append])
    rw [List.cons_append, List.cons_append, ← ih]
    by_cases hc : c = '\\'
    · subst hc
      exact reference_lone (h [] front rfl)
    · exact reference_cons hc

/-! ## Tables and digits -/

theorem lookup_letters (c : Char) : letters.lookup c = simpleEscape? c := by
  unfold simpleEscape?
  split
  all_goals try rfl
  simp_all [letters, List.lookup, beq_eq_false_iff_ne.2]

theorem lookup_codes (c : Char) : codes.lookup c = codeWidth? c := by
  unfold codeWidth?
  split
  all_goals try rfl
  simp_all [codes, List.lookup, beq_eq_false_iff_ne.2]

/-- Beyond ASCII there are no digits. -/
theorem valueIn?_eq_none {base : Nat} (hbase : base ≤ 16) {c : Char} (hc : 128 ≤ c.toNat) : valueIn? base c = none := by
  have hall : ∀ v < 16, (Nat.digitChar v).toNat < 128 := by decide
  refine List.find?_eq_none.2 fun v hv => ?_
  rw [Number.toLower_of_le hc, decide_eq_true_eq]
  rintro rfl
  have := hall v (Nat.lt_of_lt_of_le (List.mem_range.1 hv) hbase)
  omega

theorem digitIn?_eq {base : Nat} (hbase : base = 8 ∨ base = 16) (c : Char) :
    Number.digitIn? base c = valueIn? base c := by
  by_cases hc : 128 ≤ c.toNat
  · rw [valueIn?_eq_none (by omega) hc, Number.digitIn?, Number.digitValue?_of_le hc]
    rfl
  · have hall : ∀ n < 128, Number.digitIn? 8 (Char.ofNat n) = valueIn? 8 (Char.ofNat n) ∧
        Number.digitIn? 16 (Char.ofNat n) = valueIn? 16 (Char.ofNat n) := by decide
    have hboth := hall c.toNat (Nat.not_le.1 hc)
    rw [Char.ofNat_toNat] at hboth
    rcases hbase with rfl | rfl
    · exact hboth.1
    · exact hboth.2

theorem isOctal_eq (c : Char) : isOctal c = (valueIn? 8 c).isSome := by
  have hle (a b : Char) : a ≤ b ↔ a.toNat ≤ b.toNat := .rfl
  have h0 : '0'.toNat = 48 := rfl
  have h7 : '7'.toNat = 55 := rfl
  have h9 : '9'.toNat = 57 := rfl
  have ha : 'a'.toNat = 97 := rfl
  have hA : 'A'.toNat = 65 := rfl
  rw [← digitIn?_eq (.inl rfl), Bool.eq_iff_iff, Option.isSome_iff_exists]
  simp only [isOctal, Number.digitIn?, Number.digitValue?, hle, Bool.and_eq_true, decide_eq_true_eq,
    Option.filter_eq_some_iff]
  split_ifs <;> simp <;> omega

theorem digits?_eq {base : Nat} (hbase : base = 8 ∨ base = 16) (digits : List Char) (n : Nat) :
    Number.digits? base n digits = digits.foldlM (fun n c => (valueIn? base c).map (n * base + ·)) n := by
  induction digits generalizing n with
  | nil => rfl
  | cons c digits ih =>
    rw [Number.digits?, digitIn?_eq hbase, List.foldlM_cons]
    cases valueIn? base c with
    | none => rfl
    | some v => exact ih (n * base + v)

theorem scalar?_eq (n : Nat) : scalar? n = if n.isValidChar then some (Char.ofNat n) else none := by
  unfold scalar? Char.ofNat
  split <;> rfl

theorem coded?_eq {base : Nat} (hbase : base = 8 ∨ base = 16) (digits : List Char) :
    (Number.digits? base 0 digits).bind scalar? = coded? base digits := by
  rw [coded?, digits?_eq hbase]
  exact congrArg _ (funext scalar?_eq)

/-! ## Octal escapes -/

theorem octal_cons {c : Char} (cs : List Char) (h : isOctal c) : octal (c :: cs) = c :: octalTail cs := by
  have hc : (valueIn? 8 c).isSome := by rw [← isOctal_eq, h]
  have hoctal : octal (c :: cs) = c :: (cs.take 2).takeWhile fun d => isOctal d := by
    simp [octal, hc, isOctal_eq]
  rw [hoctal]
  rcases cs with _ | ⟨a, _ | ⟨b, cs⟩⟩
  · rfl
  · simp only [octalTail, List.take, List.takeWhile]
    split <;> simp_all
  · simp only [octalTail, List.take, List.takeWhile]
    split <;> split <;> simp_all

theorem octal_eq_nil {c : Char} (cs : List Char) (h : isOctal c = false) : octal (c :: cs) = [] := by
  have hc : valueIn? 8 c = none := by simpa [isOctal_eq] using h
  simp [octal, hc]

/-- Digits have a value, which their number bounds. -/
theorem exists_value {base : Nat} {digits : List Char} (h : ∀ c ∈ digits, (valueIn? base c).isSome) (n : Nat) :
    ∃ m, digits.foldlM (fun n c => (valueIn? base c).map (n * base + ·)) n = some m ∧
      m < (n + 1) * base ^ digits.length := by
  induction digits generalizing n with
  | nil => exact ⟨n, rfl, by simp⟩
  | cons c digits ih =>
    obtain ⟨hc, hdigits⟩ := List.forall_mem_cons.1 h
    obtain ⟨v, hv⟩ := Option.isSome_iff_exists.1 hc
    have hlt : v < base := List.mem_range.1 (List.mem_of_find?_eq_some hv)
    obtain ⟨m, hm, hbound⟩ := ih hdigits (n * base + v)
    refine ⟨m, by rw [List.foldlM_cons, hv]; exact hm, ?_⟩
    calc m < (n * base + v + 1) * base ^ digits.length := hbound
      _ ≤ (n + 1) * base * base ^ digits.length := Nat.mul_le_mul_right _ (by rw [Nat.add_one_mul]; omega)
      _ = (n + 1) * base ^ (c :: digits).length := by rw [List.length_cons, Nat.pow_succ', Nat.mul_assoc]

/-- Three octal digits, or fewer, are the code of a character. -/
theorem exists_coded?_octal (cs : List Char) : ∃ d, coded? 8 (octal cs) = some d := by
  have hdigits : ∀ c ∈ octal cs, (valueIn? 8 c).isSome := fun c hc => List.all_eq_true.1 List.all_takeWhile c hc
  obtain ⟨m, hm, hbound⟩ := exists_value hdigits 0
  have hlength : (octal cs).length ≤ 3 :=
    Nat.le_trans (List.takeWhile_sublist _).length_le (List.length_take_le 3 cs)
  have hpow : 8 ^ (octal cs).length ≤ 8 ^ 3 := Nat.pow_le_pow_right (by decide) hlength
  have hvalid : m.isValidChar := .inl (by omega)
  exact ⟨Char.ofNat m, by rw [coded?, hm, Option.bind_some, if_pos hvalid]⟩

/-! ## Decoding -/

section

variable {c letter : Char} {cs rest meaning : List Char} {length width : Nat}

theorem decodeFrom_eq (n : Nat) (cs : List Char) : decodeFrom n cs = decode (cs.drop n) := by
  induction n generalizing cs with
  | zero => rfl
  | succ n ih =>
    cases cs with
    | nil => rfl
    | cons c cs => exact ih cs

/-- What a backslash and the character behind it stand for. -/
theorem decode_slash (c : Char) (cs : List Char) : decode ('\\' :: c :: cs) =
    if c = '\n' then decodeFrom 1 (c :: cs)
    else match simpleEscape? c with
      | some d => d :: decodeFrom 1 (c :: cs)
      | none => match codeWidth? c with
        | some width => codeEscape c width (cs.take width) ++ decodeFrom (1 + width) (c :: cs)
        | none =>
          if isOctal c then
            ((Number.digits? 8 0 (c :: octalTail cs)).bind scalar?).toList ++ decodeFrom (1 + (octalTail cs).length) (c :: cs)
          else '\\' :: c :: decodeFrom 1 (c :: cs) := rfl

theorem decode_cons (h : c ≠ '\\') : decode (c :: cs) = c :: decode cs := by
  cases cs <;> simp [decode, decodeFrom, h]

theorem decode_line (cs : List Char) : decode ('\\' :: '\n' :: cs) = decode cs := decodeFrom_eq 1 ('\n' :: cs)

theorem decode_letter {d : Char} (h : letters.lookup letter = some d) :
    decode ('\\' :: letter :: rest) = d :: decode rest := by
  rw [lookup_letters] at h
  have hline : letter ≠ '\n' := by
    rintro rfl
    cases h
  rw [decode_slash, if_neg hline, h]
  rfl

theorem simpleEscape?_of_code (h : codes.lookup letter = some width) : letter ≠ '\n' ∧ simpleEscape? letter = none := by
  rw [lookup_codes] at h
  unfold codeWidth? at h
  split at h <;> simp_all [simpleEscape?]

/-- An escape by code takes up the characters where its digits should be. -/
theorem decode_code (h : codes.lookup letter = some width) :
    decode ('\\' :: letter :: rest) = codeEscape letter width (rest.take width) ++ decode (rest.drop width) := by
  obtain ⟨hline, hsimple⟩ := simpleEscape?_of_code h
  rw [lookup_codes] at h
  rw [decode_slash, if_neg hline, hsimple]
  simp only [h]
  rw [decodeFrom_eq, Nat.add_comm 1]
  rfl

section

variable (hline : c ≠ '\n') (hletter : letters.lookup c = none) (hcode : codes.lookup c = none)

include hline hletter hcode

theorem escape?_octal (cs : List Char) (h : isOctal c) :
    ∃ d, coded? 8 (octal (c :: cs)) = some d ∧ escape? (c :: cs) = some ([d], (octal (c :: cs)).length) := by
  obtain ⟨d, hd⟩ := exists_coded?_octal (c :: cs)
  refine ⟨d, hd, ?_⟩
  simp only [escape?_cons, hline, hletter, hcode, if_false, hd]
  rw [octal_cons cs h]
  rfl

theorem escape?_other (h : isOctal c = false) : escape? (c :: cs) = none := by
  simp [escape?_cons, hline, hletter, hcode, octal_eq_nil cs h]

/-- Behind any other character a backslash is left alone, unless it is an octal digit. -/
theorem decode_other : decode ('\\' :: c :: cs) = if isOctal c then
      (coded? 8 (octal (c :: cs))).toList ++ decode ((c :: cs).drop (octal (c :: cs)).length)
      else '\\' :: c :: decode cs := by
  rw [lookup_letters] at hletter
  rw [lookup_codes] at hcode
  have hfrom (n : Nat) : decodeFrom (1 + n) (c :: cs) = decode (cs.drop n) := by rw [decodeFrom_eq, Nat.add_comm]; rfl
  rw [decode_slash]
  simp only [hline, hletter, hcode, if_false]
  split
  · next h => rw [octal_cons cs h, coded?_eq (.inl rfl), hfrom]; rfl
  · rw [decodeFrom_eq]; rfl

end

/-! ## Escapes by code -/

theorem escape?_code (h : codes.lookup letter = some width) : escape? (letter :: rest) =
    if (rest.take width).length = width then (coded? 16 (rest.take width)).map fun d => ([d], 1 + width) else none := by
  obtain ⟨hline, hsimple⟩ := simpleEscape?_of_code h
  rw [escape?_cons, if_neg hline, lookup_letters, hsimple]
  simp only [h]

theorem coded?_plus (digits : List Char) : coded? 16 ('+' :: digits) = none := rfl

theorem codeValue?_plus (digits : List Char) (hne : digits ≠ []) :
    (codeValue? ('+' :: digits)).bind scalar? = coded? 16 digits := by
  simp [codeValue?, Number.whole?, hne, coded?_eq (.inr rfl)]

theorem codeValue?_digits {digits : List Char} (hne : digits ≠ []) (hplus : digits.head? ≠ some '+') :
    (codeValue? digits).bind scalar? = coded? 16 digits := by
  have hvalue : codeValue? digits = Number.whole? 16 digits := by
    unfold codeValue?
    split
    · simp at hplus
    · rfl
  simp [hvalue, Number.whole?, hne, coded?_eq (.inr rfl)]

/-- An escape by code is well-formed and decoded by the rule, or its digits have a plus sign before them, or it is left
as it is together with what stands where its digits should be. -/
theorem codeEscape_cases (rest : List Char) (h : codes.lookup letter = some width) :
    (∃ d, escape? (letter :: rest) = some ([d], 1 + width) ∧ codeEscape letter width (rest.take width) = [d]) ∨
      escape? (letter :: rest) = none ∧
        ((∃ d digits, rest.take width = '+' :: digits ∧ digits.length + 1 = width ∧ coded? 16 digits = some d ∧
            codeEscape letter width (rest.take width) = [d]) ∨
          codeEscape letter width (rest.take width) = '\\' :: letter :: rest.take width) := by
  have hwidth : 2 ≤ width := by
    rw [lookup_codes] at h
    unfold codeWidth? at h
    split at h <;> simp_all <;> omega
  rw [escape?_code h]
  generalize rest.take width = digits
  by_cases hfull : digits.length = width
  · have hne : digits ≠ [] := by
      rintro rfl
      simp at hfull
      omega
    by_cases hplus : digits.head? = some '+'
    · obtain ⟨more, rfl⟩ : ∃ more, digits = '+' :: more := by
        cases digits <;> simp_all
      have hmore : more ≠ [] := by
        rintro rfl
        simp at hfull
        omega
      rw [coded?_plus, codeEscape, codeValue?_plus more hmore]
      cases hd : coded? 16 more <;> simp_all
    · rw [codeEscape, codeValue?_digits hne hplus]
      cases hd : coded? 16 digits <;> simp_all
  · refine .inr ⟨if_neg hfull, .inr ?_⟩
    unfold codeEscape
    split
    · exact if_neg hfull
    · rfl

end

/-! ## Where decoding departs from the rule -/

/-- What is written for a backslash with the letter of a code, where no well-formed escape stands behind it and the
backslash is not just left alone. -/
inductive Mistaken (letter : Char) (width : Nat) (rest : List Char) : List Char → Prop
  /-- A plus sign counts as the first digit. -/
  | signed {digits : List Char} {d : Char} : rest.take width = '+' :: digits → digits.length + 1 = width →
    coded? 16 digits = some d → Mistaken letter width rest [d]
  /-- A well-formed escape starts where the digits should be, and it is not read. -/
  | swallowed {before behind : List Char} : rest = before ++ '\\' :: behind → before.length < width →
    (escape? behind).isSome → Mistaken letter width rest ('\\' :: letter :: rest.take width)

/-- The body has a place where decoding departs from the rule: up to it both give the same text, at it the rule has
two characters and goes on behind the letter, and decoding has the mistaken text and goes on behind the digits. -/
inductive Departs (body : List Char) : Prop
  | intro (out : List Char) {rest written : List Char} {letter : Char} {width : Nat} (place : ('\\' :: letter :: rest) <:+ body)
    (code : codes.lookup letter = some width) (malformed : escape? (letter :: rest) = none)
    (mistaken : Mistaken letter width rest written)
    (meant : reference body = out ++ '\\' :: letter :: reference rest)
    (decoded : decode body = out ++ (written ++ decode (rest.drop width))) : Departs body

/-- What is read alike on the way to a place does not matter. -/
theorem Departs.of_suffix {body behind front : List Char} (hsuffix : behind <:+ body)
    (hmeant : reference body = front ++ reference behind) (hdecoded : decode body = front ++ decode behind)
    (h : Departs behind) : Departs body := by
  obtain ⟨out, place, code, malformed, mistaken, meant, decoded⟩ := h
  refine .intro (front ++ out) (place.trans hsuffix) code malformed mistaken ?_ ?_
  · rw [hmeant, meant, List.append_assoc]
  · rw [hdecoded, decoded, List.append_assoc]

/-! ## Decoding and the rule -/

section

variable {c letter : Char} {cs rest meaning : List Char} {length width : Nat}

/-- A well-formed escape is decoded by the rule. -/
theorem decode_escape (h : escape? cs = some (meaning, length)) :
    decode ('\\' :: cs) = meaning ++ decode (cs.drop length) := by
  cases cs with
  | nil => cases h
  | cons c rest =>
    cases hcode : codes.lookup c with
    | some width =>
      rw [decode_code hcode]
      rcases codeEscape_cases rest hcode with ⟨d, hd, hwritten⟩ | ⟨hnone, -⟩
      · rw [hd] at h
        cases h
        rw [hwritten, Nat.add_comm 1]
        rfl
      · rw [hnone] at h
        cases h
    | none =>
      by_cases hline : c = '\n'
      · subst hline
        cases h
        exact decode_line rest
      · cases hletter : letters.lookup c with
        | some d =>
          simp only [escape?_cons, hline, hletter, if_false] at h
          cases h
          exact decode_letter hletter
        | none =>
          rw [decode_other hline hletter hcode]
          cases hoctal : isOctal c with
          | true =>
            obtain ⟨d, hd, hescape⟩ := escape?_octal hline hletter hcode rest hoctal
            rw [hescape] at h
            cases h
            rw [hd]
            rfl
          | false =>
            rw [escape?_other hline hletter hcode hoctal] at h
            cases h

/-- A backslash that starts no escape is left alone, unless the letter of a code is behind it. -/
theorem decode_lone (h : escape? cs = none) (hcode : ∀ c rest, cs = c :: rest → codes.lookup c = none) :
    decode ('\\' :: cs) = '\\' :: decode cs := by
  cases cs with
  | nil => rfl
  | cons c rest =>
    have hcode := hcode c rest rfl
    have hline : c ≠ '\n' := by
      rintro rfl
      cases h
    have hletter : letters.lookup c = none := by
      cases hletter : letters.lookup c with
      | none => rfl
      | some d => simp [escape?_cons, hline, hletter] at h
    have hslash : c ≠ '\\' := by
      rintro rfl
      cases hletter
    rw [decode_other hline hletter hcode, decode_cons hslash]
    cases hoctal : isOctal c with
    | false => rfl
    | true =>
      obtain ⟨d, -, hescape⟩ := escape?_octal hline hletter hcode rest hoctal
      rw [hescape] at h
      cases h

/-- An escape by code that is not well-formed is left as it is, or decoding departs from the rule there. -/
theorem decode_malformed (hcode : codes.lookup letter = some width) (h : escape? (letter :: rest) = none) :
    Departs ('\\' :: letter :: rest) ∨ ∃ front, front ++ rest.drop width = '\\' :: letter :: rest ∧
      decode ('\\' :: letter :: rest) = front ++ decode (rest.drop width) ∧
      reference ('\\' :: letter :: rest) = front ++ reference (rest.drop width) := by
  have hslash : letter ≠ '\\' := by
    rintro rfl
    cases hcode
  have hmeant : reference ('\\' :: letter :: rest) = '\\' :: letter :: reference rest := by
    rw [reference_lone h, reference_cons hslash]
  rcases codeEscape_cases rest hcode with ⟨d, hd, -⟩ | ⟨-, ⟨d, digits, hplus, hwidth, hd, hwritten⟩ | hwritten⟩
  · rw [hd] at h
    cases h
  · refine .inl (.intro [] (List.suffix_refl _) hcode h (.signed hplus hwidth hd) hmeant ?_)
    rw [decode_code hcode, hwritten]
    rfl
  · by_cases hnone : ∀ before behind, rest.take width = before ++ '\\' :: behind →
        escape? (behind ++ rest.drop width) = none
    · refine .inr ⟨'\\' :: letter :: rest.take width, ?_, ?_, ?_⟩
      · rw [List.cons_append, List.cons_append, List.take_append_drop]
      · rw [decode_code hcode, hwritten]
      · have happend := reference_append hnone
        rw [List.take_append_drop] at happend
        rw [hmeant, happend]
        rfl
    · simp only [Classical.not_forall] at hnone
      obtain ⟨before, behind, htake, hescape⟩ := hnone
      have hrest : rest = before ++ '\\' :: (behind ++ rest.drop width) := by
        rw [← List.cons_append, ← List.append_assoc, ← htake, List.take_append_drop]
      have hlt : before.length < width := by
        have hlength := congrArg List.length htake
        simp only [List.length_append, List.length_cons, List.length_take] at hlength
        omega
      refine .inl (.intro [] (List.suffix_refl _) hcode h
        (.swallowed hrest hlt (Option.isSome_iff_ne_none.2 hescape)) hmeant ?_)
      rw [decode_code hcode, hwritten]
      rfl

end

/-- What holds behind a piece that is read alike holds in front of it. -/
theorem keeps_or_departs_of_suffix {body behind : List Char} (front : List Char) (hsuffix : behind <:+ body)
    (hmeant : reference body = front ++ reference behind) (hdecoded : decode body = front ++ decode behind)
    (h : decode behind = reference behind ∨ Departs behind) : decode body = reference body ∨ Departs body := by
  rcases h with hkeeps | hdeparts
  · exact .inl (by rw [hdecoded, hmeant, hkeeps])
  · exact .inr (hdeparts.of_suffix hsuffix hmeant hdecoded)

/-- **Decoding keeps to the rule**, for every body, or there is a place where it departs from it. (After that it may
still give the same text by chance.) -/
theorem decode_keeps_or_departs (body : List Char) : decode body = reference body ∨ Departs body := by
  -- One character, one escape, or one malformed escape with its digits is read at a time.
  induction hlength : body.length using Nat.strongRecOn generalizing body with
  | ind n ih =>
    subst hlength
    cases body with
    | nil => exact .inl reference_nil.symm
    | cons c cs =>
      by_cases hslash : c = '\\'
      · subst hslash
        cases hescape : escape? cs with
        | some found =>
          obtain ⟨meaning, length⟩ := found
          refine keeps_or_departs_of_suffix meaning ((List.drop_suffix length cs).trans (List.suffix_cons _ cs))
            (reference_escape hescape) (decode_escape hescape) (ih _ ?_ _ rfl)
          rw [List.length_drop, List.length_cons]
          omega
        | none =>
          by_cases hcode : ∀ c rest, cs = c :: rest → codes.lookup c = none
          · exact keeps_or_departs_of_suffix ['\\'] (List.suffix_cons _ cs) (reference_lone hescape)
              (decode_lone hescape hcode) (ih _ (Nat.lt_succ_self _) _ rfl)
          · simp only [Classical.not_forall] at hcode
            obtain ⟨letter, rest, rfl, hcode⟩ := hcode
            obtain ⟨width, hwidth⟩ := Option.ne_none_iff_exists'.1 hcode
            rcases decode_malformed hwidth hescape with hdeparts | ⟨front, hfront, hdecoded, hmeant⟩
            · exact .inr hdeparts
            · refine keeps_or_departs_of_suffix front ⟨front, hfront⟩ hmeant hdecoded (ih _ ?_ _ rfl)
              rw [List.length_drop, List.length_cons, List.length_cons]
              omega
      · exact keeps_or_departs_of_suffix [c] (List.suffix_cons _ cs) (reference_cons hslash)
          (decode_cons hslash) (ih _ (Nat.lt_succ_self _) _ rfl)

/-- Neither a sign nor an escape among the digits is left for the rule. -/
example : decode "\\xz\\n \\x+1".toList = "\\xz\\n \x01".toList ∧
    reference "\\xz\\n \\x+1".toList = "\\xz\n \\x+1".toList := by
  constructor
  · rfl
  · cbv

end PluginTools.Quoted
