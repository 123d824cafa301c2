/-
The text of a JSON value is the text of its tokens, in both layouts: on one line, and with blanks between the tokens.
`Laid` says so of any text, and a text that is laid out like this is read as its tokens (`all?_of_laid`), since strings
end at their closing quotes and whole numbers where no number goes on.
-/
import Mathlib.Data.List.Basic
import PluginTools.Json.Reader
import PluginTools.Json.Writer
import PluginTools.Proofs.Escapes
import PluginTools.Proofs.Integers

namespace PluginTools.Json

/-! ## Strings -/

namespace Token

theorem whole?_map_some (cs : List Char) : Utf8.whole? (cs.map some) = some cs := by
  induction cs with
  | nil => rfl
  | cons c cs ih => simp [Utf8.whole?, ih]

theorem scalar?_toNat (c : Char) : Quoted.scalar? c.toNat = some c := by
  rw [Quoted.scalar?_eq, if_pos (show c.toNat.isValidChar from c.valid), Char.ofNat_toNat]

/-- A control character is read from its code. -/
theorem code?_control {c : Char} (h : c.toNat < 0x20) (rest : Source) :
    code? (some '0' :: some '0' :: some (Nat.digitChar (c.toNat / 16)) :: some (Nat.digitChar (c.toNat % 16)) :: rest) =
      some (c.toNat, rest) := by
  have hall : ∀ n < 0x20, Number.digits? 16 0 ['0', '0', Nat.digitChar (n / 16), Nat.digitChar (n % 16)] = some n := by
    decide
  simp [code?, hall c.toNat h]

theorem stringFrom_quote (rest : Source) (fuel : Nat) : stringFrom (fuel + 1) (some '\x22' :: rest) = some ([], rest) := rfl

/-- An escape by code is read as its character, unless it is half of one. -/
theorem stringFrom_code {cs rest : Source} {n : Nat} (hcode : code? cs = some (n, rest)) (hhigh : isHighSurrogate n = false)
    (fuel : Nat) : stringFrom (fuel + 1) (some '\\' :: some 'u' :: cs) =
      (stringFrom fuel rest).map fun (s, r) => (Quoted.scalar? n :: s, r) := by
  change (code? cs).bind _ = _
  rw [hcode]
  exact if_neg (by simp [hhigh])

/-- A character that needs no escape stands for itself. -/
theorem stringFrom_plain {c : Char} (hquote : c ≠ '\x22') (hslash : c ≠ '\\') (hcontrol : ¬c.toNat < 0x20) (rest : Source)
    (fuel : Nat) : stringFrom (fuel + 1) (some c :: rest) = (stringFrom fuel rest).map fun (s, r) => (some c :: s, r) := by
  rw [stringFrom.eq_def]
  dsimp only
  split <;> simp_all

/-- A character that is written as part of a string is read back. -/
theorem stringFrom_escape (c : Char) (rest : Source) (fuel : Nat) :
    stringFrom (fuel + 1) ((escape c).map some ++ rest) = (stringFrom fuel rest).map fun (s, r) => (some c :: s, r) := by
  unfold escape
  repeat' split
  -- the escapes of one letter
  all_goals try (subst_vars; rfl)
  · next hcontrol =>
    have hhigh : isHighSurrogate c.toNat = false := by
      simp only [isHighSurrogate, Bool.and_eq_false_iff, decide_eq_false_iff_not]
      omega
    rw [← scalar?_toNat c]
    exact stringFrom_code (code?_control hcontrol rest) hhigh fuel
  · next hquote hslash _ _ _ _ _ hcontrol => exact stringFrom_plain hquote hslash hcontrol rest fuel

theorem stringFrom_quoted (cs : List Char) (rest : Source) (fuel : Nat) (hfuel : cs.length < fuel) :
    stringFrom fuel ((cs.flatMap escape).map some ++ some '\x22' :: rest) = some (cs.map some, rest) := by
  induction cs generalizing fuel with
  | nil =>
    obtain ⟨fuel, rfl⟩ := Nat.exists_eq_add_one.2 (Nat.zero_lt_of_lt hfuel)
    exact stringFrom_quote rest fuel
  | cons c cs ih =>
    obtain ⟨fuel, rfl⟩ := Nat.exists_eq_add_one.2 (Nat.zero_lt_of_lt hfuel)
    have hfuel : cs.length < fuel := by
      rw [List.length_cons] at hfuel
      omega
    rw [List.flatMap_cons, List.map_append, List.append_assoc, stringFrom_escape, ih fuel hfuel]
    rfl

theorem length_le_length_flatMap_escape (cs : List Char) : cs.length ≤ (cs.flatMap escape).length := by
  induction cs with
  | nil => simp
  | cons c cs ih =>
    have hpos : 1 ≤ (escape c).length := by
      unfold escape
      repeat' split
      all_goals simp
    rw [List.flatMap_cons, List.length_append, List.length_cons]
    omega

/-- A string is read back from behind its opening quote. -/
theorem readString_quoted (s : String) (rest : Source) :
    readString ((s.toList.flatMap escape).map some ++ some '\x22' :: rest) = some (.text (some s), rest) := by
  have hlength := length_le_length_flatMap_escape s.toList
  rw [readString, stringFrom_quoted _ _ _ (by simp only [List.length_append, List.length_map, List.length_cons]; omega)]
  simp [whole?_map_some]

end Token

/-! ## Whole numbers -/

/-- Behind a text no number goes on. -/
def EndsNumber : List Char → Prop
  | [] => True
  | c :: _ => Number.isDigit c = false ∧ c ≠ '.' ∧ c ≠ 'e' ∧ c ≠ 'E'

theorem EndsNumber.append {cs rest : List Char} (hs : EndsNumber cs) (hends : EndsNumber rest) :
    EndsNumber (cs ++ rest) := by
  cases cs with
  | nil => exact hends
  | cons c cs => exact hs

namespace Token

theorem digits_cons (c : Char) (cs : Source) : digits (some c :: cs) =
    if Number.isDigit c then (c :: (digits cs).1, (digits cs).2) else ([], some c :: cs) := rfl

theorem digits_append {ds rest : List Char} (hds : ∀ c ∈ ds, Number.isDigit c) (hrest : EndsNumber rest) :
    digits ((ds ++ rest).map some) = (ds, rest.map some) := by
  induction ds with
  | nil =>
    cases rest with
    | nil => rfl
    | cons c rest => simp [digits_cons, hrest.1]
  | cons c ds ih =>
    obtain ⟨hc, hds⟩ := List.forall_mem_cons.1 hds
    have ih := ih hds
    rw [List.map_append] at ih
    simp [digits_cons, hc, ih]

/-- Digits are taken as long as their value stays below sixty-four bits. -/
theorem gather_of_lt {ds : List Char} (hds : ∀ c ∈ ds, Number.isDigit c) (significand taken : Nat)
    (hlt : Nat.ofDigitChars 10 ds significand < 2 ^ 64) :
    gather significand taken ds = (Nat.ofDigitChars 10 ds significand, taken + ds.length, false) := by
  induction ds generalizing significand taken with
  | nil => rfl
  | cons c ds ih =>
    obtain ⟨hc, hds⟩ := List.forall_mem_cons.1 hds
    have hcons : Nat.ofDigitChars 10 (c :: ds) significand =
        Nat.ofDigitChars 10 ds (10 * significand + (c.toNat - 48)) := Nat.ofDigitChars_cons
    rw [Nat.mul_comm] at hcons
    have hnext : significand * 10 + (c.toNat - 48) < 2 ^ 64 := by
      have hle : significand * 10 + (c.toNat - 48) ≤ Nat.ofDigitChars 10 ds (significand * 10 + (c.toNat - 48)) := by
        rw [Nat.ofDigitChars_eq_ofDigitChars_zero]
        exact Nat.le_trans (Nat.le_mul_of_pos_left _ (Nat.pow_pos (by decide))) (Nat.le_add_right _ _)
      exact Nat.lt_of_le_of_lt hle (hcons ▸ hlt)
    have hgather : gather significand taken (c :: ds) = gather (significand * 10 + (c.toNat - 48)) (taken + 1) ds :=
      if_pos hnext
    rw [hgather, ih hds _ _ (hcons ▸ hlt), hcons, List.length_cons]
    simp [Nat.add_comm, Nat.add_left_comm]

theorem ofDigitChars_lt {ds : List Char} (hds : ∀ c ∈ ds, Number.isDigit c) :
    Nat.ofDigitChars 10 ds 0 < 10 ^ ds.length := by
  induction ds with
  | nil => simp
  | cons c ds ih =>
    obtain ⟨hc, hds⟩ := List.forall_mem_cons.1 hds
    have hdigit : c.toNat - 48 ≤ 9 := by
      simp only [Number.isDigit, Bool.and_eq_true, decide_eq_true_eq] at hc
      have hle : c.toNat ≤ '9'.toNat := hc.2
      simp only [Char.reduceToNat] at hle
      omega
    have hlt := ih hds
    have hmul : 10 ^ ds.length * (c.toNat - 48) ≤ 10 ^ ds.length * 9 := Nat.mul_le_mul_left _ hdigit
    rw [Nat.ofDigitChars_cons, Nat.ofDigitChars_eq_ofDigitChars_zero, List.length_cons, Nat.pow_succ]
    simp only [Char.reduceToNat, Nat.mul_zero, Nat.zero_add]
    omega

/-- No decimal number but zero starts with a zero. -/
theorem toDigits_ne_zero_cons (n : Nat) (c : Char) (ds : List Char) : Nat.toDigits 10 n ≠ '0' :: c :: ds := by
  intro h
  have hdigits : ∀ d ∈ c :: ds, Number.isDigit d := fun d hd =>
    Number.isDigit_of_mem_toDigits (h ▸ List.mem_cons_of_mem _ hd)
  have hvalue : n = Nat.ofDigitChars 10 (c :: ds) 0 := by
    conv_lhs => rw [← Nat.ofDigitChars_ten_toDigits (n := n), h]
    rfl
  have hlength := (Nat.length_toDigits_le_iff (n := n) (k := (c :: ds).length) (b := 10) (by decide) (by simp)).2
    (hvalue ▸ ofDigitChars_lt hdigits)
  rw [h] at hlength
  simp at hlength

/-- A whole number is read up to its end. -/
theorem readNumber_toDigits (n : Nat) {rest : List Char} (hrest : EndsNumber rest) (negative : Bool) :
    readNumber negative ((Nat.toDigits 10 n ++ rest).map some) =
      some (.number (numberValue negative (Nat.toDigits 10 n) none none), rest.map some) := by
  have hds : ∀ c ∈ Nat.toDigits 10 n, Number.isDigit c := fun _ => Number.isDigit_of_mem_toDigits
  rw [readNumber, digits_append hds hrest]
  dsimp only
  split
  · next h => exact absurd h Nat.toDigits_ne_nil
  · next h => exact absurd h (toDigits_ne_zero_cons n _ _)
  · cases rest with
    | nil => rfl
    | cons c rest =>
      obtain ⟨-, hpoint, he, hE⟩ := hrest
      simp only [List.map_cons]
      split
      · next h => simp_all
      · simp only [Option.bind_eq_bind, Option.bind_some]
        split <;> simp_all

theorem numberValue_toDigits {n : Nat} (hn : n < 2 ^ 64) :
    numberValue false (Nat.toDigits 10 n) none none = some (.int n) := by
  have hds : ∀ c ∈ Nat.toDigits 10 n, Number.isDigit c := fun _ => Number.isDigit_of_mem_toDigits
  have hgather := gather_of_lt hds 0 0 (by rwa [Nat.ofDigitChars_ten_toDigits])
  simp [numberValue, hgather, Nat.ofDigitChars_ten_toDigits]

theorem numberValue_toDigits_neg {n : Nat} (hpos : 0 < n) (hn : n ≤ 2 ^ 63) :
    numberValue true (Nat.toDigits 10 n) none none = some (.int (-n)) := by
  have hds : ∀ c ∈ Nat.toDigits 10 n, Number.isDigit c := fun _ => Number.isDigit_of_mem_toDigits
  have hgather := gather_of_lt hds 0 0 (by rw [Nat.ofDigitChars_ten_toDigits]; omega)
  have hsplit : ¬(n = 0 ∨ Nat.pow 2 63 < n) := by
    simp only [Nat.reducePow, Nat.pow_eq]
    omega
  simp [numberValue, hgather, Nat.ofDigitChars_ten_toDigits, hsplit]

end Token

/-! ## Tokens -/

namespace Token

/-- How a token of a value is written. -/
inductive Spelled : Token → List Char → Prop
  | openList : Spelled .openList ['[']
  | closeList : Spelled .closeList [']']
  | openObject : Spelled .openObject ['\x7b']
  | closeObject : Spelled .closeObject ['\x7d']
  | comma : Spelled .comma [',']
  | colon : Spelled .colon [':']
  | null : Spelled .null "null".toList
  | bool (b : Bool) : Spelled (.bool b) (Json.bool b).scalarChars
  | text (s : String) : Spelled (.text (some s)) (quote s)
  | int {i : Int} : minInt ≤ i → i ≤ maxInt → Spelled (.number (some (.int i))) (toString i).toList

variable {t : Token} {text rest : List Char}

theorem isBlank_of_isDigit {c : Char} (hc : Number.isDigit c) : isBlank c = false := by
  simp only [isBlank, Bool.or_eq_false_iff, beq_eq_false_iff_ne]
  refine ⟨⟨⟨?_, ?_⟩, ?_⟩, ?_⟩ <;> (rintro rfl; exact absurd hc (by decide))

/-- A digit starts a number. -/
theorem next?_digit {c : Char} (hc : Number.isDigit c) (cs : Source) : next? c cs = readNumber false (some c :: cs) := by
  unfold next?
  repeat rw [if_neg (by rintro rfl; exact absurd hc (by decide))]

/-- A token is read from its text. -/
theorem Spelled.next?_eq (h : t.Spelled text) (hrest : (∃ n, t = .number n) → EndsNumber rest) :
    ∃ c cs, text = c :: cs ∧ isBlank c = false ∧ next? c ((cs ++ rest).map some) = some (t, rest.map some) := by
  cases h with
  | openList | closeList | openObject | closeObject | comma | colon => exact ⟨_, _, rfl, rfl, rfl⟩
  | null => exact ⟨'n', ['u', 'l', 'l'], rfl, rfl, rfl⟩
  | bool b =>
    cases b
    · exact ⟨'f', ['a', 'l', 's', 'e'], rfl, rfl, rfl⟩
    · exact ⟨'t', ['r', 'u', 'e'], rfl, rfl, rfl⟩
  | text s =>
    refine ⟨_, _, rfl, rfl, ?_⟩
    have hread := readString_quoted s (rest.map some)
    simpa [next?] using hread
  | @int i hmin hmax =>
    have hends := hrest ⟨_, rfl⟩
    rcases i with n | n
    · have hn : n < 2 ^ 64 := by
        simp only [maxInt, Int.pow_eq, Int.ofNat_eq_natCast] at hmax
        omega
      obtain ⟨c, cs, hcs⟩ := List.exists_cons_of_ne_nil (Nat.toDigits_ne_nil (n := n) (b := 10))
      have hc : Number.isDigit c := Number.isDigit_of_mem_toDigits (hcs ▸ List.mem_cons_self)
      have hread := readNumber_toDigits n hends false
      rw [numberValue_toDigits hn, hcs] at hread
      refine ⟨c, cs, ?_, isBlank_of_isDigit hc, ?_⟩
      · simp [Int.toString_eq_repr, Int.repr_eq_if, hcs]
      · rw [next?_digit hc]
        exact hread
    · have hn : n + 1 ≤ 2 ^ 63 := by
        simp only [minInt, Int.pow_eq, Int.negSucc_eq] at hmin
        omega
      have hread := readNumber_toDigits (n + 1) hends true
      rw [numberValue_toDigits_neg (by omega) hn] at hread
      exact ⟨'-', Nat.toDigits 10 (n + 1), by simp [Int.toString_eq_repr, Int.repr_eq_if], rfl, hread⟩

/-! ## Texts of tokens -/

/-- A text is the tokens one after another, with blanks anywhere between them. -/
inductive Laid : List Token → List Char → Prop
  | nil : Laid [] []
  | blank {ts : List Token} {c : Char} {cs : List Char} : isBlank c → Laid ts cs → Laid ts (c :: cs)
  | token {t : Token} {ts : List Token} {text rest : List Char} : t.Spelled text →
    ((∃ n, t = .number n) → EndsNumber rest) → Laid ts rest → Laid (t :: ts) (text ++ rest)

theorem allFrom_of_laid {ts : List Token} {cs : List Char} (h : Laid ts cs) (fuel : Nat) (hfuel : cs.length < fuel) :
    allFrom fuel (cs.map some) = some ts := by
  induction h generalizing fuel with
  | nil =>
    obtain ⟨fuel, rfl⟩ := Nat.exists_eq_add_one.2 (Nat.zero_lt_of_lt hfuel)
    rfl
  | blank hc _ ih =>
    obtain ⟨fuel, rfl⟩ := Nat.exists_eq_add_one.2 (Nat.zero_lt_of_lt hfuel)
    rw [List.length_cons] at hfuel
    simp only [List.map_cons, allFrom, hc, ↓reduceIte]
    exact ih fuel (by omega)
  | token ht hends _ ih =>
    obtain ⟨c, cs, rfl, hc, hnext⟩ := ht.next?_eq hends
    obtain ⟨fuel, rfl⟩ := Nat.exists_eq_add_one.2 (Nat.zero_lt_of_lt hfuel)
    rw [List.length_append, List.length_cons] at hfuel
    simp only [List.cons_append, List.map_cons, allFrom, hc, Bool.false_eq_true, ↓reduceIte, hnext]
    simp [ih fuel (by omega)]

/-- A text is read as the tokens it is made of. -/
theorem all?_of_laid {ts : List Token} {cs : List Char} (h : Laid ts cs) : all? (cs.map some) = some ts :=
  allFrom_of_laid h _ (by simp)

/-- Part of a text is the tokens one after another, as long as no number goes on behind it. -/
def Lays (ts : List Token) (cs : List Char) : Prop :=
  ∀ us rest, EndsNumber rest → Laid us rest → Laid (ts ++ us) (cs ++ rest)

section

variable {ts us : List Token} {cs ds : List Char}

theorem Lays.laid (h : Lays ts cs) : Laid ts cs := by
  simpa using h [] [] trivial .nil

theorem Spelled.lays (h : t.Spelled text) : Lays [t] text := fun _ _ hends hrest => .token h (fun _ => hends) hrest

theorem Spelled.lays_cons (h : t.Spelled text) (ht : ¬∃ n, t = .number n) (hs : Lays ts cs) : Lays (t :: ts) (text ++ cs) :=
  fun us rest hends hrest => by
    rw [List.append_assoc]
    exact .token h (fun hn => absurd hn ht) (hs us rest hends hrest)

theorem Lays.blanks {bs : List Char} (hbs : ∀ b ∈ bs, isBlank b) (hs : Lays ts cs) : Lays ts (bs ++ cs) := by
  induction bs with
  | nil => exact hs
  | cons b bs ih =>
    obtain ⟨hb, hbs⟩ := List.forall_mem_cons.1 hbs
    exact fun us rest hends hrest => .blank hb (ih hbs us rest hends hrest)

theorem Lays.append (h : Lays ts cs) (hs : Lays us ds) (hends : EndsNumber ds) : Lays (ts ++ us) (cs ++ ds) :=
  fun vs rest hrest hvs => by
    rw [List.append_assoc, List.append_assoc]
    exact h _ _ (hends.append hrest) (hs vs rest hrest hvs)

end
end Token

/-! ## Tokens of trees -/

namespace Tree

mutual

/-- The tokens that a tree is read off. -/
def tokens : Tree → List Token
  | .null => [.null]
  | .bool b => [.bool b]
  | .text s => [.text s]
  | .number n => [.number n]
  | .list [] => [.openList, .closeList]
  | .list (v :: vs) => .openList :: (v.tokens ++ itemTokens vs)
  | .object [] => [.openObject, .closeObject]
  | .object ((n, v) :: ms) => .openObject :: .text n :: .colon :: (v.tokens ++ memberTokens ms)

/-- The tokens of the items of a list after its first, and of its end. -/
def itemTokens : List Tree → List Token
  | [] => [.closeList]
  | v :: vs => .comma :: (v.tokens ++ itemTokens vs)

/-- The tokens of the members of an object after its first, and of its end. -/
def memberTokens : List (Option String × Tree) → List Token
  | [] => [.closeObject]
  | (n, v) :: ms => .comma :: .text n :: .colon :: (v.tokens ++ memberTokens ms)

end

end Tree

mutual

/-- The tree that a value is read by. -/
def tree : Json → Tree
  | .null => .null
  | .bool b => .bool b
  | .int i => .number (some (.int i))
  | .float d => .number (some (.float d))
  | .text s => .text (some s)
  | .list vs => .list (itemTrees vs)
  | .object ms => .object (memberTrees ms)

def itemTrees : List Json → List Tree
  | [] => []
  | v :: vs => v.tree :: itemTrees vs

def memberTrees : List (String × Json) → List (Option String × Tree)
  | [] => []
  | (n, v) :: ms => (some n, v.tree) :: memberTrees ms

end

/-- A value whose numbers are all whole and fit sixty-four bits. -/
inductive Whole : Json → Prop
  | null : Whole .null
  | bool (b : Bool) : Whole (.bool b)
  | int {i : Int} : minInt ≤ i → i ≤ maxInt → Whole (.int i)
  | text (s : String) : Whole (.text s)
  | list {vs : List Json} : (∀ v ∈ vs, Whole v) → Whole (.list vs)
  | object {ms : List (String × Json)} : (∀ m ∈ ms, Whole m.2) → Whole (.object ms)

/-! ## Both layouts -/

section

open Token

variable {vs : List Json} {ms : List (String × Json)}

theorem endsNumber_itemChars (vs : List Json) : EndsNumber (itemChars vs) := by
  cases vs <;> exact ⟨rfl, by decide⟩

theorem endsNumber_memberChars (ms : List (String × Json)) : EndsNumber (memberChars ms) := by
  cases ms <;> exact ⟨rfl, by decide⟩

theorem endsNumber_prettyItems (level : Nat) (vs : List Json) : EndsNumber (prettyItems level vs) := by
  cases vs <;> exact ⟨rfl, by decide⟩

theorem endsNumber_prettyMembers (level : Nat) (ms : List (String × Json)) : EndsNumber (prettyMembers level ms) := by
  cases ms <;> exact ⟨rfl, by decide⟩

theorem isBlank_of_mem_newline {level : Nat} {c : Char} (h : c ∈ newline level) : isBlank c := by
  rcases List.mem_cons.1 h with rfl | h
  · rfl
  · rw [(List.mem_replicate.1 h).2]
    rfl

theorem lays_itemChars (h : ∀ v ∈ vs, Lays v.tree.tokens v.chars) :
    Lays (Tree.itemTokens (itemTrees vs)) (itemChars vs) := by
  induction vs with
  | nil => exact Spelled.closeList.lays
  | cons v vs ih =>
    obtain ⟨hv, hvs⟩ := List.forall_mem_cons.1 h
    exact Spelled.comma.lays_cons (by simp) (hv.append (ih hvs) (endsNumber_itemChars vs))

theorem Token.Lays.member {ts us : List Token} {bs cs ds : List Char} (h : Lays ts cs) (n : String)
    (hbs : ∀ b ∈ bs, isBlank b) (hs : Lays us ds) (hends : EndsNumber ds) :
    Lays (.text (some n) :: .colon :: (ts ++ us)) (quote n ++ ':' :: (bs ++ (cs ++ ds))) :=
  (Spelled.text n).lays_cons (by simp) (Spelled.colon.lays_cons (by simp) ((h.append hs hends).blanks hbs))

theorem lays_memberChars (h : ∀ m ∈ ms, Lays m.2.tree.tokens m.2.chars) :
    Lays (Tree.memberTokens (memberTrees ms)) (memberChars ms) := by
  induction ms with
  | nil => exact Spelled.closeObject.lays
  | cons m ms ih =>
    obtain ⟨hm, hms⟩ := List.forall_mem_cons.1 h
    exact Spelled.comma.lays_cons (by simp) (hm.member m.1 (List.forall_mem_nil _) (ih hms) (endsNumber_memberChars ms))

theorem lays_prettyItems {level : Nat} (h : ∀ v ∈ vs, Lays v.tree.tokens (v.prettyChars (level + 1))) :
    Lays (Tree.itemTokens (itemTrees vs)) (prettyItems level vs) := by
  induction vs with
  | nil => exact Spelled.closeList.lays.blanks fun _ => isBlank_of_mem_newline
  | cons v vs ih =>
    obtain ⟨hv, hvs⟩ := List.forall_mem_cons.1 h
    exact Spelled.comma.lays_cons (by simp)
      ((hv.append (ih hvs) (endsNumber_prettyItems level vs)).blanks fun _ => isBlank_of_mem_newline)

theorem lays_prettyMembers {level : Nat} (h : ∀ m ∈ ms, Lays m.2.tree.tokens (m.2.prettyChars (level + 1))) :
    Lays (Tree.memberTokens (memberTrees ms)) (prettyMembers level ms) := by
  induction ms with
  | nil => exact Spelled.closeObject.lays.blanks fun _ => isBlank_of_mem_newline
  | cons m ms ih =>
    obtain ⟨hm, hms⟩ := List.forall_mem_cons.1 h
    have hrest := hm.member m.1 (List.forall_mem_singleton.2 (rfl : isBlank ' ')) (ih hms) (endsNumber_prettyMembers level ms)
    exact Spelled.comma.lays_cons (by simp) (hrest.blanks fun _ => isBlank_of_mem_newline)

/-- The text on one line is the tokens of the value. -/
theorem Whole.lays_chars {v : Json} (h : v.Whole) : Lays v.tree.tokens v.chars := by
  induction h with
  | null => exact Spelled.null.lays
  | bool b => exact (Spelled.bool b).lays
  | int hmin hmax => exact (Spelled.int hmin hmax).lays
  | text s => exact (Spelled.text s).lays
  | @list vs _ ih =>
    cases vs with
    | nil => exact Spelled.openList.lays_cons (by simp) Spelled.closeList.lays
    | cons v vs =>
      obtain ⟨hv, hvs⟩ := List.forall_mem_cons.1 ih
      exact Spelled.openList.lays_cons (by simp) (hv.append (lays_itemChars hvs) (endsNumber_itemChars vs))
  | @object ms _ ih =>
    cases ms with
    | nil => exact Spelled.openObject.lays_cons (by simp) Spelled.closeObject.lays
    | cons m ms =>
      obtain ⟨hm, hms⟩ := List.forall_mem_cons.1 ih
      exact Spelled.openObject.lays_cons (by simp)
        (hm.member m.1 (List.forall_mem_nil _) (lays_memberChars hms) (endsNumber_memberChars ms))

/-- So is the text with one item or member a line. -/
theorem Whole.lays_prettyChars {v : Json} (h : v.Whole) (level : Nat) : Lays v.tree.tokens (v.prettyChars level) := by
  induction h generalizing level with
  | null => exact Spelled.null.lays
  | bool b => exact (Spelled.bool b).lays
  | int hmin hmax => exact (Spelled.int hmin hmax).lays
  | text s => exact (Spelled.text s).lays
  | @list vs _ ih =>
    cases vs with
    | nil => exact Spelled.openList.lays_cons (by simp) Spelled.closeList.lays
    | cons v vs =>
      obtain ⟨hv, hvs⟩ := List.forall_mem_cons.1 ih
      have hrest := (hv (level + 1)).append (lays_prettyItems fun w hw => hvs w hw (level + 1))
        (endsNumber_prettyItems level vs)
      exact Spelled.openList.lays_cons (by simp) (hrest.blanks fun _ => isBlank_of_mem_newline)
  | @object ms _ ih =>
    cases ms with
    | nil => exact Spelled.openObject.lays_cons (by simp) Spelled.closeObject.lays
    | cons m ms =>
      obtain ⟨hm, hms⟩ := List.forall_mem_cons.1 ih
      have hrest := (hm (level + 1)).member m.1 (List.forall_mem_singleton.2 (rfl : isBlank ' '))
        (lays_prettyMembers fun w hw => hms w hw (level + 1)) (endsNumber_prettyMembers level ms)
      exact Spelled.openObject.lays_cons (by simp) (hrest.blanks fun _ => isBlank_of_mem_newline)

end

end PluginTools.Json
