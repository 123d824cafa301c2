/-
What a JSON text holds before its leaves have values. A member is found by name exactly if every name is readable and
that name comes once at most, so neither the order of members nor members of other names matter (`Rearranged`). The
numbers of a tree are numbers of its text, and those that are whole are not below the least of sixty-four bits.
-/
import Mathlib
import PluginTools.Call.Response

namespace PluginTools

namespace Json.Tree

/-! ## Members by name -/

section

variable {names : List String} {name other : String} {ms ms' : List (Option String × Tree)} {value : Option Tree}

/-- An object has at most one member of that name, and this is the value of it. -/
def Holds (ms : List (Option String × Tree)) (name : String) (value : Option Tree) : Prop :=
  ms.filter (·.1 = some name) = value.toList.map (some name, ·)

theorem member?_eq_some_iff : member? name ms = some value ↔ (∀ m ∈ ms, m.1.isSome) ∧ Holds ms name value := by
  induction ms generalizing value with
  | nil => cases value <;> simp [member?, Holds]
  | cons m ms ih =>
    obtain ⟨_ | n, v⟩ := m
    · simp [member?]
    · simp only [member?]
      by_cases hname : n = name
      -- of the name that is looked for: it must not come again
      · subst hname
        have : (∀ m ∈ (some n, v) :: ms, m.1.isSome) ∧ Holds ((some n, v) :: ms) n value ↔
            member? n ms = some none ∧ some v = value := by
          rw [ih]
          cases value with
          | none => simp [Holds]
          | some w =>
            simp only [Holds, List.forall_mem_cons, Option.isSome_some, true_and, List.filter_cons, decide_true,
              ↓reduceIte, Option.toList_some, Option.toList_none, List.map_cons, List.map_nil, List.cons.injEq,
              Prod.mk.injEq, Option.some.injEq]
            tauto
        rw [this]
        rcases member? n ms with _ | _ | w <;> simp
      · have : (∀ m ∈ (some n, v) :: ms, m.1.isSome) ∧ Holds ((some n, v) :: ms) name value ↔
            member? name ms = some value := by
          rw [ih]
          simp [Holds, hname]
        rw [this]
        rcases member? name ms with _ | w <;> simp [hname]

theorem Holds.perm (h : Holds ms name value) (order : ms.Perm ms') : Holds ms' name value := by
  have := order.filter (·.1 = some name)
  rw [h] at this
  cases value with
  | none => exact List.nil_perm.1 this
  | some v => exact (List.singleton_perm.1 this).symm

theorem Holds.mem {v : Tree} (h : Holds ms name (some v)) : (some name, v) ∈ ms :=
  (List.mem_filter.1 (by rw [h]; simp : (some name, v) ∈ ms.filter (·.1 = some name))).1

/-- The order of members does not matter. -/
theorem member?_perm (order : ms.Perm ms') : member? name ms = member? name ms' := by
  have key : ∀ {ms ms' : List (Option String × Tree)}, ms.Perm ms' → ∀ {value},
      member? name ms = some value → member? name ms' = some value := by
    intro ms ms' order value h
    obtain ⟨readable, holds⟩ := member?_eq_some_iff.1 h
    exact member?_eq_some_iff.2 ⟨fun m hm => readable m (order.mem_iff.2 hm), holds.perm order⟩
  exact Option.ext fun value => ⟨key order, key order.symm⟩

/-- A member of another name does not matter. -/
theorem member?_cons_of_ne (h : other ≠ name) (v : Tree) : member? name ((some other, v) :: ms) = member? name ms := by
  rw [member?]
  cases member? name ms <;> simp [h]

/-- The same members of some names, in any order and among any others. -/
inductive Rearranged (names : List String) : List (Option String × Tree) → List (Option String × Tree) → Prop
  | order {ms ms' : List (Option String × Tree)} : ms.Perm ms' → Rearranged names ms ms'
  | added {ms : List (Option String × Tree)} {name : String} (value : Tree) : name ∉ names →
    Rearranged names ms ((some name, value) :: ms)
  | removed {ms : List (Option String × Tree)} {name : String} (value : Tree) : name ∉ names →
    Rearranged names ((some name, value) :: ms) ms
  | trans {ms ms' ms'' : List (Option String × Tree)} : Rearranged names ms ms' → Rearranged names ms' ms'' →
    Rearranged names ms ms''

theorem Rearranged.member?_eq (h : Rearranged names ms ms') (among : name ∈ names) :
    member? name ms = member? name ms' := by
  induction h with
  | order h => exact member?_perm h
  | added value h => exact (member?_cons_of_ne (ne_of_mem_of_not_mem among h).symm value).symm
  | removed value h => exact member?_cons_of_ne (ne_of_mem_of_not_mem among h).symm value
  | trans _ _ ih ih' => exact ih.trans ih'

end

/-! ## Numbers of a text -/

end Json.Tree

namespace Json

/-- The values that numbers are read as. -/
inductive IsNumber : Json → Prop
  | int {i : Int} : minInt ≤ i → IsNumber (.int i)
  | float (d : Double) : IsNumber (.float d)

namespace Token

theorem isNumber_of_numberValue {negative : Bool} {before : List Char} {after : Option (List Char)}
    {exponent : Option Int} {j : Json} (h : numberValue negative before after exponent = some j) : j.IsNumber := by
  have ofFloat : ∀ {d : Option Double}, d.map Json.float = some j → j.IsNumber := by
    intro d h
    obtain ⟨d, -, rfl⟩ := Option.map_eq_some_iff.1 h
    exact .float d
  simp only [numberValue] at h
  split at h
  · split at h
    · exact ofFloat h
    · split at h
      · split at h
        · cases h
          exact .float _
        · rename_i hs
          have hs : (gather 0 0 before).1 ≤ 2 ^ 63 := Nat.le_of_not_lt fun hlt => hs (.inr hlt)
          cases h
          exact .int (Int.neg_le_neg (Int.ofNat_le.2 hs))
      · cases h
        exact .int (Int.le_trans (show minInt ≤ 0 by decide) (Int.natCast_nonneg _))
  · exact ofFloat h

theorem isNumber_of_readNumber {negative : Bool} {cs rest : Source} {j : Json}
    (h : readNumber negative cs = some (.number (some j), rest)) : j.IsNumber := by
  have parts : ∀ {before : List Char} {after : Option (List Char)} {found : Option (Option Int × Source)},
      (found.bind fun x => some (number (numberValue negative before after x.1), x.2)) =
        some (number (some j), rest) → j.IsNumber := by
    intro before after found h
    obtain ⟨x, _, h⟩ := Option.bind_eq_some_iff.1 h
    simp only [Option.some.injEq, Prod.mk.injEq, Token.number.injEq] at h
    exact isNumber_of_numberValue h.1
  simp only [readNumber, Option.bind_eq_bind] at h
  repeat' split at h
  all_goals first
    | cases h
    | rw [Option.bind_some] at h
      split at h <;> exact parts h

theorem isNumber_of_next? {c : Char} {cs rest : Source} {j : Json}
    (h : next? c cs = some (.number (some j), rest)) : j.IsNumber := by
  have ofOther : ∀ {α : Type} {f : α → Token × Source} {found : Option α}, (∀ x n, (f x).1 ≠ .number n) →
      found.map f = some (.number (some j), rest) → j.IsNumber := by
    intro α f found other h
    obtain ⟨x, -, h⟩ := Option.map_eq_some_iff.1 h
    exact absurd (congrArg (·.1) h) (other x _)
  revert h
  unfold next? readString
  -- the tests of the first character one by one; to split them all at once is slow
  repeat' refine iteInduction (motive := (· = some (number (some j), rest) → j.IsNumber)) (fun _ => ?_) fun _ => ?_
  all_goals intro h
  -- the six marks of lists and objects
  case _ | _ | _ | _ | _ | _ => cases h
  all_goals first
    | exact isNumber_of_readNumber h
    | exact ofOther (by rintro _ _ ⟨⟩) h

theorem isNumber_of_mem_allFrom {fuel : Nat} {cs : Source} {ts : List Token} {j : Json}
    (h : allFrom fuel cs = some ts) (hj : .number (some j) ∈ ts) : j.IsNumber := by
  induction fuel generalizing cs ts with
  | zero => simp [allFrom] at h
  | succ fuel ih =>
    rcases cs with _ | ⟨_ | c, cs⟩
    · cases h
      simp at hj
    · cases h
    · rw [allFrom] at h
      split at h
      · exact ih h hj
      · obtain ⟨⟨t, rest⟩, hnext, h⟩ := Option.bind_eq_some_iff.1 h
        obtain ⟨us, hus, rfl⟩ := Option.map_eq_some_iff.1 h
        rcases List.mem_cons.1 hj with rfl | hj
        · exact isNumber_of_next? hnext
        · exact ih hus hj

end Token
end Json

namespace Json.Tree

/-- The numbers among the leaves of a tree. -/
inductive HasNumber : Tree → Option Json → Prop
  | leaf (n : Option Json) : HasNumber (.number n) n
  | item {vs : List Tree} {v : Tree} {n : Option Json} : v ∈ vs → HasNumber v n → HasNumber (.list vs) n
  | member {ms : List (Option String × Tree)} {name : Option String} {v : Tree} {n : Option Json} :
    (name, v) ∈ ms → HasNumber v n → HasNumber (.object ms) n

theorem hasNumber_list {vs : List Tree} {n : Option Json} : HasNumber (.list vs) n ↔ ∃ v ∈ vs, HasNumber v n :=
  ⟨fun | .item hv hn => ⟨_, hv, hn⟩, fun ⟨_, hv, hn⟩ => .item hv hn⟩

theorem hasNumber_object {ms : List (Option String × Tree)} {n : Option Json} :
    HasNumber (.object ms) n ↔ ∃ m ∈ ms, HasNumber m.2 n :=
  ⟨fun | .member hv hn => ⟨_, hv, hn⟩, fun ⟨_, hv, hn⟩ => .member hv hn⟩

/-- A tree read off tokens has its numbers from them, and what is left are tokens of the same text. -/
def From (ts : List Token) (v : Tree) (rest : List Token) : Prop :=
  (∀ n, HasNumber v n → .number n ∈ ts) ∧ rest ⊆ ts

section

variable {ts ts' rest : List Token} {v : Tree}

/-- Tokens before those that a tree is read off make no difference. -/
theorem From.of_subset (h : From ts' v rest) (part : ts' ⊆ ts) : From ts v rest :=
  ⟨fun n hn => part (h.1 n hn), List.Subset.trans h.2 part⟩

theorem From.list {vs : List Tree} (h : From ts v ts') (hs : From ts' (.list vs) rest) :
    From ts (.list (v :: vs)) rest := by
  refine ⟨fun n hn => ?_, List.Subset.trans hs.2 h.2⟩
  obtain ⟨w, hw, hw'⟩ := hasNumber_list.1 hn
  rcases List.mem_cons.1 hw with rfl | hw
  · exact h.1 n hw'
  · exact h.2 (hs.1 n (.item hw hw'))

theorem From.object {ms : List (Option String × Tree)} (name : Option String) (h : From ts v ts')
    (hs : From ts' (.object ms) rest) : From ts (.object ((name, v) :: ms)) rest := by
  refine ⟨fun n hn => ?_, List.Subset.trans hs.2 h.2⟩
  obtain ⟨⟨_, w⟩, hw, hn⟩ := hasNumber_object.1 hn
  rcases List.mem_cons.1 hw with he | hw
  · cases he
    exact h.1 n hn
  · exact h.2 (hs.1 n (.member hw hn))

theorem From.of_not_hasNumber (h : ∀ n, ¬ HasNumber v n) (part : rest ⊆ ts) : From ts v rest :=
  ⟨fun n hn => absurd hn (h n), part⟩

theorem From.nil_list (part : rest ⊆ ts) : From ts (.list []) rest := .of_not_hasNumber (by simp [hasNumber_list]) part

theorem From.nil_object (part : rest ⊆ ts) : From ts (.object []) rest := .of_not_hasNumber (by simp [hasNumber_object]) part

theorem From.number (n : Option Json) : From (.number n :: ts) (.number n) ts :=
  ⟨fun | _, .leaf _ => List.mem_cons_self, List.subset_cons_self _ _⟩

/-- The readers take turns, so they are looked at together, by their fuel. -/
theorem from_read (fuel : Nat) :
    (∀ {ts v rest}, read fuel ts = some (v, rest) → From ts v rest) ∧
    (∀ {ts vs rest}, readItems fuel ts = some (vs, rest) → From ts (.list vs) rest) ∧
    (∀ {ts ms rest}, readMembers fuel ts = some (ms, rest) → From ts (.object ms) rest) := by
  induction fuel with
  | zero => simp [read, readItems, readMembers]
  | succ fuel ih =>
    obtain ⟨ihTree, ihItems, ihMembers⟩ := ih
    refine ⟨?tree, ?items, ?members⟩
    case tree =>
      intro ts v rest h
      rw [read.eq_def] at h
      dsimp only at h
      split at h
      next => cases h; exact .of_not_hasNumber (by rintro _ ⟨⟩) (by simp)
      next => cases h; exact .of_not_hasNumber (by rintro _ ⟨⟩) (by simp)
      next => cases h; exact .of_not_hasNumber (by rintro _ ⟨⟩) (by simp)
      next => cases h; exact .number _
      next => cases h; exact .nil_list (by simp)
      next =>
        obtain ⟨⟨vs, rest⟩, hvs, h⟩ := Option.map_eq_some_iff.1 h
        cases h
        exact (ihItems hvs).of_subset (by simp)
      next => cases h; exact .nil_object (by simp)
      next =>
        obtain ⟨⟨ms, rest⟩, hms, h⟩ := Option.map_eq_some_iff.1 h
        cases h
        exact (ihMembers hms).of_subset (by simp)
      next => cases h
    case items =>
      intro ts vs rest h
      rw [readItems] at h
      obtain ⟨⟨v, ts'⟩, hv, h⟩ := Option.bind_eq_some_iff.1 h
      have hv := ihTree hv
      dsimp only at h
      split at h
      · cases h
        exact hv.list (.nil_list (by simp))
      · obtain ⟨⟨vs, rest⟩, hvs, h⟩ := Option.bind_eq_some_iff.1 h
        cases h
        exact hv.list ((ihItems hvs).of_subset (by simp))
      · cases h
    case members =>
      intro ts ms rest h
      rw [readMembers.eq_def] at h
      dsimp only at h
      split at h
      next name ts =>
        obtain ⟨⟨v, ts'⟩, hv, h⟩ := Option.bind_eq_some_iff.1 h
        have hv : From (.text name :: .colon :: ts) v ts' := (ihTree hv).of_subset (by simp)
        dsimp only at h
        split at h
        · cases h
          exact hv.object name (.nil_object (by simp))
        · obtain ⟨⟨ms, rest⟩, hms, h⟩ := Option.bind_eq_some_iff.1 h
          cases h
          exact hv.object name ((ihMembers hms).of_subset (by simp))
        · cases h
      next => cases h

end

/-- Every number of a tree has a value that numbers are read as, if it has one. -/
def Numeric (t : Tree) : Prop := ∀ j, HasNumber t (some j) → j.IsNumber

theorem numeric_of_ofSource? {body : Token.Source} {t : Tree} (h : ofSource? body = some t) : t.Numeric := by
  intro j hj
  obtain ⟨ts, hts, h⟩ := Option.bind_eq_some_iff.1 h
  split at h
  · rename_i hread
    cases h
    exact Token.isNumber_of_mem_allFrom hts (((from_read _).1 hread).1 _ hj)
  · cases h

theorem Numeric.item {vs : List Tree} {v : Tree} (h : Numeric (.list vs)) (hv : v ∈ vs) : v.Numeric :=
  fun j hj => h j (.item hv hj)

theorem Numeric.member {ms : List (Option String × Tree)} {name : String} {v : Tree} (h : Numeric (.object ms))
    (hv : Holds ms name (some v)) : v.Numeric :=
  fun j hj => h j (.member hv.mem hj)

theorem Numeric.minInt_le {i : Int} (h : Numeric (.number (some (.int i)))) : minInt ≤ i := by
  cases h _ (.leaf _)
  assumption

theorem Numeric.value?_eq_null_iff {depth : Nat} {v : Tree} (h : v.Numeric) :
    v.value? depth = some .null ↔ v = .null := by
  constructor
  · intro hv
    cases v with
    | null => rfl
    | bool b => simp [value?] at hv
    | text s => cases s <;> simp [value?] at hv
    | number n =>
      rw [value?] at hv
      subst hv
      cases h _ (.leaf _)
    | list vs => cases depth <;> simp [value?] at hv
    | object ms => cases depth <;> simp [value?, ofMembers] at hv
  · rintro rfl
    rw [value?]

end Json.Tree

end PluginTools
