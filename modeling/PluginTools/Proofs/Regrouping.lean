/-
What is read where an expression is written. Operands are written without their parentheses, so a reader groups
them anew, each operator by its level; attributes, brackets and parentheses behind an operator go to its last
operand; and a number loses what its text does not say. `reread` is the expression that is read, which has the
same text and is legible.
-/
import PluginTools.Proofs.FloatTexts

namespace PluginTools.Expr

/-! ## One more operand -/

/-- The expression with an operator and an operand behind its text. A sign in front of a power takes in the whole
power. -/
def extend (operator : String) (x : Expr) : Expr → Expr
  | .binary left o right =>
    if Level.right (levelOf o) < levelOf operator then .binary left o (extend operator x right)
    else .binary (.binary left o right) operator x
  | e =>
    if Level.left (levelOf operator) ≤ e.tightness then .binary e operator x
    else .verbatim "unary_operator" (Expr.binary e operator x).write

/-- The expression with an operator and another expression behind its text. -/
def joined (left : Expr) (operator : String) : Expr → Expr
  | .binary x o y => joined (joined left operator x) o y
  | x => extend operator x left

/-- The expression with an attribute, brackets or parentheses behind its text, which go to its last operand. -/
def attach (access : Expr → Expr) : Expr → Expr
  | .binary left operator right => .binary left operator (attach access right)
  | .verbatim kind text => .verbatim kind (access (.verbatim kind text)).write
  | e => access e

/-- The legible expressions whose last operand attributes, brackets and parentheses go to. -/
inductive EndsInBase : Expr → Prop
  | base {e : Expr} (he : Legible e) (hbase : e.isBase) : EndsInBase e
  | binary {left right : Expr} {operator : String} (he : Legible (.binary left operator right)) (h : EndsInBase right) :
    EndsInBase (.binary left operator right)
  | signed {e : Expr} (htight : Level.unary < e.tightness) (hnumber : e.isNumber = false) (h : EndsInBase e) :
    EndsInBase e.signed

theorem EndsInBase.legible {e : Expr} (h : EndsInBase e) : Legible e := by
  induction h with
  | base he => exact he
  | binary he => exact he
  | signed htight hnumber _ ih => exact .signed ih htight hnumber

variable {e x left right : Expr} {operator : String}

theorem chars_extend (operator : String) (x e : Expr) :
    (extend operator x e).chars = e.chars ++ ' ' :: (operator.toList ++ ' ' :: x.chars) := by
  fun_induction extend operator x e with
  | case1 left o right _ ih => simp [chars_binary, ih]
  | case2 left o right _ => rfl
  | case3 e _ _ => rfl
  | case4 e _ _ => simp [chars, write]

theorem extend_of_not_isBinary (operator : String) (x : Expr) (h : e.isBinary = false) : extend operator x e =
    if Level.left (levelOf operator) ≤ e.tightness then .binary e operator x
    else .verbatim "unary_operator" (Expr.binary e operator x).write := by
  cases e <;> first | rfl | cases h

/-- Only a power takes anything from an operand that is no operator, and only from its sign. -/
theorem signed_of_not_left_le (hbinary : e.isBinary = false) {level : Int} (hle : level ≤ Level.power)
    (h : ¬Level.left level ≤ e.tightness) : e.isSigned ∧ level = Level.power := by
  rw [tightness_of_not_isBinary hbinary] at h
  unfold Level.left Level.operand Level.power at *
  cases hsigned : e.isSigned with
  | true =>
    refine ⟨rfl, ?_⟩
    by_contra hne
    rw [if_neg hne, hsigned, if_pos rfl] at h
    exact h hle
  | false =>
    rw [hsigned, if_neg Bool.false_ne_true] at h
    exfalso
    split at h <;> omega

/-- A signed operand takes in a power behind it. -/
theorem extend_signed {y : Expr} (hsigned : e.isSigned) (hbinary : e.isBinary = false) (htext : e.chars = '-' :: y.chars)
    (hpower : levelOf operator = Level.power) : extend operator x e = (extend operator x y).signed := by
  have hloose : ¬Level.left (levelOf operator) ≤ e.tightness := by
    rw [tightness_of_not_isBinary hbinary, hsigned, hpower]
    decide
  rw [extend_of_not_isBinary operator x hbinary, if_neg hloose, signed, chars_extend, write, chars_binary, htext]
  rfl

/-- An expression with an operand behind it. -/
structure Extends (e x : Expr) (operator : String) : Prop where
  legible : (extend operator x e).Legible
  tight : min e.tightness (levelOf operator) ≤ (extend operator x e).tightness
  number : (extend operator x e).isNumber = false
  base : x.EndsInBase → (extend operator x e).EndsInBase

theorem extends_of_legible (he : e.Legible) (hx : x.Legible) (hbinary : x.isBinary = false) (hop : isOperator operator) :
    Extends e x operator := by
  have hx_tight : Level.right (levelOf operator) < x.tightness :=
    Int.lt_of_lt_of_le (Int.lt_of_le_of_lt (Level.right_le (levelOf_bounds hop).2) (by decide)) (power_le_tightness hbinary)
  have hdirect : ∀ {e : Expr}, e.Legible → Level.left (levelOf operator) ≤ e.tightness →
      extend operator x e = .binary e operator x → Extends e x operator := by
    intro e he hl heq
    have hlegible : (Expr.binary e operator x).Legible := .binary he hx hop hl hx_tight
    refine ⟨heq ▸ hlegible, heq ▸ min_le_right _ _, heq ▸ rfl, fun hb => heq ▸ .binary hlegible hb⟩
  induction hsize : e.chars.length using Nat.strongRecOn generalizing e with
  | _ size ih =>
    cases hbin : e.isBinary with
    | true =>
      cases he with
      | @binary left right o hleft hright ho hl hr =>
        rw [chars_binary, List.length_append, List.length_cons, List.length_append, List.length_cons] at hsize
        by_cases hlevel : Level.right (levelOf o) < levelOf operator
        · have heq : extend operator x (.binary left o right) = .binary left o (extend operator x right) := by
            simp [extend, hlevel]
          obtain ⟨hlegible, htight, -, hbase⟩ := ih right.chars.length (by omega) hright rfl
          have hwhole : (Expr.binary left o (extend operator x right)).Legible :=
            .binary hleft hlegible ho hl (Int.lt_of_lt_of_le (lt_min hr hlevel) htight)
          exact ⟨heq ▸ hwhole, heq ▸ min_le_left _ _, heq ▸ rfl, fun hb => heq ▸ .binary hwhole (hbase hb)⟩
        · refine hdirect (.binary hleft hright ho hl hr) ?_ (by simp [extend, hlevel])
          exact Level.left_le_of_not_right_lt (levelOf_bounds ho).2 hlevel
      | _ => cases hbin
    | false =>
      by_cases hl : Level.left (levelOf operator) ≤ e.tightness
      · exact hdirect he hl (by rw [extend_of_not_isBinary operator x hbin, if_pos hl])
      · obtain ⟨hsigned, hpower⟩ := signed_of_not_left_le hbin (levelOf_bounds hop).2 hl
        obtain ⟨y, hy, hytight, htext, -⟩ := he.unsigned hsigned
        have heq := extend_signed (x := x) hsigned hbin htext hpower
        obtain ⟨hlegible, htight, hnumber, hbase⟩ := ih y.chars.length (by simp [← hsize, htext]) hy rfl
        have hunary : Level.unary < (extend operator x y).tightness :=
          Int.lt_of_lt_of_le (lt_min hytight (by rw [hpower]; decide)) htight
        refine ⟨heq ▸ .signed hlegible hunary hnumber, ?_, heq ▸ rfl, fun hb => heq ▸ .signed hunary hnumber (hbase hb)⟩
        rw [heq, hpower]
        exact min_le_right _ _

/-! ## One more expression -/

/-- Induction on the operands of an expression: what is no operator has none. -/
theorem binary_induct {P : Expr → Prop}
    (binary : ∀ left operator right, P left → P right → P (.binary left operator right))
    (other : ∀ e, e.isBinary = false → P e) (e : Expr) : P e := by
  cases e with
  | binary left operator right =>
    exact binary left operator right (binary_induct binary other left) (binary_induct binary other right)
  | _ => exact other _ rfl

theorem joined_of_not_isBinary (left : Expr) (operator : String) (h : e.isBinary = false) :
    joined left operator e = extend operator e left := by
  cases e <;> first | rfl | cases h

theorem chars_joined (left : Expr) (operator : String) (e : Expr) :
    (joined left operator e).chars = left.chars ++ ' ' :: (operator.toList ++ ' ' :: e.chars) := by
  induction e using binary_induct generalizing left operator with
  | binary x o y ihx ihy => simp [joined, chars_binary, ihx, ihy]
  | other e h => rw [joined_of_not_isBinary left operator h, chars_extend]

theorem EndsInBase.of_binary (h : (Expr.binary left operator right).EndsInBase) : right.EndsInBase := by
  cases h with
  | base _ hbase => cases hbase
  | binary _ hright => exact hright

theorem legible_joined (hleft : left.Legible) (he : e.Legible) (hop : isOperator operator) :
    (joined left operator e).Legible ∧ (e.EndsInBase → (joined left operator e).EndsInBase) := by
  induction e using binary_induct generalizing left operator with
  | binary x o y ihx ihy =>
    cases he with
    | binary hx hy ho =>
      have hwhole := ihy (ihx hleft hx hop).1 hy ho
      exact ⟨hwhole.1, fun h => hwhole.2 h.of_binary⟩
  | other e h =>
    have hextends := extends_of_legible hleft he h hop
    rw [joined_of_not_isBinary left operator h]
    exact ⟨hextends.legible, hextends.base⟩

/-- The level at which an operand is read leaves room for an operator that binds tighter. -/
theorem right_lt_of_right {o o' : String} {y : Expr} (ho : isOperator o) (hlt : Level.right (levelOf o) < levelOf o')
    (hy : Level.right (levelOf o') < y.tightness) : Level.right (levelOf o) < y.tightness := by
  have hle := Level.right_le (levelOf_bounds ho).2
  have hright : Level.right (levelOf o') = Level.unary ∨ Level.right (levelOf o') = levelOf o' := by
    unfold Level.right
    split <;> simp
  rcases hright with h | h <;> omega

/-- Operators that bind tighter than an operator are part of its right operand. -/
theorem joined_binary {o : String} (ho : isOperator o) (hlt : Level.right (levelOf o) < levelOf operator) (he : e.Legible)
    (hr : Level.right (levelOf o) < e.tightness) :
    joined (.binary left o right) operator e = .binary left o (joined right operator e) := by
  induction he generalizing left right operator with
  | @binary x y o' _ _ ho' hl hry ihx ihy =>
    have hx : Level.right (levelOf o) < x.tightness := Int.lt_of_lt_of_le hr (Int.le_trans (Level.le_left _) hl)
    rw [joined, joined, ihx hlt hx, ihy hr (right_lt_of_right ho hr hry)]
  | _ => rw [joined_of_not_isBinary _ _ rfl, joined_of_not_isBinary _ _ rfl, extend, if_pos hlt]

/-- A left operand takes in nothing of the operator behind it. -/
theorem extend_left {x : Expr} (hleft : left.Legible) (hl : Level.left (levelOf operator) ≤ left.tightness) :
    extend operator x left = .binary left operator x := by
  cases hbinary : left.isBinary with
  | false => rw [extend_of_not_isBinary operator x hbinary, if_pos hl]
  | true =>
    cases hleft with
    | binary _ _ ho => rw [extend, if_neg (Level.not_right_lt_of_left_le (levelOf_bounds ho).2 hl)]
    | _ => cases hbinary

/-- **A legible expression is grouped as it reads.** -/
theorem joined_of_legible (h : (Expr.binary left operator e).Legible) : joined left operator e = .binary left operator e := by
  have he : e.Legible := by
    cases h with
    | binary _ he => exact he
  induction he generalizing left operator with
  | @binary x y o hx hy ho hlo hro ihx ihy =>
    cases h with
    | binary hleft _ hop hl hr =>
      have hxt : Level.right (levelOf operator) < x.tightness := Int.lt_of_lt_of_le hr (Int.le_trans (Level.le_left _) hlo)
      calc joined left operator (.binary x o y)
        _ = joined (joined left operator x) o y := rfl
        _ = joined (.binary left operator x) o y := by rw [ihx (.binary hleft hx hop hl hxt)]
        _ = .binary left operator (joined x o y) := joined_binary hop hr hy (right_lt_of_right hop hr hro)
        _ = .binary left operator (.binary x o y) := by rw [ihy (.binary hx hy ho hlo hro)]
  | _ =>
    cases h with
    | binary hleft _ hop hl hr => rw [joined_of_not_isBinary _ _ rfl, extend_left hleft hl]

/-! ## Attributes, brackets and parentheses -/

/-- What may stand behind a base, and its text. -/
structure Accesses (access : Expr → Expr) (post : List Char) : Prop where
  chars : ∀ e, (access e).chars = e.chars ++ post
  legible : ∀ {e : Expr}, e.Legible → e.isBase → (access e).Legible
  base : ∀ e, (access e).isBase

section
variable {access : Expr → Expr} {post : List Char} (h : Accesses access post)
include h

theorem chars_attach (e : Expr) : (attach access e).chars = e.chars ++ post := by
  fun_induction attach access e with
  | case1 left operator right ih => simp [chars_binary, ih]
  | case2 kind text => simp [Expr.chars, write, h.chars]
  | case3 e _ _ => exact h.chars e

theorem endsInBase_attach (he : e.EndsInBase) : (attach access e).EndsInBase ∧ (attach access e).tightness = e.tightness ∧
    (attach access e).isNumber = false := by
  induction he with
  | @base e he hbase =>
    have hattach : attach access e = access e := by
      cases e <;> first | rfl | cases hbase
    have htight : ∀ {e : Expr}, e.isBase → e.tightness = Level.operand := fun hb =>
      tightness_of_not_isSigned (not_isSigned_of_isBase hb).1 (not_isSigned_of_isBase hb).2
    rw [hattach, htight hbase, htight (h.base e)]
    exact ⟨.base (h.legible he hbase) (h.base e), rfl, not_isNumber_of_isBase (h.base e)⟩
  | @binary left right operator he _ ih =>
    obtain ⟨hright, htight, -⟩ := ih
    cases he with
    | binary hleft _ hop hl hr =>
      exact ⟨.binary (.binary hleft hright.legible hop hl (htight ▸ hr)) hright, rfl, rfl⟩
  | @signed e htight hnumber _ ih =>
    obtain ⟨hends, heq, hnumber⟩ := ih
    have hattach : attach access e.signed = (attach access e).signed := by
      have htext := chars_attach h e
      have hwhole := h.chars e.signed
      rw [chars_signed] at hwhole
      simp only [signed, attach, write, htext] at hwhole ⊢
      rw [hwhole]
      rfl
    rw [hattach]
    exact ⟨.signed (heq ▸ htight) hnumber hends, rfl, rfl⟩

end

/-! ## Floats -/

/-- The number that a text of digits is read as. -/
def ofDigits (digits : List Char) : Expr := Numeral.wholeExpr 10 digits digits []

/-- What the text of a float is read as: the float, unless the text has no decimal point. -/
def rereadFloat (d : Double) : Expr :=
  if '.' ∈ d.literalText then .literal (.float d)
  else if d.isNegative then (Rules.signed '-' (ofDigits d.magnitude.literalText) d.literalText []).expr
  else ofDigits d.literalText

/-! ## What is read -/

/-- The last operand of the text. -/
def last : Expr → Expr
  | .binary _ _ right => right.last
  | e => e

mutual

/-- The expression that the text of an expression is read as. -/
def reread : Expr → Expr
  | .literal (.float d) => rereadFloat d
  | .attribute value field => attach (.attribute · field) value.reread
  | .subscript value (.tuple (x :: xs)) =>
    attach (.subscript · (Rules.sliceOf (x.reread :: rereadItems xs))) value.reread
  | .subscript value slice => attach (.subscript · slice.reread) value.reread
  | .tuple xs => .tuple (rereadItems xs)
  | .list xs => .list (rereadItems xs)
  | .call function xs ks => attach (.call · (rereadItems xs) (rereadKeywords ks)) function.reread
  | .binary left operator right => joined left.reread operator right.reread
  | e => e

def rereadItems : List Expr → List Expr
  | [] => []
  | x :: xs => x.reread :: rereadItems xs

def rereadKeywords : List (String × Expr) → List (String × Expr)
  | [] => []
  | (k, x) :: ks => (k, x.reread) :: rereadKeywords ks

end

/-- The expressions that are written part by part: nothing in them is kept with its own text. -/
inductive Ordinary : Expr → Prop
  | name {id : String} (hid : isOperandName id) : Ordinary (.name id)
  | text (s : String) : Ordinary (.text s)
  | int {i : Int} (hlow : -2 ^ 63 < i) (hhigh : i < 2 ^ 63) : Ordinary (.literal (.int i))
  | float {d : Double} (hd : d.IsNumber) : Ordinary (.literal (.float d))
  | bool (b : Bool) : Ordinary (.literal (.bool b))
  | none : Ordinary (.literal .none)
  | member {value : Expr} {field : String} (hvalue : Ordinary value) (hbase : value.last.isBase)
    (hfield : Word.isWord field.toList) : Ordinary (.attribute value field)
  | subscript {value slice : Expr} (hvalue : Ordinary value) (hbase : value.last.isBase)
    (hslice : ∀ x ∈ slice.indices, Ordinary x) (hpair : ∀ y ys, slice ≠ .tuple [.tuple (y :: ys)]) :
    Ordinary (.subscript value slice)
  | call {function : Expr} {arguments : List Expr} {keywords : List (String × Expr)} (hfunction : Ordinary function)
    (hbase : function.last.isBase) (harguments : ∀ x ∈ arguments, Ordinary x) (hnames : ∀ k ∈ keywords, isOperandName k.1)
    (hkeywords : ∀ k ∈ keywords, Ordinary k.2) : Ordinary (.call function arguments keywords)
  | tuple {items : List Expr} (hitems : ∀ x ∈ items, Ordinary x) : Ordinary (.tuple items)
  | list {items : List Expr} (hitems : ∀ x ∈ items, Ordinary x) : Ordinary (.list items)
  | binary {left right : Expr} {operator : String} (hleft : Ordinary left) (hright : Ordinary right)
    (hop : isOperator operator) : Ordinary (.binary left operator right)

theorem rereadItems_eq_map (xs : List Expr) : rereadItems xs = xs.map reread := by
  induction xs with
  | nil => rfl
  | cons x xs ih => rw [rereadItems, ih, List.map_cons]

theorem rereadKeywords_eq_map (ks : List (String × Expr)) : rereadKeywords ks = ks.map fun k => (k.1, k.2.reread) := by
  induction ks with
  | nil => rfl
  | cons k ks ih => rw [rereadKeywords, ih, List.map_cons]

theorem reread_subscript (value slice : Expr) : (Expr.subscript value slice).reread =
    attach (.subscript · (Rules.sliceOf (slice.indices.map reread))) value.reread := by
  unfold indices
  split
  · next x xs => rw [reread, rereadItems_eq_map, List.map_cons]
  · next h =>
    rw [reread]
    · rfl
    · exact fun x xs he => h x xs he

theorem reread_call (f : Expr) (xs : List Expr) (ks : List (String × Expr)) : (Expr.call f xs ks).reread =
    attach (.call · (xs.map reread) (ks.map fun k => (k.1, k.2.reread))) f.reread := by
  rw [reread, rereadItems_eq_map, rereadKeywords_eq_map]

/-! ### Parts -/

theorem accesses_member {field : String} (hfield : Word.isWord field.toList) :
    Accesses (.attribute · field) ('.' :: field.toList) where
  chars _ := rfl
  legible he hbase := .member he hbase hfield
  base _ := rfl

theorem accesses_call {xs : List Expr} {ks : List (String × Expr)} (hxs : ∀ x ∈ xs, Legible x)
    (hnames : ∀ k ∈ ks, isOperandName k.1) (hks : ∀ k ∈ ks, Legible k.2) :
    Accesses (.call · xs ks) ('(' :: (commaSeparated (xs.map chars ++ ks.map keywordText) ++ [')'])) where
  chars e := chars_call e xs ks
  legible he hbase := .call he hbase hxs hnames hks
  base _ := rfl

/-- Some indices make a slice that has just them, unless they are one tuple with items. -/
theorem indices_sliceOf {xs : List Expr} (hne : xs ≠ []) (h : ∀ y ys, xs ≠ [.tuple (y :: ys)]) :
    (Rules.sliceOf xs).indices = xs ∧ ∀ x, Rules.sliceOf xs ≠ .tuple [x] := by
  rcases xs with _ | ⟨x, _ | ⟨y, ys⟩⟩
  · exact absurd rfl hne
  · have hx : ∀ z zs, x ≠ .tuple (z :: zs) := fun z zs he => h z zs (by rw [he])
    refine ⟨?_, fun z => hx z []⟩
    unfold Rules.sliceOf indices
    split
    · next z zs heq => exact absurd heq (hx z zs)
    · rfl
  · exact ⟨rfl, by simp [Rules.sliceOf]⟩

theorem accesses_subscript {xs : List Expr} (hxs : ∀ x ∈ xs, Legible x) (hne : xs ≠ [])
    (h : ∀ y ys, xs ≠ [.tuple (y :: ys)]) :
    Accesses (.subscript · (Rules.sliceOf xs)) ('[' :: (commaSeparated (xs.map chars) ++ [']'])) where
  chars e := by rw [chars_subscript, (indices_sliceOf hne h).1]
  legible he hbase := .subscript he hbase ((indices_sliceOf hne h).1.symm ▸ hxs) (indices_sliceOf hne h).2
  base _ := rfl

/-- Whether the expression is an operator or kept with its text. -/
def isLoose : Expr → Bool
  | .binary .. | .verbatim .. => true
  | _ => false

theorem isLoose_extend (operator : String) (x e : Expr) : (extend operator x e).isLoose := by
  fun_induction extend operator x e <;> rfl

theorem isLoose_joined (left : Expr) (operator : String) (e : Expr) : (joined left operator e).isLoose := by
  induction e using binary_induct generalizing left operator with
  | binary x o y _ ih => exact ih (joined left operator x) o
  | other e h => exact joined_of_not_isBinary left operator h ▸ isLoose_extend operator e left

theorem ofDigits_toDigits (n : Nat) : ofDigits (Nat.toDigits 10 n) = if n ≤ Numeral.maxInt then .literal (.int n)
    else .verbatim "integer" (String.ofList (Nat.toDigits 10 n)) := by
  have hdigits : ∀ c ∈ Nat.toDigits 10 n, Number.isDigit c := fun _ => Number.isDigit_of_mem_toDigits
  by_cases hn : n ≤ Numeral.maxInt <;> simp [ofDigits, Numeral.wholeExpr, Numeral.int?,
    Numeral.withoutUnderscores_of_isDigit hdigits, Number.whole?_toDigits, hn]

theorem ofDigits_ne_tuple (digits : List Char) (items : List Expr) : ofDigits digits ≠ .tuple items := by
  unfold ofDigits Numeral.wholeExpr
  split
  · next e he =>
    simp only [Numeral.int?, List.isEmpty_nil, ↓reduceIte] at he
    split at he
    · split at he
      · cases he
        simp
      · cases he
    · cases he
  · simp

theorem rereadFloat_ne_tuple (d : Double) (items : List Expr) : rereadFloat d ≠ .tuple items := by
  unfold rereadFloat
  split
  · simp
  · split
    · unfold Rules.signed
      split <;> simp [Operand.verbatim]
    · exact ofDigits_ne_tuple _ items

theorem attach_ne_tuple {access : Expr → Expr} {items : List Expr} (h : ∀ e, access e ≠ .tuple items) (e : Expr) :
    attach access e ≠ .tuple items := by
  fun_induction attach access e with
  | case1 => simp
  | case2 => simp
  | case3 e _ _ => exact h e

/-- Only a tuple is read as a tuple. -/
theorem eq_tuple_of_reread {items : List Expr} (hitems : e.reread = .tuple items) :
    ∃ items', e = .tuple items' ∧ items = items'.map reread := by
  cases e with
  | tuple xs =>
    cases hitems
    exact ⟨xs, rfl, rereadItems_eq_map xs⟩
  | literal l =>
    cases l with
    | float d => exact absurd hitems (rereadFloat_ne_tuple d items)
    | _ => cases hitems
  | subscript value slice =>
    rw [reread_subscript] at hitems
    exact absurd hitems (attach_ne_tuple (fun _ => by simp) _)
  | binary left operator right =>
    have hloose := isLoose_joined left.reread operator right.reread
    rw [reread] at hitems
    rw [hitems] at hloose
    cases hloose
  | name | list | verbatim => cases hitems
  | _ => exact absurd hitems (attach_ne_tuple (fun _ => by simp) _)

/-- The indices of a slice are one tuple with items only if the slice is a tuple of that. -/
theorem indices_ne_tuple {slice : Expr} (h : ∀ y ys, slice ≠ .tuple [.tuple (y :: ys)]) (y : Expr) (ys : List Expr) :
    slice.indices ≠ [.tuple (y :: ys)] := by
  unfold indices
  split
  · next x xs =>
    rintro heq
    obtain ⟨rfl, rfl⟩ := List.cons.inj heq
    exact h y ys rfl
  · next hslice => exact fun heq => hslice y ys (List.cons.inj heq).1

theorem map_reread_ne_tuple {slice : Expr} (h : ∀ y ys, slice ≠ .tuple [.tuple (y :: ys)]) (y : Expr) (ys : List Expr) :
    slice.indices.map reread ≠ [.tuple (y :: ys)] := by
  intro heq
  obtain ⟨z, hz, hread⟩ := List.map_eq_singleton_iff.1 heq
  obtain ⟨items, rfl, hitems⟩ := eq_tuple_of_reread hread
  obtain ⟨x, xs, rfl⟩ : ∃ x xs, items = x :: xs := by
    cases items with
    | nil => cases hitems
    | cons x xs => exact ⟨x, xs, rfl⟩
  exact indices_ne_tuple h x xs hz

/-- A float is read as itself or as the whole number of its text. -/
theorem legible_rereadFloat {d : Double} (h : d.IsNumber) :
    (rereadFloat d).Legible ∧ (rereadFloat d).chars = (Expr.literal (.float d)).chars := by
  rcases h.text with ⟨hpoint, hreads⟩ | ⟨hpoint, n, hn, htext⟩
  · rw [rereadFloat, if_pos hpoint]
    exact ⟨.float hreads, rfl⟩
  · have hlegible : (ofDigits (Nat.toDigits 10 n)).Legible ∧ (ofDigits (Nat.toDigits 10 n)).chars = Nat.toDigits 10 n := by
      rw [ofDigits_toDigits]
      split
      · next hmax =>
        rw [Numeral.maxInt_eq] at hmax
        exact ⟨.int (by omega) (by omega), by rw [chars_int, if_pos (by omega), Int.toNat_natCast]⟩
      · exact ⟨.large (by omega), by rw [chars, String.toList_ofList]⟩
    rw [rereadFloat, if_neg hpoint]
    cases hneg : d.isNegative with
    | false =>
      rw [Double.magnitude_of_not_isNegative hneg] at htext
      rw [if_neg (by simp), chars, Literal.chars, htext]
      exact hlegible
    | true =>
      have hwhole := d.literalText_of_isNegative hneg
      rw [htext] at hwhole
      rw [if_pos rfl, chars, Literal.chars, htext, hwhole, ofDigits_toDigits]
      rw [ofDigits_toDigits] at hlegible
      split
      · next hmax =>
        rw [Numeral.maxInt_eq] at hmax
        refine ⟨.int (by omega) (by omega), ?_⟩
        simp only [Rules.signed]
        rw [chars_int, if_neg (by omega)]
        simp
      · next hmax =>
        rw [if_neg hmax] at hlegible
        have hsigned := Legible.signed hlegible.1 (show Level.unary < Level.operand by decide) rfl
        have htext : (Rules.signed '-' (.verbatim "integer" (String.ofList (Nat.toDigits 10 n)))
            ('-' :: Nat.toDigits 10 n) []).expr = Expr.signed (.verbatim "integer" (String.ofList (Nat.toDigits 10 n))) := by
          simp [Rules.signed, Operand.verbatim, between, Expr.signed, chars]
        exact ⟨htext ▸ hsigned, by rw [htext, chars_signed, hlegible.2]⟩

/-- What is read where an expression is written: it is legible, has the same text, and if a base ends the text, what
stands behind goes to that. -/
structure Rereads (e : Expr) : Prop where
  legible : e.reread.Legible
  chars : e.reread.chars = e.chars
  ends : e.last.isBase → e.reread.EndsInBase

/-- What is legible and is no operator may be read as it is. -/
theorem Legible.rereads (h : e.Legible) (hself : e.reread = e) (hbase : e.last.isBase → e.isBase) : e.Rereads where
  legible := hself.symm ▸ h
  chars := by rw [hself]
  ends hb := hself.symm ▸ .base h (hbase hb)

/-- An attribute, brackets or parentheses behind an expression. -/
theorem Rereads.of_attach {access : Expr → Expr} {post : List Char} {value : Expr} (h : value.Rereads)
    (haccess : Accesses access post) (hbase : value.last.isBase) (hread : e.reread = attach access value.reread)
    (htext : e.chars = value.chars ++ post) : e.Rereads := by
  have hattach := (endsInBase_attach haccess (h.ends hbase)).1
  exact ⟨hread ▸ hattach.legible, by rw [hread, chars_attach haccess, h.chars, htext], fun _ => hread ▸ hattach⟩

section
variable {xs : List Expr} (hxs : ∀ x ∈ xs, Rereads x)
include hxs

theorem legible_map_reread : ∀ x ∈ xs.map reread, Legible x := List.forall_mem_map.2 fun x hx => (hxs x hx).legible

theorem chars_map_reread : (xs.map reread).map chars = xs.map chars := by
  rw [List.map_map]
  exact List.map_congr_left fun x hx => (hxs x hx).chars

theorem rereads_tuple : (Expr.tuple xs).Rereads := by
  have hread : (Expr.tuple xs).reread = .tuple (xs.map reread) := by rw [reread, rereadItems_eq_map]
  have hlegible : (Expr.tuple (xs.map reread)).Legible := .tuple (legible_map_reread hxs)
  have htexts := chars_map_reread hxs
  refine ⟨hread ▸ hlegible, ?_, fun _ => hread ▸ .base hlegible rfl⟩
  rw [hread]
  rcases xs with _ | ⟨x, _ | ⟨y, ys⟩⟩
  · rfl
  · simp [chars, (hxs x (by simp)).chars]
  · rw [chars_tuple (by simp), chars_tuple (by simp), htexts]

theorem rereads_list : (Expr.list xs).Rereads := by
  have hread : (Expr.list xs).reread = .list (xs.map reread) := by rw [reread, rereadItems_eq_map]
  have hlegible : (Expr.list (xs.map reread)).Legible := .list (legible_map_reread hxs)
  refine ⟨hread ▸ hlegible, ?_, fun _ => hread ▸ .base hlegible rfl⟩
  rw [hread, chars_list, chars_list, chars_map_reread hxs]

end

theorem Rereads.subscript {value slice : Expr} (h : value.Rereads) (hbase : value.last.isBase)
    (hslice : ∀ x ∈ slice.indices, Rereads x) (hpair : ∀ y ys, slice ≠ .tuple [.tuple (y :: ys)]) :
    (Expr.subscript value slice).Rereads := by
  have hne : slice.indices.map reread ≠ [] := by simpa using slice.indices_ne_nil
  have haccess := accesses_subscript (legible_map_reread hslice) hne (map_reread_ne_tuple hpair)
  refine h.of_attach haccess hbase (reread_subscript value slice) ?_
  rw [chars_subscript, chars_map_reread hslice]

theorem Rereads.call {f : Expr} {xs : List Expr} {ks : List (String × Expr)} (h : f.Rereads) (hbase : f.last.isBase)
    (hxs : ∀ x ∈ xs, Rereads x) (hnames : ∀ k ∈ ks, isOperandName k.1) (hks : ∀ k ∈ ks, Rereads k.2) :
    (Expr.call f xs ks).Rereads := by
  have haccess : Accesses (.call · (xs.map reread) (ks.map fun k => (k.1, k.2.reread))) _ :=
    accesses_call (legible_map_reread hxs) (List.forall_mem_map.2 hnames)
      (List.forall_mem_map.2 fun k hk => (hks k hk).legible)
  have hktexts : (ks.map fun k => (k.1, k.2.reread)).map keywordText = ks.map keywordText := by
    rw [List.map_map]
    exact List.map_congr_left fun k hk => by simp [keywordText, (hks k hk).chars]
  refine h.of_attach haccess hbase (reread_call f xs ks) ?_
  rw [chars_call, chars_map_reread hxs, hktexts]

theorem Rereads.binary (hl : left.Rereads) (hr : right.Rereads) (hop : isOperator operator) :
    (Expr.binary left operator right).Rereads := by
  have hread : (Expr.binary left operator right).reread = joined left.reread operator right.reread := by rw [reread]
  have hjoined := legible_joined hl.legible hr.legible hop
  refine ⟨hread ▸ hjoined.1, ?_, fun hb => hread ▸ hjoined.2 (hr.ends hb)⟩
  rw [hread, chars_joined, chars_binary, hl.chars, hr.chars]

/-- **What is read where an ordinary expression is written** is legible and has the same text. -/
theorem Ordinary.rereads (h : e.Ordinary) : e.Rereads := by
  induction h with
  | name hid => exact (Legible.name hid).rereads rfl id
  | text s => exact (Legible.text s).rereads rfl id
  | int hlow hhigh => exact (Legible.int hlow hhigh).rereads rfl id
  | float hd => exact ⟨(legible_rereadFloat hd).1, (legible_rereadFloat hd).2, fun hb => by cases hb⟩
  | bool b => exact (Legible.bool b).rereads rfl id
  | none => exact Legible.none.rereads rfl id
  | member _ hbase hfield ih => exact ih.of_attach (accesses_member hfield) hbase (by rw [reread]) rfl
  | subscript _ hbase _ hpair ih ihs => exact ih.subscript hbase ihs hpair
  | call _ hbase _ hnames _ ih ihx ihk => exact ih.call hbase ihx hnames ihk
  | tuple _ ih => exact rereads_tuple ih
  | list _ ih => exact rereads_list ih
  | binary _ _ hop ihl ihr => exact ihl.binary ihr hop

end PluginTools.Expr
