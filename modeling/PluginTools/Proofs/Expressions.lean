/-
A legible expression reads back: the text that is written for it is read, by rules deep enough for its
brackets, as the expression itself, up to a token that ends it. The induction is on the depth of the rules;
each pair of brackets takes three levels of it and each operator one, and its characters pay for them.
-/
import PluginTools.Proofs.Brackets
import PluginTools.Source.Parser

namespace PluginTools

open Layout (endsWord startsToken)
open Place (itemsText)

theorem length_le_length_commaSeparated {y : List Char} {ys : List (List Char)} (h : y ∈ ys) :
    y.length ≤ (commaSeparated ys).length := by
  cases ys with
  | nil => simp at h
  | cons z zs =>
    rw [commaSeparated_cons, List.length_append]
    rcases List.mem_cons.1 h with rfl | h
    · exact Nat.le_add_right _ _
    · obtain ⟨as, bs, rfl⟩ := List.append_of_mem h
      simp only [List.flatMap_append, List.flatMap_cons, List.length_append, List.length_cons]
      omega

namespace Expr

variable {x : Expr}

theorem length_lt_of_mem_tuple {items : List Expr} (h : x ∈ items) : x.chars.length < (Expr.tuple items).chars.length := by
  rcases items with _ | ⟨y, _ | ⟨z, zs⟩⟩
  · simp at h
  · rw [List.mem_singleton.1 h]
    simp only [chars, List.length_cons, List.length_append]
    omega
  · have hle := length_le_length_commaSeparated (List.mem_map_of_mem (f := chars) h)
    rw [chars_tuple (by simp)]
    simp only [List.length_cons, List.length_append]
    omega

theorem length_lt_of_mem_list {items : List Expr} (h : x ∈ items) : x.chars.length < (Expr.list items).chars.length := by
  have hle := length_le_length_commaSeparated (List.mem_map_of_mem (f := chars) h)
  rw [chars_list]
  simp only [List.length_cons, List.length_append]
  omega

theorem length_lt_of_mem_indices {value slice : Expr} (h : x ∈ slice.indices) :
    x.chars.length < (Expr.subscript value slice).chars.length := by
  have hle := length_le_length_commaSeparated (List.mem_map_of_mem (f := chars) h)
  rw [chars_subscript]
  simp only [List.length_cons, List.length_append]
  omega

variable {f : Expr} {xs : List Expr} {ks : List (String × Expr)}

theorem length_lt_of_mem_arguments (h : x ∈ xs) : x.chars.length < (Expr.call f xs ks).chars.length := by
  have hle := length_le_length_commaSeparated
    (List.mem_append_left (ks.map keywordText) (List.mem_map_of_mem (f := chars) h))
  rw [chars_call]
  simp only [List.length_cons, List.length_append]
  omega

theorem length_lt_of_mem_keywords {k : String × Expr} (h : k ∈ ks) :
    k.2.chars.length < (Expr.call f xs ks).chars.length := by
  have hle := length_le_length_commaSeparated
    (List.mem_append_right (xs.map chars) (List.mem_map_of_mem (f := keywordText) h))
  have htext : (keywordText k).length = k.1.toList.length + (k.2.chars.length + 1) := by simp [keywordText]
  rw [chars_call]
  simp only [List.length_cons, List.length_append]
  omega

end Expr

namespace Rules

/-! ## Rules of a depth -/

section
variable (n : Nat) (p : Place) (level : Int) (cs : List Char)

theorem depth_expression : (depth (n + 1)).expression p level cs = (depth n).expressionRule p level cs := rfl

theorem depth_primary : (depth (n + 1)).primary p level cs = (depth n).primaryRule p level cs := rfl

theorem depth_chain : (depth (n + 1)).chain p cs = (depth n).chainRule p cs := rfl

end

/-- No operand starts with a closing parenthesis. -/
theorem item_closing (n : Nat) (p : Place) (t : List Char) : (depth n).item p (')' :: t) = .none := by
  have hword : Word.read? (')' :: t) = .none := Layout.read?_mark (by decide) t
  have hafter : ∀ word, Word.after? word (')' :: t) = .none := Word.after?_of_read?_eq_none hword
  have hchain : ∀ n p, (depth n).chain p (')' :: t) = .none := by
    intro n p
    cases n with
    | zero => rfl
    | succ n =>
      have hatom : (depth n).atom p (')' :: t) = .none := by
        simp [atom, hword, Layout.startsString_mark (show Layout.isMark ')' by decide),
          Numeral.read?_of_not_isDigit (show Number.isDigit ')' = false by decide) (by decide)]
      simp [depth_chain, chainRule, awaited?_eq_none (hafter "await"), hatom]
  have hprimary : ∀ n p level, (depth n).primary p level (')' :: t) = .none := by
    intro n p level
    cases n with
    | zero => rfl
    | succ n =>
      simp [depth_primary, primaryRule, signedOperand_of_chain (hafter "await") (show isSign ')' = false by decide),
        hchain]
  have hexpression : ∀ n p level, (depth n).expression p level (')' :: t) = .none := by
    intro n p level
    cases n with
    | zero => rfl
    | succ n =>
      simp [depth_expression, expressionRule, leading, hafter "not", Word.opens_of_after?_eq_none (hafter "lambda"),
        compared, hprimary]
  simp [item, yielded?, hafter "yield", starItem, hexpression]

/-! ## Operands -/

/-- The rules read every legible expression whose text is shorter than a length. -/
def ReadsBelow (r : Rules) (length : Nat) : Prop := ∀ x : Expr, x.Legible → x.chars.length < length → r.Reads x

/-- The rules read the text of an expression as an operand, wherever operators have to bind less tight than it. -/
def ReadsPrimary (r : Rules) (e : Expr) : Prop :=
  ∀ (p : Place) (level : Int) (t : List Char), level ≤ Level.unary → level < e.tightness → p.Leads (Place.closesAt level) t →
    r.primary p level (e.chars ++ t) = some (e.operand, t)

variable {n length : Nat} {p : Place} {e : Expr} {t : List Char}

/-- What a base starts with is an atom, and what stands behind that is read step by step. -/
structure OpensBase (r : Rules) (e base : Expr) (post : List Char) : Prop where
  text : e.chars = base.chars ++ post
  ends : ∀ {p : Place} {t : List Char}, p.Leads Place.endsAtom t → p.Leads Place.endsAtom (post ++ t)
  atom : ∀ {p : Place} {t : List Char}, p.Leads Place.endsAtom t → r.atom p (base.chars ++ t) = some (base.operand, t)
  reaches : ∀ (p : Place) (start : List Char) {t : List Char}, endsWord t →
    Reading.Reaches (r.postfixStep p start) base.operand (post ++ t) e.operand t

/-- An atom is the base of itself. -/
theorem OpensBase.self {r : Rules} (hatom : ∀ {p : Place} {t : List Char}, p.Leads Place.endsAtom t →
    r.atom p (e.chars ++ t) = some (e.operand, t)) : r.OpensBase e e [] :=
  ⟨by simp, fun ht => ht, hatom, fun _ _ _ _ => .refl⟩

/-- One more step behind a base. -/
theorem OpensBase.step {r : Rules} {value base : Expr} {post more : List Char} {c : Char} (h : r.OpensBase value base post)
    (hc : c ∈ ['.', '[', '(']) (htext : e.chars = value.chars ++ c :: more)
    (hstep : ∀ (p : Place) (start : List Char) {t : List Char}, endsWord t →
      r.postfixStep p start value.operand (c :: (more ++ t)) = some (e.operand, t)) :
    r.OpensBase e base (post ++ c :: more) := by
  have hmark : Layout.isMark c := by
    have hall : ['.', '[', '('].all Layout.isMark := by decide
    exact List.all_eq_true.1 hall c hc
  have hends : ∀ cs, Place.endsAtom (c :: cs) := fun cs => by
    simp only [Place.endsAtom, List.head?_cons, Option.any_some, Bool.or_eq_true]
    exact .inr (by simpa using hc)
  refine ⟨by rw [htext, h.text, List.append_assoc], fun {p t} _ => ?_, h.atom, fun p start t ht => ?_⟩
  · rw [List.append_assoc, List.cons_append]
    exact h.ends (.mark hmark (hends _))
  · rw [List.append_assoc, List.cons_append]
    refine (h.reaches p start (Layout.endsWord_mark hmark _)).snoc (hstep p start ht) ?_
    simp only [List.length_cons, List.length_append]
    omega

/-- The members, brackets and parentheses behind a base are read one by one. -/
theorem opensBase_of_legible (hr : (depth n).ReadsBelow length) (he : e.Legible) (hbase : e.isBase)
    (hlength : e.chars.length ≤ length) : ∃ base post, (depth n).OpensBase e base post := by
  induction he with
  | @name id hid => exact ⟨_, _, .self fun ht => atom_name hid ht.endsWord_atom⟩
  | text s => exact ⟨_, _, .self fun ht => atom_spells (Quotation.spells_quote s) ht⟩
  | @tuple items hitems =>
    have hreads : ∀ x ∈ items, (depth n).Reads x := fun x hx =>
      hr x (hitems x hx) (Nat.lt_of_lt_of_le (Expr.length_lt_of_mem_tuple hx) hlength)
    refine ⟨_, _, .self fun {p t} _ => ?_⟩
    have hparens := parenthesized_tuple (p := p) hitems hreads fun q => item_closing n q t
    refine Eq.trans ?_ hparens
    rcases items with _ | ⟨x, _ | ⟨y, ys⟩⟩ <;> rfl
  | @list items hitems =>
    have hreads : ∀ x ∈ items, (depth n).Reads x := fun x hx =>
      hr x (hitems x hx) (Nat.lt_of_lt_of_le (Expr.length_lt_of_mem_list hx) hlength)
    exact ⟨_, _, .self fun _ => bracketed_list hitems hreads⟩
  | @member value field hvalue hb hfield ih =>
    have htext : (Expr.attribute value field).chars = value.chars ++ '.' :: field.toList := rfl
    rw [htext, List.length_append] at hlength
    obtain ⟨base, post, hopens⟩ := ih hb (by omega)
    refine ⟨base, _, hopens.step (by simp) htext fun p start t ht => ?_⟩
    have hname : p.within.name? (field.toList ++ t) = some (field, t) := by
      simp [Place.name?_word hfield ht]
    simp [postfixStep, Place.next?_mark (show Layout.isMark '.' by decide), hname, Expr.operand, Expr.form]
  | @subscript value slice hvalue hb hslice hpair ih =>
    have htext := Expr.chars_subscript value slice
    have hitems : ∀ x ∈ slice.indices, (depth n).Reads x := fun x hx =>
      hr x (hslice x hx) (Nat.lt_of_lt_of_le (Expr.length_lt_of_mem_indices hx) hlength)
    rw [htext, List.length_append] at hlength
    obtain ⟨base, post, hopens⟩ := ih hb (by omega)
    refine ⟨base, _, hopens.step (by simp) htext fun p start t ht => ?_⟩
    have hsubscript : (depth n).subscript p (commaSeparated (slice.indices.map Expr.chars) ++ ']' :: t) = some (slice, t) := by
      have hslice' := Expr.sliceOf_indices hpair
      obtain ⟨x, xs, hxs⟩ := List.exists_cons_of_ne_nil slice.indices_ne_nil
      rw [hxs] at hslice hitems hslice' ⊢
      rw [subscript_of_reads hslice hitems, hslice']
    simp [postfixStep, Place.next?_mark (show Layout.isMark '[' by decide), hsubscript, Expr.operand, Expr.form]
  | @call f xs ks hf hb hxs hnames hks ih =>
    have htext := Expr.chars_call f xs ks
    have hargs : ∀ x ∈ xs, (depth n).Reads x := fun x hx =>
      hr x (hxs x hx) (Nat.lt_of_lt_of_le (Expr.length_lt_of_mem_arguments hx) hlength)
    have hkeys : ∀ k ∈ ks, (depth n).Reads k.2 := fun k hk =>
      hr k.2 (hks k hk) (Nat.lt_of_lt_of_le (Expr.length_lt_of_mem_keywords hk) hlength)
    rw [htext, List.length_append] at hlength
    obtain ⟨base, post, hopens⟩ := ih hb (by omega)
    refine ⟨base, _, hopens.step (by simp) htext fun p start t ht => ?_⟩
    have hcall : (depth n).call p start f
        (commaSeparated (xs.map Expr.chars ++ ks.map Expr.keywordText) ++ ')' :: t) =
          some ((Expr.call f xs ks).operand, t) := call_of_legible start f hxs hargs hnames hks hkeys
    simp [postfixStep, Place.next?_mark (show Layout.isMark '(' by decide), hcall]
  | _ => cases hbase

/-- The chain of an operand without a sign. -/
theorem chainRule_of_legible (hr : (depth n).ReadsBelow e.chars.length) (he : e.Legible) (hbinary : e.isBinary = false)
    (hsigned : e.isSigned = false) (ht : p.Leads Place.closesOperand t) :
    (depth n).chainRule p (e.chars ++ t) = some (e.operand, t) := by
  have hend := ht.endsWord_rest
  have hawait := he.after? hend (show "await" ∈ expressionWords by decide) (by decide)
  have hstar := he.head?_ne (show Expr.isLead '*' = false by decide) t
  have hbase : e.isBase → (depth n).chainRule p (e.chars ++ t) = some (e.operand, t) := by
    intro hbase
    obtain ⟨base, post, hopens⟩ := opensBase_of_legible hr he hbase (Nat.le_refl _)
    have hatom := hopens.atom (hopens.ends ht.atom)
    rw [← List.append_assoc, ← hopens.text] at hatom
    exact chainRule_of_reaches hawait hstar hatom (hopens.reaches p _ hend) ht
  have hnumber : ∀ {x : Expr}, (∃ c cs, e.chars = c :: cs ∧ Number.isDigit c) → e = x → x.form = .plain →
      Numeral.read? (e.chars ++ t) = some (x, t) → (depth n).chainRule p (e.chars ++ t) = some (e.operand, t) := by
    rintro x hdigit rfl hform hread
    have hatom := atom_number (r := depth n) (p := p) hdigit hread
    rw [← hform] at hatom
    exact chainRule_of_atom hawait hstar hatom ht
  cases he with
  | name | text | member | subscript | call | tuple | list => exact hbase rfl
  | @int i hlow hhigh =>
    have hi : 0 ≤ i := by simpa [Expr.isSigned] using hsigned
    have hmax : i.toNat ≤ Numeral.maxInt := by
      rw [Numeral.maxInt_eq]
      omega
    have hread := Numeral.read?_toDigits i.toNat hend (head?_ne_point ht)
    rw [if_pos hmax, Int.toNat_of_nonneg hi] at hread
    rw [Expr.chars_int, if_pos hi] at hnumber ⊢
    exact hnumber (Expr.toDigits_cons _) rfl rfl hread
  | @large m hm =>
    have hread := Numeral.read?_toDigits m hend (head?_ne_point ht)
    rw [if_neg (by omega)] at hread
    rw [Expr.chars, String.toList_ofList] at hnumber ⊢
    exact hnumber (Expr.toDigits_cons _) rfl rfl hread
  | @float d hd =>
    rw [Double.magnitude_of_not_isNegative hsigned] at hd
    exact hnumber hd.digit rfl rfl (hd.reads hend)
  | bool b =>
    have hatom : (depth n).atom p ((Expr.literal (.bool b)).chars ++ t) = some ((Expr.literal (.bool b)).operand, t) := by
      cases b <;> exact atom_word (by decide) hend
    exact chainRule_of_atom hawait hstar hatom ht
  | none =>
    have hatom : (depth n).atom p ((Expr.literal .none).chars ++ t) = some ((Expr.literal .none).operand, t) :=
      atom_word (by decide) hend
    exact chainRule_of_atom hawait hstar hatom ht
  | signed => cases hsigned
  | binary => cases hbinary

/-- An operand with its sign, behind which operators may stand that leave it whole. -/
theorem signedOperand_of_legible (hr : (depth n).ReadsBelow e.chars.length)
    (hp : ∀ x : Expr, x.Legible → x.chars.length < e.chars.length → (depth (n + 1)).ReadsPrimary x) (he : e.Legible)
    (hbinary : e.isBinary = false) (ht : p.Leads (Place.closesAt (Level.behind e.tightness)) t) :
    (depth (n + 1)).signedOperand p (e.chars ++ t) = some (e.operand, t) := by
  have hawait := he.after? ht.anyOperator.endsWord_rest (show "await" ∈ expressionWords by decide) (by decide)
  rw [Expr.tightness_of_not_isBinary hbinary] at ht
  cases hsigned : e.isSigned with
  | true =>
    obtain ⟨x, hx, htight, htext, hvalue⟩ := he.unsigned hsigned
    rw [hsigned] at ht
    have hprimary := hp x hx (by simp [htext]) p.later Level.unary t (Int.le_refl _) htight ht
    have hvalue := hvalue t
    rw [htext, List.cons_append] at hawait hvalue ⊢
    simp [signedOperand, awaited?_eq_none hawait, isSign, Place.operand?_of_startsToken (hx.startsToken t), hprimary,
      hvalue]
  | false =>
    rw [hsigned] at ht
    have hchain := chainRule_of_legible hr he hbinary hsigned ht
    have hminus := he.head?_ne_minus hbinary hsigned t
    have hplus := he.head?_ne (show Expr.isLead '+' = false by decide) t
    have htilde := he.head?_ne (show Expr.isLead '~' = false by decide) t
    have hstart := he.startsToken t
    cases hcs : e.chars ++ t with
    | nil => simp [hcs, startsToken] at hstart
    | cons c cs =>
      rw [hcs] at hawait hchain hminus hplus htilde
      simp only [List.head?_cons, ne_eq, Option.some.injEq] at hminus hplus htilde
      rw [signedOperand_of_chain hawait (by simp [isSign, hminus, hplus, htilde]), depth_chain, hchain]

/-! ## Operators -/

/-- An operator with its right operand. -/
theorem arithmeticStep_operator {r : Rules} (left : Expr) {right : Expr} {operator : String} {level : Int}
    (hright : right.Legible) (hop : Expr.isOperator operator) (hlevel : level < Expr.levelOf operator)
    (hread : r.primary p.later (Level.right (Expr.levelOf operator)) (right.chars ++ t) = some (right.operand, t)) :
    r.arithmeticStep p level left.operand (' ' :: (operator.toList ++ ' ' :: (right.chars ++ t))) =
      some ((Expr.binary left operator right).operand, t) := by
  have hnext : p.next? (' ' :: (operator.toList ++ ' ' :: (right.chars ++ t))) =
      some (operator.toList ++ ' ' :: (right.chars ++ t)) := by
    obtain ⟨c, cs, htext, hc⟩ := Expr.operator_cons hop
    rw [htext, List.cons_append]
    exact Place.next?_blank_mark (Expr.isMark_of_mem_operatorMarks hc)
  rw [Level.right] at hread
  simp only [arithmeticStep, hnext, Expr.arithmetic?_operator hop, Option.bind_eq_bind, Option.bind_some,
    Place.operand?_blank (hright.startsToken t), hread, not_le.2 hlevel, if_false]
  rfl

/-- The operands of operators are read one by one, from the first of them on. -/
theorem reaches_of_legible (hr : (depth n).ReadsBelow length)
    (hp : ∀ x : Expr, x.Legible → x.chars.length < length → (depth (n + 1)).ReadsPrimary x) (he : e.Legible)
    (hlength : e.chars.length ≤ length) {level : Int} (hlevel : level < e.tightness)
    (ht : p.Leads (Place.closesAt (Level.behind e.tightness)) t) : ∃ o stop,
      (depth (n + 1)).signedOperand p (e.chars ++ t) = some (o, stop) ∧
        Reading.Reaches ((depth (n + 1)).arithmeticStep p level) o stop e.operand t := by
  induction hsize : e.chars.length using Nat.strongRecOn generalizing e t with
  | _ size ih =>
    cases hbinary : e.isBinary with
    | false =>
      have hoperand := signedOperand_of_legible (fun x hx hlt => hr x hx (by omega)) (fun x hx hlt => hp x hx (by omega))
        he hbinary ht
      exact ⟨e.operand, t, hoperand, .refl⟩
    | true =>
      cases he with
      | @binary left right operator hleft hright hop hl hrt =>
        have hbounds := (Expr.levelOf_bounds hop).2
        have htext : (Expr.binary left operator right).chars = left.chars ++ ' ' :: (operator.toList ++ ' ' :: right.chars) := rfl
        have htight : (Expr.binary left operator right).tightness = Expr.levelOf operator := rfl
        rw [htext, List.length_append, List.length_cons, List.length_append, List.length_cons] at hlength hsize
        rw [htight] at hlevel ht
        rw [Level.behind_eq_right hbounds] at ht
        have hleft_tight : level < left.tightness :=
          Int.lt_of_lt_of_le hlevel (Int.le_trans (Level.le_left _) hl)
        obtain ⟨o, stop, hoperand, hreach⟩ := ih left.chars.length (by omega) hleft (by omega) hleft_tight
          (.operator hop (Level.le_behind_left hbounds hl) (right.chars ++ t)) rfl
        have hread := hp right hright (by omega) p.later (Level.right (Expr.levelOf operator)) t
          (Level.right_le hbounds) hrt ht
        have hstep := arithmeticStep_operator left hright hop hlevel hread
        rw [htext]
        simp only [List.append_assoc, List.cons_append]
        refine ⟨o, stop, hoperand, hreach.snoc hstep ?_⟩
        simp only [List.length_cons, List.length_append]
        omega
      | _ => cases hbinary

/-! ## Expressions -/

/-- **A legible expression reads back** by rules that are deep enough for it, and so does it as an operand. -/
theorem reads_of_depth (n : Nat) (he : e.Legible) (hn : 3 * e.chars.length ≤ n) :
    (depth (n + 2)).ReadsPrimary e ∧ (depth (n + 3)).Reads e := by
  induction n using Nat.strongRecOn generalizing e with
  | _ n ih =>
    have hpositive : 1 ≤ e.chars.length := by
      obtain ⟨c, cs, htext, -⟩ := he.lead.head
      simp [htext]
    have hr : (depth n).ReadsBelow e.chars.length := fun x hx hlt => by
      have hread := (ih (n - 3) (by omega) hx (by omega)).2
      rwa [show n - 3 + 3 = n by omega] at hread
    have hp : ∀ x : Expr, x.Legible → x.chars.length < e.chars.length → (depth (n + 1)).ReadsPrimary x := fun x hx hlt => by
      have hread := (ih (n - 1) (by omega) hx (by omega)).1
      rwa [show n - 1 + 2 = n + 1 by omega] at hread
    have hprimary : (depth (n + 2)).ReadsPrimary e := by
      intro p level t hle hlevel ht
      obtain ⟨o, stop, hoperand, hreach⟩ := reaches_of_legible hr hp he (Nat.le_refl _) hlevel
        (ht.mono fun _ => Place.closesAt_mono (Level.le_behind hle hlevel))
      exact primaryRule_of_reaches hoperand hreach ht
    refine ⟨hprimary, fun p level t ht => ?_⟩
    have hend := ht.operand.endsWord_rest
    have hnot := he.after? hend (show "not" ∈ expressionWords by decide) (by decide)
    have hlambda := he.after? hend (show "lambda" ∈ expressionWords by decide) (by decide)
    rw [depth_expression]
    exact expressionRule_of_primary level hnot hlambda
      (hprimary p Level.comparison t (by decide) he.comparison_lt ht.closed) ht

/-- A legible expression reads back. -/
theorem reads_of_legible (n : Nat) (he : e.Legible) (hn : 3 * e.chars.length ≤ n) : (depth (n + 3)).Reads e :=
  (reads_of_depth n he hn).2

end Rules
end PluginTools
