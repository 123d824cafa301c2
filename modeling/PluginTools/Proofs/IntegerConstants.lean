/-
The whole numbers of a source are exact. Wherever an operand is read, the literal of a whole number becomes its value if
sixty-three bits hold it and its own text if they do not. The rules keep to the source however deep they nest, so each
number of a declaration is the value of a literal with its signs, and turning it around never leaves the range.
-/
import PluginTools.Proofs.ConstantStatements
import PluginTools.Source.Parser

namespace PluginTools

open Layout (endsWord)
open Reading (Yields)

/-- Sixty-four bits hold a literal with its signs, and the one with one more minus sign. -/
theorem SignedLiteral.int64 {start stop : List Char} {i : Int} (h : SignedLiteral start stop i) :
    (Int64.ofInt i).toInt = i ∧ (-Int64.ofInt i).toInt = -i := by
  have hle := h.natAbs_le
  refine ⟨Int64.toInt_ofInt_of_le (by omega) (by omega), ?_⟩
  rw [← Int64.ofInt_neg]
  exact Int64.toInt_ofInt_of_le (by omega) (by omega)

theorem startsString_of_isDigit {c : Char} (hc : Number.isDigit c) (cs : List Char) :
    Layout.startsString (c :: cs) = false := by
  have hletter : Layout.isQuotePrefix c = false := by
    have hall : ∀ n < 58, Number.isDigit (Char.ofNat n) → Layout.isQuotePrefix (Char.ofNat n) = false := by decide
    obtain ⟨n, hn, rfl⟩ := Number.ofNat_of_isDigit hc
    exact hall n hn hc
  simp [Layout.startsString, Layout.startsQuote, hletter,
    Layout.not_isQuote_of_isContinuing (Number.isContinuing_of_isDigit hc)]

namespace Rules

/-! ## Literals as operands -/

section

variable {r : Rules} {p : Place}

/-- Where no bracket and no string opens, a number is an operand of its own. -/
theorem atom_of_isDigit {c : Char} (hc : Number.isDigit c) (cs : List Char) :
    r.atom p (c :: cs) = (Numeral.read? (c :: cs)).map fun x => (⟨x.1, .plain⟩, x.2) := by
  have hne : ∀ d, Number.isDigit d = false → c ≠ d := by
    rintro d hd rfl
    exact absurd hc (by simp [hd])
  obtain ⟨x, hread⟩ := Option.isSome_iff_exists.1 (Numeral.read?_isSome hc cs)
  simp [atom, startsString_of_isDigit hc, hread, hne '(' (by decide), hne '[' (by decide), hne '\x7b' (by decide)]

theorem atom_of_isInteger {text digits ending rest : List Char} {base : Nat}
    (h : Numeral.IsInteger text base digits ending) (hrest : endsWord rest) (hpoint : rest.head? ≠ some '.') :
    r.atom p (text ++ rest) = some (⟨Numeral.integerExpr text base digits ending, .plain⟩, rest) := by
  have hread := Numeral.read?_of_isInteger h hrest hpoint
  obtain ⟨c, cs, rfl, hc⟩ := h.opens
  rw [List.cons_append] at hread ⊢
  rw [atom_of_isDigit hc, hread]
  rfl

theorem atom_keptAs {c : Char} (hc : Number.isDigit c) (cs : List Char) :
    ∃ text rest e, c :: cs = text ++ rest ∧ r.atom p (c :: cs) = some (⟨e, .plain⟩, rest) ∧
      Numeral.KeptAs text rest e := by
  obtain ⟨⟨e, rest⟩, hread⟩ := Option.isSome_iff_exists.1 (Numeral.read?_isSome hc cs)
  obtain ⟨text, htext, hkept⟩ := Numeral.read?_append hread
  exact ⟨text, rest, e, htext, by rw [atom_of_isDigit hc, hread]; rfl, hkept⟩

end

/-! ## All depths -/

section

variable {S : List Char}

theorem faithful_none (S : List Char) : none.Faithful S where
  expression _ _ _ _ := .none
  primary _ _ _ _ := .none
  chain _ _ _ := .none
  interpolation _ _ _ := .none
  type _ _ _ := .none
  assigned _ _ _ := .none
  pattern _ _ _ := .none
  simplePattern _ _ _ := .none
  suite _ _ _ := .none

theorem Faithful.next {r : Rules} (hr : r.Faithful S) : (next (Thunk.mk fun _ => r)).Faithful S where
  expression p level _ hcs := hr.expressionRule p level hcs
  primary p level _ hcs := hr.primaryRule p level hcs
  chain p _ hcs := hr.chainRule p hcs
  interpolation p _ hcs := hr.interpolationRule p hcs
  type p _ hcs := hr.typeRule p hcs
  assigned p _ hcs := hr.assignedRule p hcs
  pattern p _ hcs := hr.patternRule p hcs
  simplePattern p _ hcs := hr.simplePatternRule p hcs
  suite column _ hcs := hr.suiteRule column hcs

/-- The rules keep to the source at each depth. -/
theorem faithful_depth (S : List Char) (n : Nat) : (depth n).Faithful S := by
  induction n with
  | zero => exact faithful_none S
  | succ n ih => exact ih.next

/-- A whole number that is read as an operand is a literal with its signs. -/
theorem signedLiteral_of_primary {n : Nat} {p : Place} {level : Int} {cs stop : List Char} {o : Operand} {i : Int}
    (h : (depth n).primary p level cs = some (o, stop)) (he : o.expr = .literal (.int i)) : SignedLiteral cs stop i :=
  (((faithful_depth cs n).primary p level List.suffix_rfl _ h).values _ List.mem_cons_self).signed i he

end
end Rules

/-! ## Declarations -/

namespace Source

variable {S cs : List Char}

theorem exprs_declarationOf (line : Nat) (piece : Piece) :
    ∀ e ∈ (declarationOf line piece).exprs, e ∈ piece.item.exprs := by
  intro e he
  unfold declarationOf at he
  split at he
  · next h => rwa [h]
  · next h => rwa [h]
  · cases he

theorem declarationsFrom_sourced {r : Rules} (hr : r.Faithful S) (fuel line : Nat) (hcs : cs <:+ S) :
    Yields (fun ds => ∀ d ∈ ds, ∀ e ∈ d.exprs, e.Sourced S) (declarationsFrom r fuel line cs) := by
  have hjoins : ∀ joins : List String, ∀ d ∈ joins.map fun _ => Declaration.other, ∀ e ∈ d.exprs, e.Sourced S := by
    intro joins d hd e he
    obtain ⟨_, -, rfl⟩ := List.mem_map.1 hd
    cases he
  induction fuel generalizing line cs with
  | zero => exact .none
  | succ fuel ih =>
    rw [declarationsFrom]
    split
    · exact .some (hjoins _)
    · next hgap =>
      refine (hr.statement 0 (Layout.suffix_of_read hgap rfl hcs)).bind fun ⟨pieces, rest⟩ hpieces => ?_
      refine (ih _ hpieces.rest).bind fun more hmore => .some ?_
      have hfirst : ∀ line, ∀ d ∈ pieces.map (declarationOf line), ∀ e ∈ d.exprs, e.Sourced S := by
        intro line d hd e he
        obtain ⟨piece, hpiece, rfl⟩ := List.mem_map.1 hd
        exact hpieces.sourced e (List.mem_flatMap.2 ⟨piece, hpiece, exprs_declarationOf line piece e he⟩)
      exact List.forall_mem_append.2 ⟨List.forall_mem_append.2 ⟨hjoins _, hfirst _⟩, hmore⟩
    · exact .none

/-- Every whole number of a source's declarations is found in the source. -/
theorem parse?_sourced {source : List Char} {ds : List Declaration} (h : parse? source = some ds) :
    ∀ d ∈ ds, ∀ e ∈ d.exprs, e.Sourced source :=
  declarationsFrom_sourced (Rules.faithful_depth source _) _ _ List.suffix_rfl ds h

end Source

/-! ## Whole numbers -/

section

open Numeral (IsInteger EndsDigits Fits KeptAs integerExpr)

/-- **Whole numbers are exact.** A literal with nothing more of a number or word behind it is read whole, and becomes its
value or its text; what is read at a digit is such a literal as far as its digits go, or has a point or an exponent. An
operand that is a whole number is a literal with its signs, and one sign more does not lead out of sixty-four bits. So
are all whole numbers of a source's declarations, and what they keep as the text of a whole number is a literal that
does not fit. -/
theorem whole_numbers_exact :
    (∀ (r : Rules) (p : Place) (text digits ending rest : List Char) (base : Nat), IsInteger text base digits ending →
      endsWord rest → rest.head? ≠ some '.' →
      r.atom p (text ++ rest) = some (⟨integerExpr text base digits ending, .plain⟩, rest)) ∧
    (∀ (r : Rules) (p : Place) (c : Char) (cs : List Char), Number.isDigit c → ∃ text rest e, c :: cs = text ++ rest ∧
      r.atom p (c :: cs) = some (⟨e, .plain⟩, rest) ∧ KeptAs text rest e) ∧
    (∀ (n : Nat) (p : Place) (level : Int) (cs stop : List Char) (o : Operand) (i : Int),
      (Rules.depth n).primary p level cs = some (o, stop) → o.expr = .literal (.int i) →
      SignedLiteral cs stop i ∧ (Int64.ofInt i).toInt = i ∧ (-Int64.ofInt i).toInt = -i) ∧
    ∀ (source : List Char) (ds : List Declaration), Source.parse? source = some ds → ∀ d ∈ ds, ∀ e ∈ d.exprs,
      (∀ i, e.Contains (.literal (.int i)) → -(2 ^ 63 - 1) ≤ i ∧ i ≤ 2 ^ 63 - 1 ∧
        ∃ start stop, start <:+ source ∧ SignedLiteral start stop i) ∧
      ∀ text, e.Contains (.verbatim "integer" text) → ∃ base digits ending rest, text.toList ++ rest <:+ source ∧
        IsInteger text.toList base digits ending ∧ (ending = [] → EndsDigits base rest) ∧ ¬Fits base digits ending := by
  refine ⟨fun r p text digits ending rest base => Rules.atom_of_isInteger, fun r p c cs hc => Rules.atom_keptAs hc cs,
    fun n p level cs stop o i h he => ?_, fun source ds h d hd e he => ⟨fun i hi => ?_, fun text htext => ?_⟩⟩
  · have hliteral := Rules.signedLiteral_of_primary h he
    exact ⟨hliteral, hliteral.int64⟩
  · obtain ⟨start, stop, hstart, hliteral⟩ := Source.parse?_sourced h d hd e he _ hi
    have hle := hliteral.natAbs_le
    exact ⟨by omega, by omega, start, stop, hstart, hliteral⟩
  · exact Source.parse?_sourced h d hd e he _ htext rfl

/-- The greatest literal that fits, the least one that does not, a number with two signs, and a function with both kinds
of defaults. -/
theorem whole_numbers_exact_at_bounds :
    Rules.none.atom (Place.lineAt 0) "0x7FFFFFFF_FFFFFFFF)".toList =
      some (⟨.literal (.int (2 ^ 63 - 1)), .plain⟩, [')']) ∧
    Rules.none.atom (Place.lineAt 0) "9223372036854775808".toList =
      some (⟨.verbatim "integer" "9223372036854775808", .plain⟩, []) ∧
    (∃ text rest e, "1_0L".toList = text ++ rest ∧ Rules.none.atom (Place.lineAt 0) "1_0L".toList = some (⟨e, .plain⟩, rest) ∧
      KeptAs text rest e) ∧
    (SignedLiteral "-(-5)".toList [] 5 ∧ (Int64.ofInt 5).toInt = 5 ∧ (-Int64.ofInt 5).toInt = -5) ∧
    ∃ start stop, start <:+ "def f(a=-(0x7FFFFFFF_FFFFFFFF), b=10L): pass".toList ∧
      SignedLiteral start stop (-9223372036854775807) := by
  have hgreatest : integerExpr "0x7FFFFFFF_FFFFFFFF".toList 16 "7FFFFFFF_FFFFFFFF".toList [] =
      .literal (.int (2 ^ 63 - 1)) := by
    have hvalue : Numeral.value 16 "7FFFFFFF_FFFFFFFF".toList = 2 ^ 63 - 1 := by decide
    rw [integerExpr, if_pos ⟨rfl, hvalue.le⟩, hvalue]
    rfl
  have hless : integerExpr "9223372036854775808".toList 10 "9223372036854775808".toList [] =
      .verbatim "integer" "9223372036854775808" := by
    rw [integerExpr, if_neg (by decide), String.ofList_toList]
  have hparse : Source.parse? "def f(a=-(0x7FFFFFFF_FFFFFFFF), b=10L): pass".toList = some [.ofFunction {
      name := "f", decorators := [], returns := none, body := [.other "pass"], line := 1, parameters := [
        ⟨"a", .positional, none, some (.literal (.int (-9223372036854775807)))⟩,
        ⟨"b", .positional, none, some (.verbatim "integer" "10L")⟩] }] := rfl
  refine ⟨?_, ?_, whole_numbers_exact.2.1 _ _ _ _ (by decide),
    whole_numbers_exact.2.2.1 8 (Place.lineAt 0) 20 _ _ ⟨.literal (.int 5), .plain⟩ 5 rfl rfl, ?_⟩
  · rw [← hgreatest]
    have hliteral : IsInteger ('0' :: 'x' :: ("7FFFFFFF_FFFFFFFF".toList ++ [])) 16 _ [] :=
      .based (by decide) ⟨by decide, List.all_iff_forall_prop.1 (by decide), by decide⟩ (by decide) (by decide)
    exact whole_numbers_exact.1 _ _ _ _ [] [')'] 16 hliteral rfl (by decide)
  · rw [← hless]
    have hliteral : IsInteger ("9223372036854775808".toList ++ []) 10 _ [] :=
      .decimal ⟨by decide, List.all_iff_forall_prop.1 (by decide), by decide⟩ (by decide) (by decide)
    exact whole_numbers_exact.1 _ _ _ _ [] [] 10 hliteral rfl (by decide)
  · exact ((whole_numbers_exact.2.2.2 _ _ hparse _ List.mem_cons_self _ List.mem_cons_self).1 _ (.self _)).2.2

end

end PluginTools
