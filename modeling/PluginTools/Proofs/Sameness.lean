/-
Sameness. Expressions are the same if their parts are, and only floats are compared in another way than by what
they are. So expressions that are the same differ in their floats at most.
-/
import PluginTools.Source.Expr

namespace PluginTools

theorem Double.same_self {d : Double} (h : d.isFinite) : d.same d := by
  cases d with
  | finite => simp [same]
  | _ => cases h

namespace Expr

/-! ## Floats -/

mutual

/-- The floats of an expression from left to right. -/
def floats : Expr → List Double
  | .literal (.float d) => [d]
  | .attribute value _ => value.floats
  | .subscript value slice => value.floats ++ slice.floats
  | .tuple items | .list items => itemFloats items
  | .call function xs ks => function.floats ++ (itemFloats xs ++ keywordFloats ks)
  | .binary left _ right => left.floats ++ right.floats
  | _ => []

def itemFloats : List Expr → List Double
  | [] => []
  | x :: xs => x.floats ++ itemFloats xs

def keywordFloats : List (String × Expr) → List Double
  | [] => []
  | (_, x) :: ks => x.floats ++ keywordFloats ks

end

mutual

/-- An expression is the same as itself if its floats are. -/
theorem same_self : ∀ e : Expr, (∀ d ∈ e.floats, d.same d) → e.same e
  | .name id, _ => by simp [same]
  | .literal l, h => by cases l <;> simp_all [same, Literal.same, floats]
  | .attribute value field, h => by simp [same, same_self value h]
  | .subscript value slice, h => by
    simp only [floats, List.forall_mem_append] at h
    simp [same, same_self value h.1, same_self slice h.2]
  | .tuple items, h => by simp [same, sameItems_self items h]
  | .list items, h => by simp [same, sameItems_self items h]
  | .call function xs ks, h => by
    simp only [floats, List.forall_mem_append] at h
    simp [same, same_self function h.1, sameItems_self xs h.2.1, sameKeywords_self ks h.2.2]
  | .binary left operator right, h => by
    simp only [floats, List.forall_mem_append] at h
    simp [same, same_self left h.1, same_self right h.2]
  | .verbatim kind text, _ => by simp [same]

theorem sameItems_self : ∀ xs : List Expr, (∀ d ∈ itemFloats xs, d.same d) → sameItems xs xs
  | [], _ => rfl
  | x :: xs, h => by
    simp only [itemFloats, List.forall_mem_append] at h
    simp [sameItems, same_self x h.1, sameItems_self xs h.2]

theorem sameKeywords_self : ∀ ks : List (String × Expr), (∀ d ∈ keywordFloats ks, d.same d) → sameKeywords ks ks
  | [], _ => rfl
  | (k, x) :: ks, h => by
    simp only [keywordFloats, List.forall_mem_append] at h
    simp [sameKeywords, same_self x h.1, sameKeywords_self ks h.2]

end

/-- Two things with floats in them have as many, and are equal if the floats are. -/
def FloatsDecide (floats : α → List Double) (a' a : α) : Prop :=
  (floats a').length = (floats a).length ∧ (floats a' = floats a → a' = a)

theorem FloatsDecide.append {f : α → List Double} {k : β → List Double} {a a' : α} {b b' : β}
    (ha : FloatsDecide f a' a) (hb : FloatsDecide k b' b) :
    FloatsDecide (fun p : α × β => f p.1 ++ k p.2) (a', b') (a, b) := by
  refine ⟨by simp [ha.1, hb.1], fun heq => ?_⟩
  obtain ⟨hfirst, hsecond⟩ := List.append_inj heq ha.1
  rw [ha.2 hfirst, hb.2 hsecond]

mutual

/-- Expressions that are the same have as many floats, and are equal if their floats are. -/
theorem floatsDecide_of_same : ∀ e' e : Expr, e'.same e → FloatsDecide floats e' e
  | .name id, e, h => by cases e <;> simp_all [same, FloatsDecide, floats]
  | .literal l', e, h => by
    cases e <;> simp only [same, Bool.false_eq_true] at h
    next l => cases l' <;> cases l <;> simp_all [Literal.same, FloatsDecide, floats]
  | .attribute value' field', e, h => by
    cases e <;> simp only [same, Bool.false_eq_true, Bool.and_eq_true, beq_iff_eq] at h
    obtain ⟨hlength, hequal⟩ := floatsDecide_of_same value' _ h.1
    exact ⟨hlength, fun heq => by rw [hequal heq, h.2]⟩
  | .subscript value' slice', e, h => by
    cases e <;> simp only [same, Bool.false_eq_true, Bool.and_eq_true] at h
    obtain ⟨hlength, hequal⟩ := (floatsDecide_of_same value' _ h.1).append (floatsDecide_of_same slice' _ h.2)
    refine ⟨hlength, fun heq => ?_⟩
    obtain ⟨rfl, rfl⟩ := Prod.mk.inj (hequal heq)
    rfl
  | .tuple items', e, h => by
    cases e <;> simp only [same, Bool.false_eq_true] at h
    obtain ⟨hlength, hequal⟩ := floatsDecide_of_sameItems items' _ h
    exact ⟨hlength, fun heq => by rw [hequal heq]⟩
  | .list items', e, h => by
    cases e <;> simp only [same, Bool.false_eq_true] at h
    obtain ⟨hlength, hequal⟩ := floatsDecide_of_sameItems items' _ h
    exact ⟨hlength, fun heq => by rw [hequal heq]⟩
  | .call function' xs' ks', e, h => by
    cases e <;> simp only [same, Bool.false_eq_true, Bool.and_eq_true] at h
    obtain ⟨hlength, hequal⟩ := (floatsDecide_of_same function' _ h.1.1).append
      ((floatsDecide_of_sameItems xs' _ h.1.2).append (floatsDecide_of_sameKeywords ks' _ h.2))
    refine ⟨hlength, fun heq => ?_⟩
    obtain ⟨rfl, hrest⟩ := Prod.mk.inj (hequal heq)
    obtain ⟨rfl, rfl⟩ := Prod.mk.inj hrest
    rfl
  | .binary left' operator' right', e, h => by
    cases e <;> simp only [same, Bool.false_eq_true, Bool.and_eq_true, beq_iff_eq] at h
    obtain ⟨⟨hleft, rfl⟩, hright⟩ := h
    obtain ⟨hlength, hequal⟩ := (floatsDecide_of_same left' _ hleft).append (floatsDecide_of_same right' _ hright)
    refine ⟨hlength, fun heq => ?_⟩
    obtain ⟨rfl, rfl⟩ := Prod.mk.inj (hequal heq)
    rfl
  | .verbatim kind text, e, h => by cases e <;> simp_all [same, FloatsDecide, floats]

theorem floatsDecide_of_sameItems : ∀ xs' xs : List Expr, sameItems xs' xs → FloatsDecide itemFloats xs' xs
  | [], xs, h => by cases xs <;> simp_all [sameItems, FloatsDecide, itemFloats]
  | x' :: xs', xs, h => by
    cases xs <;> simp only [sameItems, Bool.false_eq_true, Bool.and_eq_true] at h
    obtain ⟨hlength, hequal⟩ := (floatsDecide_of_same x' _ h.1).append (floatsDecide_of_sameItems xs' _ h.2)
    refine ⟨hlength, fun heq => ?_⟩
    obtain ⟨rfl, rfl⟩ := Prod.mk.inj (hequal heq)
    rfl

theorem floatsDecide_of_sameKeywords : ∀ ks' ks : List (String × Expr), sameKeywords ks' ks → FloatsDecide keywordFloats ks' ks
  | [], ks, h => by cases ks <;> simp_all [sameKeywords, FloatsDecide, keywordFloats]
  | (k', x') :: ks', ks, h => by
    cases ks <;> simp only [sameKeywords, Bool.false_eq_true, Bool.and_eq_true, beq_iff_eq] at h
    obtain ⟨⟨rfl, hx⟩, hks⟩ := h
    obtain ⟨hlength, hequal⟩ := (floatsDecide_of_same x' _ hx).append (floatsDecide_of_sameKeywords ks' _ hks)
    refine ⟨hlength, fun heq => ?_⟩
    obtain ⟨rfl, rfl⟩ := Prod.mk.inj (hequal heq)
    rfl

end

/-- **What has some of an expression's floats in order**, and no other ones, is the same only if it is equal. -/
theorem same_iff_eq {e' e : Expr} (hfloats : (floats e').Sublist (floats e)) (hself : ∀ d ∈ e.floats, d.same d) :
    e'.same e ↔ e' = e := by
  constructor
  · intro hsame
    obtain ⟨hlength, hequal⟩ := floatsDecide_of_same e' e hsame
    exact hequal (hfloats.eq_of_length hlength)
  · rintro rfl
    exact same_self e' hself

/-- Without floats, only equal expressions are the same. -/
theorem same_iff_eq_of_floats_eq_nil {e' e : Expr} (hfloats : e.floats = []) : e'.same e ↔ e' = e := by
  constructor
  · intro hsame
    obtain ⟨hlength, hequal⟩ := floatsDecide_of_same e' e hsame
    rw [hfloats, List.length_nil] at hlength
    exact hequal (by rw [hfloats, List.length_eq_zero_iff.1 hlength])
  · rintro rfl
    exact same_self e' (by simp [hfloats])

end Expr
end PluginTools
