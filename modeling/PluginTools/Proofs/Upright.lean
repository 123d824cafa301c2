/-
Expressions that are read as they are. The text of an ordinary expression is read as the expression itself exactly if
no operand in it needed parentheses, every float in it is written with a point, and no slice is a tuple of one item.
-/
import PluginTools.Proofs.Regrouping

namespace PluginTools.Expr

mutual

/-- Whether the text of an ordinary expression is read as the expression. -/
def isUpright : Expr → Bool
  | .literal (.float d) => d.literalText.contains '.'
  | .attribute value _ => value.isBase && value.isUpright
  | .subscript value (.tuple (x :: xs)) =>
    value.isBase && value.isUpright && x.isUpright && areUpright xs && !xs.isEmpty
  | .subscript value slice => value.isBase && value.isUpright && slice.isUpright
  | .tuple items | .list items => areUpright items
  | .call function xs ks => function.isBase && function.isUpright && areUpright xs && valuesUpright ks
  | .binary left operator right =>
    decide (Level.left (levelOf operator) ≤ left.tightness) && decide (Level.right (levelOf operator) < right.tightness) &&
      left.isUpright && right.isUpright
  | _ => true

def areUpright : List Expr → Bool
  | [] => true
  | x :: xs => x.isUpright && areUpright xs

def valuesUpright : List (String × Expr) → Bool
  | [] => true
  | (_, x) :: ks => x.isUpright && valuesUpright ks

end

variable {e value slice : Expr}

theorem areUpright_iff {xs : List Expr} : areUpright xs ↔ ∀ x ∈ xs, x.isUpright := by
  induction xs with
  | nil => simp [areUpright]
  | cons x xs ih => simp [areUpright, ih]

theorem valuesUpright_iff {ks : List (String × Expr)} : valuesUpright ks ↔ ∀ k ∈ ks, k.2.isUpright := by
  induction ks with
  | nil => simp [valuesUpright]
  | cons k ks ih =>
    obtain ⟨name, x⟩ := k
    simp [valuesUpright, ih]

theorem isUpright_subscript : (Expr.subscript value slice).isUpright ↔
    value.isBase ∧ value.isUpright ∧ (∀ x ∈ slice.indices, x.isUpright) ∧ ∀ x, slice ≠ .tuple [x] := by
  unfold indices
  split
  · next x xs => cases xs <;> simp [isUpright, areUpright_iff, and_assoc]
  · next h =>
    rw [isUpright]
    · have hpair : ∀ x, slice ≠ .tuple [x] := fun x => h x []
      simp [hpair, and_assoc]
    · exact fun x xs he => h x xs he

/-- A legible expression is read as it is. -/
theorem Legible.isUpright (h : e.Legible) : e.isUpright := by
  induction h with
  | @float d hd =>
    have hpoint := d.point_mem_magnitude.1 hd.point
    simpa [Expr.isUpright] using hpoint
  | member _ hbase _ ih => simp [Expr.isUpright, hbase, ih]
  | subscript _ hbase _ hpair ih ihs => exact isUpright_subscript.2 ⟨hbase, ih, ihs, hpair⟩
  | call _ hbase _ _ _ ih ihx ihk =>
    simpa [Expr.isUpright, hbase, ih] using ⟨areUpright_iff.2 ihx, valuesUpright_iff.2 ihk⟩
  | tuple _ ih => exact areUpright_iff.2 ih
  | list _ ih => exact areUpright_iff.2 ih
  | binary _ _ _ hl hr ihl ihr => simp [Expr.isUpright, hl, hr, ihl, ihr]
  | _ => rfl

theorem attach_of_isBase {access : Expr → Expr} (h : e.isBase) : attach access e = access e := by
  cases e <;> first | rfl | cases h

theorem map_reread_self {xs : List Expr} (h : ∀ x ∈ xs, x.reread = x) : xs.map reread = xs := by
  conv_rhs => rw [← List.map_id xs]
  exact List.map_congr_left h

/-- **An ordinary expression is read as itself** exactly if it is upright. -/
theorem Ordinary.reread_eq_iff (h : e.Ordinary) : e.reread = e ↔ e.isUpright := by
  refine ⟨fun heq => (heq ▸ h.rereads.legible : e.Legible).isUpright, fun hupright => ?_⟩
  induction h with
  | @float d =>
    have hpoint : '.' ∈ d.literalText := by simpa [isUpright] using hupright
    rw [reread, rereadFloat, if_pos hpoint]
  | member _ _ _ ih =>
    simp only [isUpright, Bool.and_eq_true] at hupright
    rw [reread, ih hupright.2, attach_of_isBase hupright.1]
  | @subscript value slice _ _ _ _ ih ihs =>
    obtain ⟨hbase, hvalue, hslice, hpair⟩ := isUpright_subscript.1 hupright
    rw [reread_subscript, ih hvalue, attach_of_isBase hbase, map_reread_self fun x hx => ihs x hx (hslice x hx),
      sliceOf_indices hpair]
  | @call function xs ks _ _ _ _ _ ih ihx ihk =>
    simp only [isUpright, Bool.and_eq_true, areUpright_iff, valuesUpright_iff] at hupright
    obtain ⟨⟨⟨hbase, hfunction⟩, hxs⟩, hks⟩ := hupright
    have hkeywords : (ks.map fun k => (k.1, k.2.reread)) = ks := by
      conv_rhs => rw [← List.map_id ks]
      exact List.map_congr_left fun k hk => by rw [ihk k hk (hks k hk)]; rfl
    rw [reread_call, ih hfunction, attach_of_isBase hbase, map_reread_self fun x hx => ihx x hx (hxs x hx), hkeywords]
  | tuple _ ih =>
    have hitems := areUpright_iff.1 hupright
    rw [reread, rereadItems_eq_map, map_reread_self fun x hx => ih x hx (hitems x hx)]
  | list _ ih =>
    have hitems := areUpright_iff.1 hupright
    rw [reread, rereadItems_eq_map, map_reread_self fun x hx => ih x hx (hitems x hx)]
  | binary hleft hright hop ihl ihr =>
    simp only [isUpright, Bool.and_eq_true, decide_eq_true_eq] at hupright
    obtain ⟨⟨⟨hl, hr⟩, hleft_upright⟩, hright_upright⟩ := hupright
    have hlegible_left := ihl hleft_upright ▸ hleft.rereads.legible
    have hlegible_right := ihr hright_upright ▸ hright.rereads.legible
    rw [reread, ihl hleft_upright, ihr hright_upright,
      joined_of_legible (.binary hlegible_left hlegible_right hop hl hr)]
  | _ => rfl

/-- An upright expression is legible. -/
theorem Ordinary.legible (h : e.Ordinary) (hupright : e.isUpright) : e.Legible :=
  h.reread_eq_iff.2 hupright ▸ h.rereads.legible

/-- Plain expressions are ordinary. -/
theorem Plain.ordinary (h : e.Plain) : e.Ordinary := by
  have hlast : ∀ {e : Expr}, e.isHead → e.last.isBase := fun hhead => by
    cases ‹Expr› <;> first | rfl | cases hhead
  induction h with
  | name hid => exact .name (isOperandName_of_isIdentifier hid)
  | text s => exact .text s
  | int hlow hhigh => exact .int hlow hhigh
  | bool b => exact .bool b
  | none => exact .none
  | member _ hhead hfield ih => exact .member ih (hlast hhead) (isWord_of_isIdentifier hfield)
  | subscript _ hhead _ hpair ih ihs => exact .subscript ih (hlast hhead) ihs fun y ys => hpair (.tuple (y :: ys))
  | call _ hhead _ hnames _ ih ihx ihk =>
    exact .call ih (hlast hhead) ihx (fun k hk => isOperandName_of_isIdentifier (hnames k hk)) ihk
  | tuple _ ih => exact .tuple ih
  | list _ ih => exact .list ih
  | union _ _ _ _ ihl ihr => exact .binary ihl ihr (by decide)

end PluginTools.Expr
