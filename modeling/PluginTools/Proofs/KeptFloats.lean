/-
The floats that a text keeps. A text keeps some of the floats of what is written, in their order, and brings in none;
so what is read from it is the same only if it is equal.
-/
import PluginTools.Proofs.Sameness
import PluginTools.Proofs.UprightType

namespace PluginTools

/-- What reads back is finite. -/
theorem Double.isFinite_of_readsBack {d : Double} (h : d.magnitude.ReadsBack) : d.isFinite := by
  cases d with
  | finite => rfl
  | nan | infinite =>
    obtain ⟨c, cs, htext, hdigit⟩ := h.digit
    obtain ⟨rfl, rfl⟩ := List.cons.inj htext
    exact absurd hdigit (by decide)

namespace Expr

/-! ## Floats that are read -/

variable {e t left right : Expr} {operator : String} {xs : List Expr}

theorem floats_extend (operator : String) (x e : Expr) : (extend operator x e).floats.Sublist (e.floats ++ x.floats) := by
  fun_induction extend operator x e with
  | case1 left o right _ ih => simpa [floats] using ih
  | case2 => simp [floats]
  | case3 => simp [floats]
  | case4 => simp [floats]

theorem floats_joined (left : Expr) (operator : String) (e : Expr) :
    (joined left operator e).floats.Sublist (left.floats ++ e.floats) := by
  induction e using binary_induct generalizing left operator with
  | binary x o y ihx ihy =>
    have hjoined := (ihx left operator).append_right y.floats
    rw [List.append_assoc] at hjoined
    exact (ihy (joined left operator x) o).trans hjoined
  | other e h => exact joined_of_not_isBinary left operator h ▸ floats_extend operator e left

theorem floats_attach {access : Expr → Expr} {ds : List Double} (haccess : ∀ e, (access e).floats = e.floats ++ ds)
    (e : Expr) : (attach access e).floats.Sublist (e.floats ++ ds) := by
  fun_induction attach access e with
  | case1 left operator right ih => simpa [floats] using ih
  | case2 => simp [floats]
  | case3 e _ _ => rw [haccess]

theorem floats_ofDigits (digits : List Char) : (ofDigits digits).floats = [] := by
  unfold ofDigits Numeral.wholeExpr
  split
  · next e he =>
    simp only [Numeral.int?, List.isEmpty_nil, ↓reduceIte] at he
    split at he
    · split at he
      · cases he
        rfl
      · cases he
    · cases he
  · rfl

theorem floats_rereadFloat (d : Double) : (rereadFloat d).floats.Sublist [d] := by
  have hdigits := floats_ofDigits d.magnitude.literalText
  unfold rereadFloat
  split
  · simp [floats]
  · split
    · unfold Rules.signed
      split <;> simp_all [Operand.verbatim, floats]
    · simp [floats_ofDigits]

theorem floats_sliceOf (xs : List Expr) : (Rules.sliceOf xs).floats = itemFloats xs := by
  rcases xs with _ | ⟨x, _ | ⟨y, ys⟩⟩ <;> simp [Rules.sliceOf, floats, itemFloats]

theorem itemFloats_indices (slice : Expr) : itemFloats slice.indices = slice.floats := by
  unfold indices
  split <;> simp [floats, itemFloats]

theorem itemFloats_map {f : Expr → Expr} (h : ∀ x ∈ xs, (f x).floats.Sublist x.floats) :
    (itemFloats (xs.map f)).Sublist (itemFloats xs) := by
  induction xs with
  | nil => exact .slnil
  | cons x xs ih =>
    obtain ⟨hx, hxs⟩ := List.forall_mem_cons.1 h
    exact hx.append (ih hxs)

theorem keywordFloats_map {f : Expr → Expr} {ks : List (String × Expr)} (h : ∀ k ∈ ks, (f k.2).floats.Sublist k.2.floats) :
    (keywordFloats (ks.map fun k => (k.1, f k.2))).Sublist (keywordFloats ks) := by
  induction ks with
  | nil => exact .slnil
  | cons k ks ih =>
    obtain ⟨hk, hks⟩ := List.forall_mem_cons.1 h
    exact hk.append (ih hks)

/-- A text keeps floats of an ordinary expression and brings in no other. -/
theorem Ordinary.floats_reread (h : e.Ordinary) : e.reread.floats.Sublist e.floats := by
  induction h with
  | @float d => exact floats_rereadFloat d
  | @member value field _ _ _ ih =>
    have hattach : (attach (.attribute · field) value.reread).floats.Sublist (value.reread.floats ++ []) :=
      floats_attach (fun _ => by simp [floats]) value.reread
    rw [List.append_nil] at hattach
    exact hattach.trans ih
  | @subscript value slice _ _ _ _ ih ihs =>
    have hslice := itemFloats_map ihs
    rw [itemFloats_indices, ← floats_sliceOf] at hslice
    rw [reread_subscript]
    exact (floats_attach (fun _ => rfl) _).trans (ih.append hslice)
  | @call function xs ks _ _ _ _ _ ih ihx ihk =>
    rw [reread_call]
    exact (floats_attach (fun _ => rfl) _).trans (ih.append ((itemFloats_map ihx).append (keywordFloats_map ihk)))
  | tuple _ ih =>
    rw [reread, rereadItems_eq_map]
    exact itemFloats_map ih
  | list _ ih =>
    rw [reread, rereadItems_eq_map]
    exact itemFloats_map ih
  | binary _ _ _ ihl ihr =>
    rw [reread]
    exact (floats_joined _ _ _).trans (ihl.append ihr)
  | _ => exact .refl _

theorem floats_graft (left : Expr) (operator : String) (right : Expr) :
    (graft left operator right).floats = left.floats ++ right.floats := by
  fun_induction graft left operator right with
  | case1 value field _ ih => exact ih
  | case2 => rfl
  | case3 => rfl

theorem itemFloats_mapM {f : Expr → Option Expr} {ts : List Expr} (h : ∀ x ∈ xs, ∀ t, f x = some t → t.floats = x.floats)
    (hts : xs.mapM f = some ts) : itemFloats ts = itemFloats xs := by
  induction mapM_eq_some_iff.1 hts with
  | nil => rfl
  | cons hx hxs ih =>
    obtain ⟨hfirst, hrest⟩ := List.forall_mem_cons.1 h
    rw [itemFloats, itemFloats, hfirst _ hx, ih hrest (mapM_eq_some_iff.2 hxs)]

theorem floats_typeOf_of_openType (hopen : e.startsType → ∀ u, e.openType = some u → u.closed.floats = e.floats)
    (ht : e.typeOf = some t) : t.floats = e.floats := by
  cases hstart : e.startsType with
  | false =>
    rw [typeOf_of_not_startsType hstart] at ht
    rw [Option.some.inj ht]
  | true =>
    rw [typeOf_of_startsType hstart] at ht
    obtain ⟨u, hu, rfl⟩ := Option.map_eq_some_iff.1 ht
    exact hopen hstart u hu

theorem Legible.floats_openType (h : e.Legible) (hstart : e.startsType) {u : OpenType} (hu : e.openType = some u) :
    u.closed.floats = e.floats := by
  induction h generalizing u with
  | @member value field _ hbase _ ih =>
    obtain ⟨v, hv, rfl⟩ := Option.map_eq_some_iff.1 hu
    have hvalue := ih hstart hv
    rwa [OpenType.closed_of_rest (openType_rest (not_isSigned_of_isBase hbase).1 v hv)] at hvalue
  | @subscript value slice _ _ _ _ _ ih =>
    cases hname : value.name? with
    | none => simp [openType_subscript hname] at hu
    | some id =>
      obtain rfl := eq_name_of_name? hname
      rw [openType_subscript_name] at hu
      obtain ⟨ts, hts, rfl⟩ := Option.map_eq_some_iff.1 hu
      have hitems : itemFloats ts = itemFloats slice.indices :=
        itemFloats_mapM (fun x hx t ht => floats_typeOf_of_openType (fun hstart _ hu => ih x hx hstart hu) ht) hts
      rw [OpenType.closed_none, parametersOf_eq_sliceOf, floats, floats, floats_sliceOf, hitems, itemFloats_indices]
  | @binary left right operator hleft hright hop hl hr ihl ihr =>
    rw [openType] at hu
    split at hu
    · next hop =>
      subst hop
      obtain ⟨⟨type, rest⟩, htype, hbar⟩ := Option.bind_eq_some_iff.1 hu
      have hleft_floats := ihl hstart htype
      cases rest with
      | some x =>
        obtain rfl := Option.some.inj hbar
        simpa [floats] using congrArg (· ++ right.floats) hleft_floats
      | none =>
        simp only [OpenType.bar] at hbar
        split at hbar
        · next hright_start =>
          obtain ⟨w, hw, rfl⟩ := Option.map_eq_some_iff.1 hbar
          obtain ⟨id, slice, fields, rfl⟩ := hright.openType_eq_members hright_start hr hw
          rw [OpenType.closed_none, floats_graft, floats]
          exact congrArg₂ (· ++ ·) hleft_floats (ihr hright_start hw)
        · obtain rfl := Option.some.inj hbar
          simpa [floats] using hleft_floats
    · cases hu
  | call => cases hu
  | _ => cases hstart

/-- Reading a text as a type leaves the floats as they are. -/
theorem Legible.floats_typeOf (h : e.Legible) (ht : e.typeOf = some t) : t.floats = e.floats :=
  floats_typeOf_of_openType (fun hstart _ hu => h.floats_openType hstart hu) ht

/-! ## What is read is the same -/

theorem mem_itemFloats {d : Double} : d ∈ itemFloats xs ↔ ∃ x ∈ xs, d ∈ x.floats := by
  induction xs with
  | nil => simp [itemFloats]
  | cons x xs ih => simp [itemFloats, ih]

theorem mem_keywordFloats {ks : List (String × Expr)} {d : Double} : d ∈ keywordFloats ks ↔ ∃ k ∈ ks, d ∈ k.2.floats := by
  induction ks with
  | nil => simp [keywordFloats]
  | cons k ks ih =>
    obtain ⟨name, x⟩ := k
    simp [keywordFloats, ih]

theorem mem_floats_subscript {value slice : Expr} {d : Double} :
    d ∈ (Expr.subscript value slice).floats ↔ d ∈ value.floats ∨ ∃ x ∈ slice.indices, d ∈ x.floats := by
  rw [floats, List.mem_append, ← itemFloats_indices slice, mem_itemFloats]

/-- The floats of an ordinary expression are numbers. -/
theorem Ordinary.isFinite_of_mem_floats (h : e.Ordinary) : ∀ d ∈ e.floats, d.isFinite := by
  intro d hd
  induction h with
  | float hnumber =>
    obtain rfl := List.mem_singleton.1 hd
    cases d <;> first | rfl | cases hnumber
  | member _ _ _ ih => exact ih hd
  | subscript _ _ _ _ ih ihs =>
    obtain hd | ⟨x, hx, hd⟩ := mem_floats_subscript.1 hd
    · exact ih hd
    · exact ihs x hx hd
  | call _ _ _ _ _ ih ihx ihk =>
    simp only [floats, List.mem_append, mem_itemFloats, mem_keywordFloats] at hd
    obtain hd | ⟨x, hx, hd⟩ | ⟨k, hk, hd⟩ := hd
    · exact ih hd
    · exact ihx x hx hd
    · exact ihk k hk hd
  | tuple _ ih | list _ ih =>
    obtain ⟨x, hx, hd⟩ := mem_itemFloats.1 hd
    exact ih x hx hd
  | binary _ _ _ ihl ihr =>
    obtain hd | hd := List.mem_append.1 hd
    · exact ihl hd
    · exact ihr hd
  | _ => cases hd

theorem Legible.isFinite_of_mem_floats (h : e.Legible) : ∀ d ∈ e.floats, d.isFinite := by
  intro d hd
  induction h with
  | float hreads =>
    obtain rfl := List.mem_singleton.1 hd
    exact Double.isFinite_of_readsBack hreads
  | member _ _ _ ih => exact ih hd
  | subscript _ _ _ _ ih ihs =>
    obtain hd | ⟨x, hx, hd⟩ := mem_floats_subscript.1 hd
    · exact ih hd
    · exact ihs x hx hd
  | call _ _ _ _ _ ih ihx ihk =>
    simp only [floats, List.mem_append, mem_itemFloats, mem_keywordFloats] at hd
    obtain hd | ⟨x, hx, hd⟩ | ⟨k, hk, hd⟩ := hd
    · exact ih hd
    · exact ihx x hx hd
    · exact ihk k hk hd
  | tuple _ ih | list _ ih =>
    obtain ⟨x, hx, hd⟩ := mem_itemFloats.1 hd
    exact ih x hx hd
  | binary _ _ _ _ _ ihl ihr =>
    obtain hd | hd := List.mem_append.1 hd
    · exact ihl hd
    · exact ihr hd
  | _ => cases hd

/-- The text of an ordinary expression is read as the same only if it is read as itself. -/
theorem Ordinary.same_reread_iff (h : e.Ordinary) : e.reread.same e ↔ e.isUpright := by
  rw [← h.reread_eq_iff, same_iff_eq h.floats_reread fun d hd => Double.same_self (h.isFinite_of_mem_floats d hd)]

/-- So is the type that the text is. -/
theorem Ordinary.same_typeOf_iff (h : e.Ordinary) (ht : e.reread.typeOf = some t) : t.same e ↔ e.isUprightType := by
  have hfloats := h.rereads.legible.floats_typeOf ht ▸ h.floats_reread
  rw [← h.typeOf_reread_eq_iff, ht, Option.some_inj,
    same_iff_eq hfloats fun d hd => Double.same_self (h.isFinite_of_mem_floats d hd)]

end Expr
end PluginTools
