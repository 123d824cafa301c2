/-
The readers' loops. A repeated step goes where its steps lead, as long as each of them takes something off
the text; and a list of items with commas between them is read item by item, or not up to its closing
mark where one item is stuck.
-/
import PluginTools.Proofs.Places
import PluginTools.Source.Expr

namespace PluginTools

open Layout

/-! ## Repeated steps -/

namespace Reading

/-- Some steps, each of which takes something off the text. -/
inductive Reaches (step : α → List Char → Option (α × List Char)) (a : α) (cs : List Char) : α → List Char → Prop
  | refl : Reaches step a cs a cs
  | snoc {b c : α} {ds es : List Char} (h : Reaches step a cs b ds) (hstep : step b ds = some (c, es))
    (shorter : es.length < ds.length) : Reaches step a cs c es

variable {step : α → List Char → Option (α × List Char)} {a b : α} {cs ds : List Char}

theorem Reaches.length_le (h : Reaches step a cs b ds) : ds.length ≤ cs.length := by
  induction h with
  | refl => exact Nat.le_refl _
  | snoc _ _ shorter ih => exact Nat.le_trans (Nat.le_of_lt shorter) ih

/-- Where some steps lead, the loop goes on from with the number of rounds that are left. -/
theorem iterate_of_reaches (h : Reaches step a cs b ds) {fuel : Nat} (hfuel : cs.length ≤ fuel) :
    ∃ rest, ds.length ≤ rest ∧ iterate step fuel a cs = iterate step rest b ds := by
  induction h with
  | refl => exact ⟨fuel, hfuel, rfl⟩
  | snoc _ hstep shorter ih =>
    obtain ⟨rest, hrest, heq⟩ := ih
    cases rest with
    | zero => omega
    | succ rest =>
      refine ⟨rest, by omega, ?_⟩
      rw [heq, iterate, hstep]

theorem iterate_of_stop (h : step a cs = none) (fuel : Nat) : iterate step fuel a cs = (a, cs) := by
  cases fuel <;> simp [iterate, h]

theorem repeated_of_reaches (h : Reaches step a cs b ds) (stop : step b ds = none) :
    repeated step a cs = (b, ds) := by
  obtain ⟨rest, -, heq⟩ := iterate_of_reaches h (Nat.le_refl cs.length)
  rw [repeated, heq, iterate_of_stop stop]

theorem repeated_of_stop (stop : step a cs = none) : repeated step a cs = (a, cs) :=
  repeated_of_reaches .refl stop

theorem Reaches.trans {c : α} {es : List Char} (h : Reaches step a cs b ds) (h' : Reaches step b ds c es) :
    Reaches step a cs c es := by
  induction h' with
  | refl => exact h
  | snoc _ hstep shorter ih => exact ih.snoc hstep shorter

/-- Before one of the given marks, perhaps with a blank between. -/
def IsBefore (marks : List Char) (cs : List Char) : Prop :=
  ∃ c ∈ marks, ∃ ds, cs = c :: ds ∨ cs = ' ' :: c :: ds

theorem IsBefore.append {marks : List Char} (h : IsBefore marks cs) (ds : List Char) : IsBefore marks (cs ++ ds) := by
  obtain ⟨c, hc, es, rfl | rfl⟩ := h
  · exact ⟨c, hc, es ++ ds, .inl rfl⟩
  · exact ⟨c, hc, es ++ ds, .inr rfl⟩

/-- A reading that fails, or stops before one of the given marks. -/
def Stuck (marks : List Char) (o : Option (α × List Char)) : Prop := ∀ v stop, o = some (v, stop) → IsBefore marks stop

/-- A reading that takes all of a text up to `t`, or is stuck where there is no value. -/
def Gives (marks : List Char) (value? : Option α) (t : List Char) (o : Option (α × List Char)) : Prop :=
  match value? with
  | some v => o = some (v, t)
  | none => Stuck marks o

theorem Stuck.fails (marks : List Char) : Stuck marks (none : Option (α × List Char)) :=
  fun _ _ h => nomatch h

theorem Stuck.stops {marks : List Char} (h : IsBefore marks ds) (v : α) : Stuck marks (some (v, ds)) := by
  rintro v' stop he
  simp only [Option.some.injEq, Prod.mk.injEq] at he
  exact he.2 ▸ h

end Reading

/-! ## Lists -/

theorem commaSeparated_cons (x : List Char) (xs : List (List Char)) :
    commaSeparated (x :: xs) = x ++ xs.flatMap fun y => ',' :: ' ' :: y := by
  induction xs generalizing x with
  | nil => simp [commaSeparated, List.intercalate]
  | cons y ys ih =>
    have h : commaSeparated (x :: y :: ys) = x ++ ',' :: ' ' :: commaSeparated (y :: ys) := by
      simp [commaSeparated, List.intercalate, List.intersperse]
    rw [h, ih]
    simp

namespace Place

/-- Some items, each with a comma and a blank before it. -/
def itemsText (text : β → List Char) (ys : List β) : List Char := ys.flatMap fun y => ',' :: ' ' :: text y

@[simp] theorem itemsText_nil (text : β → List Char) : itemsText text [] = [] := rfl

@[simp] theorem itemsText_cons (text : β → List Char) (y : β) (ys : List β) :
    itemsText text (y :: ys) = ',' :: ' ' :: (text y ++ itemsText text ys) := rfl

theorem commaSeparated_map_cons (text : β → List Char) (y : β) (ys : List β) :
    commaSeparated ((y :: ys).map text) = text y ++ itemsText text ys := by
  simp [commaSeparated_cons, itemsText, List.flatMap_map]

theorem length_le_length_itemsText (text : β → List Char) (ys : List β) :
    ys.length ≤ (itemsText text ys).length := by
  induction ys with
  | nil => simp
  | cons y ys ih =>
    simp only [itemsText_cons, List.length_cons, List.length_append]
    omega

/-- The text behind an item of a list: more items or what stands behind the list. -/
def Follows (rest t : List Char) : Prop := t.head? = some ',' ∨ t = rest

theorem follows_itemsText (text : β → List Char) (ys : List β) (rest : List Char) :
    Follows rest (itemsText text ys ++ rest) := by
  cases ys with
  | nil => exact .inr rfl
  | cons y ys => exact .inl rfl

variable {p q : Place} {j : String → List α} {item : List Char → Option (α × List Char)}
  {text : β → List Char} {value : β → α} {rest : List Char}

theorem elements_of_mark?_eq_none (h : p.mark? ',' rest = none) (fuel : Nat) :
    p.elements q j item fuel rest = ([], rest) := by
  cases fuel <;> simp [elements, h]

theorem elements_of_item_eq_none {cs : List Char} (h : startsToken cs) (hitem : item cs = none) (fuel : Nat) :
    p.elements q j item fuel (',' :: cs) = ([], ',' :: cs) := by
  cases fuel <;> simp [elements, mark?_self (show isMark ',' by decide), token?_of_startsToken h, hitem]

/-- One more element. -/
theorem elements_cons {cs ds : List Char} {a : α} (h : startsToken cs) (hitem : item cs = some (a, ds)) (fuel : Nat) :
    p.elements q j item (fuel + 1) (',' :: ' ' :: cs) =
      (a :: (p.elements q j item fuel ds).1, (p.elements q j item fuel ds).2) := by
  simp [elements, mark?_self (show isMark ',' by decide), token?_blank h, hitem]

theorem elements_of_fuel {ys : List β} (hstart : ∀ y ∈ ys, ∀ t, startsToken (text y ++ t))
    (hitem : ∀ y ∈ ys, ∀ t, Follows rest t → item (text y ++ t) = some (value y, t))
    (hend : ∀ fuel, p.elements q j item fuel rest = ([], rest)) {fuel : Nat} (hfuel : ys.length ≤ fuel) :
    p.elements q j item fuel (itemsText text ys ++ rest) = (ys.map value, rest) := by
  induction ys generalizing fuel with
  | nil => simp [hend]
  | cons y ys ih =>
    obtain ⟨hsy, hsys⟩ := List.forall_mem_cons.1 hstart
    obtain ⟨hiy, hiys⟩ := List.forall_mem_cons.1 hitem
    cases fuel with
    | zero => simp at hfuel
    | succ fuel =>
      have hrest := ih hsys hiys (Nat.le_of_succ_le_succ hfuel)
      simp only [itemsText_cons, List.cons_append, List.append_assoc, List.map_cons]
      rw [elements_cons (hsy _) (hiy _ (follows_itemsText text ys rest)), hrest]

/-- A list is read item by item. -/
theorem elements_itemsText {ys : List β} (hstart : ∀ y ∈ ys, ∀ t, startsToken (text y ++ t))
    (hitem : ∀ y ∈ ys, ∀ t, Follows rest t → item (text y ++ t) = some (value y, t))
    (hend : ∀ fuel, p.elements q j item fuel rest = ([], rest)) :
    p.elements q j item (itemsText text ys ++ rest).length (itemsText text ys ++ rest) =
      (ys.map value, rest) := by
  have hlength := length_le_length_itemsText text ys
  exact elements_of_fuel hstart hitem hend (by simp only [List.length_append]; omega)

/-- The elements of a list up to its closing mark. -/
theorem close?_mark {c : Char} (hc : isMark c) (hcomma : c ≠ ',') (cs : List Char) :
    p.close? c (c :: cs) = some ([], cs) := by
  simp [close?, mark?_other hc hcomma, mark?_self hc]

theorem mark?_blank_of_head?_ne {c : Char} {cs : List Char} (h : startsToken cs) (hne : cs.head? ≠ some c) :
    p.mark? c (' ' :: cs) = none := by
  cases cs with
  | nil => cases h
  | cons d cs =>
    have hdc : d ≠ c := by simpa using hne
    by_cases hs : startsString (d :: cs)
    · have hstuck : p.token? false (' ' :: d :: cs) = none := by
        simp [token?, gap_blank_string h hs]
      simp [mark?, hstuck]
    · simp [mark?, token?_blank_of_not_string h (by simpa using hs), hdc]

theorem mark?_of_isBefore {c : Char} {marks cs : List Char} (hmarks : ∀ d ∈ marks, isMark d ∧ d ≠ c)
    (h : Reading.IsBefore marks cs) : p.mark? c cs = none := by
  obtain ⟨d, hd, ds, rfl | rfl⟩ := h
  · exact mark?_other (hmarks d hd).1 (hmarks d hd).2
  · simp [mark?, token?_blank_mark (hmarks d hd).1, (hmarks d hd).2]

/-- A list is not closed where it cannot go on. -/
theorem close?_of_isBefore {c : Char} {marks cs : List Char} (hmarks : ∀ d ∈ marks, isMark d ∧ d ≠ ',' ∧ d ≠ c)
    (h : Reading.IsBefore marks cs) : p.close? c cs = none := by
  have hcomma := mark?_of_isBefore (p := p) (fun d hd => ⟨(hmarks d hd).1, (hmarks d hd).2.1⟩) h
  have hclose := mark?_of_isBefore (p := p) (fun d hd => ⟨(hmarks d hd).1, (hmarks d hd).2.2⟩) h
  simp [close?, hcomma, hclose]

theorem close?_of_item {c : Char} {cs : List Char} (h : startsToken cs) (hne : cs.head? ≠ some c) :
    p.close? c (',' :: ' ' :: cs) = none := by
  simp [close?, mark?_self (show isMark ',' by decide), mark?_blank_of_head?_ne h hne]

/-- A list whose items are all read is read item by item up to its closing mark, and a list with an item that
is stuck has no closing mark. -/
theorem elements_of_gives {c : Char} {marks : List Char} {value? : β → Option α} {ys : List β}
    (hc : isMark c) (hcomma : c ≠ ',') (hmarks : ∀ d ∈ marks, isMark d ∧ d ≠ ',' ∧ d ≠ c)
    (hstart : ∀ y ∈ ys, ∀ t, startsToken (text y ++ t) ∧ (text y ++ t).head? ≠ some c)
    (hitem : ∀ y ∈ ys, ∀ t, Follows (c :: rest) t → Reading.Gives marks (value? y) t (item (text y ++ t)))
    {fuel : Nat} (hfuel : ys.length ≤ fuel) :
    match ys.mapM value? with
    | some vs => p.elements q j item fuel (itemsText text ys ++ c :: rest) = (vs, c :: rest)
    | none => p.close? c (p.elements q j item fuel (itemsText text ys ++ c :: rest)).2 = none := by
  induction ys generalizing fuel with
  | nil => exact elements_of_mark?_eq_none (mark?_other hc hcomma) fuel
  | cons y ys ih =>
    obtain ⟨⟨htoken, hhead⟩, hsys⟩ := (List.forall_mem_cons.1 hstart).imp_left fun h => h (itemsText text ys ++ c :: rest)
    obtain ⟨hread, hiys⟩ := (List.forall_mem_cons.1 hitem).imp_left fun h => h _ (follows_itemsText text ys (c :: rest))
    obtain ⟨fuel, rfl⟩ := Nat.exists_eq_add_one.2 (Nat.zero_lt_of_lt hfuel)
    simp only [itemsText_cons, List.cons_append, List.append_assoc, List.mapM_cons]
    cases hy : value? y with
    | none =>
      rw [hy, Reading.Gives] at hread
      cases hi : item (text y ++ (itemsText text ys ++ c :: rest)) with
      | none =>
        have hstop : p.elements q j item (fuel + 1) (',' :: ' ' :: (text y ++ (itemsText text ys ++ c :: rest))) =
            ([], ',' :: ' ' :: (text y ++ (itemsText text ys ++ c :: rest))) := by
          simp [elements, mark?_self (show isMark ',' by decide), token?_blank htoken, hi]
        simp [hstop, close?_of_item htoken hhead]
      | some read =>
        have hbefore := hread read.1 read.2 hi
        have hnone := mark?_of_isBefore (p := p) (fun d hd => ⟨(hmarks d hd).1, (hmarks d hd).2.1⟩) hbefore
        simp [elements_cons htoken hi, elements_of_mark?_eq_none hnone, close?_of_isBefore hmarks hbefore]
    | some v =>
      rw [hy, Reading.Gives] at hread
      have hrest := ih hsys hiys (Nat.le_of_succ_le_succ hfuel)
      rw [elements_cons htoken hread]
      cases hys : ys.mapM value? with
      | none => simpa [hys] using hrest
      | some vs => simp_all

/-- One item or more with commas between them, up to a closing mark. -/
def closed? (p : Place) (join : String → List α) (item : List Char → Option (α × List Char)) (c : Char)
    (cs : List Char) : Option (List α × List Char) := do
  let (first, rest) ← item cs
  let (more, rest) := p.elements p join item rest.length rest
  let (behind, stop) ← p.close? c rest
  some (first :: (more ++ behind.flatMap join), stop)

/-- A list is read up to its closing mark if none of its items is stuck. -/
theorem closed?_itemsText {c : Char} {marks : List Char} {value? : β → Option α} {y : β} {ys : List β}
    (hc : isMark c) (hcomma : c ≠ ',') (hmarks : ∀ d ∈ marks, isMark d ∧ d ≠ ',' ∧ d ≠ c)
    (hstart : ∀ x ∈ ys, ∀ t, startsToken (text x ++ t) ∧ (text x ++ t).head? ≠ some c)
    (hitem : ∀ x ∈ y :: ys, ∀ t, Follows (c :: rest) t → Reading.Gives marks (value? x) t (item (text x ++ t))) :
    p.closed? j item c (text y ++ (itemsText text ys ++ c :: rest)) = ((y :: ys).mapM value?).map (·, rest) := by
  obtain ⟨hread, hitems⟩ := (List.forall_mem_cons.1 hitem).imp_left fun h => h _ (follows_itemsText text ys (c :: rest))
  have hlength := length_le_length_itemsText text ys
  have helements := elements_of_gives (p := p) (q := p) (j := j) hc hcomma hmarks hstart hitems
    (show ys.length ≤ (itemsText text ys ++ c :: rest).length by simp only [List.length_append]; omega)
  simp only [closed?, Option.bind_eq_bind, List.mapM_cons]
  cases hy : value? y with
  | none =>
    rw [hy, Reading.Gives] at hread
    cases hi : item (text y ++ (itemsText text ys ++ c :: rest)) with
    | none => rfl
    | some read =>
      have hbefore := hread read.1 read.2 hi
      have hnone := mark?_of_isBefore (p := p) (fun d hd => ⟨(hmarks d hd).1, (hmarks d hd).2.1⟩) hbefore
      simp [elements_of_mark?_eq_none hnone, close?_of_isBefore hmarks hbefore]
  | some v =>
    rw [hy, Reading.Gives] at hread
    simp only [hread, Option.bind_some]
    cases hys : ys.mapM value? with
    | none =>
      rw [hys] at helements
      simp only [helements]
      rfl
    | some vs =>
      rw [hys] at helements
      simp only [helements, close?_mark hc hcomma]
      simp

end Place
end PluginTools
