/-
A roster filled from a list: its names are those of the list in order of first arrival, and each stands
beside the last value that came under it.
-/
import Mathlib.Data.List.Forall2
import Mathlib.Data.List.Induction
import PluginTools.Roster

namespace PluginTools

theorem map_eq_map_of_forall₂ {R : α → β → Prop} {f : α → γ} {g : β → γ} (keeps : ∀ {a b}, R a b → f a = g b)
    {xs : List α} {ys : List β} (h : List.Forall₂ R xs ys) : xs.map f = ys.map g := by
  induction h with
  | nil => rfl
  | cons hab _ ih => simp only [List.map_cons, keeps hab, ih]

theorem exists_of_forall₂_right {R : α → β → Prop} {xs : List α} {ys : List β} (h : List.Forall₂ R xs ys) {b : β}
    (hb : b ∈ ys) : ∃ a ∈ xs, R a b := by
  induction h with
  | nil => simp at hb
  | cons hab _ ih =>
    rcases List.mem_cons.1 hb with rfl | hb
    · exact ⟨_, List.mem_cons_self, hab⟩
    · obtain ⟨a, ha, hr⟩ := ih hb
      exact ⟨a, List.mem_cons_of_mem _ ha, hr⟩

/-- What is found from the end is there. -/
theorem mem_of_findRev? {p : α → Bool} {xs : List α} {x : α} (h : xs.findRev? p = some x) : x ∈ xs ∧ p x = true := by
  rw [List.findRev?_eq_find?_reverse] at h
  exact ⟨List.mem_reverse.1 (List.mem_of_find?_eq_some h), List.find?_some h⟩

namespace Roster

theorem find?_eq_some_of_mem {n : String} {v : α} {es : List (String × α)}
    (distinct : (es.map (·.1)).Nodup) (h : (n, v) ∈ es) : find? n es = some v := by
  induction es with
  | nil => simp at h
  | cons e es ih =>
    obtain ⟨m, w⟩ := e
    simp only [List.map_cons, List.nodup_cons] at distinct
    simp only [List.mem_cons, Prod.mk.injEq] at h
    rcases h with ⟨rfl, rfl⟩ | h
    · simp [find?]
    · have hne : m ≠ n := fun he => distinct.1 (he ▸ List.mem_map_of_mem (f := (·.1)) h)
      simp only [find?, hne, ↓reduceIte]
      exact ih distinct.2 h

/-! ## One insertion -/

theorem map_fst_place (n : String) (v : α) (es : List (String × α)) :
    (place n v es).map (·.1) = if n ∈ es.map (·.1) then es.map (·.1) else es.map (·.1) ++ [n] := by
  induction es with
  | nil => simp [place]
  | cons e es ih =>
    obtain ⟨m, w⟩ := e
    by_cases h : m = n
    · simp [place, h]
    · simp only [place, h, ↓reduceIte, List.map_cons, ih, List.mem_cons, Ne.symm h, false_or]
      split <;> simp

theorem names_insert (r : Roster α) (n : String) (v : α) :
    (r.insert n v).names = if n ∈ r.names then r.names else r.names ++ [n] := map_fst_place n v r.entries

/-- A new name comes last. -/
theorem place_of_not_mem {n : String} {v : α} {es : List (String × α)} (h : n ∉ es.map (·.1)) :
    place n v es = es ++ [(n, v)] := by
  induction es with
  | nil => rfl
  | cons e es ih =>
    obtain ⟨m, w⟩ := e
    simp only [List.map_cons, List.mem_cons, not_or] at h
    simp [place, Ne.symm h.1, ih h.2]

theorem find?_place (n m : String) (v : α) (es : List (String × α)) :
    find? n (place m v es) = if n = m then some v else find? n es := by
  induction es with
  | nil =>
    simp only [place, find?]
    by_cases h : n = m
    · simp [h]
    · simp [h, Ne.symm h]
  | cons e es ih =>
    obtain ⟨k, w⟩ := e
    simp only [place]
    by_cases hkm : k = m
    · subst hkm
      by_cases hn : n = k
      · simp [find?, hn]
      · simp [find?, hn, Ne.symm hn]
    · simp only [hkm, ↓reduceIte, find?, ih]
      by_cases hkn : k = n
      · subst hkn
        simp [hkm]
      · simp [hkn]

theorem get?_insert (r : Roster α) (n m : String) (v : α) :
    (r.insert m v).get? n = if n = m then some v else r.get? n := find?_place n m v r.entries

/-! ## Filling -/

section
variable (name : α → String)

theorem ofList_append (xs : List α) (x : α) :
    ofList (xs ++ [x]) name = (ofList xs name).insert (name x) x := by
  simp [ofList]

theorem names_ofList (xs : List α) : (ofList xs name).names = (xs.map name).eraseDups := by
  induction xs using List.reverseRecOn with
  | nil => rfl
  | append_singleton xs x ih =>
    rw [ofList_append, names_insert, ih, List.map_append, List.eraseDups_append]
    by_cases h : name x ∈ xs.map name
    · have hgone : [name x].removeAll (xs.map name) = [] := by
        simpa [List.removeAll, List.filter_cons] using h
      simp [h, hgone]
    · have hnew : [name x].removeAll (xs.map name) = [name x] := by
        simpa [List.removeAll, List.filter_cons] using h
      simp only [List.mem_eraseDups, h, ↓reduceIte, List.map_cons, List.map_nil, hnew, List.eraseDups_cons]
      rfl

theorem nodup_names_ofList (xs : List α) : (ofList xs name).names.Nodup := by
  induction xs using List.reverseRecOn with
  | nil => exact List.nodup_nil
  | append_singleton xs x ih =>
    rw [ofList_append, names_insert]
    split
    · exact ih
    · next h =>
      refine List.nodup_append.2 ⟨ih, by simp, fun a ha b hb he => h ?_⟩
      rwa [← List.mem_singleton.1 hb, ← he]

theorem get?_ofList (xs : List α) (n : String) :
    (ofList xs name).get? n = xs.findRev? (name · = n) := by
  induction xs using List.reverseRecOn with
  | nil => rfl
  | append_singleton xs x ih =>
    rw [ofList_append, get?_insert, ih, List.findRev?_eq_find?_reverse, List.findRev?_eq_find?_reverse,
      List.reverse_append, List.reverse_singleton, List.singleton_append, List.find?_cons]
    by_cases h : n = name x
    · simp [h]
    · simp [h, Ne.symm h]

theorem findRev?_of_mem_entries {xs : List α} {e : String × α} (h : e ∈ (ofList xs name).entries) :
    xs.findRev? (name · = e.1) = some e.2 := by
  rw [← get?_ofList, get?, find?_eq_some_of_mem (nodup_names_ofList name xs) h]

theorem name_of_mem_entries {xs : List α} {e : String × α} (h : e ∈ (ofList xs name).entries) :
    name e.2 = e.1 := by
  simpa using (mem_of_findRev? (findRev?_of_mem_entries name h)).2

theorem map_values_ofList (xs : List α) : (ofList xs name).values.map name = (xs.map name).eraseDups := by
  rw [← names_ofList, names, values, List.map_map]
  exact List.map_congr_left fun e he => name_of_mem_entries name he

/-- The values of a filled roster have distinct names. -/
theorem nodup_map_values_ofList (xs : List α) : ((ofList xs name).values.map name).Nodup := by
  rw [map_values_ofList, ← names_ofList]
  exact nodup_names_ofList name xs

/-- Each value of a filled roster is the last one of its name. -/
theorem findRev?_of_mem_values {xs : List α} {v : α} (h : v ∈ (ofList xs name).values) :
    xs.findRev? (name · = name v) = some v := by
  obtain ⟨e, he, rfl⟩ := List.mem_map.1 h
  rw [name_of_mem_entries name he]
  exact findRev?_of_mem_entries name he

/-- The values of a filled roster: for each name, in order of first arrival, the last value of the name. -/
theorem values_ofList (xs : List α) :
    (ofList xs name).values = (xs.map name).eraseDups.filterMap fun n => xs.findRev? (name · = n) := by
  rw [← names_ofList, names, values, List.filterMap_map, ← List.filterMap_eq_map]
  exact List.filterMap_congr fun e he => (findRev?_of_mem_entries name he).symm

/-- Values of distinct names are collected as they come. -/
theorem values_ofList_of_nodup {xs : List α} (distinct : (xs.map name).Nodup) : (ofList xs name).values = xs := by
  induction xs using List.reverseRecOn with
  | nil => rfl
  | append_singleton xs x ih =>
    simp only [List.map_append, List.map_cons, List.map_nil, List.nodup_append] at distinct
    have hnew : name x ∉ (ofList xs name).names := fun h => by
      rw [names_ofList, List.mem_eraseDups] at h
      exact distinct.2.2 _ h _ List.mem_cons_self rfl
    rw [ofList_append, values, insert, place_of_not_mem hnew, List.map_append, ← values, ih distinct.1]
    rfl

/-- Values that correspond one for one, name by name, still do when they are collected. -/
theorem forall₂_values_ofList {R : α → β → Prop} {other : β → String}
    (keeps : ∀ {a b}, R a b → name a = other b) {xs : List α} {ys : List β} (h : List.Forall₂ R xs ys) :
    List.Forall₂ R (ofList xs name).values (ofList ys other).values := by
  let E : String × α → String × β → Prop := fun e e' => e.1 = e'.1 ∧ R e.2 e'.2
  have hplace : ∀ {a b es es'}, R a b → List.Forall₂ E es es' →
      List.Forall₂ E (place (name a) a es) (place (other b) b es') := by
    intro a b es es' hab hes
    induction hes with
    | nil => exact .cons ⟨keeps hab, hab⟩ .nil
    | @cons e e' es es' he _ ih =>
      obtain ⟨n, v⟩ := e
      obtain ⟨n', v'⟩ := e'
      obtain ⟨rfl, hv⟩ : n = n' ∧ R v v' := he
      simp only [place, ← keeps hab]
      split
      · exact .cons ⟨rfl, hab⟩ ‹_›
      · exact .cons ⟨rfl, hv⟩ (keeps hab ▸ ih)
  have hfill : ∀ {xs : List α} {ys : List β}, List.Forall₂ R xs ys → ∀ {r : Roster α} {r' : Roster β},
      List.Forall₂ E r.entries r'.entries →
      List.Forall₂ E (xs.foldl (fun r v => r.insert (name v) v) r).entries
        (ys.foldl (fun r v => r.insert (other v) v) r').entries := by
    intro xs ys hxy
    induction hxy with
    | nil => exact fun he => he
    | cons hab _ ih => exact fun he => ih (hplace hab he)
  exact List.forall₂_map_left_iff.2 (List.forall₂_map_right_iff.2 ((hfill h .nil).imp fun _ _ he => he.2))

/-- What is done to each value and keeps its name may as well be done before the values are collected. -/
theorem values_ofList_map {k : α → α} (keeps : ∀ x, name (k x) = name x) (xs : List α) :
    (ofList (xs.map k) name).values = (ofList xs name).values.map k := by
  have hvalues : List.Forall₂ (fun a b => k a = b) (ofList xs name).values (ofList (xs.map k) name).values :=
    forall₂_values_ofList name (fun hab => by rw [← hab, keeps])
      (List.forall₂_map_right_iff.2 (List.forall₂_same.2 fun _ _ => rfl))
  simpa using (map_eq_map_of_forall₂ (f := k) (g := id) (fun hab => hab) hvalues).symm

end
end Roster
end PluginTools
