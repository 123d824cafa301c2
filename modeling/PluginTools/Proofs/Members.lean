/-
Members of JSON objects, name by name: what `put` and `ofList` leave to `get?`. Nothing here needs the
members to be in order; `put` answers for its own name wherever it stands.
-/
import Mathlib.Data.List.Nodup
import PluginTools.Json.Value

namespace PluginTools

namespace Members

@[simp] theorem get?_nil (k : String) : get? k ([] : List (String × α)) = none := rfl

theorem get?_cons (k n : String) (v : α) (ms : List (String × α)) :
    get? k ((n, v) :: ms) = if k = n then some v else get? k ms := rfl

@[simp] theorem get?_append (k : String) (xs ys : List (String × α)) :
    get? k (xs ++ ys) = (get? k xs).or (get? k ys) := by
  induction xs with
  | nil => simp
  | cons m xs ih =>
    obtain ⟨n, v⟩ := m
    simp only [List.cons_append, get?_cons]
    split
    · rfl
    · exact ih

theorem get?_put (k n : String) (v : α) (ms : List (String × α)) :
    get? k (put n v ms) = if k = n then some v else get? k ms := by
  induction ms with
  | nil => rfl
  | cons m ms ih =>
    obtain ⟨m, w⟩ := m
    simp only [put]
    by_cases hnm : n = m
    · subst hnm
      simp only [↓reduceIte, get?_cons]
      split <;> rfl
    · simp only [hnm, ↓reduceIte]
      split
      · rfl
      · simp only [get?_cons, ih]
        by_cases hkm : k = m
        · have hkn : k ≠ n := fun h => hnm (h.symm.trans hkm)
          simp [hkm, Ne.symm hnm]
        · simp [hkm]

theorem get?_map (name : β → String) (value : β → α) (k : String) (xs : List β) :
    get? k (xs.map fun x => (name x, value x)) = (xs.find? (name · = k)).map value := by
  induction xs with
  | nil => rfl
  | cons x xs ih =>
    rw [List.map_cons, get?_cons, ih, List.find?_cons]
    by_cases h : name x = k
    · simp [h]
    · simp [h, Ne.symm h]

/-- Of the members of one name the last counts. -/
theorem get?_ofList (k : String) (ms : List (String × α)) : get? k (ofList ms) = get? k ms.reverse := by
  have key : ∀ (ms acc : List (String × α)),
      get? k (ms.foldl (fun ms m => put m.1 m.2 ms) acc) = (get? k ms.reverse).or (get? k acc) := by
    intro ms
    induction ms with
    | nil => simp
    | cons m ms ih =>
      intro acc
      obtain ⟨n, v⟩ := m
      rw [List.foldl_cons, ih, List.reverse_cons, get?_append, Option.or_assoc, get?_put]
      congr 1
      by_cases h : k = n <;> simp [get?_cons, h]
  simpa [ofList] using key ms []

theorem get?_isSome_iff (k : String) (ms : List (String × α)) :
    (∃ v, get? k ms = some v) ↔ k ∈ ms.map (·.1) := by
  induction ms with
  | nil => simp
  | cons m ms ih =>
    obtain ⟨n, v⟩ := m
    simp only [get?_cons, List.map_cons, List.mem_cons]
    by_cases h : k = n
    · simp [h]
    · simp [h, ih]

theorem get?_of_mem {k : String} {v : α} {ms : List (String × α)} (distinct : (ms.map (·.1)).Nodup)
    (h : (k, v) ∈ ms) : get? k ms = some v := by
  induction ms with
  | nil => simp at h
  | cons m ms ih =>
    obtain ⟨n, w⟩ := m
    simp only [List.map_cons, List.nodup_cons] at distinct
    simp only [List.mem_cons, Prod.mk.injEq] at h
    rcases h with ⟨rfl, rfl⟩ | h
    · simp [get?_cons]
    · have hne : k ≠ n := fun he => distinct.1 (he ▸ List.mem_map_of_mem (f := (·.1)) h)
      simp only [get?_cons, hne, ↓reduceIte]
      exact ih distinct.2 h

/-- Distinct names keep their values, whatever the order they are put in. -/
theorem get?_ofList_of_mem {k : String} {v : α} {ms : List (String × α)}
    (distinct : (ms.map (·.1)).Nodup) (h : (k, v) ∈ ms) : get? k (ofList ms) = some v := by
  rw [get?_ofList]
  refine get?_of_mem ?_ (List.mem_reverse.2 h)
  rw [List.map_reverse]
  exact List.nodup_reverse.2 distinct

theorem get?_ofList_isSome_iff (k : String) (ms : List (String × α)) :
    (∃ v, get? k (ofList ms) = some v) ↔ k ∈ ms.map (·.1) := by
  rw [get?_ofList, get?_isSome_iff, List.map_reverse, List.mem_reverse]

end Members

namespace Json

theorem member?_ofMembers (k : String) (ms : List (String × Json)) :
    (ofMembers ms).member? k = Members.get? k ms.reverse := Members.get?_ofList k ms

/-- What an object made from a list has under a name is from the last of that name. -/
theorem member?_ofMembers_map (name : α → String) (value : α → Json) (k : String) (xs : List α) :
    (ofMembers (xs.map fun x => (name x, value x))).member? k = (xs.findRev? (name · = k)).map value := by
  rw [member?_ofMembers, ← List.map_reverse, Members.get?_map, List.findRev?_eq_find?_reverse]

end Json
end PluginTools
