/-
Members in the order of their names. Putting a member in its place keeps them in order, so every object that is read is
in order, and so are the values in it; none of them is deeper than it was read.
-/
import PluginTools.Proofs.Trees

namespace PluginTools

/-! ## Names -/

section

variable {as bs cs : List Char}

theorem precedes_irrefl (as : List Char) : precedes as as = false := by
  induction as with
  | nil => rfl
  | cons a as ih => simp [precedes, ih]

theorem precedes_cons_iff {a b : Char} : precedes (a :: as) (b :: bs) ↔ a.toNat < b.toNat ∨ a = b ∧ precedes as bs := by
  simp [precedes]

theorem precedes_trans (h : precedes as bs) (h' : precedes bs cs) : precedes as cs := by
  induction as generalizing bs cs with
  | nil =>
    cases bs with
    | nil => exact h'
    | cons b bs =>
      cases cs with
      | nil => exact h'
      | cons c cs => rfl
  | cons a as ih =>
    cases bs with
    | nil => exact absurd h (by simp [precedes])
    | cons b bs =>
      cases cs with
      | nil => exact absurd h' (by simp [precedes])
      | cons c cs =>
        rw [precedes_cons_iff] at h h' ⊢
        rcases h with h | ⟨rfl, h⟩
        · rcases h' with h' | ⟨rfl, -⟩
          · exact .inl (Nat.lt_trans h h')
          · exact .inl h
        · exact h'.imp_right fun ⟨hbc, h'⟩ => ⟨hbc, ih h h'⟩

theorem precedes_asymm (h : precedes as bs) : precedes bs as = false := by
  by_contra h'
  exact absurd (precedes_trans h (by simpa using h')) (by simp [precedes_irrefl])

/-- Of two different names one stands before the other. -/
theorem precedes_of_not_precedes (hne : as ≠ bs) (h : precedes as bs = false) : precedes bs as := by
  induction as generalizing bs with
  | nil =>
    cases bs with
    | nil => exact absurd rfl hne
    | cons b bs => cases h
  | cons a as ih =>
    cases bs with
    | nil => rfl
    | cons b bs =>
      rw [← Bool.not_eq_true, precedes_cons_iff, not_or] at h
      rw [precedes_cons_iff]
      obtain ⟨hle, hmore⟩ := h
      rcases Nat.lt_or_eq_of_le (Nat.not_lt.1 hle) with hlt | heq
      · exact .inl hlt
      · obtain rfl : b = a := Char.toNat_inj.1 heq
        exact .inr ⟨rfl, ih (fun he => hne (he ▸ rfl)) (by simpa using fun hp => hmore ⟨rfl, hp⟩)⟩

end

/-! ## Members -/

namespace Members

variable {name : String} {value : α} {m : String × α} {ms : List (String × α)}

/-- Each name stands before all that follow it. -/
def Ordered (ms : List (String × α)) : Prop := ms.Pairwise fun m n => precedes m.1.toList n.1.toList

theorem mem_of_mem_put (h : m ∈ put name value ms) : m = (name, value) ∨ m ∈ ms := by
  induction ms with
  | nil => exact .inl (List.mem_singleton.1 h)
  | cons k ms ih =>
    rw [put] at h
    split at h
    · exact (List.mem_cons.1 h).imp_right (List.mem_cons_of_mem _)
    · split at h
      · exact List.mem_cons.1 h
      · rcases List.mem_cons.1 h with rfl | h
        · exact .inr List.mem_cons_self
        · exact (ih h).imp_right (List.mem_cons_of_mem _)

theorem Ordered.put (h : Ordered ms) (name : String) (value : α) : Ordered (put name value ms) := by
  induction ms with
  | nil => exact List.pairwise_singleton _ _
  | cons k ms ih =>
    obtain ⟨hk, hms⟩ := List.pairwise_cons.1 h
    rw [Members.put]
    split
    · next heq => exact List.pairwise_cons.2 ⟨fun n hn => heq ▸ hk n hn, hms⟩
    · next hne =>
      split
      · next hlt =>
        refine List.pairwise_cons.2 ⟨fun n hn => ?_, h⟩
        rcases List.mem_cons.1 hn with rfl | hn
        · exact hlt
        · exact precedes_trans hlt (hk n hn)
      · next hnlt =>
        have hgt := precedes_of_not_precedes (fun he => hne (String.toList_inj.1 he)) (by simpa using hnlt)
        refine List.pairwise_cons.2 ⟨fun n hn => ?_, ih hms⟩
        rcases mem_of_mem_put hn with rfl | hn
        · exact hgt
        · exact hk n hn

/-- Members given in any order are put in order. -/
theorem ordered_ofList (ms : List (String × α)) : Ordered (ofList ms) := by
  have key : ∀ ms acc : List (String × α), Ordered acc → Ordered (ms.foldl (fun ms m => Members.put m.1 m.2 ms) acc) := by
    intro ms
    induction ms with
    | nil => exact fun _ h => h
    | cons m ms ih => exact fun acc h => ih _ (h.put m.1 m.2)
  exact key ms [] List.Pairwise.nil

theorem mem_of_mem_ofList (h : m ∈ ofList ms) : m ∈ ms := by
  have key : ∀ ms acc : List (String × α), m ∈ ms.foldl (fun ms m => Members.put m.1 m.2 ms) acc → m ∈ ms ∨ m ∈ acc := by
    intro ms
    induction ms with
    | nil => exact fun _ h => .inr h
    | cons k ms ih =>
      intro acc h
      rcases ih _ h with h | h
      · exact .inl (List.mem_cons_of_mem _ h)
      · rcases mem_of_mem_put h with rfl | h
        · exact .inl List.mem_cons_self
        · exact .inr h
  exact (key ms [] h).resolve_right List.not_mem_nil

/-- A name that all others stand before is put last. -/
theorem put_of_precedes (h : ∀ m ∈ ms, precedes m.1.toList name.toList) :
    Members.put name value ms = ms ++ [(name, value)] := by
  induction ms with
  | nil => rfl
  | cons m ms ih =>
    obtain ⟨hm, hms⟩ := List.forall_mem_cons.1 h
    have hne : name ≠ m.1 := by
      rintro rfl
      simp [precedes_irrefl] at hm
    simp [Members.put, hne, precedes_asymm hm, ih hms]

/-- Members in order stay as they are. -/
theorem Ordered.ofList_eq (h : Ordered ms) : ofList ms = ms := by
  have key : ∀ ms acc : List (String × α), Ordered (acc ++ ms) →
      ms.foldl (fun ms m => Members.put m.1 m.2 ms) acc = acc ++ ms := by
    intro ms
    induction ms with
    | nil => simp
    | cons m ms ih =>
      intro acc h
      have hput : Members.put m.1 m.2 acc = acc ++ [m] := put_of_precedes fun k hk =>
        (List.pairwise_append.1 h).2.2 k hk m List.mem_cons_self
      rw [List.foldl_cons, hput, ih _ (by simpa using h)]
      simp
  exact key ms [] h

end Members

namespace Json

/-! ## Values -/

/-- A value whose objects have their members in the order of their names. -/
inductive Ordered : Json → Prop
  | null : Ordered .null
  | bool (b : Bool) : Ordered (.bool b)
  | int (i : Int) : Ordered (.int i)
  | float (d : Double) : Ordered (.float d)
  | text (s : String) : Ordered (.text s)
  | list {vs : List Json} : (∀ v ∈ vs, Ordered v) → Ordered (.list vs)
  | object {ms : List (String × Json)} : Members.Ordered ms → (∀ m ∈ ms, Ordered m.2) → Ordered (.object ms)

mutual

/-- How deep lists and objects nest. -/
def depth : Json → Nat
  | .list vs => itemsDepth vs + 1
  | .object ms => membersDepth ms + 1
  | _ => 0

def itemsDepth : List Json → Nat
  | [] => 0
  | v :: vs => max v.depth (itemsDepth vs)

def membersDepth : List (String × Json) → Nat
  | [] => 0
  | (_, v) :: ms => max v.depth (membersDepth ms)

end

theorem itemsDepth_le_iff {vs : List Json} {d : Nat} : itemsDepth vs ≤ d ↔ ∀ v ∈ vs, v.depth ≤ d := by
  induction vs with
  | nil => simp [itemsDepth]
  | cons v vs ih => simp [itemsDepth, ih]

theorem membersDepth_le_iff {ms : List (String × Json)} {d : Nat} : membersDepth ms ≤ d ↔ ∀ m ∈ ms, m.2.depth ≤ d := by
  induction ms with
  | nil => simp [membersDepth]
  | cons m ms ih => simp [membersDepth, ih]

/-! ## Values that are read -/

namespace Tree

variable {d : Nat} {P : Json → Prop}

theorem forall_of_values? {ts : List Tree} {vs : List Json} (h : values? d ts = some vs)
    (hts : ∀ t ∈ ts, ∀ v, t.value? d = some v → P v) : ∀ v ∈ vs, P v := by
  induction ts generalizing vs with
  | nil =>
    cases h
    exact List.forall_mem_nil _
  | cons t ts ih =>
    obtain ⟨ht, hts⟩ := List.forall_mem_cons.1 hts
    obtain ⟨v, hv, h⟩ := Option.bind_eq_some_iff.1 h
    obtain ⟨vs, hvs, rfl⟩ := Option.map_eq_some_iff.1 h
    exact List.forall_mem_cons.2 ⟨ht v hv, ih hvs hts⟩

theorem forall_of_memberValues? {ts : List (Option String × Tree)} {ms : List (String × Json)}
    (h : memberValues? d ts = some ms) (hts : ∀ t ∈ ts, ∀ v, t.2.value? d = some v → P v) : ∀ m ∈ ms, P m.2 := by
  induction ts generalizing ms with
  | nil =>
    cases h
    exact List.forall_mem_nil _
  | cons t ts ih =>
    obtain ⟨ht, hts⟩ := List.forall_mem_cons.1 hts
    obtain ⟨n, -, h⟩ := Option.bind_eq_some_iff.1 h
    obtain ⟨v, hv, h⟩ := Option.bind_eq_some_iff.1 h
    obtain ⟨ms, hms, rfl⟩ := Option.map_eq_some_iff.1 h
    exact List.forall_mem_cons.2 ⟨ht v hv, ih hms hts⟩

/-- A leaf has a value without members and items. -/
theorem Numeric.ordered_leaf {t : Tree} {v : Json} (ht : t.Numeric) (hlist : ∀ ts, t ≠ .list ts)
    (hobject : ∀ ms, t ≠ .object ms) (h : t.value? d = some v) : v.Ordered ∧ v.depth ≤ d := by
  cases t with
  | null =>
    rw [value?] at h
    cases h
    exact ⟨.null, Nat.zero_le d⟩
  | bool b =>
    rw [value?] at h
    cases h
    exact ⟨.bool b, Nat.zero_le d⟩
  | text s =>
    rw [value?] at h
    obtain ⟨s, -, rfl⟩ := Option.map_eq_some_iff.1 h
    exact ⟨.text s, Nat.zero_le d⟩
  | number n =>
    rw [value?] at h
    subst h
    cases ht v (.leaf _) with
    | int _ => exact ⟨.int _, Nat.zero_le d⟩
    | float _ => exact ⟨.float _, Nat.zero_le d⟩
  | list ts => exact absurd rfl (hlist ts)
  | object ms => exact absurd rfl (hobject ms)

/-- The value of a tree is in order, and not deeper than its tree may be. -/
theorem Numeric.ordered_value? {t : Tree} {v : Json} (ht : t.Numeric) (h : t.value? d = some v) :
    v.Ordered ∧ v.depth ≤ d := by
  induction d generalizing t v with
  | zero =>
    cases t with
    | list ts => cases h
    | object ms => cases h
    | _ => exact ht.ordered_leaf (by simp) (by simp) h
  | succ d ih =>
    cases t with
    | list ts =>
      rw [value?] at h
      obtain ⟨vs, hvs, rfl⟩ := Option.map_eq_some_iff.1 h
      have hall := forall_of_values? hvs fun t hmem v hv => ih (ht.item hmem) hv
      exact ⟨.list fun v hv => (hall v hv).1, Nat.succ_le_succ (itemsDepth_le_iff.2 fun v hv => (hall v hv).2)⟩
    | object ts =>
      rw [value?] at h
      obtain ⟨ms, hms, rfl⟩ := Option.map_eq_some_iff.1 h
      have hall := forall_of_memberValues? hms fun t hmem v hv => ih (fun j hj => ht j (.member hmem hj)) hv
      have hmembers : ∀ m ∈ Members.ofList ms, m.2.Ordered ∧ m.2.depth ≤ d := fun m hm =>
        hall m (Members.mem_of_mem_ofList hm)
      exact ⟨.object (Members.ordered_ofList ms) fun m hm => (hmembers m hm).1,
        Nat.succ_le_succ (membersDepth_le_iff.2 fun m hm => (hmembers m hm).2)⟩
    | _ => exact ht.ordered_leaf (by simp) (by simp) h

end Tree

/-- **What is read is in order**, and no deeper than may be read. -/
theorem ordered_of_read? {cs : List Char} {v : Json} (h : read? cs = some v) : v.Ordered ∧ v.depth ≤ Tree.maxDepth := by
  obtain ⟨t, ht, hv⟩ := Option.bind_eq_some_iff.1 h
  exact (Tree.numeric_of_ofSource? ht).ordered_value? hv

end Json
end PluginTools
