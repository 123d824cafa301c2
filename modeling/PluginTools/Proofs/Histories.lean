/-
A roster over any operations. What it holds is told by the values inserted so far alone: the names in the order in which
they first came, each with the last value that came under it. One operation adds at the end, or replaces one value in
its place, or changes nothing (`Inserts`); a whole run keeps what `Reflects` says.
-/
import PluginTools.Proofs.Arrivals

namespace PluginTools.Roster

/-! ## Operations -/

inductive Action (α : Type) where
  | insert (name : String) (value : α)
  | get (name : String)

/-- The roster after an operation, and the value that the operation answers with. -/
def perform (r : Roster α) : Action α → Roster α × Option α
  | .insert name value => ((r.replace name value).2, (r.replace name value).1)
  | .get name => (r, r.get? name)

/-- The roster after operations on an empty one. -/
def after (actions : List (Action α)) : Roster α := actions.foldl (fun r a => (r.perform a).1) {}

def Action.insertion? : Action α → Option (String × α)
  | .insert name value => some (name, value)
  | .get _ => none

/-- The values inserted, each with its name, in order. -/
def insertions (actions : List (Action α)) : List (String × α) := actions.filterMap Action.insertion?

theorem after_append (actions : List (Action α)) (a : Action α) :
    after (actions ++ [a]) = ((after actions).perform a).1 := by
  simp [after]

/-! ## One insertion -/

/-- What an insertion answers and does to the names and values. -/
structure Inserts (r : Roster α) (name : String) (value : α) (answer : Option α) (r' : Roster α) : Prop where
  /-- It answers nothing exactly if the name is new. -/
  fresh : answer = none ↔ name ∉ r.names
  /-- A new name comes last, and the others stay where they are. -/
  added : name ∉ r.names → r'.names = r.names ++ [name] ∧ r'.values = r.values ++ [value]
  /-- The value of a name that is there is the answer and is replaced, and nothing else is. -/
  replaced : ∀ i : Nat, r.names[i]? = some name →
    r.values[i]? = answer ∧ r'.names = r.names ∧ r'.values = r.values.set i value

section

variable {es : List (String × α)} {n : String} {i : Nat}

/-- Among distinct names the entry of a name is at the place of the name. -/
theorem place_of_getElem? (distinct : (es.map (·.1)).Nodup) (h : (es.map (·.1))[i]? = some n) (v : α) :
    place n v es = es.set i (n, v) := by
  induction es generalizing i with
  | nil => simp at h
  | cons e es ih =>
    obtain ⟨m, w⟩ := e
    obtain ⟨hm, distinct⟩ := List.nodup_cons.1 distinct
    cases i with
    | zero =>
      obtain rfl : m = n := by simpa using h
      simp [place]
    | succ i =>
      have h : (es.map (·.1))[i]? = some n := by simpa using h
      have hne : m ≠ n := fun he => hm (he ▸ List.mem_of_getElem? h)
      simp [place, hne, ih distinct h]

theorem find?_of_getElem? (distinct : (es.map (·.1)).Nodup) (h : (es.map (·.1))[i]? = some n) :
    find? n es = (es.map (·.2))[i]? := by
  rw [List.getElem?_map, Option.map_eq_some_iff] at h
  obtain ⟨⟨m, v⟩, he, rfl⟩ := h
  rw [find?_eq_some_of_mem distinct (List.mem_of_getElem? he), List.getElem?_map, he, Option.map_some]

theorem mem_of_find? {v : α} (h : find? n es = some v) : (n, v) ∈ es := by
  induction es with
  | nil => cases h
  | cons e es ih =>
    obtain ⟨m, w⟩ := e
    by_cases hm : m = n
    · simp_all [find?]
    · exact List.mem_cons_of_mem _ (ih (by simpa [find?, hm] using h))

theorem find?_eq_none_iff : find? n es = none ↔ n ∉ es.map (·.1) := by
  induction es with
  | nil => simp [find?]
  | cons e es ih =>
    obtain ⟨m, v⟩ := e
    by_cases h : m = n
    · simp [find?, h]
    · simp [find?, h, ih, Ne.symm h]

end

/-- **One insertion** into a roster of distinct names. -/
theorem inserts_replace {r : Roster α} (distinct : r.names.Nodup) (n : String) (v : α) :
    r.Inserts n v (r.replace n v).1 (r.replace n v).2 where
  fresh := find?_eq_none_iff
  added hnew := by
    have hplace : place n v r.entries = r.entries ++ [(n, v)] := place_of_not_mem hnew
    simp [replace, insert, names, values, hplace]
  replaced i hi := by
    have hplace : place n v r.entries = r.entries.set i (n, v) := place_of_getElem? distinct hi v
    refine ⟨(find?_of_getElem? distinct hi).symm, ?_, ?_⟩
    · have hset : r.names.set i n = r.names := by
        obtain ⟨hlt, hn⟩ := List.getElem?_eq_some_iff.1 hi
        rw [← hn, List.set_getElem_self]
      calc (r.insert n v).names = r.names.set i n := by simp [insert, names, hplace, List.map_set]
        _ = r.names := hset
    · simp [replace, insert, values, hplace, List.map_set]

/-! ## Runs -/

/-- A roster holds what was inserted, in order of first arrival. -/
structure Reflects (r : Roster α) (history : List (String × α)) : Prop where
  distinct : r.names.Nodup
  /-- The names are those inserted, in the order in which they first were. -/
  names : r.names = (history.map (·.1)).eraseDups
  /-- A name has the last value inserted under it. -/
  last : ∀ n, r.get? n = (history.findRev? (·.1 = n)).map (·.2)
  /-- It is the value that is listed beside the name. -/
  beside : ∀ n v, r.get? n = some v ↔ (n, v) ∈ r.names.zip r.values
  /-- There is none exactly if nothing was inserted under the name. -/
  absent : ∀ n, r.get? n = none ↔ n ∉ history.map (·.1)
  sizes : r.names.length = r.size ∧ r.values.length = r.size

/-- A roster whose values are replaced, each in its place. -/
def map (f : α → β) (r : Roster α) : Roster β := ⟨r.entries.map (Prod.map id f)⟩

section

variable (f : α → β) (r : Roster α) (n : String)

theorem insert_map (v : α) : (r.map f).insert n (f v) = (r.insert n v).map f := by
  obtain ⟨es⟩ := r
  simp only [map, insert, mk.injEq]
  induction es with
  | nil => rfl
  | cons e es ih =>
    obtain ⟨m, w⟩ := e
    by_cases h : m = n
    · simp [place, h]
    · simpa [place, h] using ih

theorem get?_map : (r.map f).get? n = (r.get? n).map f := by
  obtain ⟨es⟩ := r
  simp only [map, get?]
  induction es with
  | nil => rfl
  | cons e es ih =>
    obtain ⟨m, w⟩ := e
    by_cases h : m = n
    · simp [find?, h]
    · simpa [find?, h] using ih

theorem names_map : (r.map f).names = r.names := by
  simp [map, names]

end

theorem insertions_append (actions : List (Action α)) (a : Action α) :
    insertions (actions ++ [a]) = insertions actions ++ a.insertion?.toList := by
  cases a <;> simp [insertions, Action.insertion?]

/-- A run comes to the same as collecting what it inserts. -/
theorem after_eq_ofList (actions : List (Action α)) :
    after actions = (ofList (insertions actions) (·.1)).map (·.2) := by
  induction actions using List.reverseRecOn with
  | nil => rfl
  | append_singleton actions a ih =>
    rw [after_append, insertions_append, ih]
    cases a with
    | insert n v =>
      calc ((ofList (insertions actions) (·.1)).map (·.2)).insert n v
          = ((ofList (insertions actions) (·.1)).insert n (n, v)).map (·.2) := insert_map (·.2) _ n (n, v)
        _ = (ofList (insertions actions ++ [(n, v)]) (·.1)).map (·.2) := by rw [ofList_append]
    | get n =>
      rw [Action.insertion?, Option.toList_none, List.append_nil]
      rfl

/-- A name is found beside its value. -/
theorem get?_eq_some_iff {r : Roster α} (distinct : r.names.Nodup) {n : String} {v : α} :
    r.get? n = some v ↔ (n, v) ∈ r.names.zip r.values := by
  have hzip : r.names.zip r.values = r.entries := (List.zip_of_prod rfl rfl).symm
  rw [hzip]
  exact ⟨mem_of_find?, find?_eq_some_of_mem distinct⟩

theorem reflects_after (actions : List (Action α)) : (after actions).Reflects (insertions actions) := by
  have names : (after actions).names = ((insertions actions).map (·.1)).eraseDups := by
    rw [after_eq_ofList, names_map, names_ofList]
  have distinct : (after actions).names.Nodup := by
    rw [after_eq_ofList, names_map]
    exact nodup_names_ofList _ _
  have last : ∀ n, (after actions).get? n = ((insertions actions).findRev? (·.1 = n)).map (·.2) := fun n => by
    rw [after_eq_ofList, get?_map, get?_ofList]
  refine ⟨distinct, names, last, fun n v => get?_eq_some_iff distinct, fun n => ?_, ?_⟩
  · have hnames : (after actions).get? n = none ↔ n ∉ (after actions).names := find?_eq_none_iff
    rw [hnames, names, List.mem_eraseDups]
  · exact ⟨List.length_map _, List.length_map _⟩

/-- **A roster keeps the order of arrival**: after any operations it holds what was inserted, and the next insertion
answers with what it replaces and changes nothing else, while looking up a name changes nothing at all. -/
theorem runs_keep_arrival_order (actions : List (Action α)) :
    (after actions).Reflects (insertions actions) ∧
    (∀ n v, (after actions).Inserts n v ((after actions).perform (.insert n v)).2 (after (actions ++ [.insert n v]))) ∧
    ∀ n, ((after actions).perform (.get n)).2 = ((insertions actions).findRev? (·.1 = n)).map (·.2) ∧
      after (actions ++ [.get n]) = after actions := by
  have reflects := reflects_after actions
  refine ⟨reflects, fun n v => ?_, fun n => ⟨reflects.last n, after_append actions (.get n)⟩⟩
  rw [after_append]
  exact inserts_replace reflects.distinct n v

end PluginTools.Roster
