/-
Expanding a type with one stack for all calls. The schema of a type is defined with the records it is inside of at
hand; here they stand on a stack that every call shares, pushed before the fields of a record and popped behind them,
and every call is noted. `expansion_settles` says that this comes to an end whatever the records refer to, that it
gives the same schema, and what each call finds on the stack and leaves there.
-/
import PluginTools.Proofs.TypeSchemas

namespace PluginTools

/-- A call of the expansion: the type, the stack it finds, what it gives, and the stack it leaves. -/
structure Visit where
  type : Expr
  before : List String
  value : Json
  after : List String

/-- The names of the records being expanded, the innermost first, and the calls that have returned, in order. -/
structure Walk where
  stack : List String
  log : List Visit

/-- An expansion gives nothing if it runs out of fuel. -/
abbrev Expansion := StateT Walk Option

namespace Expansion

def stack : Expansion (List String) := do return (← get).stack

def push (name : String) : Expansion Unit := modify fun w => { w with stack := name :: w.stack }

def pop : Expansion Unit := modify fun w => { w with stack := w.stack.tail }

def note (v : Visit) : Expansion Unit := modify fun w => { w with log := w.log ++ [v] }

/-! ## Schemas, by calls for what is inside -/

section

variable (records : List Record) (again : Expr → Expansion Json)

def record (r : Record) : Expansion Json := do
  let entered ← stack
  if Schema.maxDepth ≤ entered.length ∨ r.name ∈ entered then
    return .ofMembers [("type", .text "object")]
  else
    push r.name
    let fields ← r.fields.mapM fun field => (field.1, ·) <$> again field.2
    pop
    return .ofMembers [("type", .text "object"), ("title", .text r.name), ("properties", .ofMembers fields),
      ("required", Schema.nameList (r.fields.map (·.1)))]

def name (id : String) : Expansion Json :=
  match Schema.builtin? id with
  | some s => return s.toJson
  | none =>
    match records.find? (·.name = id) with
    | some r => record again r
    | none => return .ofMembers []

/-- One of several schemas. -/
def anyOf (options : List Json) : Json := .ofMembers [("anyOf", .list options)]

def generic (wrapper : Wrapper) (arguments : List Expr) : Expansion Json :=
  match wrapper, arguments with
  | .list, [item] | .sequence, [item] | .tuple, item :: _ =>
    (fun items => .ofMembers [("type", .text "array"), ("items", items)]) <$> again item
  | .mapping, [_, value] =>
    (fun values => .ofMembers [("type", .text "object"), ("additionalProperties", values)]) <$> again value
  | .optional, [inner] => (fun option => anyOf [option, .ofMembers [("type", .text "null")]]) <$> again inner
  | .union, options => anyOf <$> options.mapM again
  | .literal, values => return .ofMembers [("enum", .list (Schema.literals values))]
  | .described, inner :: _ => again inner
  | .list, _ | .tuple, _ => return .ofMembers [("type", .text "array")]
  | .mapping, _ => return .ofMembers [("type", .text "object")]
  | _, _ => return .ofMembers []

def type : Expr → Expansion Json
  | .name id => name records again id
  | .literal .none => return .ofMembers [("type", .text "null")]
  | .literal (.text forward) => name records again forward
  | .subscript wrapper slice => generic again (.ofName (wrapper.name?.getD "")) slice.arguments
  | .binary left operator right =>
    if operator = "|" then anyOf <$> (left.options ++ right.options).mapM again else return .ofMembers []
  | _ => return .ofMembers []

end

/-- A call with as much fuel as calls may be inside one another. -/
def call (records : List Record) : Nat → Expr → Expansion Json
  | 0, _ => failure
  | fuel + 1, e => do
    let before ← stack
    let value ← type records (call records fuel) e
    let after ← stack
    note ⟨e, before, value, after⟩
    return value

end Expansion

/-! ## Calls in order -/

/-- A stack of distinct names of records, not too many. -/
structure Scoped (records : List Record) (stack : List String) : Prop where
  distinct : stack.Nodup
  named : ∀ name ∈ stack, ∃ r ∈ records, r.name = name
  shallow : stack.length ≤ Schema.maxDepth

/-- A call in order: it finds a stack that is, leaves the stack as it was, and gives the schema of its type inside the
records on the stack, an object. -/
structure Visit.Proper (records : List Record) (v : Visit) : Prop where
  found : Scoped records v.before
  restored : v.after = v.before
  value : v.value = (Schema.within records v.before v.type).toJson
  object : ∃ members, v.value = .object members

theorem Scoped.nil (records : List Record) : Scoped records [] := ⟨.nil, by simp, Nat.zero_le _⟩

theorem Scoped.enter {records : List Record} {entered : List String} {name : String} {r : Record}
    (h : Scoped records entered) (hr : Enters records entered name r) : Scoped records (name :: entered) where
  distinct := List.nodup_cons.2 ⟨hr.outside, h.distinct⟩
  named := by
    have hname : r.name = name := by simpa using List.find?_some hr.found
    exact List.forall_mem_cons.2 ⟨⟨r, List.mem_of_find?_eq_some hr.found, hname⟩, h.named⟩
  shallow := hr.room

/-- With enough fuel the action gives a value, takes the stack from one state to another, and makes only calls in
order. -/
def Settles (records : List Record) (before after : List String) (action : Nat → Expansion α) (a : α) : Prop :=
  ∃ visits fuel, (∀ v ∈ visits, v.Proper records) ∧
    ∀ n ≥ fuel, ∀ log, (action n).run ⟨before, log⟩ = some (a, ⟨after, log ++ visits⟩)

namespace Settles

variable {records : List Record} {s t u : List String}

/-- An action that takes no fuel and makes no call. -/
theorem of_run {action : Expansion α} {a : α} (h : ∀ log, action.run ⟨s, log⟩ = some (a, ⟨t, log⟩)) :
    Settles records s t (fun _ => action) a :=
  ⟨[], 0, by simp, fun _ _ log => by rw [h, List.append_nil]⟩

theorem pure (a : α) : Settles records s s (fun _ => pure a) a := of_run fun _ => rfl

theorem stack : Settles records s s (fun _ => Expansion.stack) s := of_run fun _ => rfl

theorem push (name : String) : Settles records s (name :: s) (fun _ => Expansion.push name) () := of_run fun _ => rfl

theorem pop (name : String) : Settles records (name :: s) s (fun _ => Expansion.pop) () := of_run fun _ => rfl

theorem note {v : Visit} (h : v.Proper records) : Settles records s s (fun _ => Expansion.note v) () :=
  ⟨[v], 0, by simpa using h, fun _ _ _ => rfl⟩

theorem bind {action : Nat → Expansion α} {next : Nat → α → Expansion β} {a : α} {b : β}
    (ha : Settles records s t action a) (hb : Settles records t u (fun n => next n a) b) :
    Settles records s u (fun n => action n >>= next n) b := by
  obtain ⟨visits, fuel, hproper, hrun⟩ := ha
  obtain ⟨visits', fuel', hproper', hrun'⟩ := hb
  refine ⟨visits ++ visits', max fuel fuel', List.forall_mem_append.2 ⟨hproper, hproper'⟩, fun n hn log => ?_⟩
  rw [StateT.run_bind, hrun n (by omega), Option.bind_eq_bind, Option.bind_some, hrun' n (by omega),
    List.append_assoc]

theorem map {action : Nat → Expansion α} {a : α} (f : α → β) (h : Settles records s t action a) :
    Settles records s t (fun n => f <$> action n) (f a) := by
  simp only [map_eq_pure_bind]
  exact h.bind (.pure (f a))

theorem mapM {f : Nat → α → Expansion β} {g : α → β} {xs : List α}
    (h : ∀ x ∈ xs, Settles records s s (fun n => f n x) (g x)) :
    Settles records s s (fun n => xs.mapM (f n)) (xs.map g) := by
  induction xs with
  | nil => simpa using pure []
  | cons x xs ih =>
    obtain ⟨hx, hxs⟩ := List.forall_mem_cons.1 h
    simp only [List.mapM_cons, List.map_cons]
    exact hx.bind ((ih hxs).bind (.pure _))

end Settles

/-! ## The whole expansion -/

namespace Expansion

variable {records : List Record} {entered : List String} {again : Nat → Expr → Expansion Json}

/-- A record is expanded if the record can be entered. -/
theorem record_settles {r : Record} (h : Enters records entered r.name r)
    (hfields : ∀ field ∈ r.fields, Settles records (r.name :: entered) (r.name :: entered)
      (fun n => again n field.2) (Schema.within records (r.name :: entered) field.2).toJson) :
    Settles records entered entered (fun n => record (again n) r) (Schema.named records entered r.name).toJson := by
  have henters : ¬(Schema.maxDepth ≤ entered.length ∨ r.name ∈ entered) :=
    not_or.2 ⟨Nat.not_le.2 h.room, h.outside⟩
  refine .bind .stack ?_
  simp only [henters, if_false]
  refine .bind (.push r.name) (.bind (.mapM fun field hfield => .map _ (hfields field hfield)) (.bind (.pop r.name) ?_))
  rw [Schema.named_of_enters h, Schema.toJson, Schema.members, Schema.fieldMembers_eq_map, List.map_map, List.map_map]
  exact .pure _

/-- A record that cannot be entered is not. -/
theorem record_settles_of_not_enters {r : Record} (h : Schema.builtin? r.name = none)
    (hfound : records.find? (·.name = r.name) = some r) (hnot : ¬Enters records entered r.name r) :
    Settles records entered entered (fun n => record (again n) r) (Schema.named records entered r.name).toJson := by
  have hleaves : Schema.maxDepth ≤ entered.length ∨ r.name ∈ entered := by
    by_contra hboth
    obtain ⟨hroom, houtside⟩ := not_or.1 hboth
    exact hnot ⟨h, hfound, Nat.not_le.1 hroom, houtside⟩
  refine .bind .stack ?_
  simp only [hleaves, if_true]
  rw [Schema.named_of_not_enters h hfound hnot]
  exact .pure _

theorem name_settles {id : String} (hfields : ∀ r, Enters records entered id r → ∀ field ∈ r.fields,
      Settles records (id :: entered) (id :: entered) (fun n => again n field.2)
        (Schema.within records (id :: entered) field.2).toJson) :
    Settles records entered entered (fun n => name records (again n) id) (Schema.named records entered id).toJson := by
  unfold name
  cases hbuiltin : Schema.builtin? id with
  | some s =>
    rw [Schema.named_of_builtin hbuiltin]
    exact .pure _
  | none =>
    cases hfound : records.find? (·.name = id) with
    | none =>
      rw [Schema.named_of_unknown hbuiltin hfound]
      exact .pure _
    | some r =>
      obtain rfl : r.name = id := by simpa using List.find?_some hfound
      by_cases henters : Enters records entered r.name r
      · exact record_settles henters (hfields r henters)
      · exact record_settles_of_not_enters hbuiltin hfound henters

theorem options_settle {options : List Expr} (h : ∀ option ∈ options,
      Settles records entered entered (fun n => again n option) (Schema.within records entered option).toJson) :
    Settles records entered entered (fun n => anyOf <$> options.mapM (again n))
      (Schema.oneOf (options.map (Schema.within records entered))).toJson := by
  rw [Schema.toJson, Schema.members, Schema.optionList_eq_map, List.map_map]
  exact .map anyOf (.mapM h)

theorem generic_settles {w : Wrapper} {arguments : List Expr} (h : ∀ part ∈ w.parts arguments,
      Settles records entered entered (fun n => again n part) (Schema.within records entered part).toJson) :
    Settles records entered entered (fun n => generic (again n) w arguments)
      (w.schema (Schema.literals arguments) (arguments.map (Schema.within records entered))).toJson := by
  cases w with
  | union => exact options_settle h
  | literal | unknown => exact .pure _
  | list | sequence | optional =>
    match arguments, h with
    | [], _ | _ :: _ :: _, _ => exact .pure _
    | [item], h => exact .map _ (h item (.head _))
  | mapping =>
    match arguments, h with
    | [], _ | [_], _ | _ :: _ :: _ :: _, _ => exact .pure _
    | [_, value], h => exact .map _ (h value (.head _))
  | tuple =>
    match arguments, h with
    | [], _ => exact .pure _
    | item :: _, h => exact .map _ (h item (.head _))
  | described =>
    match arguments, h with
    | [], _ => exact .pure _
    | inner :: _, h => exact h inner (.head _)

/-- A type is expanded if the types in it are, and the fields of the record that is entered for it. -/
theorem type_settles {e : Expr} (hparts : ∀ part ∈ e.parts,
      Settles records entered entered (fun n => again n part) (Schema.within records entered part).toJson)
    (hfields : ∀ id r, e.reference? = some id → Enters records entered id r → ∀ field ∈ r.fields,
      Settles records (id :: entered) (id :: entered) (fun n => again n field.2)
        (Schema.within records (id :: entered) field.2).toJson) :
    Settles records entered entered (fun n => type records (again n) e) (Schema.within records entered e).toJson := by
  cases e with
  | name id => exact name_settles (hfields id · rfl)
  | literal l =>
    cases l with
    | text forward => exact name_settles (hfields forward · rfl)
    | _ => exact .pure _
  | subscript wrapper slice =>
    rw [Schema.within_subscript]
    exact generic_settles hparts
  | binary left operator right =>
    by_cases hunion : operator = "|"
    · subst hunion
      rw [Schema.within_union]
      exact options_settle hparts
    · rw [Schema.within_of_not_union left right hunion]
      simp only [type, hunion, if_false]
      exact .pure _
  | _ => exact .pure _

/-- With enough fuel a call comes to an end, and it and all calls that it makes are in order. -/
def Returns (records : List Record) (entered : List String) (e : Expr) : Prop :=
  ∃ visits fuel, ⟨e, entered, (Schema.within records entered e).toJson, entered⟩ ∈ visits ∧
    (∀ v ∈ visits, v.Proper records) ∧ ∀ n ≥ fuel, ∀ log, (call records n e).run ⟨entered, log⟩ =
      some ((Schema.within records entered e).toJson, ⟨entered, log ++ visits⟩)

theorem Returns.settles {e : Expr} : Returns records entered e →
    Settles records entered entered (fun n => call records n e) (Schema.within records entered e).toJson :=
  fun ⟨visits, fuel, _, h⟩ => ⟨visits, fuel, h⟩

/-- A call notes itself behind the calls that it makes. -/
theorem returns_of_settles {e : Expr} (hscoped : Scoped records entered)
    (h : Settles records entered entered (fun n => type records (call records n) e)
      (Schema.within records entered e).toJson) : Returns records entered e := by
  obtain ⟨visits, fuel, hproper, hrun⟩ := h
  have hown : Visit.Proper records ⟨e, entered, (Schema.within records entered e).toJson, entered⟩ :=
    ⟨hscoped, rfl, rfl, _, rfl⟩
  refine ⟨visits ++ [_], fuel + 1, List.mem_append_right _ (.head _),
    List.forall_mem_append.2 ⟨hproper, by simpa using hown⟩, fun n hn log => ?_⟩
  obtain ⟨n, rfl⟩ : ∃ m, n = m + 1 := ⟨n - 1, by omega⟩
  have hrun := hrun n (by omega) log
  simp [call, stack, note, hrun]

/-- From a stack in order every call comes to an end. -/
theorem returns (entered : List String) (e : Expr) (hscoped : Scoped records entered) : Returns records entered e := by
  -- The stack is the list of records entered, so the induction over what a type leads to is one over calls.
  induction entered, e using @unfolding_induction records with
  | step entered e hparts hfields =>
    refine returns_of_settles hscoped (type_settles (fun part hpart => (hparts part hpart hscoped).settles) ?_)
    exact fun id r hname hr field hfield => (hfields id r hname hr field hfield (hscoped.enter hr)).settles

end Expansion

/-- **Expansion comes to an end in good order**, whatever the records are and refer to. From some fuel on, a type is
expanded from an empty stack to its schema; the stack is empty again, and this call and all calls that it makes are
in order. -/
theorem expansion_settles (records : List Record) (e : Expr) : ∃ visits fuel,
    ⟨e, [], (Schema.ofType records e).toJson, []⟩ ∈ visits ∧ (∀ v ∈ visits, v.Proper records) ∧
      ∀ n ≥ fuel, (Expansion.call records n e).run ⟨[], []⟩ = some ((Schema.ofType records e).toJson, ⟨[], visits⟩) := by
  obtain ⟨visits, fuel, hown, hproper, hrun⟩ := Expansion.returns [] e (.nil records)
  exact ⟨visits, fuel, hown, hproper, fun n hn => hrun n hn []⟩

/-- A record that refers to itself: the name of its field is looked up inside it, and it is not entered again. -/
example : ((Expansion.call [⟨"Node", [("next", .name "Node")]⟩] 2 (.name "Node")).run ⟨[], []⟩).map
    (·.2.log.map (·.before)) = some [["Node"], []] := rfl

end PluginTools
