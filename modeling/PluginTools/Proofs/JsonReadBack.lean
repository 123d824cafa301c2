/-
A JSON value is read back from its text. Its tokens are read as its tree, in which the items and members stand as they
were written, and its tree has the value again, since members in the order of their names are kept in that order. So
a request carries its parameters, and the text of a result the result.
-/
import PluginTools.Call.Request
import PluginTools.Proofs.JsonOrder
import PluginTools.Proofs.JsonText

namespace PluginTools

namespace Json

/-! ## Trees from their tokens -/

namespace Tree

theorem tokens_append_ne (t : Tree) (ts us : List Token) : t.tokens ++ ts ≠ .closeList :: us := by
  rcases t with _ | _ | _ | _ | (_ | _) | (_ | _) <;> simp [tokens]

theorem read_openList {ts : List Token} (h : ∀ us, ts ≠ .closeList :: us) (fuel : Nat) :
    read (fuel + 1) (.openList :: ts) = (readItems fuel ts).map fun (vs, ts) => (.list vs, ts) := by
  rw [read.eq_def]
  dsimp only
  split
  all_goals simp_all

/-- The readers take turns, so they are looked at together, by their fuel. -/
theorem read_of_tokens (fuel : Nat) :
    (∀ (t : Tree) ts, t.tokens.length ≤ fuel → read fuel (t.tokens ++ ts) = some (t, ts)) ∧
    (∀ (v : Tree) vs ts, (v.tokens ++ itemTokens vs).length ≤ fuel →
      readItems fuel (v.tokens ++ itemTokens vs ++ ts) = some (v :: vs, ts)) ∧
    (∀ n (v : Tree) ms ts, (v.tokens ++ memberTokens ms).length ≤ fuel →
      readMembers fuel (.text n :: .colon :: (v.tokens ++ memberTokens ms ++ ts)) = some ((n, v) :: ms, ts)) := by
  induction fuel with
  | zero =>
    refine ⟨fun t ts h => ?_, fun v vs ts h => ?_, fun n v ms ts h => ?_⟩
    · rcases t with _ | _ | _ | _ | (_ | _) | (_ | _) <;> simp [tokens] at h
    · cases vs <;> simp [itemTokens] at h
    · rcases ms with _ | ⟨⟨_, _⟩, _⟩ <;> simp [memberTokens] at h
  | succ fuel ih =>
    obtain ⟨ihTree, ihItems, ihMembers⟩ := ih
    refine ⟨?tree, ?items, ?members⟩
    case tree =>
      intro t ts h
      cases t with
      | null | bool b | text s | number n => simp [tokens, read]
      | list vs =>
        cases vs with
        | nil => simp [tokens, read]
        | cons v vs =>
          simp only [tokens, List.length_cons] at h
          have hitems := ihItems v vs ts (by omega)
          rw [List.append_assoc] at hitems
          rw [tokens, List.cons_append, List.append_assoc, read_openList (tokens_append_ne v _), hitems]
          rfl
      | object ms =>
        cases ms with
        | nil => simp [tokens, read]
        | cons m ms =>
          simp only [tokens, List.length_cons] at h
          have hmembers := ihMembers m.1 m.2 ms ts (by omega)
          simp only [tokens, List.cons_append, read, hmembers]
          rfl
    case items =>
      intro v vs ts h
      rw [List.length_append] at h
      cases vs with
      | nil =>
        simp only [itemTokens, List.length_singleton] at h ⊢
        rw [List.append_assoc, readItems, ihTree v _ (by omega)]
        rfl
      | cons w ws =>
        simp only [itemTokens, List.length_cons] at h
        rw [itemTokens, List.append_assoc, readItems, ihTree v _ (by omega)]
        simp only [List.cons_append, Option.bind_eq_bind, Option.bind_some]
        rw [ihItems w ws ts (by omega)]
        rfl
    case members =>
      intro n v ms ts h
      rw [List.length_append] at h
      cases ms with
      | nil =>
        simp only [memberTokens, List.length_singleton] at h ⊢
        rw [List.append_assoc, readMembers, ihTree v _ (by omega)]
        rfl
      | cons m ms =>
        simp only [memberTokens, List.length_cons] at h
        rw [memberTokens, List.append_assoc, readMembers, ihTree v _ (by omega)]
        simp only [List.cons_append, Option.bind_eq_bind, Option.bind_some]
        rw [ihMembers m.1 m.2 ms ts (by omega)]
        rfl

end Tree

/-! ## Values from their trees -/

section

open Json.Tree

variable {vs : List Json} {ms : List (String × Json)} {v : Json} {d : Nat}

theorem values?_itemTrees (h : ∀ v ∈ vs, v.tree.value? d = some v) : values? d (itemTrees vs) = some vs := by
  induction vs with
  | nil => simp [itemTrees, values?]
  | cons v vs ih =>
    obtain ⟨hv, hvs⟩ := List.forall_mem_cons.1 h
    simp [itemTrees, values?, hv, ih hvs]

theorem memberValues?_memberTrees (h : ∀ m ∈ ms, m.2.tree.value? d = some m.2) :
    memberValues? d (memberTrees ms) = some ms := by
  induction ms with
  | nil => simp [memberTrees, memberValues?]
  | cons m ms ih =>
    obtain ⟨hm, hms⟩ := List.forall_mem_cons.1 h
    simp [memberTrees, memberValues?, hm, ih hms]

/-- A value has its tree's value, if its members are in order and it is not too deep. -/
theorem Ordered.value?_tree (h : v.Ordered) (hd : v.depth ≤ d) : v.tree.value? d = some v := by
  induction h generalizing d with
  | null | bool | int | float | text => simp [tree, value?]
  | list _ ih =>
    rw [depth] at hd
    obtain ⟨d, rfl⟩ : ∃ n, d = n + 1 := ⟨d - 1, by omega⟩
    have hitems := itemsDepth_le_iff.1 (Nat.le_of_succ_le_succ hd)
    rw [tree, value?, values?_itemTrees fun v hv => ih v hv (hitems v hv)]
    rfl
  | object hms _ ih =>
    rw [depth] at hd
    obtain ⟨d, rfl⟩ : ∃ n, d = n + 1 := ⟨d - 1, by omega⟩
    have hmembers := membersDepth_le_iff.1 (Nat.le_of_succ_le_succ hd)
    rw [tree, value?, memberValues?_memberTrees fun m hm => ih m hm (hmembers m hm)]
    rw [Option.map_some, ofMembers, hms.ofList_eq]

/-! ## Values from their texts -/

/-- A text that is laid out as the tokens of a value is read by the tree of the value. -/
theorem read?_of_lays {cs : List Char} (h : Token.Lays v.tree.tokens cs) : read? cs = v.tree.value? maxDepth := by
  have hread := (read_of_tokens (2 * v.tree.tokens.length + 1)).1 v.tree [] (by omega)
  rw [List.append_nil] at hread
  simp [read?, ofSource?, Token.all?_of_laid h.laid, hread]

end
end Json

/-! ## Requests and results -/

open Json (Whole Ordered)

namespace Request

variable {r : Request}

theorem whole_members (hwhole : ∀ v ∈ r.parameters, v.Whole) (hid : r.id < 2 ^ 64) : (Json.object r.members).Whole := by
  have hint : (Json.int r.id).Whole := by
    refine .int ?_ ?_
    · simp only [Json.minInt, Int.pow_eq]
      omega
    · simp only [Json.maxInt, Int.pow_eq]
      omega
  refine .object ?_
  simp only [members, List.forall_mem_cons]
  exact ⟨.text _, .text _, .list hwhole, hint, List.forall_mem_nil _⟩

theorem ordered_members (hordered : ∀ v ∈ r.parameters, v.Ordered) : ∀ m ∈ r.members, m.2.Ordered := by
  simp only [members, List.forall_mem_cons]
  exact ⟨.text _, .text _, .list hordered, .int _, List.forall_mem_nil _⟩

/-- A request is read as an object of its four members, which are in order now. -/
theorem read?_write (hwhole : ∀ v ∈ r.parameters, v.Whole) (hordered : ∀ v ∈ r.parameters, v.Ordered)
    (hid : r.id < 2 ^ 64) (hdepth : (Json.object r.members).depth ≤ Json.Tree.maxDepth) :
    Json.read? r.write.toList = some (.object [("id", .int r.id), ("jsonrpc", .text protocolVersion),
      ("method", .text r.method), ("params", .list r.parameters)]) := by
  rw [Json.depth, Json.Tree.maxDepth] at hdepth
  have hmembers : ∀ m ∈ r.members, m.2.tree.value? 126 = some m.2 := fun m hm =>
    (ordered_members hordered m hm).value?_tree (Json.membersDepth_le_iff.1 (Nat.le_of_succ_le_succ hdepth) m hm)
  rw [write, Json.compact, String.toList_ofList, Json.read?_of_lays (whole_members hwhole hid).lays_chars, Json.tree,
    Json.Tree.maxDepth, Json.Tree.value?, Json.memberValues?_memberTrees hmembers]
  simp [members, Json.ofMembers, Members.ofList, Members.put, precedes]

end Request

/-- A result that is no string is shown as it reads. -/
theorem Json.read?_shown {v : Json} (hwhole : v.Whole) (hordered : v.Ordered) (hdepth : v.depth ≤ Tree.maxDepth)
    (htext : ∀ s, v ≠ .text s) : read? v.shown.toList = some v := by
  have hshown : v.shown = v.pretty := by
    cases v with
    | text s => exact absurd rfl (htext s)
    | _ => rfl
  rw [hshown, pretty, String.toList_ofList, read?_of_lays (hwhole.lays_prettyChars 0), hordered.value?_tree hdepth]

/-- What is read and then shown is read as the same value again. -/
theorem Json.read?_shown_of_read? {cs : List Char} {v : Json} (h : read? cs = some v) (hwhole : v.Whole)
    (htext : ∀ s, v ≠ .text s) : read? v.shown.toList = some v :=
  read?_shown hwhole (ordered_of_read? h).1 (ordered_of_read? h).2 htext

/-- **Arguments and results cross the wire without loss**: the text of a request is read as an object of exactly its
version, method, parameters and number, the text in which a result is shown as the result, and a string is shown as it
is. Numbers are whole here, from the least of sixty-four bits with a sign to the greatest without, and values nest as
deep as is read. -/
theorem wire_loses_nothing :
    (∀ r : Request, (∀ v ∈ r.parameters, v.Whole ∧ v.Ordered) → r.id < 2 ^ 64 →
      (Json.object r.members).depth ≤ Json.Tree.maxDepth →
      Json.read? r.write.toList = some (.object [("id", .int r.id), ("jsonrpc", .text "2.0"),
        ("method", .text r.method), ("params", .list r.parameters)])) ∧
    (∀ v : Json, v.Whole → v.Ordered → v.depth ≤ Json.Tree.maxDepth → (∀ s, v ≠ .text s) →
      Json.read? v.shown.toList = some v) ∧
    ∀ s, (Json.text s).shown = s :=
  ⟨fun _ hparameters hid hdepth => Request.read?_write (fun v hv => (hparameters v hv).1) (fun v hv => (hparameters v hv).2)
    hid hdepth, fun _ => Json.read?_shown, fun _ => rfl⟩

/-- Every kind of value, names and strings with escapes, and numbers at both ends of their range. -/
def everyKind : Json :=
  .object [("", .list []), ("\n\x22\\", .int Json.minInt),
    ("é", .list [.object [], .int Json.maxInt, .null, .bool false, .text "\x00\x1f/…", .list [.list [.bool true]]])]

theorem whole_everyKind : everyKind.Whole := by
  refine .object ?_
  simp only [List.forall_mem_cons]
  refine ⟨.list (List.forall_mem_nil _), .int (by decide) (by decide), .list ?_, List.forall_mem_nil _⟩
  simp only [List.forall_mem_cons]
  refine ⟨.object (List.forall_mem_nil _), .int (by decide) (by decide), .null, .bool _, .text _, .list ?_,
    List.forall_mem_nil _⟩
  exact List.forall_mem_singleton.2 (.list (List.forall_mem_singleton.2 (.bool _)))

theorem ordered_everyKind : everyKind.Ordered := by
  refine .object (by simp [Members.Ordered, precedes]) ?_
  simp only [List.forall_mem_cons]
  refine ⟨.list (List.forall_mem_nil _), .int _, .list ?_, List.forall_mem_nil _⟩
  simp only [List.forall_mem_cons]
  refine ⟨.object List.Pairwise.nil (List.forall_mem_nil _), .int _, .null, .bool _, .text _, .list ?_,
    List.forall_mem_nil _⟩
  exact List.forall_mem_singleton.2 (.list (List.forall_mem_singleton.2 (.bool _)))

theorem wire_loses_nothing_of_everyKind :
    Json.read? (Request.mk "a\tb" [everyKind, .text "\r"] (2 ^ 64 - 1)).write.toList =
      some (.object [("id", .int Json.maxInt), ("jsonrpc", .text "2.0"), ("method", .text "a\tb"),
        ("params", .list [everyKind, .text "\r"])]) ∧
    Json.read? everyKind.shown.toList = some everyKind :=
  ⟨wire_loses_nothing.1 ⟨"a\tb", [everyKind, .text "\r"], 2 ^ 64 - 1⟩
      (by simpa using ⟨⟨whole_everyKind, ordered_everyKind⟩, .text _, .text _⟩) (by decide) (by decide),
    wire_loses_nothing.2.1 everyKind whole_everyKind ordered_everyKind (by decide) (by rintro s ⟨⟩)⟩

end PluginTools
