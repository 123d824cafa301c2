/-
What a reply of the plugin stands for. Of its members only `result` and `error` matter, and of those of an error only
`code`, `message` and `data`; their order and what stands beside them do not. `replies_understood` says so of every
reply, gives the outcome by the two members that matter, and says when a reply to the probe shows a connection.
-/
import PluginTools.Call.Session
import PluginTools.Proofs.Trees

namespace PluginTools

open Json (Tree Token)

/-! ## Errors as they are written -/

namespace RemoteError

open Json.Tree (Holds)

/-- What the data of an error is; null counts as none. -/
inductive DataIs : Option Tree → Option Json → Prop
  | missing : DataIs none none
  | null : DataIs (some .null) none
  | given {v : Tree} {w : Json} : v ≠ .null → v.value? (Tree.maxDepth - 2) = some w → DataIs (some v) (some w)

/-- The parts of an error: a whole number of sixty-four bits with a sign, a string, and data or none. -/
structure HasParts (r : RemoteError) (code message : Tree) (data : Option Tree) : Prop where
  code : code = .number (some (.int r.code))
  least : -2 ^ 63 ≤ r.code
  most : r.code < 2 ^ 63
  message : message = .text (some r.message)
  data : DataIs data r.data

/-- An error written by its members or as a list of its parts in order. -/
inductive WrittenAs (r : RemoteError) : Tree → Prop
  | object {ms : List (Option String × Tree)} {code message : Tree} {data : Option Tree} :
    (∀ m ∈ ms, m.1.isSome) → Holds ms "code" (some code) → Holds ms "message" (some message) → Holds ms "data" data →
    r.HasParts code message data → WrittenAs r (.object ms)
  | pair {code message : Tree} : r.HasParts code message none → WrittenAs r (.list [code, message])
  | triple {code message data : Tree} :
    r.HasParts code message (some data) → WrittenAs r (.list [code, message, data])

theorem optional?_eq_some_iff {t : Option Tree} {d : Option Json} :
    Tree.optional? (Tree.maxDepth - 2) t = some d ↔ DataIs t d := by
  constructor
  · intro h
    unfold Tree.optional? at h
    split at h
    · cases h; exact .missing
    · cases h; exact .null
    · rename_i v hv
      obtain ⟨w, hw, rfl⟩ := Option.map_eq_some_iff.1 h
      exact .given hv hw
  · rintro (_ | _ | ⟨hv, hw⟩)
    · rfl
    · rfl
    · rw [Tree.optional?, hw]
      · rfl
      · exact hv

theorem code?_eq_some_iff {t : Tree} {c : Int} :
    t.code? = some c ↔ t = .number (some (.int c)) ∧ c < 2 ^ 63 := by
  constructor
  · intro h
    unfold Tree.code? at h
    split at h
    · split at h
      · rename_i hlt
        cases h
        exact ⟨rfl, hlt⟩
      · cases h
    · cases h
  · rintro ⟨rfl, hlt⟩
    exact if_pos hlt

theorem text?_eq_some_iff {t : Tree} {s : String} : t.text? = some s ↔ t = .text (some s) := by
  cases t <;> simp [Tree.text?]

/-- Codes are read with no look at their lower bound: no number of a text is below it. -/
theorem ofParts?_eq_some_iff {r : RemoteError} {code message : Tree} {data : Option Tree} (numeric : code.Numeric) :
    ofParts? (Tree.maxDepth - 2) code message data = some r ↔ r.HasParts code message data := by
  simp only [ofParts?, Option.bind_eq_bind, Option.bind_eq_some_iff, code?_eq_some_iff, text?_eq_some_iff,
    optional?_eq_some_iff, Option.some.injEq]
  constructor
  · rintro ⟨c, ⟨rfl, hc⟩, m, hm, d, hd, rfl⟩
    exact ⟨rfl, numeric.minInt_le, hc, hm, hd⟩
  · rintro ⟨hcode, -, hc, hm, hd⟩
    exact ⟨_, ⟨hcode, hc⟩, _, hm, _, hd, rfl⟩

theorem ofTree?_eq_some_iff {r : RemoteError} {e : Tree} (numeric : e.Numeric) :
    ofTree? (Tree.maxDepth - 2) e = some r ↔ r.WrittenAs e := by
  constructor
  · intro h
    unfold ofTree? at h
    split at h
    · simp only [Option.bind_eq_bind, Option.bind_eq_some_iff, Tree.member?_eq_some_iff] at h
      obtain ⟨data, ⟨readable, hdata⟩, _, ⟨-, hcode⟩, code, rfl, _, ⟨-, hmessage⟩, message, rfl, h⟩ := h
      exact .object readable hcode hmessage hdata ((ofParts?_eq_some_iff (numeric.member hcode)).1 h)
    · exact .pair ((ofParts?_eq_some_iff (numeric.item List.mem_cons_self)).1 h)
    · exact .triple ((ofParts?_eq_some_iff (numeric.item List.mem_cons_self)).1 h)
    · cases h
  · rintro (⟨readable, hcode, hmessage, hdata, h⟩ | h | h)
    · simp only [ofTree?, Tree.member?_eq_some_iff.2 ⟨readable, hdata⟩, Tree.member?_eq_some_iff.2 ⟨readable, hcode⟩,
        Tree.member?_eq_some_iff.2 ⟨readable, hmessage⟩, Option.bind_eq_bind, Option.bind_some]
      exact (ofParts?_eq_some_iff (numeric.member hcode)).2 h
    · exact (ofParts?_eq_some_iff (numeric.item List.mem_cons_self)).2 h
    · exact (ofParts?_eq_some_iff (numeric.item List.mem_cons_self)).2 h

end RemoteError

/-! ## Replies and their outcomes -/

namespace Response

open Json.Tree (Holds Rearranged)

/-- The same reply but for the order of members and members of other names, in it and in its error. -/
inductive SameReply : List (Option String × Tree) → List (Option String × Tree) → Prop
  | members {ms ms' : List (Option String × Tree)} : Rearranged ["result", "error"] ms ms' → SameReply ms ms'
  | error {es es' ms : List (Option String × Tree)} : Rearranged ["code", "message", "data"] es es' →
    SameReply ((some "error", .object es) :: ms) ((some "error", .object es') :: ms)
  | trans {ms ms' ms'' : List (Option String × Tree)} : SameReply ms ms' → SameReply ms' ms'' → SameReply ms ms''

theorem remoteError_ofTree?_rearranged {es es' : List (Option String × Tree)}
    (h : Rearranged ["code", "message", "data"] es es') (depth : Nat) :
    RemoteError.ofTree? depth (.object es) = RemoteError.ofTree? depth (.object es') := by
  have same : ∀ name ∈ ["code", "message", "data"], Tree.member? name es = Tree.member? name es' := fun _ => h.member?_eq
  simp only [RemoteError.ofTree?, same "code" (by simp), same "message" (by simp), same "data" (by simp)]

theorem SameReply.ofTree?_eq {ms ms' : List (Option String × Tree)} (h : SameReply ms ms') :
    ofTree? (.object ms) = ofTree? (.object ms') := by
  induction h with
  | @members ms ms' h =>
    have same : ∀ name ∈ ["result", "error"], Tree.member? name ms = Tree.member? name ms' := fun _ => h.member?_eq
    simp only [ofTree?, same "result" (by simp), same "error" (by simp)]
  | @error es es' ms h =>
    simp only [ofTree?, Tree.member?]
    rcases Tree.member? "error" ms with _ | _ | e
    · rfl
    · simp [ofParts?, remoteError_ofTree?_rearranged h]
    · rfl
  | trans _ _ ih ih' => exact ih.trans ih'

/-- No error is reported: none is there or it is null. -/
def NoError (error : Option Tree) : Prop := error = none ∨ error = some .null

/-- A result that is there has a value. -/
def Readable (result : Option Tree) : Prop := ∀ v ∈ result, v.value? (Tree.maxDepth - 1) ≠ none

/-- **The outcome of a reply by its result and its error**, none if it cannot be read. An error counts before a
result, and a result of null is shown as success. -/
inductive StandsFor : Option Tree → Option Tree → Option (Except CallFailure Json) → Prop
  | unreadable {result error : Option Tree} : ¬ Readable result → StandsFor result error none
  | malformed {result : Option Tree} {e : Tree} : e ≠ .null → (∀ r : RemoteError, ¬ r.WrittenAs e) →
    StandsFor result (some e) none
  | remote {result : Option Tree} {e : Tree} {r : RemoteError} : Readable result → r.WrittenAs e →
    StandsFor result (some e) (some (.error (.remote r)))
  | missing {error : Option Tree} : NoError error → StandsFor none error (some (.error .noOutcome))
  | null {error : Option Tree} : NoError error → StandsFor (some .null) error (some (.ok (.text "success")))
  | value {v : Tree} {w : Json} {error : Option Tree} : NoError error → v ≠ .null →
    v.value? (Tree.maxDepth - 1) = some w → StandsFor (some v) error (some (.ok w))

section

variable {result error : Option Tree} {v e : Tree}

theorem map_outcome_of_unreadable (h : ¬ Readable result) : (ofParts? result error).map outcome = none := by
  simp only [Readable, Option.mem_def, ne_eq, not_forall, not_not] at h
  obtain ⟨v, rfl, hv⟩ := h
  simp [ofParts?, hv]

/-- An error counts before the result. -/
theorem map_outcome_of_error (h : e ≠ .null) (readable : Readable result) :
    (ofParts? result (some e)).map outcome =
      (RemoteError.ofTree? (Tree.maxDepth - 2) e).map fun r => .error (.remote r) := by
  cases he : RemoteError.ofTree? (Tree.maxDepth - 2) e <;> cases result with
  | none => simp [ofParts?, he, outcome]
  | some v =>
    obtain ⟨w, hw⟩ := Option.ne_none_iff_exists'.1 (readable v rfl)
    simp [ofParts?, he, hw, outcome]

theorem map_outcome_of_missing (h : NoError error) :
    (ofParts? none error).map outcome = some (.error .noOutcome) := by
  rcases h with rfl | rfl <;> rfl

theorem map_outcome_of_null (h : NoError error) : (ofParts? (some .null) error).map outcome = some (.ok success) := by
  rcases h with rfl | rfl <;> simp [ofParts?, Tree.value?, outcome]

theorem map_outcome_of_value (h : NoError error) (numeric : v.Numeric) (hv : v ≠ .null) {w : Json}
    (hw : v.value? (Tree.maxDepth - 1) = some w) : (ofParts? (some v) error).map outcome = some (.ok w) := by
  have hnull : w ≠ .null := fun he => hv (numeric.value?_eq_null_iff.1 (he ▸ hw))
  have : outcome ⟨some w, none⟩ = .ok w := by
    cases w <;> first | rfl | exact absurd rfl hnull
  rcases h with rfl | rfl <;> simp [ofParts?, hw, this]

/-- The relation gives the outcome of every reply, and no other. -/
theorem map_outcome_eq_iff {o : Option (Except CallFailure Json)} (numeric : ∀ v ∈ result, v.Numeric)
    (numericError : ∀ e ∈ error, e.Numeric) :
    (ofParts? result error).map outcome = o ↔ StandsFor result error o := by
  have written : ∀ e ∈ error, ∀ r, RemoteError.ofTree? (Tree.maxDepth - 2) e = some r ↔ r.WrittenAs e :=
    fun e he _ => RemoteError.ofTree?_eq_some_iff (numericError e he)
  constructor
  · rintro rfl
    by_cases readable : Readable result
    · by_cases noError : NoError error
      · cases result with
        | none => rw [map_outcome_of_missing noError]; exact .missing noError
        | some v =>
          obtain ⟨w, hw⟩ := Option.ne_none_iff_exists'.1 (readable v rfl)
          by_cases hv : v = .null
          · rw [hv, map_outcome_of_null noError]; exact .null noError
          · rw [map_outcome_of_value noError (numeric v rfl) hv hw]; exact .value noError hv hw
      · obtain ⟨e, rfl⟩ := Option.ne_none_iff_exists'.1 fun h => noError (.inl h)
        have he : e ≠ .null := fun h => noError (.inr (h ▸ rfl))
        rw [map_outcome_of_error he readable]
        cases hr : RemoteError.ofTree? (Tree.maxDepth - 2) e with
        | none => exact .malformed he fun r h => by rw [← written e rfl, hr] at h; cases h
        | some r => exact .remote readable ((written e rfl r).1 hr)
    · rw [map_outcome_of_unreadable readable]
      exact .unreadable readable
  · intro h
    cases h with
    | unreadable h => exact map_outcome_of_unreadable h
    | @malformed _ e he malformed =>
      by_cases readable : Readable result
      · have hr : RemoteError.ofTree? (Tree.maxDepth - 2) e = none :=
          Option.eq_none_iff_forall_ne_some.2 fun r hr => malformed r ((written e rfl r).1 hr)
        rw [map_outcome_of_error he readable, hr, Option.map_none]
      · exact map_outcome_of_unreadable readable
    | @remote _ e r readable hr =>
      have he : e ≠ .null := by rintro rfl; cases hr
      rw [map_outcome_of_error he readable, (written e rfl r).2 hr, Option.map_some]
    | missing noError => exact map_outcome_of_missing noError
    | null noError => exact map_outcome_of_null noError
    | value noError hv hw => exact map_outcome_of_value noError (numeric _ rfl) hv hw

end

example : (ofTree? (.object [(some "result", .bool true), (some "id", .number none),
    (some "error", .list [.number (some (.int (-3))), .text (some "no"), .null])])).map outcome =
      some (.error (.remote ⟨-3, "no", none⟩)) := by
  rfl

theorem ofTree?_of_holds {ms : List (Option String × Tree)} {result error : Option Tree}
    (readable : ∀ m ∈ ms, m.1.isSome) (hresult : Holds ms "result" result) (herror : Holds ms "error" error) :
    ofTree? (.object ms) = ofParts? result error := by
  simp only [ofTree?, Tree.member?_eq_some_iff.2 ⟨readable, hresult⟩, Tree.member?_eq_some_iff.2 ⟨readable, herror⟩,
    Option.bind_eq_bind, Option.bind_some]

end Response

/-! ## The probe -/

theorem Client.outcome_eq_ok_iff {c : Client} {reaction : Reaction} {v : Json} :
    c.outcome reaction = .ok v ↔
      ∃ status body, reaction = .answer status body ∧ (Response.read? body).map Response.outcome = some (.ok v) := by
  cases reaction with
  | failure => simp [Client.outcome]
  | answer status body =>
    have : c.outcome (.answer status body) = .ok v ↔ (Response.read? body).map Response.outcome = some (.ok v) := by
      cases h : Response.read? body <;> simp [Client.outcome, h]
    rw [this]
    constructor
    · intro h
      exact ⟨status, body, rfl, h⟩
    · rintro ⟨_, _, ⟨⟩, h⟩
      exact h

namespace Connection

theorem success_injective {a b : String} (h : success a = success b) : a = b := by
  unfold success at h
  exact (String.append_right_inj _).1 ((String.append_left_inj _).1 h)

theorem success_ne_hint (module : String) : success module ≠ hint := by
  have start : (success module).toList.head? = some 'S' := by
    have : "Successfully connected to IDA Pro (open file: ".toList.head? = some 'S' := by decide
    unfold success
    rw [String.toList_append, String.toList_append, List.head?_append, List.head?_append, this,
      Option.some_or, Option.some_or]
  have other : hint.toList.head? ≠ some 'S' := by decide
  exact fun h => other (h ▸ start)

theorem report_eq_success_iff {o : Except CallFailure Json} {module : String} :
    report o = success module ↔ ∃ v, o = .ok v ∧ v.member? "module" = some (.text module) := by
  constructor
  · intro h
    unfold report at h
    split at h
    · rename_i v
      split at h
      · rename_i found hfound
        obtain ⟨m, hm, htext⟩ := Option.bind_eq_some_iff.1 hfound
        cases m <;> cases htext
        exact ⟨v, rfl, success_injective h ▸ hm⟩
      · exact absurd h.symm (success_ne_hint module)
    · exact absurd h.symm (success_ne_hint module)
  · rintro ⟨v, rfl, hm⟩
    simp only [report, hm, Option.bind_some, Json.text?]

theorem report_eq_hint_or (o : Except CallFailure Json) : report o = hint ∨ ∃ module, report o = success module := by
  unfold report
  split
  · split
    · exact .inr ⟨_, rfl⟩
    · exact .inl rfl
  · exact .inl rfl

end Connection

/-! ## All replies -/

/-- What replies mean, whatever stands in them. -/
structure Response.Understood : Prop where
  /-- Other members and the order of members change nothing. -/
  rearranged : ∀ {body body' : Token.Source} {ms ms' : List (Option String × Tree)},
    Tree.ofSource? body = some (.object ms) → Tree.ofSource? body' = some (.object ms') → SameReply ms ms' →
    read? body = read? body'
  /-- The result and the error, each there at most once, decide the outcome. -/
  outcome : ∀ {body : Token.Source} {ms : List (Option String × Tree)} {result error : Option Tree}
    {o : Option (Except CallFailure Json)}, Tree.ofSource? body = some (.object ms) → (∀ m ∈ ms, m.1.isSome) →
    Tree.Holds ms "result" result → Tree.Holds ms "error" error →
    ((read? body).map Response.outcome = o ↔ StandsFor result error o)
  /-- A list of the two is read as an object that has them. -/
  positions : ∀ {body body' : Token.Source} {ms : List (Option String × Tree)} {result error : Tree},
    Tree.ofSource? body = some (.list [result, error]) → Tree.ofSource? body' = some (.object ms) →
    (∀ m ∈ ms, m.1.isSome) → Tree.Holds ms "result" (some result) → Tree.Holds ms "error" (some error) →
    read? body = read? body'
  /-- The probe succeeds by a result that names the open module, and only by that. -/
  connection : ∀ (s : Session) (reaction : Reaction) (module : String),
    (s.step reaction .checkConnection).2.answer = .connection (Connection.success module) ↔
      ∃ status body v, reaction = .answer status body ∧ (read? body).map Response.outcome = some (.ok v) ∧
        v.member? "module" = some (.text module)
  /-- Whatever else comes of the probe is answered with the hint. -/
  hint : ∀ (s : Session) (reaction : Reaction),
    (∀ module, (s.step reaction .checkConnection).2.answer ≠ .connection (Connection.success module)) →
    (s.step reaction .checkConnection).2.answer = .connection Connection.hint

/-- **A reply is understood by its result and its error alone**, and the probe by the result alone. -/
theorem replies_understood : Response.Understood where
  rearranged := by
    intro body body' ms ms' h h' same
    rw [Response.read?, Response.read?, h, h', Option.bind_some, Option.bind_some, same.ofTree?_eq]
  outcome := by
    intro body ms result error o h readable hresult herror
    have numeric := Tree.numeric_of_ofSource? h
    rw [Response.read?, h, Option.bind_some, Response.ofTree?_of_holds readable hresult herror]
    refine Response.map_outcome_eq_iff ?_ ?_
    · rintro v rfl
      exact numeric.member hresult
    · rintro e rfl
      exact numeric.member herror
  positions := by
    intro body body' ms result error h h' readable hresult herror
    rw [Response.read?, Response.read?, h, h', Option.bind_some, Option.bind_some,
      Response.ofTree?_of_holds readable hresult herror, Response.ofTree?]
  connection := by
    intro s reaction module
    change Answer.connection (Connection.report (s.client.outcome reaction)) = _ ↔ _
    rw [Answer.connection.injEq, Connection.report_eq_success_iff]
    constructor
    · rintro ⟨v, hv, hm⟩
      obtain ⟨status, body, rfl, hread⟩ := Client.outcome_eq_ok_iff.1 hv
      exact ⟨status, body, v, rfl, hread, hm⟩
    · rintro ⟨status, body, v, rfl, hread, hm⟩
      exact ⟨v, Client.outcome_eq_ok_iff.2 ⟨status, body, rfl, hread⟩, hm⟩
  hint := by
    intro s reaction h
    change Answer.connection (Connection.report (s.client.outcome reaction)) = _
    rcases Connection.report_eq_hint_or (s.client.outcome reaction) with hhint | ⟨module, hmodule⟩
    · rw [hhint]
    · exact absurd (congrArg Answer.connection hmodule) (h module)

/-- A reply that holds a result of null and nothing else. -/
def nullReply : Token.Source := "\x7b\"result\":null\x7d".toList.map some

/-- The same reply with a member that does not matter. -/
def nullReplyWithId : Token.Source := "\x7b\"id\":[],\"result\":null\x7d".toList.map some

theorem replies_understood_nullReply :
    Response.read? nullReply = Response.read? nullReplyWithId ∧
      (Response.read? nullReply).map Response.outcome = some (.ok (.text "success")) := by
  have hread : Tree.ofSource? nullReply = some (.object [(some "result", .null)]) := by cbv
  have hread' : Tree.ofSource? nullReplyWithId = some (.object [(some "id", .list []), (some "result", .null)]) := by cbv
  refine ⟨replies_understood.rearranged hread hread' (.members (.added _ (by decide))), ?_⟩
  have hresult : Tree.Holds [(some "result", .null)] "result" (some .null) := rfl
  have herror : Tree.Holds [(some "result", .null)] "error" none := rfl
  exact (replies_understood.outcome hread (by simp) hresult herror).2 (.null (.inl rfl))

end PluginTools
