/-
The guard in front of the service. `judge_iff` says which requests it forbids, which it does not find and which it
lets pass: a request is forbidden exactly if its first origin can be read and is foreign, and of the others those pass
whose target has one of the two served paths. An origin that cannot be read counts as none.

Origins are compared as octets, while the guard compares texts; `not_mem_ofList_iff` joins the two. What the path of
a target is, `HasPath` says by the target's parts; no target has two (`HasPath.unique`).
-/
import PluginTools.Wire.Guard

namespace PluginTools

/-! ## Origins -/

namespace Origin

/-- The octets of a text. -/
def octets (text : List Char) : List UInt8 := text.flatMap String.utf8EncodeChar

/-- An origin that equals none of the allowed ones. Those count without the blanks around them, and only if something
is left. -/
def Foreign (allowed : List String) (origin : List UInt8) : Prop :=
  ∀ s ∈ allowed, Blank.trim s.toList ≠ [] → origin ≠ octets (Blank.trim s.toList)

/-- A foreign origin that can be read, the only kind of origin that is turned away. -/
structure Refused (allowed : List String) (origin : List UInt8) : Prop where
  visible : ∀ b ∈ origin, isVisible b
  foreign : Foreign allowed origin

theorem octets_injective {a b : List Char} (h : octets a = octets b) : a = b := by
  have hstrings : (String.ofList a).toByteArray = (String.ofList b).toByteArray := by
    rw [String.toByteArray_ofList, String.toByteArray_ofList]
    exact congrArg List.toByteArray h
  exact String.ofList_inj.1 (String.toByteArray_inj.1 hstrings)

theorem lt_of_isVisible {b : UInt8} (h : isVisible b) : b.toNat < 128 := by
  simp only [isVisible, Bool.or_eq_true, Bool.and_eq_true, decide_eq_true_eq, beq_iff_eq] at h
  rcases h with ⟨-, h⟩ | rfl
  · exact Nat.lt_of_lt_of_le (UInt8.lt_iff_toNat_lt.1 h) (by decide)
  · decide

theorem utf8EncodeChar_ofNat {b : UInt8} (h : b.toNat < 128) : String.utf8EncodeChar (Char.ofNat b.toNat) = [b] := by
  have hvalid : b.toNat.isValidChar := .inl (by omega)
  have hval : (Char.ofNat b.toNat).val.toNat = b.toNat := by
    rw [Char.ofNat, dif_pos hvalid]
    rfl
  have hsize : (Char.ofNat b.toNat).utf8Size = 1 := by
    rw [Char.utf8Size_eq_one_iff, UInt32.le_iff_toNat_le, hval]
    exact Nat.le_of_lt_succ h
  rw [String.utf8EncodeChar_eq_singleton hsize]
  refine congrArg (· :: []) (UInt8.toNat_inj.1 ?_)
  rw [UInt32.toNat_toUInt8, hval]
  exact Nat.mod_eq_of_lt (by omega)

theorem text?_eq_none_iff {origin : List UInt8} : text? origin = none ↔ ¬∀ b ∈ origin, isVisible b := by
  rw [text?, ← List.all_eq_true]
  split <;> simp_all

theorem text?_ok {origin : List UInt8} {text : List Char} (h : text? origin = some text) :
    (∀ b ∈ origin, isVisible b) ∧ text = origin.map fun b => Char.ofNat b.toNat := by
  unfold text? at h
  split at h
  · next hvisible => exact ⟨List.all_eq_true.1 hvisible, (Option.some.inj h).symm⟩
  · cases h

/-- An origin that can be read has the octets of its text. -/
theorem octets_of_text? {origin : List UInt8} {text : List Char} (h : text? origin = some text) :
    octets text = origin := by
  obtain ⟨hvisible, rfl⟩ := text?_ok h
  clear h
  rw [octets, List.flatMap_map]
  induction origin with
  | nil => rfl
  | cons b origin ih =>
    rw [List.forall_mem_cons] at hvisible
    rw [List.flatMap_cons, utf8EncodeChar_ofNat (lt_of_isVisible hvisible.1), ih hvisible.2]
    rfl

end Origin

namespace Guard

/-- The text of an origin is among the allowed ones unless the origin is foreign. -/
theorem not_mem_ofList_iff {allowed : List String} {origin : List UInt8} {text : List Char}
    (h : Origin.text? origin = some text) : text ∉ (ofList allowed).allowed ↔ Origin.Foreign allowed origin := by
  obtain rfl := Origin.octets_of_text? h
  simp only [ofList, List.mem_filter, List.mem_map, Origin.Foreign]
  constructor
  · rintro hmem s hs hne heq
    obtain rfl := Origin.octets_injective heq
    exact hmem ⟨⟨s, hs, rfl⟩, by simpa using hne⟩
  · rintro hforeign ⟨⟨s, hs, rfl⟩, hne⟩
    exact hforeign s hs (by simpa using hne) rfl

/-- **The guard rejects an origin exactly if it can be read and is foreign.** -/
theorem rejects_iff {allowed : List String} {origin : Option (List UInt8)} :
    (ofList allowed).rejects origin ↔ ∃ o ∈ origin, Origin.Refused allowed o := by
  cases origin with
  | none => simp [rejects]
  | some o =>
    rw [rejects, Option.bind_some]
    cases htext : Origin.text? o with
    | none =>
      refine iff_of_false (by simp) ?_
      rintro ⟨o', ho, hrefused⟩
      obtain rfl := Option.some.inj ho
      exact Origin.text?_eq_none_iff.1 htext hrefused.visible
    | some text =>
      simp only [Bool.not_eq_true', List.contains_eq_mem, decide_eq_false_iff_not, not_mem_ofList_iff htext]
      constructor
      · intro hforeign
        exact ⟨o, rfl, (Origin.text?_ok htext).1, hforeign⟩
      · rintro ⟨o', ho, hrefused⟩
        obtain rfl := Option.some.inj ho
        exact hrefused.foreign

/-- The paths behind which the service stands: that of the event stream and those of the messages. -/
def Served (path : List Char) : Prop := path = "/sse".toList ∨ "/messages/".toList <+: path

theorem serves_iff {path : List Char} : serves path ↔ Served path := by
  rw [serves, Bool.or_eq_true, beq_iff_eq, List.isPrefixOf_iff_prefix]
  rfl

end Guard

/-! ## Targets -/

namespace Uri

/-- A path that ends where a target ends or where its query or its fragment begins. -/
structure Ends (path rest : List Char) : Prop where
  path : ∀ c ∈ path, c ≠ '?' ∧ c ≠ '#'
  rest : ∀ c ∈ rest.head?, c = '?' ∨ c = '#'

/-- The path of a target, by the target's parts. -/
inductive HasPath : List Char → List Char → Prop
  | asterisk : HasPath ['*'] ['*']
  /-- A path with what may follow it. -/
  | plain {path rest : List Char} : path.head? = some '/' → Ends path rest → HasPath (path ++ rest) path
  /-- An authority alone. -/
  | authority {cs : List Char} : cs ≠ ['*'] → (∀ c ∈ cs, ¬endsAuthority c) → HasPath cs []
  /-- An absolute URI, which has a slash for a path if no other path is written. -/
  | absolute {scheme authority path rest : List Char} : (∀ c ∈ scheme, isSchemeCharacter c) → authority ≠ [] →
    (∀ c ∈ authority, ¬endsAuthority c) → (∀ c ∈ path.head?, c = '/') → Ends path rest →
    HasPath (scheme ++ ':' :: '/' :: '/' :: (authority ++ (path ++ rest))) (if path.isEmpty then ['/'] else path)

/-! ## One path to a target -/

/-- A text falls in one way into characters of a kind and what starts with another. -/
theorem split_unique {p : Char → Prop} {a b a' b' : List Char} (h : a ++ b = a' ++ b') (ha : ∀ c ∈ a, p c)
    (hb : ∀ c ∈ b.head?, ¬p c) (ha' : ∀ c ∈ a', p c) (hb' : ∀ c ∈ b'.head?, ¬p c) : a = a' ∧ b = b' := by
  induction a generalizing a' with
  | nil =>
    cases a' with
    | nil => exact ⟨rfl, h⟩
    | cons c a' =>
      obtain rfl : b = c :: (a' ++ b') := h
      exact absurd (ha' c List.mem_cons_self) (hb c rfl)
  | cons c a ih =>
    rw [List.forall_mem_cons] at ha
    cases a' with
    | nil =>
      obtain rfl : c :: (a ++ b) = b' := h
      exact absurd ha.1 (hb' c rfl)
    | cons c' a' =>
      obtain ⟨rfl, htails⟩ : c = c' ∧ a ++ b = a' ++ b' := by simpa using h
      obtain ⟨rfl, rfl⟩ := ih htails ha.2 (List.forall_mem_cons.1 ha').2
      exact ⟨rfl, rfl⟩

theorem Ends.unique {path rest path' rest' : List Char} (h : path ++ rest = path' ++ rest') (hends : Ends path rest)
    (hends' : Ends path' rest') : path = path' := by
  refine (split_unique (p := fun c => c ≠ '?' ∧ c ≠ '#') h hends.path ?_ hends'.path ?_).1
  · exact fun c hc hinside => (hends.rest c hc).elim hinside.1 hinside.2
  · exact fun c hc hinside => (hends'.rest c hc).elim hinside.1 hinside.2

variable {cs path : List Char}

theorem not_isSchemeCharacter_colon {b : List Char} : ∀ c ∈ (':' :: b).head?, ¬isSchemeCharacter c := by
  intro c hc
  obtain rfl := Option.some.inj hc
  decide

theorem slash_mem {scheme behind : List Char} : '/' ∈ scheme ++ ':' :: '/' :: '/' :: behind := by simp

theorem head?_ne_slash {scheme b : List Char} (hscheme : ∀ c ∈ scheme, isSchemeCharacter c) :
    (scheme ++ ':' :: b).head? ≠ some '/' := by
  cases scheme with
  | nil => exact fun hslash => absurd (Option.some.inj hslash) (by decide)
  | cons c scheme =>
    intro hslash
    obtain rfl := Option.some.inj hslash
    exact absurd (hscheme '/' List.mem_cons_self) (by decide)

theorem HasPath.of_asterisk (h : HasPath ['*'] path) : path = ['*'] := by
  -- The four forms of a target are told apart by its first character and by whether it holds a slash.
  generalize hcs : ['*'] = cs at h
  cases h with
  | asterisk => rfl
  | plain hslash =>
    have hmem : '/' ∈ ['*'] := hcs ▸ List.mem_append_left _ (List.mem_of_head? hslash)
    exact absurd hmem (by decide)
  | authority hne => exact absurd hcs.symm hne
  | absolute =>
    have hmem : '/' ∈ ['*'] := hcs ▸ slash_mem
    exact absurd hmem (by decide)

/-- A target that starts with a slash is its path and what may follow it. -/
theorem HasPath.of_slash (h : HasPath cs path) (hslash : cs.head? = some '/') :
    ∃ rest, cs = path ++ rest ∧ Ends path rest := by
  cases h with
  | asterisk => cases hslash
  | plain _ hends => exact ⟨_, rfl, hends⟩
  | authority _ hinside => exact absurd rfl (hinside '/' (List.mem_of_head? hslash))
  | absolute hscheme => exact absurd hslash (head?_ne_slash hscheme)

/-- A target in which no authority ends has no path, unless it is an asterisk. -/
theorem HasPath.of_authority (h : HasPath cs path) (hne : cs ≠ ['*']) (hinside : ∀ c ∈ cs, ¬endsAuthority c) :
    path = [] := by
  cases h with
  | asterisk => exact absurd rfl hne
  | plain hslash => exact absurd rfl (hinside '/' (List.mem_append_left _ (List.mem_of_head? hslash)))
  | authority => rfl
  | absolute => exact absurd rfl (hinside '/' slash_mem)

/-- The path of an absolute URI stands behind its authority. -/
theorem HasPath.of_scheme {scheme behind : List Char} (hscheme : ∀ c ∈ scheme, isSchemeCharacter c)
    (h : HasPath (scheme ++ ':' :: '/' :: '/' :: behind) path) : ∃ authority path' rest,
      behind = authority ++ (path' ++ rest) ∧ (∀ c ∈ authority, ¬endsAuthority c) ∧ (∀ c ∈ path'.head?, c = '/') ∧
      Ends path' rest ∧ path = if path'.isEmpty then ['/'] else path' := by
  generalize hcs : scheme ++ ':' :: '/' :: '/' :: behind = cs at h
  cases h with
  | asterisk =>
    have hmem : '/' ∈ ['*'] := hcs ▸ slash_mem
    exact absurd hmem (by decide)
  | plain hslash =>
    have hhead := head?_ne_slash (b := '/' :: '/' :: behind) hscheme
    rw [hcs, List.head?_append, hslash] at hhead
    exact absurd rfl hhead
  | authority _ hinside => exact absurd rfl (hinside '/' (hcs ▸ slash_mem))
  | @absolute scheme' authority path rest hscheme' _ hinside hslash hends =>
    obtain ⟨-, hbehind⟩ := split_unique (p := fun c => isSchemeCharacter c) hcs hscheme not_isSchemeCharacter_colon
      hscheme' not_isSchemeCharacter_colon
    obtain rfl : behind = authority ++ (path ++ rest) := by simpa using hbehind
    exact ⟨authority, path, rest, rfl, hinside, hslash, hends, rfl⟩

/-- What stands behind an authority ends it exactly if the path starts with a slash or is empty. -/
theorem Ends.delimits_iff {rest : List Char} (hends : Ends path rest) :
    (∀ c ∈ (path ++ rest).head?, endsAuthority c) ↔ ∀ c ∈ path.head?, c = '/' := by
  cases path with
  | nil =>
    refine iff_of_true (fun c hc => ?_) (by simp)
    rcases hends.rest c hc with rfl | rfl <;> decide
  | cons d path =>
    have hinside := hends.path d List.mem_cons_self
    simp [endsAuthority, hinside.1, hinside.2]

/-- **A target has one path.** -/
theorem HasPath.unique {path' : List Char} (h : HasPath cs path) (h' : HasPath cs path') : path = path' := by
  cases h with
  | asterisk => exact h'.of_asterisk.symm
  | @plain path rest hslash hends =>
    obtain ⟨rest', heq, hends'⟩ := h'.of_slash (by rw [List.head?_append, hslash]; rfl)
    exact hends.unique heq hends'
  | authority hne hinside => exact (h'.of_authority hne hinside).symm
  | @absolute scheme authority path rest hscheme _ hinside hslash hends =>
    obtain ⟨authority', path', rest', heq, hinside', hslash', hends', rfl⟩ := h'.of_scheme hscheme
    obtain ⟨-, hpaths⟩ := split_unique (p := fun c => ¬endsAuthority c) heq hinside
      (fun c hc hopen => hopen (hends.delimits_iff.2 hslash c hc)) hinside'
      (fun c hc hopen => hopen (hends'.delimits_iff.2 hslash' c hc))
    rw [hends.unique hpaths hends']

/-! ## Reading -/

theorem path?_ok (h : path? cs = some path) : ∃ rest, cs = path ++ rest ∧ Ends path rest := by
  fun_induction path? cs generalizing path with
  | case1 =>
    cases h
    exact ⟨[], rfl, by simp, by simp⟩
  | case2 rest =>
    cases h
    exact ⟨'?' :: rest, rfl, by simp, by simp⟩
  | case3 rest => cases h
  | case4 rest =>
    cases h
    exact ⟨'#' :: rest, rfl, by simp, by simp⟩
  | case5 c rest hquery hfragment _ ih =>
    obtain ⟨path', hpath, rfl⟩ := Option.map_eq_some_iff.1 h
    obtain ⟨rest', rfl, hends⟩ := ih hpath
    exact ⟨rest', rfl, by simpa using ⟨⟨hquery, hfragment⟩, hends.path⟩, hends.rest⟩
  | case6 => cases h

/-- An authority goes on up to the first character that ends it. -/
theorem authority?_ok {a : Authority} {empty empty' : Bool} {cs rest : List Char}
    (h : authority? a empty cs = some (empty', rest)) : ∃ authority, cs = authority ++ rest ∧
      (∀ c ∈ authority, ¬endsAuthority c) ∧ (∀ c ∈ rest.head?, endsAuthority c) ∧
      empty' = (empty && authority.isEmpty) := by
  fun_induction authority? a empty cs with
  | case1 =>
    cases h
    exact ⟨[], rfl, by simp, by simp, by simp⟩
  | case2 => cases h
  | case3 =>
    cases h
    exact ⟨[], rfl, by simp, by simpa, by simp⟩
  | case4 => cases h
  | case5 a empty c rest' hends a' hadd ih =>
    obtain ⟨authority, rfl, hinside, hrest, rfl⟩ := ih h
    exact ⟨c :: authority, rfl, List.forall_mem_cons.2 ⟨hends, hinside⟩, hrest, by simp⟩
  | case6 => cases h

theorem afterScheme?_ok {cs rest : List Char} (h : afterScheme? cs = some (some rest)) :
    ∃ scheme, cs = scheme ++ ':' :: '/' :: '/' :: rest ∧ ∀ c ∈ scheme, isSchemeCharacter c := by
  simp only [afterScheme?] at h
  split at h
  · next rest' hdrop =>
    split at h
    · cases h
    · cases h
      have htake := List.prefix_iff_eq_take.1 (List.takeWhile_prefix isSchemeCharacter (l := cs))
      refine ⟨cs.takeWhile isSchemeCharacter, ?_, List.all_eq_true.1 List.all_takeWhile⟩
      calc cs = cs.take (cs.takeWhile isSchemeCharacter).length ++ cs.drop (cs.takeWhile isSchemeCharacter).length :=
            (List.take_append_drop _ cs).symm
        _ = cs.takeWhile isSchemeCharacter ++ _ := by rw [← htake, hdrop]
  · cases h

/-- A target that is an authority and nothing else has no path. -/
theorem authorityAlone_ok (hne : cs ≠ ['*'])
    (h : ((authority? {} true cs).bind fun r => if r.2.isEmpty then some [] else none) = some path) :
    HasPath cs path := by
  obtain ⟨⟨empty, rest⟩, hauthority, hrest⟩ := Option.bind_eq_some_iff.1 h
  obtain ⟨authority, rfl, hinside, -, -⟩ := authority?_ok hauthority
  rw [Option.ite_none_right_eq_some] at hrest
  obtain ⟨hempty, hpath⟩ := hrest
  obtain rfl := List.isEmpty_iff.1 hempty
  obtain rfl := Option.some.inj hpath
  rw [List.append_nil] at hne ⊢
  exact .authority hne hinside

/-- Behind a scheme stand an authority that is not empty and what the path is taken from. -/
theorem behindScheme_ok {scheme : List Char} (hscheme : ∀ c ∈ scheme, isSchemeCharacter c)
    (h : ((authority? {} true cs).bind fun r =>
      if r.1 then none else (path? r.2).map fun path => if path.isEmpty then ['/'] else path) = some path) :
    HasPath (scheme ++ ':' :: '/' :: '/' :: cs) path := by
  obtain ⟨⟨empty, rest⟩, hauthority, hpath⟩ := Option.bind_eq_some_iff.1 h
  obtain ⟨authority, rfl, hinside, hdelimits, rfl⟩ := authority?_ok hauthority
  rw [Option.ite_none_left_eq_some] at hpath
  obtain ⟨hempty, hpath⟩ := hpath
  obtain ⟨path', hread, rfl⟩ := Option.map_eq_some_iff.1 hpath
  obtain ⟨rest', rfl, hends⟩ := path?_ok hread
  have hne : authority ≠ [] := by simpa using hempty
  exact .absolute hscheme hne hinside (hends.delimits_iff.1 hdelimits) hends

theorem target?_ok {target : String} {path : List Char} (h : target? target = some path) :
    HasPath target.toList path := by
  unfold target? at h
  generalize target.toList = cs at h
  simp only at h
  split at h
  · cases h
  split at h
  · cases h
  · cases h
    exact .asterisk
  · next rest =>
    obtain ⟨rest', hcs, hends⟩ := path?_ok h
    cases path with
    | nil =>
      obtain rfl : '/' :: rest = rest' := hcs
      exact absurd (hends.rest '/' rfl) (by decide)
    | cons c path' =>
      obtain ⟨rfl, rfl⟩ := List.cons.inj hcs
      exact .plain rfl hends
  · next hne _ =>
    exact authorityAlone_ok (by simpa using hne) h
  · split at h
    · cases h
    · next hne _ _ _ _ => exact authorityAlone_ok hne h
    · next hscheme =>
      obtain ⟨scheme, rfl, hletters⟩ := afterScheme?_ok hscheme
      exact behindScheme_ok hletters h

/-- **What a target is taken to ask for is its path**, the only one that it has. -/
theorem hasPath_iff_of_target? {target : String} {path p : List Char} (h : target? target = some path) :
    HasPath target.toList p ↔ p = path := by
  constructor
  · exact fun hp => hp.unique (target?_ok h)
  · rintro rfl
    exact target?_ok h

end Uri
/-! ## Verdicts -/

namespace Verdict

theorem rejection?_eq_forbidden_iff {v : Verdict} : v.rejection? = some (403, "Forbidden") ↔ v = .forbidden := by
  cases v <;> simp [rejection?]

theorem rejection?_eq_notFound_iff {v : Verdict} : v.rejection? = some (404, "Not Found") ↔ v = .notFound := by
  cases v <;> simp [rejection?]

theorem rejection?_eq_none_iff {v : Verdict} : v.rejection? = none ↔ v = .pass := by
  cases v <;> simp [rejection?]

end Verdict

namespace Guard
variable {g : Guard} {path : List Char} {origin : Option (List UInt8)}

theorem judge_eq_forbidden_iff : g.judge path origin = .forbidden ↔ g.rejects origin := by
  rw [judge]
  cases g.rejects origin <;> cases serves path <;> simp

theorem judge_eq_notFound_iff : g.judge path origin = .notFound ↔ ¬g.rejects origin ∧ ¬serves path := by
  rw [judge]
  cases g.rejects origin <;> cases serves path <;> simp

theorem judge_eq_pass_iff : g.judge path origin = .pass ↔ ¬g.rejects origin ∧ serves path := by
  rw [judge]
  cases g.rejects origin <;> cases serves path <;> simp

/-- What a guard answers to a request for a path that carries some origins. Only the first of them counts. -/
structure Judges (allowed : List String) (path : List Char) (origins : List (List UInt8)) (verdict : Verdict) :
    Prop where
  forbidden_iff : verdict.rejection? = some (403, "Forbidden") ↔ ∃ o ∈ origins.head?, Origin.Refused allowed o
  notFound_iff : verdict.rejection? = some (404, "Not Found") ↔
    (¬∃ o ∈ origins.head?, Origin.Refused allowed o) ∧ ¬Served path
  pass_iff : verdict.rejection? = none ↔ (¬∃ o ∈ origins.head?, Origin.Refused allowed o) ∧ Served path

/-- **A request is forbidden exactly if its first origin can be read and is foreign, and of the others those pass
whose target has a served path.** -/
theorem judge_iff {allowed : List String} {target : String} {path : List Char} (origins : List (List UInt8))
    (h : Uri.target? target = some path) :
    (∀ p, Uri.HasPath target.toList p ↔ p = path) ∧
      Judges allowed path origins ((ofList allowed).judge path origins.head?) := by
  refine ⟨fun _ => Uri.hasPath_iff_of_target? h, ?_, ?_, ?_⟩
  · rw [Verdict.rejection?_eq_forbidden_iff, judge_eq_forbidden_iff, rejects_iff]
  · rw [Verdict.rejection?_eq_notFound_iff, judge_eq_notFound_iff, rejects_iff, serves_iff]
  · rw [Verdict.rejection?_eq_none_iff, judge_eq_pass_iff, rejects_iff, serves_iff]

/-- A foreign origin that cannot be read passes. -/
theorem judge_iff_unreadableOrigin : let origin := Origin.octets "http://évil.example".toList
    Origin.Foreign ["http://localhost", " "] origin ∧
      Uri.target? "http://a@b:80/messages/x?y#z" = some "/messages/x".toList ∧
      (∀ p, Uri.HasPath "http://a@b:80/messages/x?y#z".toList p ↔ p = "/messages/x".toList) ∧
      Judges ["http://localhost", " "] "/messages/x".toList [origin] .pass := by
  have hforeign : Origin.Foreign ["http://localhost", " "] (Origin.octets "http://évil.example".toList) := by
    unfold Origin.Foreign
    decide
  have htarget : Uri.target? "http://a@b:80/messages/x?y#z" = some "/messages/x".toList := by decide
  have hpass : (ofList ["http://localhost", " "]).judge "/messages/x".toList
      (some (Origin.octets "http://évil.example".toList)) = .pass := by decide
  refine ⟨hforeign, htarget, ?_⟩
  rw [← hpass]
  exact judge_iff [Origin.octets "http://évil.example".toList] htarget

end Guard
end PluginTools
