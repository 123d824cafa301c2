/-
Types that are read as they are. A type that starts as types do is a chain of members and bars behind the brackets of
a name. It is read as it is exactly if the types in its brackets are, each bar has a name with brackets behind it, and
only behind the last of all stands an upright expression instead.
-/
import PluginTools.Proofs.Arrivals
import PluginTools.Proofs.LegibleType
import PluginTools.Proofs.Upright

namespace PluginTools.Expr

/-- A name with brackets behind it. -/
def isGeneric : Expr → Bool
  | .subscript (.name _) _ => true
  | _ => false

/-- Whether a type is read as it is, given whether it is as a chain. -/
def uprightOr (e : Expr) (chain : Bool) : Bool := if e.startsType then chain else e.isUpright

mutual

/-- Whether a chain of members and bars is read as it is. Behind one that is `ended` stands no expression. -/
def isUprightChain (ended : Bool) : Expr → Bool
  | .subscript (.name _) (.tuple (x :: xs)) =>
    x.uprightOr (x.isUprightChain false) && areUprightTypes xs && !xs.isEmpty
  | .subscript (.name _) slice => slice.uprightOr (slice.isUprightChain false)
  | .attribute value _ => value.isUprightChain true
  | .binary left operator right => operator == "|" && left.isUprightChain true &&
    if right.startsType then right.isGeneric && right.isUprightChain true else !ended && right.isUpright
  | _ => false

def areUprightTypes : List Expr → Bool
  | [] => true
  | x :: xs => x.uprightOr (x.isUprightChain false) && areUprightTypes xs

end

/-- Whether the text of an ordinary expression is read as the expression where a type stands. -/
def isUprightType (e : Expr) : Bool := e.uprightOr (e.isUprightChain false)

variable {e t left right : Expr} {ended : Bool} {xs ts : List Expr}

theorem isUprightType_of_startsType (h : e.startsType) : e.isUprightType = e.isUprightChain false := by
  simp [isUprightType, uprightOr, h]

theorem isUprightType_of_not_startsType (h : e.startsType = false) : e.isUprightType = e.isUpright := by
  simp [isUprightType, uprightOr, h]

theorem areUprightTypes_iff : areUprightTypes xs ↔ ∀ x ∈ xs, x.isUprightType := by
  induction xs with
  | nil => simp [areUprightTypes]
  | cons x xs ih => simp [areUprightTypes, isUprightType, ih]

theorem isUprightChain_subscript_name (ended : Bool) (id : String) (slice : Expr) :
    (Expr.subscript (.name id) slice).isUprightChain ended ↔
      (∀ x ∈ slice.indices, x.isUprightType) ∧ ∀ x, slice ≠ .tuple [x] := by
  unfold indices
  split
  · next x xs => cases xs <;> simp [isUprightChain, isUprightType, areUprightTypes_iff]
  · next h =>
    rw [isUprightChain]
    · have hpair : ∀ x, slice ≠ .tuple [x] := fun x => h x []
      simp [isUprightType, hpair]
    · exact fun x xs he => h x xs he

theorem isUprightChain_attribute (ended : Bool) (value : Expr) (field : String) :
    (Expr.attribute value field).isUprightChain ended = value.isUprightChain true := rfl

theorem isUprightChain_binary (ended : Bool) (left right : Expr) (operator : String) :
    (Expr.binary left operator right).isUprightChain ended = (operator == "|" && left.isUprightChain true &&
      if right.startsType then right.isGeneric && right.isUprightChain true else !ended && right.isUpright) := rfl

theorem isUprightChain_members (e : Expr) (fields : List String) :
    (members e fields).isUprightChain true = e.isUprightChain true := by
  induction fields using List.reverseRecOn with
  | nil => rfl
  | append_singleton fields field ih => rw [members_concat, isUprightChain_attribute, ih]

theorem isUprightChain_of_ended (h : e.isUprightChain true) : e.isUprightChain false := by
  cases e with
  | subscript value slice =>
    cases hname : value.name? with
    | none => cases value <;> first | cases h | cases hname
    | some id =>
      obtain rfl := eq_name_of_name? hname
      exact (isUprightChain_subscript_name false id slice).2 ((isUprightChain_subscript_name true id slice).1 h)
  | binary left operator right =>
    simp only [isUprightChain_binary, Bool.not_true, Bool.false_and] at h
    cases hstart : right.startsType <;> simp_all [isUprightChain_binary]
  | name | literal | tuple | list | call | verbatim => cases h
  | _ => exact h

/-! ## What is read is upright -/

/-- A chain up to some place of its text is upright so far. -/
structure OpenType.IsUpright (t : OpenType) : Prop where
  starts : t.type.startsType
  chain : t.type.isUprightChain true
  rest : ∀ e ∈ t.rest, e.Legible ∧ e.startsType = false

theorem OpenType.IsUpright.closed {t : OpenType} (h : t.IsUpright) : t.closed.isUprightType := by
  obtain ⟨type, rest⟩ := t
  cases rest with
  | none => exact (isUprightType_of_startsType h.starts).trans (isUprightChain_of_ended h.chain)
  | some e =>
    obtain ⟨he, hstart⟩ := h.rest e rfl
    have hchain : type.isUprightChain true := h.chain
    have hunion : (Expr.binary type "|" e).startsType := h.starts
    rw [OpenType.closed_some, isUprightType_of_startsType hunion]
    simp [isUprightChain_binary, hchain, hstart, he.isUpright]

theorem OpenType.IsUpright.startsType_closed {t : OpenType} (h : t.IsUpright) : t.closed.startsType := by
  obtain ⟨type, rest⟩ := t
  cases rest <;> exact h.starts

/-- A bar and an operand leave a chain upright. -/
theorem OpenType.IsUpright.bar {u v : OpenType} (hu : u.IsUpright) (hright : right.Legible)
    (htight : levelOf "|" < right.tightness) (hoperand : ∀ w, right.startsType → right.openType = some w → w.IsUpright)
    (h : u.bar right right.openType = some v) : v.IsUpright := by
  obtain ⟨type, rest⟩ := u
  cases rest with
  | some e =>
    obtain ⟨he, hstart⟩ := hu.rest e rfl
    obtain rfl := Option.some.inj h
    refine ⟨hu.starts, hu.chain, ?_⟩
    simp only [Option.mem_some_iff, forall_eq']
    exact ⟨.binary he hright (by decide) he.bar_le_tightness htight, hstart⟩
  | none =>
    simp only [OpenType.bar] at h
    split at h
    · next hstart =>
      obtain ⟨w, hw, rfl⟩ := Option.map_eq_some_iff.1 h
      obtain ⟨id, slice, fields, rfl⟩ := hright.openType_eq_members hstart htight hw
      obtain ⟨hstarts, hchain, -⟩ := hoperand _ hstart hw
      rw [startsType_members] at hstarts
      rw [isUprightChain_members] at hchain
      have hleft : type.isUprightChain true := hu.chain
      rw [graft_members rfl rfl]
      refine ⟨(startsType_members _ _).trans hu.starts, ?_, by simp⟩
      rw [isUprightChain_members, isUprightChain_binary]
      simp [hleft, hstarts, isGeneric, hchain]
    · next hstart =>
      obtain rfl := Option.some.inj h
      refine ⟨hu.starts, hu.chain, ?_⟩
      simp only [Option.mem_some_iff, forall_eq']
      exact ⟨hright, by simpa using hstart⟩

theorem isUprightType_of_typeOf (h : e.Legible)
    (htype : e.startsType → ∀ u, e.openType = some u → u.IsUpright) (ht : e.typeOf = some t) : t.isUprightType := by
  cases hstart : e.startsType with
  | false =>
    rw [typeOf_of_not_startsType hstart] at ht
    obtain rfl := Option.some.inj ht
    rw [isUprightType_of_not_startsType hstart, h.isUpright]
  | true =>
    rw [typeOf_of_startsType hstart] at ht
    obtain ⟨u, hu, rfl⟩ := Option.map_eq_some_iff.1 ht
    exact (htype hstart u hu).closed

/-- Only a tuple is a tuple as a type. -/
theorem eq_tuple_of_typeOf {items : List Expr} (htype : e.startsType → ∀ u, e.openType = some u → u.IsUpright)
    (ht : e.typeOf = some (.tuple items)) : e = .tuple items := by
  cases hstart : e.startsType with
  | false =>
    rw [typeOf_of_not_startsType hstart] at ht
    exact Option.some.inj ht
  | true =>
    rw [typeOf_of_startsType hstart] at ht
    obtain ⟨u, hu, hclosed⟩ := Option.map_eq_some_iff.1 ht
    have hstarts := (htype hstart u hu).startsType_closed
    rw [hclosed] at hstarts
    cases hstarts

/-- The types that are read between the brackets of a name are upright, and they are a slice again. -/
theorem isUpright_members_of_name {id : String} {slice : Expr} (hstart : (Expr.subscript (.name id) slice).startsType)
    (hslice : ∀ x ∈ slice.indices, Legible x) (hpair : ∀ x, slice ≠ .tuple [x])
    (htypes : ∀ x ∈ slice.indices, x.startsType → ∀ u, x.openType = some u → u.IsUpright)
    (hts : slice.indices.mapM typeOf = some ts) :
    OpenType.IsUpright ⟨.subscript (.name id) (Rules.parametersOf ts), .none⟩ := by
  refine ⟨hstart, ?_, by simp⟩
  have hread := mapM_eq_some_iff.1 hts
  have hupright : ∀ t ∈ ts, t.isUprightType := fun t ht => by
    obtain ⟨x, hx, htype⟩ := exists_of_forall₂_right hread ht
    exact isUprightType_of_typeOf (hslice x hx) (htypes x hx) htype
  have hne : ts ≠ [] := by
    rintro rfl
    exact slice.indices_ne_nil (List.forall₂_nil_right_iff.1 hread)
  have htuple : ∀ y ys, ts ≠ [.tuple (y :: ys)] := by
    rintro y ys rfl
    obtain ⟨x, xs, hitem, hrest, hx⟩ := List.forall₂_cons_right_iff.1 hread
    obtain rfl := List.forall₂_nil_right_iff.1 hrest
    obtain rfl := eq_tuple_of_typeOf (htypes x (by simp [hx])) hitem
    exact indices_ne_tuple (fun z zs => hpair (.tuple (z :: zs))) y ys hx
  obtain ⟨hindices, hpair⟩ := indices_sliceOf hne htuple
  rw [parametersOf_eq_sliceOf, isUprightChain_subscript_name, hindices]
  exact ⟨hupright, hpair⟩

/-- What is read as a type is read as that type again. -/
theorem Legible.isUpright_openType (h : e.Legible) (hstart : e.startsType) {u : OpenType} (hu : e.openType = some u) :
    u.IsUpright := by
  induction h generalizing u with
  | @member value field _ _ _ ih =>
    obtain ⟨v, hv, rfl⟩ := Option.map_eq_some_iff.1 hu
    have hvalue := ih hstart hv
    exact ⟨hvalue.starts, hvalue.chain, by simp⟩
  | @subscript value slice _ _ hslice hpair _ ih =>
    cases hname : value.name? with
    | none => simp [openType_subscript hname] at hu
    | some id =>
      obtain rfl := eq_name_of_name? hname
      rw [openType_subscript_name] at hu
      obtain ⟨ts, hts, rfl⟩ := Option.map_eq_some_iff.1 hu
      exact isUpright_members_of_name hstart hslice hpair (fun x hx hstart u hu => ih x hx hstart hu) hts
  | @binary left right operator _ hright _ _ hr ihl ihr =>
    rw [openType] at hu
    split at hu
    · next hbar =>
      subst hbar
      obtain ⟨v, hv, hbar⟩ := Option.bind_eq_some_iff.1 hu
      exact (ihl hstart hv).bar hright hr (fun w hstart hw => ihr hstart hw) hbar
    · cases hu
  | call => cases hu
  | _ => cases hstart

/-! ## What is upright is read -/

theorem startsType_attach (access : Expr → Expr) (haccess : ∀ e, (access e).startsType = e.startsType) (e : Expr) :
    (attach access e).startsType = e.startsType := by
  fun_induction attach access e with
  | case1 => rfl
  | case2 => rfl
  | case3 e _ _ => exact haccess e

/-- A member behind a type is a member of all of it. -/
theorem openType_attach {field : String} (h : e.EndsInBase) (hstart : e.startsType) (he : e.openType = some ⟨t, .none⟩) :
    (attach (.attribute · field) e).openType = some ⟨.attribute t field, .none⟩ := by
  induction h generalizing t with
  | base _ hbase =>
    rw [attach_of_isBase hbase, openType, he]
    rfl
  | @binary left right operator hlegible _ ih =>
    cases hlegible with
    | binary hleft hright hop hl hr =>
      rw [openType] at he
      split at he
      · next hbar =>
        subst hbar
        obtain ⟨⟨type, rest⟩, htype, hwhole⟩ := Option.bind_eq_some_iff.1 he
        cases rest with
        | some x => cases hwhole
        | none =>
          simp only [OpenType.bar] at hwhole
          split at hwhole
          · next hstart =>
            obtain ⟨u, hu, hgraft⟩ := Option.map_eq_some_iff.1 hwhole
            obtain ⟨id, slice, fields, rfl⟩ := hright.openType_eq_members hstart hr hu
            obtain rfl := (OpenType.mk.injEq .. ▸ hgraft).1
            have hattach : (attach (.attribute · field) right).startsType = right.startsType :=
              startsType_attach (.attribute · field) (fun _ => rfl) right
            rw [attach, openType, if_pos rfl, htype, Option.bind_some, OpenType.bar]
            simp [hattach, hstart, ih hstart hu, graft, startsGeneric]
          · cases hwhole
      · cases he
  | signed => cases hstart

/-- Behind a bar, an expression that does not start as types do takes in all bars behind it. -/
theorem openType_joined (hleft : left.Legible) (hl : left.openType = some ⟨t, .none⟩) (hright : right.Legible)
    (hstart : right.startsType = false) :
    (joined left "|" right).startsType = left.startsType ∧ (joined left "|" right).openType = some ⟨t, some right⟩ := by
  have hop : isOperator "|" := by decide
  have hdirect : ∀ {e : Expr}, e.Legible → e.startsType = false → levelOf "|" < e.tightness →
      (joined left "|" e).startsType = left.startsType ∧ (joined left "|" e).openType = some ⟨t, some e⟩ :=
    fun he hstart htight => by
      have hlegible : (Expr.binary left "|" _).Legible := .binary hleft he hop hleft.bar_le_tightness htight
      rw [joined_of_legible hlegible, openType, if_pos rfl, hl, Option.bind_some, OpenType.bar]
      simp [hstart, startsType]
  have hwhole := hright
  induction hright with
  | @binary x y operator hx hy ho _ hry ihx =>
    by_cases hbar : operator = "|"
    · subst hbar
      have hlegible := (legible_joined hleft hx hop).1
      have hjoined : (Expr.binary (joined left "|" x) "|" y).Legible := .binary hlegible hy hop hlegible.bar_le_tightness hry
      obtain ⟨hstarts, htype⟩ := ihx hstart hx
      rw [joined, joined_of_legible hjoined, openType, if_pos rfl, htype, Option.bind_some, OpenType.bar]
      exact ⟨hstarts, rfl⟩
    · exact hdirect hwhole hstart (bar_lt_levelOf ho hbar)
  | _ => exact hdirect hwhole hstart (bar_lt_tightness rfl)

theorem eq_of_isGeneric (h : e.isGeneric) : ∃ id slice, e = .subscript (.name id) slice := by
  unfold isGeneric at h
  split at h
  · exact ⟨_, _, rfl⟩
  · cases h

theorem reread_subscript_name (id : String) (slice : Expr) : (Expr.subscript (.name id) slice).reread =
    .subscript (.name id) (Rules.sliceOf (slice.indices.map reread)) := by
  have hname : (Expr.name id).reread = .name id := rfl
  rw [reread_subscript, hname, attach_of_isBase rfl]

/-- An upright chain of members and bars is read as it is. -/
structure ReadsChain (e : Expr) : Prop where
  ended : e.isUprightChain true → e.reread.startsType ∧ e.reread.openType = some ⟨e, .none⟩
  closed : e.isUprightChain false → e.reread.typeOf = some e

theorem readsChain_of_ended (hended : e.isUprightChain true → e.reread.startsType ∧ e.reread.openType = some ⟨e, .none⟩)
    (hsame : e.isUprightChain false → e.isUprightChain true) : ReadsChain e where
  ended := hended
  closed h := by
    obtain ⟨hstart, htype⟩ := hended (hsame h)
    rw [typeOf_of_startsType hstart, htype, Option.map_some, OpenType.closed_none]

theorem Ordinary.typeOf_of_readsChain (h : e.Ordinary) (hchain : e.startsType → ReadsChain e) (hupright : e.isUprightType) :
    e.reread.typeOf = some e := by
  cases hstart : e.startsType with
  | true => exact (hchain hstart).closed (isUprightType_of_startsType hstart ▸ hupright)
  | false => rw [h.reread_eq_iff.2 (isUprightType_of_not_startsType hstart ▸ hupright), typeOf_of_not_startsType hstart]

/-- The types between the brackets of a name are read as they are. -/
theorem readsChain_subscript_name {id : String} {slice : Expr} (hstart : (Expr.subscript (.name id) slice).startsType)
    (htuple : ∀ y ys, slice ≠ .tuple [.tuple (y :: ys)])
    (hread : ∀ x ∈ slice.indices, x.isUprightType → x.reread.typeOf = some x) :
    ReadsChain (.subscript (.name id) slice) := by
  refine readsChain_of_ended (fun hchain => ?_) fun hchain => ?_
  · obtain ⟨hslice, hpair⟩ := (isUprightChain_subscript_name true id slice).1 hchain
    have hne : slice.indices.map reread ≠ [] := by simpa using slice.indices_ne_nil
    have hindices := (indices_sliceOf hne (map_reread_ne_tuple htuple)).1
    have htypes : (slice.indices.map reread).mapM typeOf = some slice.indices := by
      rw [List.mapM_map]
      exact mapM_self_iff.2 fun x hx => hread x hx (hslice x hx)
    refine ⟨reread_subscript_name id slice ▸ hstart, ?_⟩
    rw [reread_subscript_name, openType_subscript_name, hindices, htypes, Option.map_some, parametersOf_indices hpair]
  · exact (isUprightChain_subscript_name true id slice).2 ((isUprightChain_subscript_name false id slice).1 hchain)

/-- A bar with a type of its own behind it. -/
theorem ReadsChain.union (hleft : left.Ordinary) (hstart : right.startsType) (ihl : ReadsChain left)
    (ihr : ReadsChain right) (operator : String) : ReadsChain (.binary left operator right) := by
  refine readsChain_of_ended (fun hchain => ?_) fun hchain => by simpa [isUprightChain_binary, hstart] using hchain
  simp only [isUprightChain_binary, hstart, if_true, Bool.and_eq_true, beq_iff_eq] at hchain
  obtain ⟨⟨rfl, hleft_chain⟩, hgeneric, hright_chain⟩ := hchain
  obtain ⟨hl_start, hl_type⟩ := ihl.ended hleft_chain
  obtain ⟨hr_start, hr_type⟩ := ihr.ended hright_chain
  obtain ⟨id, slice, rfl⟩ := eq_of_isGeneric hgeneric
  have hbinary : (Expr.subscript (.name id) slice).reread.isBinary = false := by
    rw [reread_subscript_name]
    rfl
  have hlegible := hleft.rereads.legible
  rw [reread, joined_of_not_isBinary _ _ hbinary, extend_left hlegible hlegible.bar_le_tightness]
  refine ⟨hl_start, ?_⟩
  rw [openType, if_pos rfl, hl_type, Option.bind_some, OpenType.bar]
  simp [hr_start, hr_type, graft]

/-- A bar with an expression behind it, which ends the chain. -/
theorem ReadsChain.union_rest (hleft : left.Ordinary) (hright : right.Ordinary) (hstart : right.startsType = false)
    (ihl : ReadsChain left) (operator : String) : ReadsChain (.binary left operator right) := by
  have hchain : ∀ ended, (Expr.binary left operator right).isUprightChain ended =
      (operator == "|" && left.isUprightChain true && (!ended && right.isUpright)) := fun ended => by
    simp [isUprightChain_binary, hstart]
  refine ⟨fun h => by simp [hchain] at h, fun h => ?_⟩
  simp only [hchain, Bool.not_false, Bool.true_and, Bool.and_eq_true, beq_iff_eq] at h
  obtain ⟨⟨rfl, hleft_chain⟩, hupright⟩ := h
  obtain ⟨hl_start, hl_type⟩ := ihl.ended hleft_chain
  obtain ⟨hstarts, htype⟩ := openType_joined hleft.rereads.legible hl_type (hright.legible hupright) hstart
  rw [reread, hright.reread_eq_iff.2 hupright, typeOf_of_startsType (hstarts.trans hl_start), htype, Option.map_some,
    OpenType.closed_some]

theorem Ordinary.readsChain (h : e.Ordinary) (hstart : e.startsType) : ReadsChain e := by
  induction h with
  | @member value field hvalue hbase _ ih =>
    refine readsChain_of_ended (fun hchain => ?_) id
    obtain ⟨hvalue_start, htype⟩ := (ih hstart).ended hchain
    rw [reread]
    exact ⟨(startsType_attach (.attribute · field) (fun _ => rfl) _).trans hvalue_start,
      openType_attach (hvalue.rereads.ends hbase) hvalue_start htype⟩
  | @subscript value slice _ _ hslice htuple _ ih =>
    cases hname : value.name? with
    | none =>
      have hchain : ∀ ended, (Expr.subscript value slice).isUprightChain ended = false := fun ended => by
        cases value <;> first | rfl | cases hname
      exact ⟨fun h => by simp [hchain] at h, fun h => by simp [hchain] at h⟩
    | some id =>
      obtain rfl := eq_name_of_name? hname
      exact readsChain_subscript_name hstart htuple fun x hx => (hslice x hx).typeOf_of_readsChain (ih x hx)
  | call => exact ⟨(fun h => by cases h), (fun h => by cases h)⟩
  | @binary left right operator hleft hright _ ihl ihr =>
    cases hright_start : right.startsType with
    | true => exact (ihl hstart).union hleft hright_start (ihr hright_start) operator
    | false => exact (ihl hstart).union_rest hleft hright hright_start operator
  | _ => cases hstart

/-- **An ordinary expression is read as itself where a type stands** exactly if it is an upright type. -/
theorem Ordinary.typeOf_reread_eq_iff (h : e.Ordinary) : e.reread.typeOf = some e ↔ e.isUprightType := by
  have hlegible := h.rereads.legible
  exact ⟨isUprightType_of_typeOf hlegible fun hstart _ => hlegible.isUpright_openType hstart,
    h.typeOf_of_readsChain h.readsChain⟩

end PluginTools.Expr
