/-
How types are read. The text of a legible expression, where a type stands, is read as the type that `typeOf`
says it is, up to its end; and where it is none, the reader fails or gets stuck before a bracket or an operator,
which nothing that may stand behind a type starts with.
-/
import PluginTools.Proofs.Expressions
import PluginTools.Proofs.LegibleType

namespace PluginTools.Rules

open Layout (endsWord startsToken)
open Place (itemsText Follows)
open Reading (IsBefore Gives Stuck Reaches)
open PluginTools.Expr (OpenType Spined foreignMarks)

/-- What no reader of a type goes on with: what no type has behind it, and a bar without a type behind it. -/
def stuckMarks : List Char := '|' :: foreignMarks

/-- The rules read the text of an expression as the type that it is, or get stuck in it. -/
def ReadsType (r : Rules) (e : Expr) : Prop :=
  ∀ (p : Place) (t : List Char), p.Leads Place.closes t → p.after? ':' t = .none →
    Gives stuckMarks e.typeOf t (r.type p (e.chars ++ t))

variable {r : Rules} {p : Place} {e : Expr} {t rest : List Char}

/-! ## Types in brackets -/

theorem marks_of_stuckMarks : ∀ d ∈ stuckMarks, Layout.isMark d ∧ d ≠ ',' ∧ d ≠ ']' := by
  simp only [stuckMarks, foreignMarks, List.forall_mem_cons, List.not_mem_nil, false_implies, implies_true]
  decide

theorem colon_of_stuckMarks : ∀ d ∈ stuckMarks, Layout.isMark d ∧ d ≠ ':' := by
  simp only [stuckMarks, foreignMarks, List.forall_mem_cons, List.not_mem_nil, false_implies, implies_true]
  decide

/-- The types between brackets, if all of them are types. -/
theorem typeParameters_of_reads {x : Expr} {xs : List Expr} (hlegible : ∀ y ∈ x :: xs, y.Legible)
    (h : ∀ y ∈ x :: xs, r.ReadsType y) :
    r.typeParameters p (commaSeparated ((x :: xs).map Expr.chars) ++ ']' :: rest) =
      ((x :: xs).mapM Expr.typeOf).map (·, rest) := by
  obtain ⟨hx, hxs⟩ := List.forall_mem_cons.1 hlegible
  have hitem : ∀ y ∈ x :: xs, ∀ t, Follows (']' :: rest) t →
      Gives stuckMarks y.typeOf t (r.type p.bracketed (y.chars ++ t)) := fun y hy t ht =>
    h y hy p.bracketed t (leads_of_follows (.inr rfl) ht) (after?_of_follows (.inr rfl) ht (by decide) (by decide))
  have hclosed : p.bracketed.closed? (fun text => [Expr.ofJoin text]) (r.type p.bracketed) ']'
      (x.chars ++ (itemsText Expr.chars xs ++ ']' :: rest)) = ((x :: xs).mapM Expr.typeOf).map (·, rest) :=
    Place.closed?_itemsText (by decide) (by decide) marks_of_stuckMarks
      (fun y hy t => ⟨(hxs y hy).startsToken t, (hxs y hy).head?_ne (by decide) t⟩) hitem
  rw [Place.commaSeparated_map_cons, List.append_assoc, ← hclosed]
  simp [typeParameters, Place.closed?, Place.token?_of_startsToken (hx.startsToken _)]

theorem genericType_of_reads {id : String} {slice : Expr} (hlegible : (Expr.subscript (.name id) slice).Legible)
    (hreserved : isTypeReserved id.toList = false) (h : ∀ y ∈ slice.indices, r.ReadsType y) :
    r.genericType p ((Expr.subscript (.name id) slice).chars ++ rest) =
      (Expr.subscript (.name id) slice).openType.map fun u => (u.type, rest) := by
  cases hlegible with
  | subscript hvalue _ hslice =>
    have hword : Word.isWord id.toList := by
      cases hvalue with
      | name hid => exact isWord_of_isOperandName hid
    have hname : (Expr.name id).chars = id.toList := rfl
    have hread : Word.read? (id.toList ++ '[' :: (commaSeparated (slice.indices.map Expr.chars) ++ ']' :: rest)) =
        some (id.toList, '[' :: (commaSeparated (slice.indices.map Expr.chars) ++ ']' :: rest)) :=
      Word.read?_append hword rfl
    have hparameters : r.typeParameters p (commaSeparated (slice.indices.map Expr.chars) ++ ']' :: rest) =
        (slice.indices.mapM Expr.typeOf).map (·, rest) := by
      obtain ⟨x, xs, hxs⟩ := List.exists_cons_of_ne_nil slice.indices_ne_nil
      rw [hxs] at hslice h ⊢
      exact typeParameters_of_reads hslice h
    rw [Expr.chars_subscript, hname, Expr.openType_subscript_name]
    simp [genericType, hread, hreserved, Place.after?_self (show Layout.isMark '[' by decide), hparameters]
    cases slice.indices.mapM Expr.typeOf <;> rfl

/-! ## The start of a type -/

theorem after?_bracket_of_continues {bracket : Bool} {post : List Char} (h : Expr.Continues bracket post)
    (ht : p.after? '[' t = .none) : (p.after? '[' (post ++ t)).isSome = bracket := by
  cases h with
  | nil => simp [ht]
  | mark hc cs =>
    rcases hc with rfl | rfl
    · simp [Place.after?_other (show Layout.isMark '.' by decide)]
    · simp [Place.after?_other (show Layout.isMark '(' by decide)]
  | bracket cs => simp [Place.after?_self (show Layout.isMark '[' by decide)]
  | @operator c hc cs =>
    have hne : c ≠ '[' := by
      rintro rfl
      revert hc
      decide
    simp [Place.after?, Place.mark?, Place.token?_blank_mark (Expr.isMark_of_mem_operatorMarks hc), hne]

/-- Whether a name with brackets starts a text, read off the text. -/
theorem startsGeneric_of_legible (he : e.Legible) (ht : p.Leads Place.closesOperand t) :
    startsGeneric p (e.chars ++ t) = e.startsType := by
  have hend := ht.endsWord_rest
  have hnone : p.after? '[' t = .none :=
    ht.after? fun cs => by
      by_contra h
      exact Place.closesOperand_ne (by simpa using h) (by simp)
  have hlead := he.lead
  generalize e.chars = cs, e.startsType = start at hlead
  cases hlead with
  | mark hc cs => simp [startsGeneric, Word.read?_of_not_isOpening (Expr.not_isOpening_of_mark hc)]
  | @constant w hw post hpost =>
    have hwhole : Word.isWord w.toList ∧ isTypeReserved w.toList := by
      revert w
      decide
    rw [List.append_assoc]
    simp [startsGeneric, Word.read?_append hwhole.1 (hpost.endsWord hend), hwhole.2]
  | @name id hid _ post hpost =>
    rw [List.append_assoc]
    simp [startsGeneric, Word.read?_append (isWord_of_isOperandName hid) (hpost.endsWord hend),
      after?_bracket_of_continues hpost hnone, Bool.and_comm]

theorem splatType_of_legible (he : e.Legible) (t : List Char) : splatType p (e.chars ++ t) = .none := by
  have hstar := he.head?_ne (show Expr.isLead '*' = false by decide) t
  unfold splatType
  split <;> simp_all

/-! ## Operands of types -/

theorem typeOperand_of_not_startsType (he : e.Legible) (hread : r.Reads e) (hstart : e.startsType = false)
    (ht : p.Leads Place.closes t) : r.typeOperand p (e.chars ++ t) = some (e, t) := by
  have hgeneric : startsGeneric p (e.chars ++ t) = false := by rw [startsGeneric_of_legible he ht.operand, hstart]
  have hstars : ['*', '*'].isPrefixOf (e.chars ++ t) = false := not_stars_of_argument (.positional he hread) t
  simp [typeOperand, hgeneric, splatType_of_legible he, hstars, hread p Level.lowest t ht]

section
variable {id : String} {slice : Expr} {fields : List String} {post : List Char} (hs : Spined e id slice fields post)
include hs

/-- Where a name with brackets starts it, an operand is the name with the types in its brackets. -/
theorem typeOperand_of_spined (he : e.Legible) (hstart : e.startsType)
    (htypes : ∀ x : Expr, x.Legible → x.chars.length < e.chars.length → r.ReadsType x)
    (ht : p.Leads Place.closesOperand t) : r.typeOperand p (e.chars ++ t) =
      (Expr.subscript (.name id) slice).openType.map fun u => (u.type, Expr.membersText fields ++ (post ++ t)) := by
  have hgeneric : startsGeneric p (e.chars ++ t) := by rw [startsGeneric_of_legible he ht, hstart]
  have hitems : ∀ x ∈ slice.indices, r.ReadsType x := fun x hx => by
    have hlt : x.chars.length < (Expr.subscript (.name id) slice).chars.length := Expr.length_lt_of_mem_indices hx
    have hlegible : x.Legible := by
      cases hs.base with
      | subscript _ _ hslice => exact hslice x hx
    refine htypes x hlegible ?_
    rw [hs.text, List.length_append]
    omega
  rw [typeOperand, if_pos hgeneric, hs.text, List.append_assoc, List.append_assoc,
    genericType_of_reads hs.base hs.reserved hitems]

theorem length_le_of_spined : (Expr.membersText fields ++ post).length ≤ e.chars.length := by
  simp only [hs.text, List.length_append]
  omega

end

/-! ## Members and bars -/

theorem typeStep_of_leads (start : List Char) (w : Expr) (ht : p.Leads Place.closes t) :
    r.typeStep p start w t = .none := by
  rcases ht false with hnext | ⟨u, hnext, hu⟩
  · simp [typeStep, hnext]
  · obtain ⟨c, cs, rfl, hc, -⟩ := Place.closes_cons hu
    simp only [List.mem_cons, List.not_mem_nil, or_false] at hc
    rcases hc with rfl | rfl | rfl | rfl | rfl <;> simp [typeStep, hnext]

/-- What no type has behind it stops the type. -/
theorem typeStep_of_isBefore (start : List Char) (w : Expr) (h : IsBefore foreignMarks t) :
    r.typeStep p start w t = .none := by
  have hall : foreignMarks.all fun c => Layout.isMark c && c != '.' && c != '|' := by decide
  obtain ⟨c, hc, cs, ht⟩ := h
  have hmark := List.all_eq_true.1 hall c hc
  simp only [Bool.and_eq_true, bne_iff_ne, ne_eq] at hmark
  obtain ⟨⟨hmark, hpoint⟩, hbar⟩ := hmark
  have htoken : p.token? false t = some ([], c :: cs) := by
    rcases ht with rfl | rfl
    · exact Place.token?_mark hmark
    · exact Place.token?_blank_mark hmark
  simp only [typeStep, htoken, Option.bind_eq_bind, Option.bind_some]
  split
  · next h => exact absurd (List.cons.inj h).1 hpoint
  · next h => exact absurd (List.cons.inj h).1 hbar
  · rfl

/-- The members behind a type are read one by one. -/
theorem reaches_members {fields : List String} (hfields : ∀ field ∈ fields, Word.isWord field.toList) (start : List Char)
    (w : Expr) (ht : endsWord t) :
    Reaches (r.typeStep p start) w (Expr.membersText fields ++ t) (w.members fields) t := by
  induction fields generalizing w with
  | nil => exact .refl
  | cons field fields ih =>
    obtain ⟨hword, hfields⟩ := List.forall_mem_cons.1 hfields
    have hend : endsWord (Expr.membersText fields ++ t) := by
      cases fields with
      | nil => exact ht
      | cons => rfl
    have htext : Expr.membersText (field :: fields) ++ t = '.' :: (field.toList ++ (Expr.membersText fields ++ t)) := by
      simp [Expr.membersText]
    have hstep : r.typeStep p start w ('.' :: (field.toList ++ (Expr.membersText fields ++ t))) =
        some (.attribute w field, Expr.membersText fields ++ t) := by
      simp [typeStep, Place.token?_mark (show Layout.isMark '.' by decide), Place.token?_word hword hend,
        Word.read?_append hword hend]
    rw [htext]
    exact (Reaches.refl.snoc hstep (by simp only [List.length_cons, List.length_append]; omega)).trans (ih hfields _)

/-- A bar and the operand behind it. -/
theorem typeStep_bar (start : List Char) (w : Expr) (ht : startsToken t) :
    r.typeStep p start w (' ' :: '|' :: ' ' :: t) =
      (r.typeOperand p t).map fun u => (.binary w "|" u.1, u.2) := by
  simp only [typeStep, Place.token?_blank_mark (show Layout.isMark '|' by decide), Place.token?_blank ht,
    Option.bind_eq_bind, Option.bind_some]
  cases r.typeOperand p t <;> rfl

/-- Where the operators of a type lead: to the end of its text, before a bar with an expression behind it, or to a place
that no type goes on from. -/
inductive Arrives (r : Rules) (p : Place) (start t : List Char) (bound : Nat) (w : Expr) (cs : List Char) :
    Option OpenType → Prop
  | closed {u : Expr} (hreach : Reaches (r.typeStep p start) w cs u t) : Arrives r p start t bound w cs (some ⟨u, .none⟩)
  | bar {u x : Expr} (hreach : Reaches (r.typeStep p start) w cs u (' ' :: '|' :: ' ' :: (x.chars ++ t))) (hx : x.Legible)
    (hstart : x.startsType = false) (hle : x.chars.length ≤ bound) : Arrives r p start t bound w cs (some ⟨u, some x⟩)
  | stuck {u : Expr} {stop : List Char} (hreach : Reaches (r.typeStep p start) w cs u stop)
    (hnone : r.typeStep p start u stop = .none) (hstop : IsBefore stuckMarks stop) : Arrives r p start t bound w cs .none

theorem Arrives.of_reaches {start cs ds : List Char} {bound : Nat} {w u : Expr} {type? : Option OpenType}
    (h : Arrives r p start t bound u ds type?) (hreach : Reaches (r.typeStep p start) w cs u ds) :
    Arrives r p start t bound w cs type? := by
  cases h with
  | closed h => exact .closed (hreach.trans h)
  | bar h hx hstart hle => exact .bar (hreach.trans h) hx hstart hle
  | stuck h hnone hstop => exact .stuck (hreach.trans h) hnone hstop

/-- Behind the brackets of a name, on its own or behind a bar. -/
theorem arrives_of_spined (start : List Char) (bound : Nat) (w : Expr) {id : String} {slice : Expr} {fields : List String}
    {post : List Char} (hs : Spined e id slice fields post) (ht : endsWord t) : Arrives r p start t bound w
      (Expr.membersText fields ++ (post ++ t)) (if post = [] then some ⟨w.members fields, .none⟩ else .none) := by
  cases hs.spine with
  | members =>
    rw [if_pos rfl]
    exact .closed (reaches_members hs.words start w ht)
  | stuck hpost hover =>
    obtain ⟨c, hc, ds, hds⟩ := hpost
    have hne : post ≠ [] := by rcases hds with rfl | rfl <;> simp
    have hmark : Layout.isMark c := (marks_of_stuckMarks c (List.mem_cons_of_mem _ hc)).1
    have hend : endsWord (post ++ t) := by
      rcases hds with rfl | rfl
      · exact Layout.endsWord_mark hmark _
      · rfl
    have hbefore : IsBefore foreignMarks (post ++ t) := IsBefore.append ⟨c, hc, ds, hds⟩ t
    have hstop : IsBefore stuckMarks (post ++ t) := by
      obtain ⟨c, hc, ds, hds⟩ := hbefore
      exact ⟨c, List.mem_cons_of_mem _ hc, ds, hds⟩
    rw [if_neg hne]
    exact .stuck (reaches_members hs.words start w hend) (typeStep_of_isBefore start _ hbefore) hstop

/-! ## Types -/

/-- Where a reader of types gets in a text that starts as types do. -/
inductive Gets (r : Rules) (p : Place) (start t : List Char) (bound : Nat) (cs : List Char) : Option OpenType → Prop
  | fails (h : r.typeOperand p cs = .none) : Gets r p start t bound cs .none
  | reads {w : Expr} {ds : List Char} {type? : Option OpenType} (h : r.typeOperand p cs = some (w, ds))
    (harrives : Arrives r p start t bound w ds type?) : Gets r p start t bound cs type?

/-- Where the operand of a type that is no union leads. -/
theorem gets_of_spined {start : List Char} (he : e.Legible) (hstart : e.startsType)
    (htight : Expr.levelOf "|" < e.tightness)
    (htypes : ∀ x : Expr, x.Legible → x.chars.length < e.chars.length → r.ReadsType x)
    (ht : p.Leads Place.closesOperand t) : Gets r p start t e.chars.length (e.chars ++ t) e.openType := by
  obtain ⟨id, slice, fields, post, hs⟩ := he.spine hstart htight
  have hoperand := typeOperand_of_spined (r := r) hs he hstart htypes ht
  rw [hs.openType_eq he hstart htight]
  cases htype : (Expr.subscript (.name id) slice).openType with
  | none =>
    rw [htype] at hoperand
    simpa using Gets.fails hoperand
  | some u =>
    rw [htype] at hoperand
    exact .reads hoperand (by simpa using arrives_of_spined _ _ _ hs ht.endsWord_rest)

/-- What a bar and an operand make of a type. -/
theorem arrives_bar {left right : Expr} {u : Expr} {start : List Char} (hright : right.Legible)
    (htight : Expr.levelOf "|" < right.tightness)
    (htypes : ∀ x : Expr, x.Legible → x.chars.length < right.chars.length → r.ReadsType x)
    (ht : p.Leads Place.closesOperand t) :
    Arrives r p start t (Expr.binary left "|" right).chars.length u (' ' :: '|' :: ' ' :: (right.chars ++ t))
      (OpenType.bar ⟨u, .none⟩ right right.openType) := by
  simp only [OpenType.bar]
  cases hstart : right.startsType with
  | false =>
    refine .bar .refl hright hstart ?_
    simp only [Expr.chars_binary, List.length_append, List.length_cons]
    omega
  | true =>
    obtain ⟨id, slice, fields, post, hs⟩ := hright.spine hstart htight
    have hoperand := typeOperand_of_spined (r := r) hs hright hstart htypes ht
    have hstep := typeStep_bar (r := r) (p := p) start u (hright.startsToken t)
    have hlength := length_le_of_spined hs
    rw [if_pos rfl, hs.openType_eq hright hstart htight]
    rw [hoperand] at hstep
    cases htype : (Expr.subscript (.name id) slice).openType with
    | none =>
      rw [htype] at hstep
      simpa using Arrives.stuck .refl hstep ⟨'|', by simp [stuckMarks], _, .inr rfl⟩
    | some v =>
      rw [htype] at hstep
      have hbehind := arrives_of_spined (r := r) (p := p) start (Expr.binary left "|" right).chars.length
        (.binary u "|" v.type) hs ht.endsWord_rest
      have hreach := Reaches.refl.snoc hstep (by
        simp only [List.length_append, List.length_cons] at hlength ⊢
        omega)
      have hgraft : Expr.graft u "|" (v.type.members fields) = .members (.binary u "|" v.type) fields := by
        rw [Expr.openType_subscript_name] at htype
        obtain ⟨ts, -, rfl⟩ := Option.map_eq_some_iff.1 htype
        exact Expr.graft_members rfl rfl u "|" fields
      have harrives := hbehind.of_reaches hreach
      by_cases hpost : post = []
      · simpa [hpost, hgraft] using harrives
      · simpa [hpost] using harrives

/-- **A union is read bar by bar**, up to the first operand that is no type of a form of its own. -/
theorem gets_of_legible (start : List Char) (he : e.Legible) (hstart : e.startsType)
    (htypes : ∀ x : Expr, x.Legible → x.chars.length < e.chars.length → r.ReadsType x)
    (ht : p.Leads Place.closesOperand t) : Gets r p start t e.chars.length (e.chars ++ t) e.openType := by
  have hself := he
  induction he generalizing t with
  | @binary left right operator hleft hright hop hl hr ih =>
    by_cases hbar : operator = "|"
    · subst hbar
      have htext : (Expr.binary left "|" right).chars ++ t = left.chars ++ ' ' :: '|' :: ' ' :: (right.chars ++ t) := by
        simp [Expr.chars_binary]
      have hlength : (Expr.binary left "|" right).chars.length = left.chars.length + (right.chars.length + 3) := by
        simp [Expr.chars_binary]
      have hgets := ih hstart (fun x hx hlt => htypes x hx (by omega)) (t := ' ' :: '|' :: ' ' :: (right.chars ++ t))
        (.blank_mark (by decide) rfl) hleft
      rw [Expr.openType, if_pos rfl, htext]
      generalize left.openType = type? at hgets ⊢
      cases hgets with
      | fails h => exact .fails h
      | reads h harrives =>
        refine .reads h ?_
        cases harrives with
        | stuck hreach hnone hstop => exact .stuck hreach hnone hstop
        | closed hreach =>
          exact (arrives_bar hright hr (fun x hx hlt => htypes x hx (by omega)) ht).of_reaches hreach
        | @bar u x hreach hx hxstart hle =>
          have hunion : (Expr.binary x "|" right).Legible := .binary hx hright hop hx.bar_le_tightness hr
          have hread : (Expr.binary x "|" right).chars ++ t = x.chars ++ ' ' :: '|' :: ' ' :: (right.chars ++ t) := by
            simp [Expr.chars_binary]
          refine .bar (x := .binary x "|" right) (hread ▸ hreach) hunion hxstart ?_
          simp only [Expr.chars_binary, List.length_append, List.length_cons]
          omega
    · exact gets_of_spined hself hstart (Expr.bar_lt_levelOf hop hbar) htypes ht
  | _ => exact gets_of_spined hself hstart (Expr.bar_lt_tightness rfl) htypes ht

/-- The text of a legible expression as a type without a constraint. -/
theorem unconstrained_of_legible (he : e.Legible)
    (hread : ∀ x : Expr, x.Legible → x.chars.length ≤ e.chars.length → r.Reads x)
    (htypes : ∀ x : Expr, x.Legible → x.chars.length < e.chars.length → r.ReadsType x)
    (ht : p.Leads Place.closes t) : Gives stuckMarks e.typeOf t (r.unconstrained p (e.chars ++ t)) := by
  cases hstart : e.startsType with
  | false =>
    have hself : startsType p (e.chars ++ t) = false := by
      simp [startsType, startsGeneric_of_legible he ht.operand, hstart, splatType_of_legible he]
    have hoperand := typeOperand_of_not_startsType he (hread e he (Nat.le_refl _)) hstart ht
    simp [Expr.typeOf_of_not_startsType hstart, Gives, unconstrained, hoperand, hself]
  | true =>
    have hself : startsType p (e.chars ++ t) := by
      simp [startsType, startsGeneric_of_legible he ht.operand, hstart]
    have hgets := gets_of_legible (r := r) (e.chars ++ t) he hstart htypes ht.operand
    rw [Expr.typeOf_of_startsType hstart]
    generalize e.openType = type? at hgets ⊢
    cases hgets with
    | fails h =>
      rw [unconstrained, h]
      exact Stuck.fails stuckMarks
    | @reads w ds _ h harrives =>
      have hloop : ∀ {u stop}, Reaches (r.typeStep p (e.chars ++ t)) w ds u stop →
          r.typeStep p (e.chars ++ t) u stop = .none → r.unconstrained p (e.chars ++ t) = some (u, stop) :=
        fun hreach hstop => by simp [unconstrained, h, hself, Reading.repeated_of_reaches hreach hstop]
      cases harrives with
      | closed hreach => exact hloop hreach (typeStep_of_leads _ _ ht)
      | stuck hreach hnone hstop =>
        rw [hloop hreach hnone]
        exact Stuck.stops hstop _
      | @bar u x hreach hx hxstart hle =>
        have hstep := typeStep_bar (r := r) (p := p) (e.chars ++ t) u (hx.startsToken t)
        rw [typeOperand_of_not_startsType hx (hread x hx hle) hxstart ht] at hstep
        refine hloop (hreach.snoc hstep ?_) (typeStep_of_leads _ _ ht)
        simp only [List.length_cons, List.length_append]
        omega

/-- A type that a reader has taken up to its end, or that it is stuck in, has no constraint behind it. -/
theorem typeRule_of_unconstrained (h : Gives stuckMarks e.typeOf t (r.unconstrained p (e.chars ++ t)))
    (ht : p.after? ':' t = .none) : Gives stuckMarks e.typeOf t (r.typeRule p (e.chars ++ t)) := by
  cases htype : e.typeOf with
  | some u =>
    rw [htype, Gives] at h
    simp [Gives, typeRule, h, ht]
  | none =>
    rw [htype, Gives] at h
    intro v stop hread
    cases hu : r.unconstrained p (e.chars ++ t) with
    | none => simp [typeRule, hu] at hread
    | some u =>
      have hbefore := h u.1 u.2 hu
      have hcolon : p.after? ':' u.2 = .none := by
        have hmark := Place.mark?_of_isBefore (p := p) colon_of_stuckMarks hbefore
        simp [Place.after?, hmark]
      simp only [typeRule, hu, hcolon, Option.bind_eq_bind, Option.bind_some, Option.some.injEq, Prod.mk.injEq] at hread
      exact hread.2 ▸ hbefore

/-- **A legible expression is read as the type that its text is**, by rules that are deep enough for it. -/
theorem readsType_of_legible (n : Nat) (he : e.Legible) (hn : 3 * e.chars.length ≤ n) : (depth (n + 4)).ReadsType e := by
  induction n using Nat.strongRecOn generalizing e with
  | _ n ih =>
    intro p t ht hcolon
    have hread : ∀ x : Expr, x.Legible → x.chars.length ≤ e.chars.length → (depth (n + 3)).Reads x := fun x hx hle =>
      reads_of_legible n hx (by omega)
    have htypes : ∀ x : Expr, x.Legible → x.chars.length < e.chars.length → (depth (n + 3)).ReadsType x :=
      fun x hx hlt => by
        have hitem := ih (n - 1) (by omega) hx (by omega)
        rwa [show n - 1 + 4 = n + 3 by omega] at hitem
    exact typeRule_of_unconstrained (unconstrained_of_legible he hread htypes ht) hcolon

end PluginTools.Rules
