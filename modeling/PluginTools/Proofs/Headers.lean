/-
The headers of definitions: the parameters of a function with their types and defaults, the type behind its
arrow, and the name and the bases of a class. A type that is none leaves its header unread.
-/
import PluginTools.Proofs.Lines

namespace PluginTools

open Layout (LineBreak endsWord startsToken)
open Place (itemsText Follows)
open Reading (IsBefore Gives Stuck)

/-- A parameter with a type and perhaps a default, all of them legible. -/
structure Parameter.Legible (p : Parameter) : Prop where
  name : isOperandName p.name
  positional : p.kind = .positional
  typed : ∃ t, p.type = some t ∧ t.Legible
  default : ∀ d ∈ p.default, d.Legible

/-- The parameter that the text of one is, if its type is one. -/
def Parameter.typed (p : Parameter) : Option Parameter :=
  match p.type with
  | some t => t.typeOf.map fun t => { p with type := some t }
  | none => some p

/-- The return type that the text of one is, if it is one. -/
def Expr.returnOf : Option Expr → Option (Option Expr)
  | some t => t.typeOf.map some
  | .none => some .none

namespace Rules

variable {r : Rules} {p : Place} {t rest : List Char} {length : Nat}

/-! ## Parameters -/

/-- What no reader of a parameter goes on with. -/
def parameterMarks : List Char := ':' :: stuckMarks

theorem marks_of_parameterMarks : ∀ d ∈ parameterMarks, Layout.isMark d ∧ d ≠ ',' ∧ d ≠ ')' := by
  simp only [parameterMarks, stuckMarks, Expr.foreignMarks, List.forall_mem_cons, List.not_mem_nil, false_implies, implies_true]
  decide

theorem equals_of_parameterMarks : ∀ d ∈ parameterMarks, Layout.isMark d ∧ d ≠ '=' := by
  simp only [parameterMarks, stuckMarks, Expr.foreignMarks, List.forall_mem_cons, List.not_mem_nil, false_implies, implies_true]
  decide

/-- A default with its equals sign, or nothing. -/
def defaultChars : Option Expr → List Char
  | some d => ' ' :: '=' :: ' ' :: d.chars
  | .none => []

theorem chars_parameter {name : String} {kind : Parameter.Kind} (type : Expr) (default : Option Expr) :
    (⟨name, kind, some type, default⟩ : Parameter).chars =
      name.toList ++ ':' :: ' ' :: (type.chars ++ defaultChars default) := by
  cases default <;> simp [Parameter.chars, defaultChars]

theorem markedParameter_of_isWord {id : String} (hid : Word.isWord id.toList) (t : List Char) :
    r.markedParameter p (id.toList ++ t) = .none := by
  have hhead : ∀ c, Word.isOpening c = false → (id.toList ++ t).head? ≠ some c := fun c hc =>
    Word.head?_append_ne hid hc t
  have hstar := hhead '*' (by decide)
  have hslash := hhead '/' (by decide)
  have hparen := hhead '(' (by decide)
  unfold markedParameter
  split <;> simp_all

/-- What stands behind a type is a default or the end of the parameter. -/
theorem leads_defaultChars (default : Option Expr) (ht : Follows (')' :: rest) t) :
    p.Leads Place.closes (defaultChars default ++ t) ∧ p.after? ':' (defaultChars default ++ t) = .none := by
  cases default with
  | none => exact ⟨leads_of_follows (.inl rfl) ht, after?_of_follows (.inl rfl) ht (by decide) (by decide)⟩
  | some d =>
    refine ⟨.blank_mark (by decide) (by simp [Place.closes]), ?_⟩
    simp [defaultChars, Place.after?, Place.mark?, Place.token?_blank_mark (show Layout.isMark '=' by decide)]

theorem defaultValue_defaultChars {default : Option Expr} (hlegible : ∀ d ∈ default, d.Legible)
    (hread : ∀ d ∈ default, r.Reads d) (ht : Follows (')' :: rest) t) :
    r.defaultValue p (defaultChars default ++ t) = default.map (·, t) := by
  cases default with
  | none =>
    have heq : p.after? '=' t = .none := after?_of_follows (.inl rfl) ht (by decide) (by decide)
    simp [defaultValue, defaultChars, heq]
  | some d =>
    have hd := hread d rfl p Level.lowest t (leads_of_follows (.inl rfl) ht)
    have heq : p.after? '=' (' ' :: '=' :: ' ' :: (d.chars ++ t)) = some (' ' :: (d.chars ++ t)) := by
      simp [Place.after?, Place.mark?, Place.token?_blank_mark (show Layout.isMark '=' by decide)]
    simp [defaultValue, defaultChars, heq, Place.operand?_blank ((hlegible d rfl).startsToken t), hd]

theorem defaultValue_of_isBefore {cs : List Char} (h : IsBefore parameterMarks cs) : r.defaultValue p cs = .none := by
  have heq : p.after? '=' cs = .none := by
    simp [Place.after?, Place.mark?_of_isBefore (p := p) equals_of_parameterMarks h]
  simp [defaultValue, heq]

theorem hint_of_type {cs : List Char} {type : Expr} (htype : type.Legible) (hcs : cs = type.chars ++ t) :
    r.hint p (':' :: ' ' :: cs) = r.type p cs := by
  simp [hint, Place.after?_self (show Layout.isMark ':' by decide), hcs, Place.operand?_blank (htype.startsToken t)]

/-- A parameter is read as the one that its text is, or gets stuck in its type. -/
theorem parameter_of_legible (hr : r.Covers length) {q : Parameter} (hq : q.Legible) (hlength : q.chars.length ≤ length)
    (ht : Follows (')' :: rest) t) : Gives parameterMarks q.typed t (r.parameter p (q.chars ++ t)) := by
  obtain ⟨name, kind, type?, default⟩ := q
  obtain ⟨hname, rfl, ⟨type, rfl, htype⟩, hdefault⟩ := hq
  dsimp only at hname hdefault
  rw [chars_parameter] at hlength ⊢
  simp only [List.length_append, List.length_cons] at hlength
  obtain ⟨hleads, hcolon⟩ := leads_defaultChars (p := p) default ht
  have hdefaults : ∀ d ∈ default, r.Reads d := fun d hd => hr.expression d (hdefault d hd) (by
    cases hd
    simp only [defaultChars, List.length_cons] at hlength
    omega)
  have hvalue := defaultValue_defaultChars (p := p) hdefault hdefaults ht
  have hread := hr.type type htype (by omega) p _ hleads hcolon
  have hword := isWord_of_isOperandName hname
  have hmarked := markedParameter_of_isWord (r := r) (p := p) hword (':' :: ' ' :: (type.chars ++ (defaultChars default ++ t)))
  have hnamed : Word.read? (name.toList ++ ':' :: ' ' :: (type.chars ++ (defaultChars default ++ t))) =
      some (name.toList, ':' :: ' ' :: (type.chars ++ (defaultChars default ++ t))) :=
    Word.read?_append hword rfl
  have hhint := hint_of_type (r := r) (p := p) htype (rfl : type.chars ++ (defaultChars default ++ t) = _)
  have htext : name.toList ++ ':' :: ' ' :: (type.chars ++ defaultChars default) ++ t =
      name.toList ++ ':' :: ' ' :: (type.chars ++ (defaultChars default ++ t)) := by simp
  rw [htext]
  cases has : type.typeOf with
  | some u =>
    rw [has, Gives] at hread
    simp only [Parameter.typed, has, Option.map_some, Gives]
    cases default with
    | none =>
      simp only [show defaultChars .none ++ t = t from rfl] at hmarked hnamed hhint hread hvalue ⊢
      simp [parameter, hmarked, hnamed, hhint, hread, hvalue]
    | some d => simp [parameter, hmarked, hnamed, hhint, hread, hvalue]
  | none =>
    rw [has, Gives] at hread
    simp only [Parameter.typed, has, Option.map_none, Gives]
    have hstop : ∀ cs, IsBefore parameterMarks cs → r.defaultValue p cs = .none := fun cs => defaultValue_of_isBefore
    cases htyped : r.type p (type.chars ++ (defaultChars default ++ t)) with
    | none =>
      have hcolon : IsBefore parameterMarks (':' :: ' ' :: (type.chars ++ (defaultChars default ++ t))) :=
        ⟨':', by decide, _, .inl rfl⟩
      have hparameter : r.parameter p (name.toList ++ ':' :: ' ' :: (type.chars ++ (defaultChars default ++ t))) =
          some (⟨name, .positional, .none, .none⟩, ':' :: ' ' :: (type.chars ++ (defaultChars default ++ t))) := by
        simp [parameter, hmarked, hnamed, hhint, htyped, hstop _ hcolon]
      rw [hparameter]
      exact Stuck.stops hcolon _
    | some read =>
      obtain ⟨d, hd, ds, hds⟩ := hread read.1 read.2 htyped
      have hbefore : IsBefore parameterMarks read.2 := ⟨d, List.mem_cons_of_mem _ hd, ds, hds⟩
      have hparameter : r.parameter p (name.toList ++ ':' :: ' ' :: (type.chars ++ (defaultChars default ++ t))) =
          some (⟨name, .positional, some read.1, .none⟩, read.2) := by
        simp [parameter, hmarked, hnamed, hhint, htyped, hstop _ hbefore]
      rw [hparameter]
      exact Stuck.stops hbefore _

theorem head?_parameter {q : Parameter} (hq : q.Legible) {c : Char} (hc : Word.isOpening c = false) (t : List Char) :
    startsToken (q.chars ++ t) ∧ (q.chars ++ t).head? ≠ some c := by
  obtain ⟨name, kind, type?, default⟩ := q
  obtain ⟨hname, rfl, ⟨type, rfl, htype⟩, hdefault⟩ := hq
  have hword := isWord_of_isOperandName hname
  rw [chars_parameter, List.append_assoc]
  exact ⟨Layout.startsToken_word hword _, Word.head?_append_ne hword hc _⟩

/-- The parameters of a function, if all of their types are types. -/
theorem parameters_of_legible (hr : r.Covers length) {qs : List Parameter} (hqs : ∀ q ∈ qs, q.Legible)
    (hlength : ∀ q ∈ qs, q.chars.length ≤ length) :
    r.parameters p (commaSeparated (qs.map Parameter.chars) ++ ')' :: rest) =
      (qs.mapM Parameter.typed).map (·, rest) := by
  cases qs with
  | nil =>
    have hempty : commaSeparated ([].map Parameter.chars) ++ ')' :: rest = ')' :: rest := rfl
    rw [hempty]
    simp [parameters, Place.token?_mark (show Layout.isMark ')' by decide)]
  | cons q qs =>
    obtain ⟨hq, hrest⟩ := List.forall_mem_cons.1 hqs
    have hclosed : p.bracketed.closed? joinParameter (r.parameter p.bracketed) ')'
        (q.chars ++ (itemsText Parameter.chars qs ++ ')' :: rest)) = ((q :: qs).mapM Parameter.typed).map (·, rest) :=
      Place.closed?_itemsText (by decide) (by decide) marks_of_parameterMarks
        (fun x hx t => head?_parameter (hrest x hx) (by decide) t)
        (fun x hx t ht => parameter_of_legible hr (hqs x hx) (hlength x hx) ht)
    obtain ⟨hstart, hclose⟩ := head?_parameter hq (show Word.isOpening ')' = false by decide)
      (itemsText Parameter.chars qs ++ ')' :: rest)
    rw [Place.commaSeparated_map_cons, List.append_assoc, ← hclosed]
    simp only [parameters, Place.token?_of_startsToken hstart, Option.bind_eq_bind, Option.bind_some]
    split
    · next h => simp [h] at hclose
    · simp [Place.closed?]

/-! ## Return types -/

/-- The return type of a function with its arrow, or nothing. -/
def returnChars : Option Expr → List Char
  | some t => " -> ".toList ++ t.chars
  | .none => []

/-- The type behind an arrow and the colon of the header, if the type is one. -/
theorem returnType_of_legible (hr : r.Covers length) {returns : Option Expr} (hlegible : ∀ t ∈ returns, t.Legible)
    (hlength : ∀ t ∈ returns, t.chars.length ≤ length) (ht : t.head? ≠ some '=') :
    ((r.returnType p (returnChars returns ++ ':' :: t)).bind fun x => (p.after? ':' x.2).map (x.1, ·)) =
      (Expr.returnOf returns).map (·, t) := by
  cases returns with
  | none =>
    simp [returnType, Expr.returnOf, returnChars, Place.next?_mark (show Layout.isMark ':' by decide),
      Place.after?_self (show Layout.isMark ':' by decide)]
  | some type =>
    have htype := hlegible type rfl
    have hle := hlength type rfl
    have hread := unconstrained_of_legible (r := r) (p := p) (t := ':' :: t) htype
      (fun x hx hx' => hr.expression x hx (by omega)) (fun x hx hx' => hr.type x hx (by omega))
      (.mark (by decide) (by simp [Place.closes, ht]))
    have htext : returnChars (some type) ++ ':' :: t = ' ' :: '-' :: '>' :: ' ' :: (type.chars ++ ':' :: t) := by
      simp [returnChars]
    have hreturn : r.returnType p (returnChars (some type) ++ ':' :: t) =
        (r.unconstrained p (type.chars ++ ':' :: t)).map fun x => (some x.1, x.2) := by
      rw [htext]
      simp only [returnType, Place.next?_blank_mark (show Layout.isMark '-' by decide),
        Place.operand?_blank (htype.startsToken _), Option.bind_eq_bind, Option.bind_some]
      cases r.unconstrained p (type.chars ++ ':' :: t) <;> rfl
    rw [hreturn]
    cases has : type.typeOf with
    | some u =>
      rw [has, Gives] at hread
      simp [hread, has, Expr.returnOf, Place.after?_self (show Layout.isMark ':' by decide)]
    | none =>
      rw [has, Gives] at hread
      cases hu : r.unconstrained p (type.chars ++ ':' :: t) with
      | none => simp [Expr.returnOf, has]
      | some u =>
        have hcolon := Place.mark?_of_isBefore (p := p) colon_of_stuckMarks (hread u.1 u.2 hu)
        simp [Place.after?, hcolon, Expr.returnOf, has]

end Rules
end PluginTools
