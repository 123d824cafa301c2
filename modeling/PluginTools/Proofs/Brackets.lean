/-
What stands in brackets is read item by item: tuples, lists, the indices of a subscript and the arguments of
a call, given that the rules for nested expressions read each of the items.
-/
import PluginTools.Proofs.Operands

namespace PluginTools

open Layout (endsWord startsToken)
open Place (itemsText Follows)

/-- The rules read the text of an expression as the expression, wherever a token behind it ends one. -/
def Rules.Reads (r : Rules) (e : Expr) : Prop :=
  ∀ (p : Place) (level : Int) (t : List Char), p.Leads Place.closes t →
    r.expression p level (e.chars ++ t) = some (e.operand, t)

/-- The closing mark of a list. -/
def isClosing (c : Char) : Prop := c = ')' ∨ c = ']'

theorem isMark_of_isClosing {c : Char} (h : isClosing c) : Layout.isMark c := by
  rcases h with rfl | rfl <;> decide

theorem ne_comma_of_isClosing {c : Char} (h : isClosing c) : c ≠ ',' := by
  rcases h with rfl | rfl <;> decide

namespace Rules

variable {r : Rules} {p : Place} {e : Expr} {c : Char} {t rest : List Char}

theorem startsClauses_of_leads (h : p.Leads Place.closes t) : startsClauses p t = false := by
  rcases h.next? with hnext | ⟨u, hnext, hu⟩
  · simp [startsClauses, hnext]
  · have hword := Word.after?_of_read?_eq_none (Place.read?_of_closes hu)
    simp [startsClauses, hnext, Word.opens, hword]

/-- Behind an item of a list stand a comma or the closing mark. -/
theorem cons_of_follows (h : Follows (c :: rest) t) : ∃ d u, t = d :: u ∧ (d = ',' ∨ d = c) := by
  rcases h with h | rfl
  · cases t with
    | nil => simp at h
    | cons d u => exact ⟨d, u, rfl, .inl (by simpa using h)⟩
  · exact ⟨c, rest, rfl, .inr rfl⟩

theorem leads_of_follows (hc : isClosing c) (h : Follows (c :: rest) t) : p.Leads Place.closes t := by
  obtain ⟨d, u, rfl, hd⟩ := cons_of_follows h
  rcases hd with rfl | rfl
  · exact .mark (by decide) (by simp [Place.closes])
  · exact .mark (isMark_of_isClosing hc) (by rcases hc with rfl | rfl <;> simp [Place.closes])

theorem after?_of_follows {d : Char} (hc : isClosing c) (h : Follows (c :: rest) t) (hd : d ≠ ',') (hdc : d ≠ c) :
    p.after? d t = .none := by
  obtain ⟨b, u, rfl, hb⟩ := cons_of_follows h
  rcases hb with rfl | rfl
  · exact Place.after?_other (by decide) hd.symm
  · exact Place.after?_other (isMark_of_isClosing hc) hdc.symm

theorem mark?_comma_closing (hc : isClosing c) : p.mark? ',' (c :: rest) = .none :=
  Place.mark?_other (isMark_of_isClosing hc) (ne_comma_of_isClosing hc)

/-! ## Items -/

theorem yielded?_of_legible (he : e.Legible) (ht : endsWord t) : r.yielded? p (e.chars ++ t) = .none := by
  simp [yielded?, he.after? ht (show "yield" ∈ expressionWords by decide) (by decide)]

theorem starItem_of_reads (he : e.Legible) (h : r.Reads e) (ht : p.Leads Place.closes t) :
    r.starItem p (e.chars ++ t) = some (e.operand, t) := by
  have hread := h p.item Level.lowest t ht
  have hstar := he.head?_ne (show Expr.isLead '*' = false by decide) t
  unfold starItem
  split
  · next h => simp [h] at hstar
  · exact hread

theorem item_of_reads (he : e.Legible) (h : r.Reads e) (ht : p.Leads Place.closes t) :
    r.item p (e.chars ++ t) = some (e.operand, t) := by
  simp [item, yielded?_of_legible he ht.operand.endsWord_rest, starItem_of_reads he h ht]

theorem index_of_reads (he : e.Legible) (h : r.Reads e) (ht : Follows (']' :: rest) t) :
    r.index p (e.chars ++ t) = some (e, t) := by
  have hleads : p.Leads Place.closes t := leads_of_follows (.inr rfl) ht
  have hcolon := he.head?_ne (show Expr.isLead ':' = false by decide) t
  have hafter : p.after? ':' t = .none := after?_of_follows (.inr rfl) ht (by decide) (by decide)
  unfold index
  split
  · next h => simp [h] at hcolon
  · simp [h p Level.lowest t hleads, hafter]

variable {xs : List Expr}

theorem moreItems_of_reads (hc : isClosing c) (hxs : ∀ x ∈ xs, x.Legible) (h : ∀ x ∈ xs, r.Reads x) :
    r.moreItems p c (itemsText Expr.chars xs ++ c :: rest) = some (⟨xs.map Expr.operand, !xs.isEmpty, []⟩, rest) := by
  have helements : p.later.elements p.later (fun j => [Operand.ofJoin j]) (r.item p.later)
      (itemsText Expr.chars xs ++ c :: rest).length (itemsText Expr.chars xs ++ c :: rest) =
        (xs.map Expr.operand, c :: rest) := by
    exact Place.elements_itemsText (fun x hx t => (hxs x hx).startsToken t)
      (fun x hx t ht => item_of_reads (hxs x hx) (h x hx) (leads_of_follows hc ht))
      (fun fuel => Place.elements_of_mark?_eq_none (mark?_comma_closing hc) fuel)
  have hcomma : p.later.hasComma (itemsText Expr.chars xs ++ c :: rest) = !xs.isEmpty := by
    cases xs with
    | nil => simp [Place.hasComma, Place.after?, mark?_comma_closing hc]
    | cons x xs => simp [Place.hasComma, Place.after?_self (show Layout.isMark ',' by decide)]
  simp only [moreItems, helements, hcomma, Place.close?_mark (isMark_of_isClosing hc) (ne_comma_of_isClosing hc),
    Option.map_some]

/-- The values of items that are read as they are. -/
theorem values_operands (x : Expr) (comma : Bool) :
    values x.operand ⟨xs.map Expr.operand, comma, []⟩ = x :: xs := by
  cases comma <;> simp [values, Function.comp_def]

theorem formOf_operands (x : Expr) (xs : List Expr) :
    formOf (x.operand :: xs.map Expr.operand) = (Expr.tuple (x :: xs)).form :=
  Expr.formOf_map_operand (x :: xs)

/-! ## Tuples and lists -/

/-- Tokens that a legible expression does not start with are no start of one. -/
theorem head_ne_of_legible (he : e.Legible) (hc : isClosing c) (t u : List Char) : e.chars ++ t ≠ c :: u := by
  have hlead : Expr.isLead c = false := by rcases hc with rfl | rfl <;> decide
  exact fun h => he.head?_ne hlead t (by simp [h])

theorem operand_tuple (x : Expr) (xs : List Expr) (comma : Bool) :
    (⟨.tuple (values x.operand ⟨xs.map Expr.operand, comma, []⟩), formOf (x.operand :: xs.map Expr.operand)⟩ :
      Operand) = (Expr.tuple (x :: xs)).operand := by
  rw [values_operands, formOf_operands, Expr.operand]

theorem operand_list (x : Expr) (xs : List Expr) (comma : Bool) :
    (⟨.list (values x.operand ⟨xs.map Expr.operand, comma, []⟩), formOf (x.operand :: xs.map Expr.operand)⟩ :
      Operand) = (Expr.list (x :: xs)).operand := by
  rw [values_operands, formOf_operands]
  rfl

section
variable {x : Expr} {u : List Char} (hx : x.Legible) (hread : r.Reads x)
  (hleads : p.bracketed.comprehended.Leads Place.closes u)
include hx hread hleads

/-- An item in parentheses with a comma behind it is the first one of a tuple. -/
theorem parenthesized_of_items (hmore : r.moreItems p.bracketed ')' u = some (⟨xs.map Expr.operand, true, []⟩, rest)) :
    r.parenthesized p ('(' :: (x.chars ++ u)) = some ((Expr.tuple (x :: xs)).operand, rest) := by
  have hitem := item_of_reads hx hread hleads
  have hclauses : startsClauses p.bracketed u = false := startsClauses_of_leads hleads
  simp only [parenthesized, List.drop_one, List.tail_cons, Place.token?_of_startsToken (hx.startsToken u),
    Option.bind_eq_bind, Option.bind_some]
  split
  · next h => exact absurd h (head_ne_of_legible hx (.inl rfl) _ _)
  · simp [hitem, hclauses, hmore, operand_tuple]

theorem bracketed_of_items {comma : Bool}
    (hmore : r.moreItems p.bracketed ']' u = some (⟨xs.map Expr.operand, comma, []⟩, rest)) :
    r.bracketed p ('[' :: (x.chars ++ u)) = some ((Expr.list (x :: xs)).operand, rest) := by
  have hitem := item_of_reads hx hread hleads
  have hclauses : startsClauses p.bracketed u = false := startsClauses_of_leads hleads
  simp only [bracketed, List.drop_one, List.tail_cons, Place.token?_of_startsToken (hx.startsToken u),
    Option.bind_eq_bind, Option.bind_some]
  split
  · next h => exact absurd h (head_ne_of_legible hx (.inr rfl) _ _)
  · simp [hitem, hclauses, hmore, operand_list]

end

theorem leads_itemsText (hc : isClosing c) (ys : List Expr) (rest : List Char) :
    p.Leads Place.closes (itemsText Expr.chars ys ++ c :: rest) :=
  leads_of_follows hc (Place.follows_itemsText Expr.chars ys (c :: rest))

/-- A tuple reads back; one of a single item has a comma behind it. -/
theorem parenthesized_tuple (hxs : ∀ x ∈ xs, x.Legible) (h : ∀ x ∈ xs, r.Reads x)
    (hclosing : ∀ q, r.item q (')' :: rest) = .none) :
    r.parenthesized p ((Expr.tuple xs).chars ++ rest) = some ((Expr.tuple xs).operand, rest) := by
  rcases xs with _ | ⟨x, _ | ⟨y, ys⟩⟩
  · have hempty : (Expr.tuple []).chars ++ rest = '(' :: ')' :: rest := rfl
    rw [hempty]
    simp [parenthesized, Place.token?_mark (show Layout.isMark ')' by decide)]
    rfl
  · have hx := hxs x List.mem_cons_self
    have hsingle : (Expr.tuple [x]).chars ++ rest = '(' :: (x.chars ++ ',' :: ')' :: rest) := by
      simp [Expr.chars]
    have hmore : r.moreItems p.bracketed ')' (',' :: ')' :: rest) = some (⟨[].map Expr.operand, true, []⟩, rest) := by
      have helements : ∀ fuel, p.bracketed.later.elements p.bracketed.later (fun j => [Operand.ofJoin j])
          (r.item p.bracketed.later) fuel (',' :: ')' :: rest) = ([], ',' :: ')' :: rest) :=
        Place.elements_of_item_eq_none (Layout.startsToken_mark (show Layout.isMark ')' by decide) rest)
          (hclosing p.bracketed.later)
      simp [moreItems, helements, Place.close?, Place.hasComma, Place.after?_self (show Layout.isMark ',' by decide),
        Place.mark?_self (show Layout.isMark ',' by decide), Place.mark?_self (show Layout.isMark ')' by decide)]
    rw [hsingle]
    exact parenthesized_of_items hx (h x List.mem_cons_self) (.mark (by decide) (by simp [Place.closes])) hmore
  · obtain ⟨hx, hys⟩ := List.forall_mem_cons.1 hxs
    obtain ⟨hrx, hrys⟩ := List.forall_mem_cons.1 h
    have hpair : (Expr.tuple (x :: y :: ys)).chars ++ rest =
        '(' :: (x.chars ++ (itemsText Expr.chars (y :: ys) ++ ')' :: rest)) := by
      rw [Expr.chars_tuple (by simp), Place.commaSeparated_map_cons]
      simp
    rw [hpair]
    exact parenthesized_of_items hx hrx (leads_itemsText (.inl rfl) _ _) (moreItems_of_reads (.inl rfl) hys hrys)

theorem bracketed_list (hxs : ∀ x ∈ xs, x.Legible) (h : ∀ x ∈ xs, r.Reads x) :
    r.bracketed p ((Expr.list xs).chars ++ rest) = some ((Expr.list xs).operand, rest) := by
  rw [Expr.chars_list]
  cases xs with
  | nil =>
    have hempty : '[' :: (commaSeparated ([].map Expr.chars) ++ [']']) ++ rest = '[' :: ']' :: rest := rfl
    rw [hempty]
    simp [bracketed, Place.token?_mark (show Layout.isMark ']' by decide)]
    rfl
  | cons x ys =>
    obtain ⟨hx, hys⟩ := List.forall_mem_cons.1 hxs
    obtain ⟨hrx, hrys⟩ := List.forall_mem_cons.1 h
    rw [Place.commaSeparated_map_cons, List.cons_append, List.append_assoc, List.append_assoc, List.singleton_append]
    exact bracketed_of_items hx hrx (leads_itemsText (.inr rfl) _ _) (moreItems_of_reads (.inr rfl) hys hrys)

/-! ## Subscripts -/

/-- The indices between brackets. -/
theorem subscript_of_reads {x : Expr} (hxs : ∀ z ∈ x :: xs, z.Legible) (h : ∀ z ∈ x :: xs, r.Reads z) :
    r.subscript p (commaSeparated ((x :: xs).map Expr.chars) ++ ']' :: rest) = some (sliceOf (x :: xs), rest) := by
  obtain ⟨hx, hys⟩ := List.forall_mem_cons.1 hxs
  obtain ⟨hrx, hrys⟩ := List.forall_mem_cons.1 h
  have hindex := index_of_reads (p := p.bracketed) hx hrx (Place.follows_itemsText Expr.chars xs (']' :: rest))
  have hitems : p.bracketed.items p.bracketed (r.index p.bracketed) (itemsText Expr.chars xs ++ ']' :: rest) =
      (xs.map id, ']' :: rest) :=
    Place.elements_itemsText (fun z hz t => (hys z hz).startsToken t)
      (fun z hz t ht => index_of_reads (hys z hz) (hrys z hz) ht)
      (fun fuel => Place.elements_of_mark?_eq_none (mark?_comma_closing (.inr rfl)) fuel)
  have hcomma : p.bracketed.optionalComma (']' :: rest) = ']' :: rest := by
    simp [Place.optionalComma, Place.after?_other (show Layout.isMark ']' by decide) (show ']' ≠ ',' by decide)]
  rw [Place.commaSeparated_map_cons, List.append_assoc]
  simp [subscript, Place.operand?_of_startsToken (hx.startsToken _), Place.list?, hindex, hitems, hcomma,
    Place.after?_self (show Layout.isMark ']' by decide)]

/-! ## Calls -/

/-- The text of an argument. -/
def Argument.chars : Argument → List Char
  | .positional e | .splat e => e.chars
  | .keyword name e => Expr.keywordText (name, e)
  | .generator => []

/-- The arguments of a legible call. -/
inductive LegibleArgument (r : Rules) : Argument → Prop
  | positional {x : Expr} (hx : x.Legible) (h : r.Reads x) : LegibleArgument r (.positional x)
  | keyword {name : String} {x : Expr} (hname : isOperandName name) (hx : x.Legible) (h : r.Reads x) :
    LegibleArgument r (.keyword name x)

theorem isReserved_of_isOperandName {id : String} (h : isOperandName id) : isReserved id.toList = false := by
  have hall : ∀ w ∈ ["not", "lambda", "None", "True", "False"], w ∈ expressionWords := by decide
  simp only [isReserved, List.any_eq_false, beq_iff_eq]
  exact fun w hw => toList_ne_of_isOperandName h (hall w hw)

theorem after?_of_continues {generic : Bool} {post : List Char} {d : Char} (h : Expr.Continues generic post)
    (hd : d ∉ ['.', '(', '['] ++ Expr.operatorMarks) (ht : p.after? d t = .none) : p.after? d (post ++ t) = .none := by
  simp only [List.cons_append, List.nil_append, List.mem_cons, not_or] at hd
  cases h with
  | nil => exact ht
  | mark hc cs =>
    rcases hc with rfl | rfl
    · exact Place.after?_other (by decide) (Ne.symm hd.1)
    · exact Place.after?_other (by decide) (Ne.symm hd.2.1)
  | bracket cs => exact Place.after?_other (by decide) (Ne.symm hd.2.2.1)
  | @operator c hc cs =>
    have hne : c ≠ d := fun he => hd.2.2.2 (he ▸ hc)
    simp [Place.after?, Place.mark?, Place.token?_blank_mark (Expr.isMark_of_mem_operatorMarks hc), hne]

/-- An expression is no argument by name, unless an equals sign stands behind it. -/
theorem keywordArgument_of_legible (he : e.Legible) (ht : endsWord t) (heq : p.after? '=' t = .none) :
    r.keywordArgument p (e.chars ++ t) = .none := by
  have hlead := he.lead
  generalize e.chars = cs, e.startsType = generic at hlead
  cases hlead with
  | @mark c hc cs =>
    simp [keywordArgument, Word.read?_of_not_isOpening (Expr.not_isOpening_of_mark hc)]
  | @constant w hw post hpost =>
    have hwhole : Word.isWord w.toList ∧ isReserved w.toList := by
      revert w
      decide
    rw [List.append_assoc]
    simp [keywordArgument, Word.read?_append hwhole.1 (hpost.endsWord ht), hwhole.2]
  | @name id hid _ post hpost =>
    rw [List.append_assoc]
    simp [keywordArgument, Word.read?_append (isWord_of_isOperandName hid) (hpost.endsWord ht),
      isReserved_of_isOperandName hid, after?_of_continues hpost (show '=' ∉ ['.', '(', '['] ++ Expr.operatorMarks by decide) heq]

theorem namedArgument_of_not_star {cs : List Char} (h : cs.head? ≠ some '*') :
    r.namedArgument p cs = r.keywordArgument p cs := by
  unfold namedArgument
  split
  · simp at h
  · rfl

theorem keywordArgument_keyword {name : String} {x : Expr} (hname : isOperandName name) (hx : x.Legible)
    (h : r.Reads x) (ht : p.Leads Place.closes t) :
    r.keywordArgument p (Expr.keywordText (name, x) ++ t) = some (.keyword name x, t) := by
  have hread : Word.read? (name.toList ++ '=' :: (x.chars ++ t)) = some (name.toList, '=' :: (x.chars ++ t)) :=
    Word.read?_append (isWord_of_isOperandName hname) rfl
  have heq : (x.chars ++ t).head? ≠ some '=' := hx.head?_ne (by decide) t
  have htext : Expr.keywordText (name, x) ++ t = name.toList ++ '=' :: (x.chars ++ t) := by
    simp [Expr.keywordText]
  rw [htext]
  simp only [keywordArgument, hread, isReserved_of_isOperandName hname, Place.after?_self (show Layout.isMark '=' by decide),
    heq, Place.operand?_of_startsToken (hx.startsToken t), h p Level.lowest t ht, Option.bind_eq_bind, Option.bind_some,
    Bool.false_eq_true, ↓reduceIte, Expr.expr_operand, String.ofList_toList]

variable {a : Argument}

theorem head?_ne_of_argument (h : LegibleArgument r a) {d : Char} (hd : Expr.isLead d = false) (t : List Char) :
    (a.chars ++ t).head? ≠ some d := by
  cases h with
  | positional hx => exact hx.head?_ne hd t
  | keyword hname =>
    have hopening : Word.isOpening d = false := by
      simp only [Expr.isLead, Bool.or_eq_false_iff] at hd
      exact hd.2
    rw [Argument.chars, Expr.keywordText, List.append_assoc]
    exact Word.head?_append_ne (isWord_of_isOperandName hname) hopening _

theorem startsToken_argument (h : LegibleArgument r a) (t : List Char) : startsToken (a.chars ++ t) := by
  cases h with
  | positional hx => exact hx.startsToken t
  | keyword hname =>
    simp only [Argument.chars, Expr.keywordText, List.append_assoc]
    exact Layout.startsToken_word (isWord_of_isOperandName hname) _

theorem not_stars_of_argument (h : LegibleArgument r a) (t : List Char) :
    ['*', '*'].isPrefixOf (a.chars ++ t) = false := by
  have hstar := head?_ne_of_argument h (show Expr.isLead '*' = false by decide) t
  cases hcs : a.chars ++ t with
  | nil => rfl
  | cons c cs =>
    have hc : '*' ≠ c := fun he => hstar (by rw [hcs, he]; rfl)
    simp [List.isPrefixOf, hc]

/-- An argument is read as one by name exactly if it is one. -/
theorem namedArgument_of_legible (h : LegibleArgument r a) (ht : Follows (')' :: rest) t) :
    r.namedArgument p (a.chars ++ t) = match a with
      | .keyword .. => some (a, t)
      | _ => .none := by
  have hleads : p.Leads Place.closes t := leads_of_follows (.inl rfl) ht
  rw [namedArgument_of_not_star (head?_ne_of_argument h (by decide) t)]
  cases h with
  | positional hx =>
    exact keywordArgument_of_legible hx hleads.operand.endsWord_rest
      (after?_of_follows (.inl rfl) ht (by decide) (by decide))
  | keyword hname hx hread => exact keywordArgument_keyword hname hx hread hleads

theorem argument_of_legible (h : LegibleArgument r a) (ht : Follows (')' :: rest) t) :
    r.argument p (a.chars ++ t) = some (a, t) := by
  have hnamed := namedArgument_of_legible (p := p) h ht
  have hstars := not_stars_of_argument h t
  cases h with
  | positional hx hread =>
    have hitem : r.starItem p ((Argument.positional _).chars ++ t) = some _ :=
      starItem_of_reads hx hread (leads_of_follows (.inl rfl) ht)
    simp [argument, hnamed, hstars, hitem]
  | keyword => simp [argument, hnamed]

variable {as : List Argument}

theorem moreArguments_of_legible (has : ∀ a ∈ as, LegibleArgument r a) :
    r.moreArguments p (itemsText Argument.chars as ++ ')' :: rest) = some (as, rest) := by
  have helements : p.elements p (fun j => [Argument.ofJoin j]) (r.argument p)
      (itemsText Argument.chars as ++ ')' :: rest).length (itemsText Argument.chars as ++ ')' :: rest) =
        (as.map id, ')' :: rest) :=
    Place.elements_itemsText (fun a ha t => startsToken_argument (has a ha) t)
      (fun a ha t ht => argument_of_legible (has a ha) ht)
      (fun fuel => Place.elements_of_mark?_eq_none (mark?_comma_closing (.inl rfl)) fuel)
  simp only [moreArguments, helements, Place.close?_mark (show Layout.isMark ')' by decide) (show ')' ≠ ',' by decide),
    Option.map_some, List.map_id, List.map_nil, List.append_nil]

/-- The arguments of a call read back, in the order in which they are written. -/
theorem arguments_of_legible (has : ∀ a ∈ as, LegibleArgument r a) :
    r.arguments p (commaSeparated (as.map Argument.chars) ++ ')' :: rest) = some (as, rest) := by
  cases as with
  | nil =>
    have hempty : commaSeparated ([].map Argument.chars) ++ ')' :: rest = ')' :: rest := rfl
    rw [hempty]
    simp [arguments, Place.token?_mark (show Layout.isMark ')' by decide)]
  | cons a as =>
    obtain ⟨ha, has⟩ := List.forall_mem_cons.1 has
    rw [Place.commaSeparated_map_cons, List.append_assoc]
    have hmore : r.moreArguments p.bracketed (itemsText Argument.chars as ++ ')' :: rest) = some (as, rest) :=
      moreArguments_of_legible has
    have hfollows := Place.follows_itemsText Argument.chars as (')' :: rest)
    generalize itemsText Argument.chars as ++ ')' :: rest = u at hmore hfollows
    have hnamed := namedArgument_of_legible (p := p.bracketed) ha hfollows
    have hstars := not_stars_of_argument ha u
    have hclose := head?_ne_of_argument ha (show Expr.isLead ')' = false by decide) u
    have hcomma := head?_ne_of_argument ha (show Expr.isLead ',' = false by decide) u
    simp only [arguments, Place.token?_of_startsToken (startsToken_argument ha u), Option.bind_eq_bind,
      Option.bind_some]
    split
    · next h => simp [h] at hclose
    · next h => simp [h] at hcomma
    · cases ha with
      | positional hx hread =>
        have hleads : p.bracketed.comprehended.Leads Place.closes u := leads_of_follows (.inl rfl) hfollows
        have hclauses : startsClauses p.bracketed u = false := startsClauses_of_leads hleads
        have hitem : r.starItem p.bracketed.comprehended ((Argument.positional _).chars ++ u) = some _ :=
          starItem_of_reads hx hread hleads
        simp [hnamed, hstars, hitem, hclauses, hmore]
      | keyword => simp [hnamed, hmore]

/-- A call reads back, with the arguments by name behind the others. -/
theorem call_of_legible {xs : List Expr} {ks : List (String × Expr)} (start : List Char) (f : Expr)
    (hxs : ∀ x ∈ xs, x.Legible) (hreads : ∀ x ∈ xs, r.Reads x) (hnames : ∀ k ∈ ks, isOperandName k.1)
    (hks : ∀ k ∈ ks, k.2.Legible) (hkreads : ∀ k ∈ ks, r.Reads k.2) :
    r.call p start f (commaSeparated (xs.map Expr.chars ++ ks.map Expr.keywordText) ++ ')' :: rest) =
      some ((Expr.call f xs ks).operand, rest) := by
  have hlegible : ∀ a ∈ xs.map Argument.positional ++ ks.map (fun k => Argument.keyword k.1 k.2), LegibleArgument r a := by
    simp only [List.mem_append, List.mem_map]
    rintro a (⟨x, hx, rfl⟩ | ⟨k, hk, rfl⟩)
    · exact .positional (hxs x hx) (hreads x hx)
    · exact .keyword (hnames k hk) (hks k hk) (hkreads k hk)
  have htext : xs.map Expr.chars ++ ks.map Expr.keywordText =
      (xs.map Argument.positional ++ ks.map (fun k => Argument.keyword k.1 k.2)).map Argument.chars := by
    simp [Function.comp_def, Argument.chars]
  have hverbatim : (xs.map Argument.positional ++ ks.map (fun k => Argument.keyword k.1 k.2)).any
      Argument.isVerbatim = false := by
    simp [Argument.isVerbatim, Function.comp_def]
  have hpositional : (xs.map Argument.positional ++ ks.map (fun k => Argument.keyword k.1 k.2)).filterMap
      Argument.positional? = xs := by
    simp [List.filterMap_append, List.filterMap_map, Function.comp_def, Argument.positional?]
  have hkeyword : (xs.map Argument.positional ++ ks.map (fun k => Argument.keyword k.1 k.2)).filterMap
      Argument.keyword? = ks := by
    simp [List.filterMap_append, List.filterMap_map, Function.comp_def, Argument.keyword?]
  rw [htext]
  simp only [call, arguments_of_legible hlegible, hverbatim, hpositional, hkeyword, Option.bind_eq_bind, Option.bind_some,
    Bool.false_eq_true, ↓reduceIte]
  rfl

end Rules
end PluginTools
