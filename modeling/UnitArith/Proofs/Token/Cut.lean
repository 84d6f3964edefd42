import UnitArith.Proofs.Decimal
import UnitArith.Proofs.Token.Language
import UnitArith.Proofs.Token.Written

/-! The lexical grammar. A text is read as tokens when it can be cut into lexemes with blanks
around them whose tokens are an expression. Two operands never touch in an expression, so every
operand reaches as far as it can, and there is only one cut. -/
namespace UnitArith.Token

open Text (Cursor Ends Pattern.sign UnitText Unmarked isBlank)

variable {α : Type} [Number α]

/-- A lexeme and its token. -/
inductive Denotes (units : AllowedUnits) : List Char → Token α → Prop
  | operand {signs unit : List Char} (numeral : Decimal.Numeral)
      (signed : signs = [] ∨ signs = ['+'] ∨ signs = ['-']) (letters : UnitText unit)
      (accepted : units.accepts (String.ofList unit) = true) :
      Denotes units (signs ++ numeral.text ++ unit) (.quantity
        (.of (Number.withSign signs (Number.ofDecimal numeral.decimal)) (String.ofList unit)))
  | operator (op : Operator) : Denotes units [op.toChar] (.operator op)
  | opening : Denotes units ['('] .opening
  | closing : Denotes units [')'] .closing

/-- A lexeme behind blanks. -/
structure Piece (α : Type) [Number α] where
  blanks : List Char
  lexeme : List Char
  token : Token α

/-- A text in pieces. -/
structure Cut (α : Type) [Number α] where
  pieces : List (Piece α)
  /-- The blanks behind the last lexeme. -/
  last : List Char

namespace Cut

def textOf (last : List Char) : List (Piece α) → List Char
  | [] => last
  | piece :: rest => piece.blanks ++ (piece.lexeme ++ textOf last rest)

def text (cut : Cut α) : List Char := textOf cut.last cut.pieces

def tokens (cut : Cut α) : List (Token α) := cut.pieces.map Piece.token

end Cut

/-- A piece may stand in front of a text. A sign in front of a number would belong to it. -/
structure Piece.Fits (units : AllowedUnits) (piece : Piece α) (behind : List Char) : Prop where
  blank : ∀ b ∈ piece.blanks, isBlank b = true
  denotes : Denotes units piece.lexeme piece.token
  apart : ∀ op, op.isAdditive = true → piece.token = .operator op → Unmarked behind

def Cut.Fit (units : AllowedUnits) (last : List Char) : List (Piece α) → Prop
  | [] => ∀ b ∈ last, isBlank b = true
  | piece :: rest => piece.Fits units (textOf last rest) ∧ Fit units last rest

/-- The lexical grammar: lexemes that fit and make an expression. -/
structure Cut.IsValid (units : AllowedUnits) (cut : Cut α) : Prop where
  nonempty : cut.pieces ≠ []
  fit : Fit units cut.last cut.pieces
  validated : Validated cut.tokens

theorem Denotes.exists_cons {units : AllowedUnits} {lexeme : List Char} {token : Token α}
    (h : Denotes units lexeme token) : ∃ c cs, lexeme = c :: cs ∧ isBlank c = false := by
  cases h with
  | @operand signs unit numeral signed letters accepted =>
    obtain ⟨c, cs, whole⟩ := List.exists_cons_of_ne_nil numeral.text_ne_nil
    have mark := numeral.isMark_of_mem_text c (by simp [whole])
    rw [whole]
    rcases signed with rfl | rfl | rfl
    · exact ⟨c, _, rfl, Text.isBlank_of_isMark mark⟩
    · exact ⟨'+', _, rfl, by decide⟩
    · exact ⟨'-', _, rfl, by decide⟩
  | operator op => exact ⟨op.toChar, [], rfl, by cases op <;> decide⟩
  | opening => exact ⟨'(', [], rfl, by decide⟩
  | closing => exact ⟨')', [], rfl, by decide⟩

/-- What does not begin an operand ends one. -/
theorem Denotes.ends {units : AllowedUnits} {lexeme : List Char} {token : Token α}
    (h : Denotes units lexeme token) (other : token.kind ≠ .operand) (rest : List Char) :
    Ends (lexeme ++ rest) := by
  cases h with
  | operand => exact absurd rfl other
  | operator op =>
    rintro _ _ ⟨⟩
    cases op <;> decide
  | opening =>
    rintro _ _ ⟨⟩
    decide
  | closing =>
    rintro _ _ ⟨⟩
    decide

theorem ends_of_isBlank {b : Char} (blank : isBlank b = true) (rest : List Char) :
    Ends (b :: rest) := by
  rintro _ _ ⟨⟩
  have other : ¬ Text.InOperand b := fun inOperand => by
    rw [inOperand.not_isBlank] at blank
    cases blank
  simpa [Text.InOperand] using other

theorem ends_blanks {blanks rest : List Char} (blank : ∀ b ∈ blanks, isBlank b = true)
    (ends : Ends rest) : Ends (blanks ++ rest) := by
  cases blanks with
  | nil => exact ends
  | cons b blanks => exact ends_of_isBlank (blank b (List.mem_cons_self ..)) _

theorem ofChar?_eq_some {c : Char} {token : Token α} (known : ofChar? c = some token) :
    c = '(' ∧ token = .opening ∨ c = ')' ∧ token = .closing ∨
      ∃ op : Operator, c = op.toChar ∧ token = .operator op := by
  rw [ofChar?] at known
  split at known
  · rename_i opens
    cases known
    exact .inl ⟨opens, rfl⟩
  · split at known
    · rename_i closes
      cases known
      exact .inr (.inl ⟨closes, rfl⟩)
    · obtain ⟨op, found, rfl⟩ := Option.map_eq_some_iff.mp known
      exact .inr (.inr ⟨op, (Operator.toChar_of_ofChar? found).symm, rfl⟩)

theorem isSign_of_isAdditive {op : Operator} (additive : op.isAdditive = true) :
    op.toChar = '+' ∨ op.toChar = '-' := by
  cases op <;> simp [Operator.toChar, Operator.isAdditive] at additive ⊢

/-- A token is read from its lexeme when the text behind it does not lengthen the lexeme. -/
theorem Denotes.stands {units : AllowedUnits} {lexeme tail : List Char} {token : Token α}
    (h : Denotes units lexeme token) (ends : token.kind = .operand → Ends tail)
    (apart : ∀ op, op.isAdditive = true → token = .operator op → Unmarked tail) :
    Stands units token lexeme tail := by
  cases h with
  | @operand signs unit numeral signed letters accepted =>
    have digits := numeral.isMark_of_mem_text
    have read := (Number.read?_eq_some_iff (α := α) signed numeral.text_ne_nil digits).mpr
      ⟨numeral, rfl, rfl⟩
    exact .operand signed numeral.text_ne_nil digits read letters accepted (ends rfl)
  | operator op =>
    refine .symbol (ofChar?_operator op) fun sign => apart op ?_ rfl
    cases op <;> simp [Operator.toChar, Operator.isAdditive] at sign ⊢
  | opening => exact .symbol rfl (by rintro (h | h) <;> cases h)
  | closing => exact .symbol rfl (by rintro (h | h) <;> cases h)

theorem unmarked_of_operand {c : Char} {tail : List Char} (sign : c = '+' ∨ c = '-')
    (none : Text.Pattern.operand (c :: tail) = none) : Unmarked tail := by
  have bare : Pattern.sign (c :: tail) = [c] := by
    rcases sign with rfl | rfl <;> rfl
  rw [Text.Pattern.operand] at none
  dsimp only at none
  split at none
  · rename_i empty
    rw [bare] at empty
    rintro d rest rfl
    cases mark : Decimal.isMark d with
    | false => rfl
    | true => simp [mark] at empty
  · cases none

theorem Stands.unique {units : AllowedUnits} {token token' : Token α}
    {lexeme lexeme' tail tail' : List Char} (h : Stands units token lexeme tail)
    (h' : Stands units token' lexeme' tail') (same : lexeme ++ tail = lexeme' ++ tail') :
    token = token' ∧ lexeme = lexeme' ∧ tail = tail' := by
  let c : Cursor := ⟨lexeme ++ tail, 0⟩
  obtain ⟨first, behind⟩ := read_of_stands h (c := c) rfl
  obtain ⟨first', behind'⟩ := read_of_stands h' (c := c) same
  have tails : tail = tail' := behind.symm.trans behind'
  subst tails
  exact ⟨Except.ok.inj (first.symm.trans first'), List.append_cancel_right same, rfl⟩

/-- What one step reads. -/
theorem denotes_read {units : AllowedUnits} {c : Cursor} {token : Token α}
    (h : (read units c).1 = .ok token) :
    ∃ lexeme, c.rest = lexeme ++ (read (α := α) units c).2.rest ∧ Denotes units lexeme token ∧
      ∀ op, op.isAdditive = true → token = .operator op →
        Unmarked (read (α := α) units c).2.rest := by
  rcases read_eq_ok h with ⟨size, parts, value, found, numeral, accepted, rfl, behind⟩ |
    ⟨ch, tail, whole, none, known, behind⟩
  · obtain ⟨marks, rest, whole, number, rfl, nonempty, digits, letters⟩ :=
      Text.Pattern.operand_eq_some found
    have signed := Text.Pattern.sign_cases c.rest
    rw [number] at numeral
    obtain ⟨n, rfl, rfl⟩ := (Number.read?_eq_some_iff signed nonempty digits).mp numeral
    have left : (c.skip (Pattern.sign c.rest ++ n.text ++ parts.unit).length).rest = rest :=
      (congrArg (List.drop _) whole).trans List.drop_left
    rw [behind, left]
    exact ⟨_, whole, .operand n signed letters accepted, by rintro _ _ ⟨⟩⟩
  · have left : (c.skip 1).rest = tail := congrArg (List.drop 1) whole
    rw [behind, left]
    rw [whole] at none
    rcases ofChar?_eq_some known with ⟨rfl, rfl⟩ | ⟨rfl, rfl⟩ | ⟨op, rfl, rfl⟩
    · exact ⟨_, whole, .opening, by rintro _ _ ⟨⟩⟩
    · exact ⟨_, whole, .closing, by rintro _ _ ⟨⟩⟩
    · refine ⟨_, whole, .operator op, ?_⟩
      rintro _ additive ⟨⟩
      exact unmarked_of_operand (isSign_of_isAdditive additive) none

theorem ofText_of_validated {units : AllowedUnits} {tokens : List (Token α)} {text : String}
    {last : List Char} (validated : Validated tokens)
    (written : Written units tokens text.toList last) (blank : ∀ b ∈ last, isBlank b = true) :
    ofText units text = .ok tokens :=
  readRest_of_checked written blank ((checkAll_eq_ok_iff tokens).mpr validated) rfl

namespace Cut

theorem exists_of_readRest {units : AllowedUnits} {p : Progress α} {c : Cursor}
    {tokens : List (Token α)} (h : (readRest units p c).1 = .ok tokens) :
    ∃ cut : Cut α, Fit units cut.last cut.pieces ∧ cut.text = c.rest ∧ cut.tokens = tokens := by
  obtain ⟨blanks, whole, blank⟩ := exists_blanks c
  rcases readRest_eq_ok h with ⟨ended, finished, rfl⟩ |
    ⟨token, p', others, first, advanced, rest, rfl, shorter⟩
  · rw [ended, List.append_nil] at whole
    exact ⟨⟨[], blanks⟩, blank, whole.symm, rfl⟩
  · obtain ⟨cut, fit, behind, rfl⟩ := exists_of_readRest rest
    obtain ⟨lexeme, cut', denotes, apart⟩ := denotes_read first
    refine ⟨⟨⟨blanks, lexeme, token⟩ :: cut.pieces, cut.last⟩, ⟨⟨blank, denotes, ?_⟩, fit⟩, ?_, rfl⟩
    · rw [← behind] at apart
      exact apart
    · rw [whole, cut', ← behind]
      rfl
termination_by c.rest.length

/-- Behind an operand comes nothing that lengthens it. -/
theorem Fit.ends {units : AllowedUnits} {last : List Char} {pieces : List (Piece α)}
    (fit : Fit units last pieces) {q : Quantity α}
    (adjacent : Adjacent (some (.quantity q)) (pieces.map Piece.token)) :
    Ends (textOf last pieces) := by
  cases pieces with
  | nil =>
    have ends := ends_blanks fit Text.ends_nil
    rwa [List.append_nil] at ends
  | cons piece rest =>
    obtain ⟨⟨blank, denotes, _⟩, _⟩ := fit
    rw [List.map_cons, adjacent_cons] at adjacent
    refine ends_blanks blank (denotes.ends ?_ _)
    intro operand
    have next := of_mayPrecede rfl (checkStep_eq_ok adjacent.1)
    rw [kindAfter, Option.elim_some, operand] at next
    simp at next

theorem Fit.stands {units : AllowedUnits} {last : List Char} {piece : Piece α}
    {rest : List (Piece α)} (fit : Fit units last (piece :: rest))
    (adjacent : Adjacent (some piece.token) (rest.map Piece.token)) :
    Stands units piece.token piece.lexeme (textOf last rest) := by
  obtain ⟨⟨_, denotes, apart⟩, others⟩ := fit
  refine denotes.stands (fun operand => ?_) apart
  cases token : piece.token with
  | quantity q =>
    rw [token] at adjacent
    exact others.ends adjacent
  | operator | opening | closing =>
    rw [token] at operand
    cases operand

theorem Fit.written {units : AllowedUnits} {last : List Char} {pieces : List (Piece α)}
    (fit : Fit units last pieces) {previous : Option (Token α)}
    (adjacent : Adjacent previous (pieces.map Piece.token)) :
    Written units (pieces.map Piece.token) (textOf last pieces) last := by
  induction pieces generalizing previous with
  | nil => exact .nil last
  | cons piece rest ih =>
    rw [List.map_cons, adjacent_cons] at adjacent
    exact .cons fit.1.blank (fit.stands adjacent.2) (ih fit.2 adjacent.2)

theorem Fit.last {units : AllowedUnits} {last : List Char} {pieces : List (Piece α)}
    (fit : Fit units last pieces) : ∀ b ∈ last, isBlank b = true := by
  induction pieces with
  | nil => exact fit
  | cons piece rest ih => exact ih fit.2

/-- Blanks end where a lexeme begins. -/
theorem blanks_unique {blanks blanks' cs cs' : List Char} {c c' : Char}
    (blank : ∀ b ∈ blanks, isBlank b = true) (blank' : ∀ b ∈ blanks', isBlank b = true)
    (nonblank : isBlank c = false) (nonblank' : isBlank c' = false)
    (same : blanks ++ c :: cs = blanks' ++ c' :: cs') : blanks = blanks' ∧ c :: cs = c' :: cs' := by
  have taken := congrArg (List.takeWhile isBlank) same
  rw [List.takeWhile_append_of_pos blank, List.takeWhile_append_of_pos blank',
    List.takeWhile_cons_of_neg (by simp [nonblank]),
    List.takeWhile_cons_of_neg (by simp [nonblank']), List.append_nil, List.append_nil] at taken
  subst taken
  exact ⟨rfl, List.append_cancel_left same⟩

theorem Fit.exists_nonblank {units : AllowedUnits} {last : List Char} {piece : Piece α}
    {rest : List (Piece α)} (fit : Fit units last (piece :: rest)) :
    ∃ c ∈ textOf last (piece :: rest), isBlank c = false := by
  obtain ⟨c, cs, whole, nonblank⟩ := fit.1.denotes.exists_cons
  exact ⟨c, by simp [textOf, whole], nonblank⟩

/-- There is one way to cut the text of an expression. -/
theorem Fit.unique {units : AllowedUnits} {last last' : List Char}
    {pieces pieces' : List (Piece α)} (fit : Fit units last pieces) (fit' : Fit units last' pieces')
    {previous previous' : Option (Token α)} (adjacent : Adjacent previous (pieces.map Piece.token))
    (adjacent' : Adjacent previous' (pieces'.map Piece.token))
    (same : textOf last pieces = textOf last' pieces') : pieces = pieces' ∧ last = last' := by
  induction pieces generalizing pieces' previous previous' with
  | nil =>
    cases pieces' with
    | nil => exact ⟨rfl, same⟩
    | cons piece rest =>
      obtain ⟨c, member, nonblank⟩ := fit'.exists_nonblank
      rw [← same] at member
      rw [fit c member] at nonblank
      cases nonblank
  | cons piece rest ih =>
    cases pieces' with
    | nil =>
      obtain ⟨c, member, nonblank⟩ := fit.exists_nonblank
      rw [same] at member
      rw [fit' c member] at nonblank
      cases nonblank
    | cons piece' rest' =>
      rw [List.map_cons, adjacent_cons] at adjacent adjacent'
      obtain ⟨c, cs, begins, nonblank⟩ := fit.1.denotes.exists_cons
      obtain ⟨c', cs', begins', nonblank'⟩ := fit'.1.denotes.exists_cons
      rw [textOf, textOf, begins, begins', List.cons_append, List.cons_append] at same
      obtain ⟨blanks, same⟩ :=
        blanks_unique fit.1.blank fit'.1.blank nonblank nonblank' same
      rw [← List.cons_append, ← List.cons_append, ← begins, ← begins'] at same
      obtain ⟨token, lexeme, behind⟩ :=
        (fit.stands adjacent.2).unique (fit'.stands adjacent'.2) same
      obtain ⟨rfl, rfl⟩ := ih fit.2 fit'.2 adjacent.2 adjacent'.2 behind
      obtain ⟨_, _, _⟩ := piece
      obtain ⟨_, _, _⟩ := piece'
      cases blanks
      cases lexeme
      cases token
      exact ⟨rfl, rfl⟩

theorem not_validated_nil : ¬ Validated ([] : List (Token α)) := by
  intro validated
  have checked := (checkAll_eq_ok_iff []).mpr validated
  cases checked

theorem exists_of_ofText {units : AllowedUnits} {text : String} {tokens : List (Token α)}
    (h : ofText units text = .ok tokens) :
    ∃ cut : Cut α, cut.IsValid units ∧ cut.text = text.toList ∧ cut.tokens = tokens := by
  obtain ⟨cut, fit, whole, rfl⟩ := exists_of_readRest h
  have checked := checkFrom_of_lexed (lexed_readRest h)
  have validated := (checkAll_eq_ok_iff cut.tokens).mp checked
  refine ⟨cut, ⟨fun empty => ?_, fit, validated⟩, whole, rfl⟩
  rw [tokens, empty] at validated
  exact not_validated_nil validated

theorem IsValid.ofText {units : AllowedUnits} {cut : Cut α} (valid : cut.IsValid units)
    {text : String} (whole : cut.text = text.toList) :
    Token.ofText units text = .ok cut.tokens := by
  have written : Written units cut.tokens cut.text cut.last :=
    valid.fit.written valid.validated.adjacent
  rw [whole] at written
  exact ofText_of_validated valid.validated written valid.fit.last

theorem IsValid.unique {units : AllowedUnits} {cut cut' : Cut α} (valid : cut.IsValid units)
    (valid' : cut'.IsValid units) (same : cut.text = cut'.text) : cut = cut' := by
  obtain ⟨pieces, last⟩ := cut
  obtain ⟨pieces', last'⟩ := cut'
  obtain ⟨rfl, rfl⟩ :=
    valid.fit.unique valid'.fit valid.validated.adjacent valid'.validated.adjacent same
  rfl

end Cut

/-- A text is read as tokens exactly when it can be cut into them, and then in one way. -/
theorem ofText_iff_cut (units : AllowedUnits) (text : String) :
    (∀ tokens : List (Token α), ofText units text = .ok tokens ↔
      ∃ cut : Cut α, cut.IsValid units ∧ cut.text = text.toList ∧ cut.tokens = tokens) ∧
    ∀ cut cut' : Cut α, cut.IsValid units → cut.text = text.toList →
      cut'.IsValid units → cut'.text = text.toList → cut = cut' := by
  constructor
  · intro tokens
    constructor
    · exact Cut.exists_of_ofText
    · rintro ⟨cut, valid, whole, rfl⟩
      exact valid.ofText whole
  · intro cut cut' valid whole valid' whole'
    exact valid.unique valid' (whole.trans whole'.symm)

/-- The second minus belongs to the number behind it. -/
theorem ofText_iff_cut_signed :
    let two : Piece Float := ⟨[], ['2'], .quantity (.of (Number.ofDecimal ⟨2, 0⟩) "")⟩
    let minus : Piece Float := ⟨[' '], ['-'], .operator .minus⟩
    let half : Piece Float :=
      ⟨[], ['-', '.', '5', 'p', 'x'], .quantity (.of (-Number.ofDecimal ⟨5, 1⟩) "px")⟩
    let cut : Cut Float := ⟨[two, minus, half], [' ']⟩
    cut.IsValid none ∧ ofText none "2 --.5px " = .ok cut.tokens ∧
      ∀ cut' : Cut Float, cut'.IsValid none → cut'.text = "2 --.5px ".toList → cut' = cut := by
  intro two minus half cut
  have whole : cut.text = "2 --.5px ".toList := rfl
  have number : Denotes none two.lexeme two.token :=
    @Denotes.operand _ _ none [] [] ⟨['2'], none, by simp, by simp⟩ (.inl rfl)
      (.inr (List.forall_mem_nil _)) rfl
  have operator : Denotes none minus.lexeme minus.token := .operator .minus
  have length : Denotes none half.lexeme half.token :=
    @Denotes.operand _ _ none ['-'] ['p', 'x'] ⟨[], some ['5'], by simp, by simp⟩
      (.inr (.inr rfl)) (.inr (by simp)) rfl
  have unmarked : Unmarked ['-', '.', '5', 'p', 'x', ' '] := by
    rintro _ _ ⟨⟩
    rfl
  have blank : ∀ b ∈ [' '], isBlank b = true := List.forall_mem_singleton.mpr rfl
  have valid : cut.IsValid none :=
    { nonempty := List.cons_ne_nil _ _
      fit := ⟨⟨List.forall_mem_nil _, number, by rintro _ _ ⟨⟩⟩,
        ⟨blank, operator, fun _ _ _ => unmarked⟩,
        ⟨List.forall_mem_nil _, length, by rintro _ _ ⟨⟩⟩, blank⟩
      validated := (checkAll_eq_ok_iff cut.tokens).mp (by decide +kernel) }
  obtain ⟨read, unique⟩ := ofText_iff_cut (α := Float) none "2 --.5px "
  exact ⟨valid, (read cut.tokens).mpr ⟨cut, valid, whole, rfl⟩,
    fun cut' valid' whole' => unique cut' cut valid' whole' valid whole⟩

end UnitArith.Token
