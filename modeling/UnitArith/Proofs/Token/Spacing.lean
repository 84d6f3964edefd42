import UnitArith.Proofs.Term.Representation
import UnitArith.Proofs.Token.Spelling

/-! Expressions without white space. Respelling sets a sign apart together with the character
behind it, so an operand of one character hides the sign that follows it; with a number behind,
that sign is read as a part of the number. No other sign is missed. -/
namespace UnitArith

open Text (Closes Ends InOperand IsSign Unmarked closes_closing closes_of_inOperand
  ends_respellSigns isBlank lower respellSigns)

namespace Token

/-- The texts of the tokens with nothing between them. -/
def compact (tokens : List (Token Float)) : List Char := tokens.flatMap spell

theorem compact_cons (token : Token Float) (tokens : List (Token Float)) :
    compact (token :: tokens) = token.spell ++ compact tokens :=
  rfl

/-- A sign between two numbers is due here. -/
def Signs (tokens : List (Token Float)) : Prop :=
  ∃ op q rest, op.isAdditive = true ∧ tokens = .operator op :: .quantity q :: rest

/-- Two signs stand around an operand of one character, and a number behind them. -/
def Crowded (tokens : List (Token Float)) : Prop :=
  ∃ op op' q q', op.isAdditive = true ∧ op'.isAdditive = true ∧ q.spell.length = 1 ∧
    [.operator op, .quantity q, .operator op', .quantity q'] <:+: tokens

theorem crowded_cons_iff (token : Token Float) (tokens : List (Token Float)) :
    Crowded (token :: tokens) ↔
      (∃ op q rest, op.isAdditive = true ∧ token = .operator op ∧ tokens = .quantity q :: rest ∧
        q.spell.length = 1 ∧ Signs rest) ∨ Crowded tokens := by
  constructor
  · rintro ⟨op, op', q, q', additive, additive', short, found⟩
    rcases List.infix_cons_iff.mp found with ⟨rest, whole⟩ | found
    · obtain ⟨same, behind⟩ := List.cons.inj whole
      exact .inl ⟨op, q, _, additive, same.symm, behind.symm, short, op', q', rest, additive', rfl⟩
    · exact .inr ⟨op, op', q, q', additive, additive', short, found⟩
  · rintro (⟨op, q, _, additive, rfl, rfl, short, op', q', rest, additive', rfl⟩ | found)
    · exact ⟨op, op', q, q', additive, additive', short, List.infix_cons_iff.mpr (.inl ⟨rest, rfl⟩)⟩
    · obtain ⟨op, op', q, q', additive, additive', short, found⟩ := found
      exact ⟨op, op', q, q', additive, additive', short, List.infix_cons_iff.mpr (.inr found)⟩

theorem not_crowded_nil : ¬ Crowded [] := by
  rintro ⟨op, op', q, q', _, _, _, found⟩
  simpa using found.length_le

theorem crowded_cons {token : Token Float} (h : ∀ op, token = .operator op → op.isAdditive = false)
    (tokens : List (Token Float)) : Crowded (token :: tokens) ↔ Crowded tokens := by
  rw [crowded_cons_iff]
  refine or_iff_right ?_
  rintro ⟨op, q, rest, additive, same, _⟩
  rw [h op same] at additive
  cases additive

theorem crowded_operator_quantity {op : Operator} (additive : op.isAdditive = true)
    (q : Quantity Float) (tokens : List (Token Float)) :
    Crowded (.operator op :: .quantity q :: tokens) ↔
      q.spell.length = 1 ∧ Signs tokens ∨ Crowded tokens := by
  rw [crowded_cons_iff, crowded_cons (by rintro _ ⟨⟩)]
  refine or_congr_left ⟨?_, ?_⟩
  · rintro ⟨_, _, _, _, ⟨⟩, ⟨⟩, short, signs⟩
    exact ⟨short, signs⟩
  · rintro ⟨short, signs⟩
    exact ⟨op, q, tokens, additive, rfl, rfl, short, signs⟩

theorem crowded_operator_opening (op : Operator) (tokens : List (Token Float)) :
    Crowded (.operator op :: .opening :: tokens) ↔ Crowded tokens := by
  rw [crowded_cons_iff, crowded_cons (by rintro _ ⟨⟩)]
  refine or_iff_right ?_
  rintro ⟨_, _, _, _, _, ⟨⟩, _⟩

/-- The text is read as the tokens up to a quantity, and then as one more quantity. -/
inductive Stuck (units : AllowedUnits) : List (Token Float) → List Char → Prop
  | here {q q' : Quantity Float} {blanks text text' tail : List Char}
      (tokens : List (Token Float)) (blank : ∀ c ∈ blanks, isBlank c = true)
      (first : Stands units (.quantity q) text (text' ++ tail))
      (next : Stands units (.quantity q') text' tail) :
      Stuck units (.quantity q :: tokens) (blanks ++ (text ++ (text' ++ tail)))
  | later {token : Token Float} {tokens : List (Token Float)} {blanks text tail : List Char}
      (blank : ∀ c ∈ blanks, isBlank c = true) (first : Stands units token text tail)
      (others : Stuck units tokens tail) : Stuck units (token :: tokens) (blanks ++ (text ++ tail))

theorem Stuck.blank {units : AllowedUnits} {tokens : List (Token Float)} {text : List Char}
    (h : Stuck units tokens text) {b : Char} (blank : isBlank b = true) :
    Stuck units tokens (b :: text) := by
  cases h with
  | here tokens blanks first next =>
    exact .here tokens (List.forall_mem_cons.mpr ⟨blank, blanks⟩) first next
  | later blanks first others =>
    exact .later (List.forall_mem_cons.mpr ⟨blank, blanks⟩) first others

theorem Stuck.exists_written {units : AllowedUnits} {tokens : List (Token Float)}
    {text : List Char} (h : Stuck units tokens text) :
    ∃ (before : List (Token Float)) (q : Quantity Float) (after : List (Token Float))
      (q' : Quantity Float) (text' tail : List Char), tokens = before ++ .quantity q :: after ∧
      Written units (before ++ [.quantity q]) text (text' ++ tail) ∧
      Stands units (.quantity q') text' tail := by
  induction h with
  | here tokens blank first next =>
    exact ⟨[], _, tokens, _, _, _, rfl, .cons blank first (.nil _), next⟩
  | @later token _ _ _ _ blank first others ih =>
    obtain ⟨before, q, after, q', text', tail, rfl, written, next⟩ := ih
    exact ⟨token :: before, q, after, q', text', tail, rfl, .cons blank first written, next⟩

theorem ofText_of_stuck {units : AllowedUnits} {e : Grammar.Sum Float} {text : String}
    (h : Stuck units e.tokens text.toList) :
    ∃ q q' : Quantity Float, ofText units text =
      .error (.malformed (.followedBy (.quantity q) (.quantity q'))) := by
  obtain ⟨before, q, after, q', text', tail, whole, written, next⟩ := h.exists_written
  rw [List.append_cons] at whole
  obtain ⟨p, c, passed, ended, result⟩ := ofText_of_prefix whole written
  have step : checkStep (some (.quantity q)) (some (.quantity q')) =
      .error (.followedBy (.quantity q) (.quantity q')) := rfl
  have rejected : p.advance (.quantity q') =
      .error (.followedBy (.quantity q) (.quantity q')) := by
    rw [Progress.advance.eq_def, last_of_foldlM passed, step]
  refine ⟨q, q', ?_⟩
  rw [result, readRest_rejected next rejected ended]
  rfl

/-- What comes of a text that should be read as the tokens. -/
def Outcome (crowded : Prop) (tokens : List (Token Float)) (text : List Char) : Prop :=
  (¬ crowded → Written none tokens text []) ∧ (crowded → Stuck none tokens text)

theorem Outcome.cons {crowded : Prop} {token : Token Float} {tokens : List (Token Float)}
    {text tail : List Char} (first : Stands none token text tail)
    (others : Outcome crowded tokens tail) : Outcome crowded (token :: tokens) (text ++ tail) :=
  ⟨fun free => .cons (List.forall_mem_nil _) first (others.1 free),
    fun crowd => .later (List.forall_mem_nil _) first (others.2 crowd)⟩

theorem Outcome.blank {crowded : Prop} {tokens : List (Token Float)} {text : List Char}
    (nonempty : ∃ token rest, tokens = token :: rest) (h : Outcome crowded tokens text) :
    Outcome crowded tokens (' ' :: text) := by
  obtain ⟨token, tokens, rfl⟩ := nonempty
  exact ⟨fun free => (h.1 free).blank (by decide), fun crowd => (h.2 crowd).blank (by decide)⟩

theorem Outcome.nil : Outcome (Crowded []) [] [] :=
  ⟨fun _ => .nil [], fun crowded => absurd crowded not_crowded_nil⟩

/-- An operand may begin with this character. -/
def Begins (c : Char) : Prop := c.isDigit = true ∨ c = '('

theorem Begins.not_isSign {c : Char} (h : Begins c) : isBlank c = false ∧ ¬ IsSign c := by
  rcases h with digit | rfl
  · have inOperand : InOperand c := .inl (by rw [Decimal.isMark, digit, Bool.true_or])
    exact ⟨inOperand.not_isBlank, inOperand.not_isSign⟩
  · decide

/-- Where an operand is due. An operator that has been set apart takes its first character. -/
structure Due (tokens : List (Token Float)) : Prop where
  begins : ∃ c cs, compact tokens = c :: cs ∧ Begins c
  operand : (∃ rest, tokens = .opening :: rest) ∨
    ∃ q rest tail, tokens = .quantity q :: rest ∧ q.Legible ∧ q.isNegative = false ∧
      respellSigns (compact tokens) = q.spell ++ tail ∧ Ends tail
  free : Outcome (Crowded tokens) tokens (respellSigns (compact tokens))
  taken : ∀ op c cs, op.isAdditive = true → compact tokens = c :: cs →
    Outcome (Crowded (.operator op :: tokens)) tokens (c :: respellSigns cs)

/-- Behind an operand, whose last character may have been taken. -/
structure Done (tokens : List (Token Float)) : Prop where
  ends : Ends (compact tokens)
  free : ∀ c, Closes c → ∃ tail, respellSigns (c :: compact tokens) = c :: tail ∧ Ends tail ∧
    Outcome (Crowded tokens) tokens tail
  taken : ¬ Signs tokens → Outcome (Crowded tokens) tokens (respellSigns (compact tokens))
  missed : Signs tokens → ∃ (q : Quantity Float) (text tail : List Char),
    respellSigns (compact tokens) = text ++ tail ∧ Stands none (.quantity q) text tail

theorem Due.exists_cons {tokens : List (Token Float)} (due : Due tokens) :
    ∃ token rest, tokens = token :: rest := by
  obtain ⟨c, cs, whole, _⟩ := due.begins
  refine List.exists_cons_of_ne_nil ?_
  rintro rfl
  cases whole

/-- Behind an operand whose last character has not been taken. -/
theorem Done.behind {tokens : List (Token Float)} (done : Done tokens) {init : List Char}
    {last : Char} (inner : ∀ d ∈ init ++ [last], InOperand d) :
    ∃ tail, respellSigns (init ++ last :: compact tokens) = init ++ last :: tail ∧ Ends tail ∧
      Outcome (Crowded tokens) tokens tail := by
  obtain ⟨tail, read, ends, outcome⟩ :=
    done.free last (closes_of_inOperand (inner last (by simp)))
  refine ⟨tail, ?_, ends, outcome⟩
  rw [Text.respellSigns_append fun d hd => ⟨(inner d hd).not_isBlank, (inner d hd).not_isSign⟩,
    read]

theorem Due.quantity {q : Quantity Float} {tokens : List (Token Float)} (legible : q.Legible)
    (nonnegative : q.isNegative = false) (done : Done tokens) : Due (.quantity q :: tokens) := by
  obtain ⟨c, cs, whole, digit, inOperand⟩ := legible.exists_cons nonnegative
  have stands (tail : List Char) (ends : Ends tail) : Stands none (.quantity q) q.spell tail :=
    stands_quantity legible rfl ends
  have free : ∃ tail, respellSigns (compact (.quantity q :: tokens)) = q.spell ++ tail ∧
      Ends tail ∧ Outcome (Crowded tokens) tokens tail := by
    obtain ⟨init, last, same⟩ := (List.eq_nil_or_concat' (c :: cs)).resolve_left (by simp)
    rw [same] at whole inOperand
    obtain ⟨tail, read, ends, outcome⟩ := done.behind inOperand
    refine ⟨tail, ?_, ends, outcome⟩
    rw [compact_cons, spell, whole, List.append_assoc, List.singleton_append, read,
      List.append_cons, List.append_assoc]
  constructor
  case begins =>
    exact ⟨c, cs ++ compact tokens, by rw [compact_cons, spell, whole]; rfl, .inl digit⟩
  case operand =>
    obtain ⟨tail, read, ends, _⟩ := free
    exact .inr ⟨q, tokens, tail, rfl, legible, nonnegative, read, ends⟩
  case free =>
    obtain ⟨tail, read, ends, outcome⟩ := free
    rw [crowded_cons (by rintro _ ⟨⟩), read]
    exact .cons (stands tail ends) outcome
  case taken =>
    intro op d ds additive same
    rw [compact_cons, spell, whole, List.cons_append] at same
    obtain ⟨rfl, rfl⟩ := List.cons.inj same
    rw [crowded_operator_quantity additive, whole]
    rcases List.eq_nil_or_concat' cs with rfl | ⟨init, last, rfl⟩
    · have short : [c].length = 1 := rfl
      rw [List.nil_append]
      by_cases signs : Signs tokens
      · obtain ⟨q', text, tail, read, next⟩ := done.missed signs
        have ends := ends_respellSigns done.ends
        have first := stands _ ends
        rw [read] at first ⊢
        rw [whole] at first
        exact ⟨fun free => absurd (.inl ⟨short, signs⟩) free,
          fun _ => .here tokens (List.forall_mem_nil _) first next⟩
      · have first := stands _ (ends_respellSigns done.ends)
        rw [or_iff_right fun h => signs h.2]
        rw [whole] at first
        exact .cons first (done.taken signs)
    · have long : (c :: (init ++ [last])).length ≠ 1 := by simp
      obtain ⟨tail, read, ends, outcome⟩ :=
        done.behind fun d hd => inOperand d (List.mem_cons_of_mem c hd)
      have first := stands tail ends
      rw [whole] at first
      rw [or_iff_right fun h => long h.1, List.append_assoc, List.singleton_append, read]
      simpa using Outcome.cons first outcome

theorem Due.opening {tokens : List (Token Float)} (due : Due tokens) :
    Due (.opening :: tokens) := by
  have read : respellSigns ('(' :: compact tokens) = '(' :: respellSigns (compact tokens) := by
    obtain ⟨c, cs, whole, begins⟩ := due.begins
    rw [whole, Text.respellSigns_cons_cons _ begins.not_isSign.1 begins.not_isSign.2]
  have first (tail : List Char) : Stands none (.opening : Token Float) ['('] tail :=
    .symbol rfl (by rintro (h | h) <;> cases h)
  constructor
  case begins => exact ⟨'(', compact tokens, rfl, .inr rfl⟩
  case operand => exact .inl ⟨tokens, rfl⟩
  case free =>
    rw [crowded_cons (by rintro _ ⟨⟩), compact_cons]
    exact read ▸ .cons (first _) due.free
  case taken =>
    intro op c cs additive same
    obtain ⟨rfl, rfl⟩ := List.cons.inj same
    rw [crowded_operator_opening]
    exact .cons (first _) due.free

theorem Done.nil : Done [] := by
  constructor
  case ends => exact Text.ends_nil
  case free => exact fun c _ => ⟨[], Text.respellSigns_singleton c, Text.ends_nil, .nil⟩
  case taken => exact fun _ => .nil
  case missed => rintro ⟨_, _, _, _, ⟨⟩⟩

/-- In front of a character that is not a sign it does not matter what has been taken. -/
theorem Done.of_outcome {tokens : List (Token Float)} {d : Char} {ds : List Char}
    (whole : compact tokens = d :: ds) (blank : isBlank d = false) (sign : ¬ IsSign d)
    (ends : Ends (compact tokens)) (unsigned : ¬ Signs tokens)
    (outcome : Outcome (Crowded tokens) tokens (respellSigns (compact tokens))) : Done tokens := by
  constructor
  case ends => exact ends
  case free =>
    intro c _
    refine ⟨_, ?_, ends_respellSigns ends, outcome⟩
    rw [whole, Text.respellSigns_cons_cons c blank sign]
  case taken => exact fun _ => outcome
  case missed => exact fun signs => absurd signs unsigned

theorem Done.closing {tokens : List (Token Float)} (done : Done tokens) :
    Done (.closing :: tokens) := by
  have ends : Ends (compact (.closing :: tokens)) := by
    rintro _ _ ⟨⟩
    decide
  refine .of_outcome rfl (by decide) (by decide) ends (by rintro ⟨_, _, _, _, ⟨⟩⟩) ?_
  obtain ⟨tail, read, _, outcome⟩ := done.free ')' closes_closing
  have first : Stands none (.closing : Token Float) [')'] tail :=
    .symbol rfl (by rintro (h | h) <;> cases h)
  rw [crowded_cons (by rintro _ ⟨⟩), compact_cons]
  exact read ▸ .cons first outcome

theorem ends_operator (op : Operator) (tokens : List (Token Float)) :
    Ends (compact (.operator op :: tokens)) := by
  rintro _ _ ⟨⟩
  cases op <;> decide

theorem Done.multiplicative {op : Operator} (multiplicative : op.isAdditive = false)
    {tokens : List (Token Float)} (due : Due tokens) : Done (.operator op :: tokens) := by
  have unsigned : ¬ IsSign op.toChar := by
    cases op <;> first | decide | cases multiplicative
  have blank : isBlank op.toChar = false := by cases op <;> decide
  refine .of_outcome rfl blank unsigned (ends_operator op tokens) ?_ ?_
  · rintro ⟨_, _, _, additive, ⟨⟩⟩
    rw [multiplicative] at additive
    cases additive
  · obtain ⟨c, cs, whole, begins⟩ := due.begins
    have read : respellSigns (op.toChar :: compact tokens) =
        op.toChar :: respellSigns (compact tokens) := by
      rw [whole, Text.respellSigns_cons_cons _ begins.not_isSign.1 begins.not_isSign.2]
    have first : Stands none (.operator op : Token Float) [op.toChar]
        (respellSigns (compact tokens)) :=
      .symbol (ofChar?_operator op) fun sign => absurd sign unsigned
    rw [crowded_cons fun _ same => (Token.operator.inj same) ▸ multiplicative, compact_cons]
    exact read ▸ .cons first due.free

theorem Done.additive {op : Operator} (additive : op.isAdditive = true)
    {tokens : List (Token Float)} (due : Due tokens) : Done (.operator op :: tokens) := by
  have sign : IsSign op.toChar := by
    cases op <;> first | decide | cases additive
  have known := ofChar?_operator (α := Float) op
  obtain ⟨c, cs, whole, begins⟩ := due.begins
  have read : respellSigns (op.toChar :: compact tokens) =
      op.toChar :: respellSigns (compact tokens) := by
    rw [whole, Text.respellSigns_cons_cons _ begins.not_isSign.1 begins.not_isSign.2]
  constructor
  case ends => exact ends_operator op tokens
  case free =>
    intro d closes
    let s : Text.Pattern.AttachedSign := ⟨d, [], op.toChar, c⟩
    have attached : s.IsAttached :=
      ⟨⟨closes.blank, closes.opening⟩, List.forall_mem_nil _, sign, begins⟩
    have apart := Text.respellSigns_attached attached cs
    have first : Stands none (.operator op : Token Float) [op.toChar]
        (' ' :: c :: respellSigns cs) :=
      .symbol known fun _ => by
        rintro _ _ ⟨⟩
        decide
    refine ⟨op.toChar :: ' ' :: c :: respellSigns cs, ?_, ?_, ?_⟩
    · rw [compact_cons, spell, whole]
      refine apart.trans ?_
      rw [Text.Pattern.AttachedSign.respell, closes.operator]
      rfl
    · rintro _ _ ⟨⟩
      cases op <;> decide
    · exact .cons first (.blank due.exists_cons (due.taken op c cs additive whole))
  case taken =>
    intro unsigned
    rcases due.operand with ⟨rest, rfl⟩ | ⟨q, rest, _, rfl, _⟩
    · have first : Stands none (.operator op : Token Float) [op.toChar]
          (respellSigns (compact (.opening :: rest))) := by
        refine .symbol known fun _ => ?_
        intro d ds same
        obtain ⟨others, first⟩ := Text.exists_of_respellSigns same
        cases first
        decide
      have outcome := due.free
      rw [crowded_operator_opening, compact_cons, spell, List.singleton_append, read]
      rw [crowded_cons (by rintro _ ⟨⟩)] at outcome
      exact .cons first outcome
    · exact absurd ⟨op, q, rest, additive, rfl⟩ unsigned
  case missed =>
    rintro ⟨_, q, rest, _, ⟨⟩⟩
    rcases due.operand with ⟨_, ⟨⟩⟩ | ⟨_, _, tail, ⟨⟩, legible, nonnegative, behind, ends⟩
    obtain ⟨q', next⟩ : ∃ q' : Quantity Float,
        Stands none (.quantity q') (op.toChar :: q.spell) tail :=
      stands_signed legible nonnegative rfl sign ends
    exact ⟨q', op.toChar :: q.spell, tail, by rw [compact_cons, spell, List.singleton_append, read,
      behind, List.cons_append], next⟩

theorem Done.operator (op : Operator) {tokens : List (Token Float)} (due : Due tokens) :
    Done (.operator op :: tokens) := by
  cases additive : op.isAdditive with
  | true => exact .additive additive due
  | false => exact .multiplicative additive due

theorem legible_append {a b : List (Token Float)} :
    Legible (a ++ b) ↔ Legible a ∧ Legible b := by
  simp only [Legible, List.mem_append, or_imp, forall_and]

theorem unsigned_append {a b : List (Token Float)} :
    Unsigned (a ++ b) ↔ Unsigned a ∧ Unsigned b := by
  simp only [Unsigned, List.mem_append, or_imp, forall_and]

mutual

theorem due_sum : ∀ (e : Grammar.Sum Float) {rest : List (Token Float)}, Legible e.tokens →
    Unsigned e.tokens → Done rest → Due (e.tokens ++ rest)
  | .product p, rest, legible, unsigned, done => due_product p legible unsigned done
  | .join left op _ right, rest, legible, unsigned, done => by
    rw [Grammar.Sum.tokens, List.append_cons] at legible unsigned ⊢
    obtain ⟨first, others⟩ := legible_append.mp legible
    obtain ⟨first', others'⟩ := unsigned_append.mp unsigned
    rw [List.append_assoc, List.append_assoc]
    exact due_sum left (legible_append.mp first).1 (unsigned_append.mp first').1
      (.operator op (due_product right others others' done))

theorem due_product : ∀ (p : Grammar.Product Float) {rest : List (Token Float)}, Legible p.tokens →
    Unsigned p.tokens → Done rest → Due (p.tokens ++ rest)
  | .factor f, rest, legible, unsigned, done => due_factor f legible unsigned done
  | .join left op _ right, rest, legible, unsigned, done => by
    rw [Grammar.Product.tokens, List.append_cons] at legible unsigned ⊢
    obtain ⟨first, others⟩ := legible_append.mp legible
    obtain ⟨first', others'⟩ := unsigned_append.mp unsigned
    rw [List.append_assoc, List.append_assoc]
    exact due_product left (legible_append.mp first).1 (unsigned_append.mp first').1
      (.operator op (due_factor right others others' done))

theorem due_factor : ∀ (f : Grammar.Factor Float) {rest : List (Token Float)}, Legible f.tokens →
    Unsigned f.tokens → Done rest → Due (f.tokens ++ rest)
  | .quantity q, rest, legible, unsigned, done =>
    .quantity (legible q (List.mem_singleton_self _)) (unsigned q (List.mem_singleton_self _)) done
  | .group e, rest, legible, unsigned, done => by
    rw [Grammar.Factor.tokens, ← List.singleton_append] at legible unsigned ⊢
    have inner := (legible_append.mp (legible_append.mp legible).2).1
    have inner' := (unsigned_append.mp (unsigned_append.mp unsigned).2).1
    rw [List.append_assoc, List.append_assoc]
    exact .opening (due_sum e inner inner' (.closing done))

end

theorem lower_compact {tokens : List (Token Float)} (legible : Legible tokens) :
    lower (compact tokens) = compact tokens := by
  refine Text.lower_eq_self fun c hc => ?_
  obtain ⟨token, member, hc⟩ := List.mem_flatMap.mp hc
  exact ⟨simple_spell (fun q same => legible.lettered q (same ▸ member)) c hc,
    lowerChar_of_mem_spell (fun q same => legible q (same ▸ member)) hc⟩

/-- White space around operators is not needed, except around an operand of one character that
stands between two signs with a number behind. -/
theorem ofText_compact (e : Grammar.Sum Float) (legible : Legible e.tokens)
    (unsigned : Unsigned e.tokens) :
    ofText none (Text.normalize (String.ofList (spaced e.tokens))) = .ok e.tokens ∧
    (ofText none (Text.normalize (String.ofList (compact e.tokens))) = .ok e.tokens ↔
      ¬ Crowded e.tokens) := by
  have due := due_sum e legible unsigned .nil
  rw [List.append_nil] at due
  constructor
  · obtain ⟨token, tokens, whole⟩ := due.exists_cons
    have written : Written none e.tokens (spaced e.tokens) [] :=
      written_spaced legible fun _ _ => rfl
    have same : Text.normalize (String.ofList (spaced e.tokens)) =
        String.ofList (spaced e.tokens) := by
      rw [whole] at legible unsigned ⊢
      exact normalize_spaced legible fun q hq => unsigned q (List.mem_cons_of_mem _ hq)
    rw [same]
    exact ofText_of_written (by rwa [String.toList_ofList])
  · have outcome := due.free
    have text : (Text.normalize (String.ofList (compact e.tokens))).toList =
        respellSigns (compact e.tokens) := by
      rw [Text.normalize, String.toList_ofList, String.toList_ofList, lower_compact legible]
    rw [← text] at outcome
    constructor
    · intro read crowded
      obtain ⟨q, q', fails⟩ := ofText_of_stuck (outcome.2 crowded)
      rw [fails] at read
      cases read
    · exact fun free => ofText_of_written (outcome.1 free)

theorem ofText_compact_long :
    ofText none (Text.normalize (String.ofList (compact [.quantity (.of 12 "px"),
        .operator .minus, .quantity (.of 0.5 ""), .operator .minus, .quantity (.of 7 "%")]))) =
      .ok [.quantity (.of 12 "px"), .operator .minus, .quantity (.of 0.5 ""), .operator .minus,
        .quantity (.of 7 "%")] := by
  let e : Grammar.Sum Float := .join (.join (.product (.factor (.quantity (.of 12 "px")))) .minus
    rfl (.factor (.quantity (.of 0.5 "")))) .minus rfl (.factor (.quantity (.of 7 "%")))
  have quantities : ∀ q, .quantity q ∈ e.tokens →
      q = .of 12 "px" ∨ q = .of 0.5 "" ∨ q = .of 7 "%" := by
    intro q hq
    simpa [e, Grammar.Sum.tokens, Grammar.Product.tokens, Grammar.Factor.tokens] using hq
  have legible : Legible e.tokens := by
    intro q hq
    rcases quantities q hq with rfl | rfl | rfl
    · exact Quantity.legible_of (by decide +kernel) (.inr (by simp))
    · exact Quantity.legible_of (by decide +kernel) (.inr (by simp))
    · exact Quantity.legible_of (by decide +kernel) (.inl rfl)
  have unsigned : Unsigned e.tokens := by
    intro q hq
    rcases quantities q hq with rfl | rfl | rfl <;> decide +kernel
  have free : ¬ Crowded e.tokens := by
    have long : (Quantity.of 0.5 "" : Quantity Float).spell.length ≠ 1 := by decide +kernel
    change ¬ Crowded [_, _, _, _, _]
    rw [crowded_cons (by rintro _ ⟨⟩), crowded_operator_quantity rfl, crowded_operator_quantity rfl]
    rintro (⟨short, _⟩ | ⟨_, _, _, _, _, ⟨⟩⟩ | crowded)
    · exact long short
    · exact not_crowded_nil crowded
  exact (ofText_compact e legible unsigned).2.mpr free

theorem ofText_compact_crowded :
    ¬ ∀ e : Grammar.Sum Float, Legible e.tokens → Unsigned e.tokens →
      ofText none (Text.normalize (String.ofList (compact e.tokens))) = .ok e.tokens := by
  intro h
  let e : Grammar.Sum Float := .join (.join (.product (.factor (.quantity (.of 1 "")))) .minus
    rfl (.factor (.quantity (.of 1 "")))) .minus rfl (.factor (.quantity (.of 1 "")))
  have quantities : ∀ q, .quantity q ∈ e.tokens → q = .of 1 "" := by
    intro q hq
    simpa [e, Grammar.Sum.tokens, Grammar.Product.tokens, Grammar.Factor.tokens] using hq
  have legible : Legible e.tokens := by
    intro q hq
    rw [quantities q hq]
    exact Quantity.legible_of (by decide +kernel) (.inr (by simp))
  have unsigned : Unsigned e.tokens := by
    intro q hq
    rw [quantities q hq]
    decide +kernel
  have fails : ofText none (Text.normalize "1-1-1") =
      (.error (.malformed (.followedBy (.quantity (.of 1 "")) (.quantity (.of (-1) "")))) :
        Except (LexError Float) _) := by
    decide +kernel
  have text : String.ofList (compact e.tokens) = "1-1-1" := by decide +kernel
  have read := h e legible unsigned
  rw [text, fails] at read
  cases read

end Token

end UnitArith
