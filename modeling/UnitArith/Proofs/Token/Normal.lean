import UnitArith.Proofs.Text.LowerCase
import UnitArith.Proofs.Text.Normal
import UnitArith.Proofs.Token.Cut

/-! Respelling the signs of a text that can be read as it stands. A sign in it is respelled in
two places only: behind an operator, where it belongs to a number, and behind an operand, where it
is an operator in front of a group. Neither changes what is read. -/
namespace UnitArith

open Text (Closes Ends InOperand IsSign Unmarked UnitText isBlank lower lowerChar respellSigns)
open Text.Pattern (AttachedSign)

namespace Text.Pattern.AttachedSign

/-- A sign that belongs to a number is left out or kept, behind blanks. -/
theorem respell_number {s : AttachedSign} {op : Operator} (before : s.before = op.toChar)
    (blanks : ∀ b ∈ s.blanks, isBlank b = true) (number : s.target ≠ '(') :
    ∃ gap signs, s.respell = s.before :: (gap ++ (signs ++ [s.target])) ∧ gap ≠ [] ∧
      (∀ b ∈ gap, isBlank b = true) ∧ (signs = [] ∧ s.sign = '+' ∨ signs = [s.sign]) := by
  refine ⟨if s.blanks.isEmpty then [' '] else s.blanks, if s.sign == '+' then [] else [s.sign],
    ?_, ?_, ?_, ?_⟩
  · simp [AttachedSign.respell, before, number]
  · split <;> simp_all
  · split
    · exact List.forall_mem_singleton.mpr rfl
    · exact blanks
  · split <;> simp_all

/-- A sign that is an operator is set apart from the group behind it. -/
theorem respell_group {s : AttachedSign} (closes : Closes s.before) :
    s.respell = s.before :: (s.blanks ++ [s.sign, ' ', s.target]) := by
  simp [AttachedSign.respell, closes.operator]

end Text.Pattern.AttachedSign

namespace Token

variable {α : Type} [Number α] {units : AllowedUnits} {last : List Char}

/-- What a token may end with. -/
inductive EndsWith : Token α → Char → Prop
  | quantity (q : Quantity α) {c : Char} (closes : Closes c) : EndsWith (.quantity q) c
  | operator (op : Operator) : EndsWith (.operator op) op.toChar
  | opening : EndsWith .opening '('
  | closing : EndsWith .closing ')'

theorem endsWith_of_ofChar? {token : Token α} {c : Char} (known : ofChar? c = some token) :
    EndsWith token c := by
  rcases ofChar?_eq_some known with ⟨rfl, rfl⟩ | ⟨rfl, rfl⟩ | ⟨op, rfl, rfl⟩
  · exact .opening
  · exact .closing
  · exact .operator op

/-- The tokens are read from a text when its signs are respelled, also when the respelling begins
with the last character of the token in front. -/
structure Kept (units : AllowedUnits) (last : List Char) (previous : Option (Token α))
    (tokens : List (Token α)) (text : List Char) : Prop where
  free : Written units tokens (respellSigns text) last
  behind : ∀ token c, previous = some token → EndsWith token c → ∃ out,
    respellSigns (c :: text) = c :: out ∧ Written units tokens out last ∧
      (Unmarked text → Unmarked out) ∧ (Ends text → Ends out)

theorem Kept.nil (blank : ∀ b ∈ last, isBlank b = true) (previous : Option (Token α)) :
    Kept units last previous [] last := by
  have same : respellSigns last = last := by
    have kept := Text.respellSigns_blanks blank []
    rwa [List.append_nil, show respellSigns [] = [] from rfl, List.append_nil] at kept
  constructor
  case free =>
    rw [same]
    exact .nil last
  intro _ c _ _
  refine ⟨last, ?_, .nil last, id, id⟩
  rcases Text.respellSigns_cons_cases c last with kept | ⟨s, rest, attached, whole, _⟩
  · rw [kept, same]
  · have member : s.sign ∈ last := by
      rw [(List.cons.inj whole).2]
      simp
    have sign := attached.sign.not_isBlank
    rw [blank _ member] at sign
    cases sign

/-- Behind a run of characters of an operand, its last character is the one in front. -/
theorem Kept.word {q : Quantity α} {tokens : List (Token α)} {tail : List Char}
    (kept : Kept units last (some (.quantity q)) tokens tail) (ends : Ends tail)
    {word : List Char} (inOperand : ∀ c ∈ word, InOperand c) :
    ∃ out, respellSigns (word ++ tail) = word ++ out ∧ Written units tokens out last ∧
      Ends out := by
  rcases List.eq_nil_or_concat' word with rfl | ⟨init, c, rfl⟩
  · exact ⟨_, rfl, kept.free, Text.ends_respellSigns ends⟩
  · have closes := Text.closes_of_inOperand (inOperand c (by simp))
    obtain ⟨out, read, written, _, ends'⟩ := kept.behind _ c rfl (.quantity q closes)
    refine ⟨out, ?_, written, ends' ends⟩
    rw [List.append_assoc, List.singleton_append, Text.respellSigns_append fun d hd =>
      ⟨(inOperand d hd).not_isBlank, (inOperand d hd).not_isSign⟩, read, List.append_assoc]
    rfl

theorem inOperand_of_mem {marks letters : List Char}
    (digits : ∀ c ∈ marks, Decimal.isMark c = true) (valid : UnitText letters) :
    ∀ c ∈ marks ++ letters, InOperand c :=
  List.forall_mem_append.mpr ⟨fun c hc => .inl (digits c hc), valid.inOperand⟩

/-- A lexeme that the respelling begins with is kept as it is. -/
theorem Kept.lexeme {token : Token α} {tokens : List (Token α)} {text tail : List Char}
    (first : Stands units token text tail) (kept : Kept units last (some token) tokens tail) :
    ∃ out, respellSigns (text ++ tail) = text ++ out ∧ Stands units token text out ∧
      Written units tokens out last := by
  cases first with
  | @operand signs marks letters _ value signed nonempty digits numeral valid accepted ends =>
    obtain ⟨out, read, written, ends'⟩ := kept.word ends (inOperand_of_mem digits valid)
    refine ⟨out, ?_, .operand signed nonempty digits numeral valid accepted ends', written⟩
    obtain ⟨c, cs, rfl⟩ := List.exists_cons_of_ne_nil nonempty
    have mark : InOperand c := .inl (digits c (List.mem_cons_self ..))
    have behind (sign : Char) := Text.respellSigns_cons_cons sign mark.not_isBlank mark.not_isSign
    rcases signed with rfl | rfl | rfl
    · exact read
    · exact (behind '+' _).trans (congrArg _ read)
    · exact (behind '-' _).trans (congrArg _ read)
  | @symbol c _ _ known apart =>
    obtain ⟨out, read, written, unmarked, _⟩ := kept.behind _ c rfl (endsWith_of_ofChar? known)
    exact ⟨out, read, .symbol known fun sign => unmarked (apart sign), written⟩

theorem Kept.cons_free {token : Token α} {tokens : List (Token α)} {blanks text tail : List Char}
    (blank : ∀ b ∈ blanks, isBlank b = true) (first : Stands units token text tail)
    (kept : Kept units last (some token) tokens tail) :
    Written units (token :: tokens) (respellSigns (blanks ++ (text ++ tail))) last := by
  obtain ⟨out, read, stands, written⟩ := kept.lexeme first
  rw [Text.respellSigns_blanks blank, read]
  exact .cons blank stands written

/-- Before an operand stands an operator, or a group opens. -/
theorem EndsWith.of_quantity {token : Token α} {q : Quantity α} {c : Char}
    (ends : EndsWith token c) (step : checkStep (some token) (some (.quantity q)) = .ok ()) :
    c = '(' ∨ ∃ op : Operator, c = op.toChar := by
  cases ends with
  | operator op => exact .inr ⟨op, rfl⟩
  | opening => exact .inl rfl
  | quantity | closing => cases checkStep_eq_ok step

/-- Before an operator an operand ends. -/
theorem EndsWith.of_operator {token : Token α} {op : Operator} {c : Char}
    (ends : EndsWith token c) (step : checkStep (some token) (some (.operator op)) = .ok ()) :
    Closes c := by
  cases ends with
  | quantity _ closes => exact closes
  | closing => exact Text.closes_closing
  | operator | opening => cases checkStep_eq_ok step

/-- A lexeme that begins with an attached sign is a number with its sign or an operator. -/
theorem Stands.sign_cases {token : Token α} {text tail rest : List Char} {sign target : Char}
    (first : Stands units token text tail) (isSign : IsSign sign)
    (attached : target.isDigit = true ∨ target = '(')
    (whole : text ++ tail = sign :: target :: rest) :
    (∃ q word, token = .quantity q ∧ target ≠ '(' ∧ rest = word ++ tail ∧ Ends tail ∧
        (∀ c ∈ word, InOperand c) ∧ ∀ signs out, signs = [] ∧ sign = '+' ∨ signs = [sign] →
          Ends out → Stands units token (signs ++ target :: word) out) ∨
      ∃ op : Operator, token = .operator op ∧ target = '(' ∧ tail = '(' :: rest ∧
        ∀ out, Unmarked out → Stands units token [sign] out := by
  cases first with
  | @operand signs marks letters _ value signed nonempty digits numeral valid accepted ends =>
    obtain ⟨c, cs, rfl⟩ := List.exists_cons_of_ne_nil nonempty
    have mark := digits c (List.mem_cons_self ..)
    have begins : signs = [sign] ∧ c :: cs ++ letters ++ tail = target :: rest := by
      rcases signed with rfl | rfl | rfl
      · obtain ⟨rfl, -⟩ := List.cons.inj whole
        exact absurd isSign (InOperand.not_isSign (.inl mark))
      · obtain ⟨rfl, behind⟩ := List.cons.inj whole
        exact ⟨rfl, by simpa using behind⟩
      · obtain ⟨rfl, behind⟩ := List.cons.inj whole
        exact ⟨rfl, by simpa using behind⟩
    obtain ⟨rfl, behind⟩ := begins
    obtain ⟨rfl, rfl⟩ := List.cons.inj behind
    left
    refine ⟨_, cs ++ letters, rfl, ?_, rfl, ends, ?_, ?_⟩
    · rintro rfl
      cases mark
    · exact inOperand_of_mem (fun d hd => digits d (List.mem_cons_of_mem _ hd)) valid
    · rintro signs out (⟨rfl, rfl⟩ | rfl) ends'
      · have unsigned : Number.read? (c :: cs) = some value := by
          rw [Number.read?_unsigned mark]
          exact numeral
        exact .operand (.inl rfl) nonempty digits unsigned valid accepted ends'
      · rw [← List.cons_append, ← List.append_assoc]
        exact .operand signed nonempty digits numeral valid accepted ends'
  | @symbol c _ _ known apart =>
    obtain ⟨rfl, rfl⟩ := List.cons.inj whole
    have unmarked := apart isSign target rest rfl
    right
    have group : target = '(' := by
      refine attached.resolve_left fun digit => ?_
      rw [Decimal.isMark, digit] at unmarked
      cases unmarked
    rcases ofChar?_eq_some known with ⟨rfl, rfl⟩ | ⟨rfl, rfl⟩ | ⟨op, rfl, rfl⟩
    · exact absurd isSign (by decide)
    · exact absurd isSign (by decide)
    · exact ⟨op, rfl, group, by rw [group], fun out unmarked => .symbol known fun _ => unmarked⟩

/-- The two places where a sign is respelled in front of the tokens. -/
theorem Kept.cons_attached {previous token : Token α} {tokens : List (Token α)}
    {text tail rest : List Char} {s : AttachedSign} (attached : s.IsAttached)
    (whole : text ++ tail = s.sign :: s.target :: rest) (first : Stands units token text tail)
    (blank : ∀ b ∈ last, isBlank b = true)
    (step : checkStep (some previous) (some token) = .ok ()) (ends : EndsWith previous s.before)
    (kept : Kept units last (some token) tokens tail) :
    ∃ out, s.respell ++ respellSigns rest = s.before :: out ∧
      Written units (token :: tokens) out last ∧ Ends out := by
  rcases first.sign_cases attached.sign attached.target whole with
    ⟨q, word, rfl, number, rfl, behind, inOperand, stands⟩ | ⟨op, rfl, group, rfl, stands⟩
  · -- A number comes next, so an operator stands in front and the sign is that of the number.
    obtain ⟨op, before⟩ := (ends.of_quantity step).resolve_left attached.before.2
    obtain ⟨gap, signs, respelled, nonempty, blanks, sign⟩ :=
      Text.Pattern.AttachedSign.respell_number before attached.blanks number
    obtain ⟨out, read, written, ends'⟩ := kept.word behind inOperand
    refine ⟨gap ++ ((signs ++ s.target :: word) ++ out), ?_, .cons blanks (stands _ _ sign ends')
      written, ?_⟩
    · rw [respelled, read]
      simp
    · obtain ⟨b, gap, rfl⟩ := List.exists_cons_of_ne_nil nonempty
      exact ends_of_isBlank (blanks b (List.mem_cons_self ..)) _
  · -- The sign is an operator. The parenthesis behind it is not looked at again.
    have written : Written units tokens (' ' :: '(' :: respellSigns rest) last := by
      have free := kept.free
      rw [Text.respellSigns_opening] at free
      cases tokens with
      | nil =>
        cases free
        cases blank '(' (List.mem_cons_self ..)
      | cons => exact free.blank rfl
    have unmarked : Unmarked (' ' :: '(' :: respellSigns rest) := by
      rintro _ _ ⟨⟩
      rfl
    refine ⟨s.blanks ++ ([s.sign] ++ ' ' :: '(' :: respellSigns rest), ?_,
      .cons attached.blanks (stands _ unmarked) written,
      ends_blanks attached.blanks (attached.sign.ends _)⟩
    rw [Text.Pattern.AttachedSign.respell_group (ends.of_operator step), group]
    simp

theorem Kept.cons {previous : Option (Token α)} {token : Token α} {tokens : List (Token α)}
    {blanks text tail : List Char} (blank : ∀ b ∈ blanks, isBlank b = true)
    (first : Stands units token text tail) (blank' : ∀ b ∈ last, isBlank b = true)
    (step : checkStep previous (some token) = .ok ())
    (kept : Kept units last (some token) tokens tail) :
    Kept units last previous (token :: tokens) (blanks ++ (text ++ tail)) := by
  have free := kept.cons_free blank first
  refine ⟨free, ?_⟩
  rintro before c rfl ends
  rcases Text.respellSigns_cons_cases c (blanks ++ (text ++ tail)) with
    same | ⟨s, rest, attached, whole, moved⟩
  · exact ⟨_, same, free, Text.unmarked_respellSigns, Text.ends_respellSigns⟩
  · rw [AttachedSign.text_append] at whole
    obtain ⟨rfl, behind⟩ := List.cons.inj whole
    obtain ⟨d, ds, begins, nonblank⟩ := first.exists_cons
    rw [begins, List.cons_append] at behind
    obtain ⟨rfl, lexeme⟩ :=
      Cut.blanks_unique blank attached.blanks nonblank attached.sign.not_isBlank behind
    rw [← List.cons_append, ← begins] at lexeme
    obtain ⟨out, read, written, ends'⟩ :=
      kept.cons_attached attached lexeme first blank' step ends
    exact ⟨out, moved.trans read, written, fun _ c rest same => (ends' c rest same).1,
      fun _ => ends'⟩

theorem Written.kept {tokens : List (Token α)} {text : List Char}
    (written : Written units tokens text last) (blank : ∀ b ∈ last, isBlank b = true)
    {previous : Option (Token α)} (adjacent : Adjacent previous tokens) :
    Kept units last previous tokens text := by
  induction written generalizing previous with
  | nil => exact .nil blank previous
  | cons blanks first others ih =>
    rw [adjacent_cons] at adjacent
    exact .cons blanks first blank adjacent.1 (ih blank adjacent.2)

theorem Stands.small {token : Token α} {text tail : List Char}
    (first : Stands units token text tail) : ∀ c ∈ text, Text.Simple c ∧ lowerChar c = c := by
  have symbol {c : Char} (h : Text.IsPunctuation c) : Text.Simple c ∧ lowerChar c = c :=
    ⟨h.simple, h.lowerChar⟩
  cases first with
  | @operand signs marks letters _ value signed nonempty digits numeral valid accepted ends =>
    rw [List.append_assoc, List.forall_mem_append]
    constructor
    · rcases signed with rfl | rfl | rfl
      · exact List.forall_mem_nil _
      · exact List.forall_mem_singleton.mpr (symbol (.inr (.inr ⟨.plus, rfl⟩)))
      · exact List.forall_mem_singleton.mpr (symbol (.inr (.inr ⟨.minus, rfl⟩)))
    · intro c hc
      have inOperand := inOperand_of_mem digits valid c hc
      exact ⟨Text.simple_of_ascii inOperand.ascii.1, inOperand.lowerChar⟩
  | symbol known =>
    exact List.forall_mem_singleton.mpr (symbol (Text.isPunctuation_of_eq_some known))

/-- What can be read has no capitals. -/
theorem Written.lower_eq {tokens : List (Token α)} {text : List Char}
    (written : Written units tokens text last) (blank : ∀ b ∈ last, isBlank b = true) :
    lower text = text := by
  have small {b : Char} (h : isBlank b = true) : Text.Simple b ∧ lowerChar b = b :=
    ⟨Text.simple_of_isBlank h, Text.lowerChar_of_isBlank h⟩
  refine Text.lower_eq_self ?_
  induction written with
  | nil => exact fun b hb => small (blank b hb)
  | cons blanks first others ih =>
    rw [List.forall_mem_append, List.forall_mem_append]
    exact ⟨fun b hb => small (blanks b hb), first.small, ih blank⟩

/-- What can be read as it stands is read the same after respelling. -/
theorem ofText_normalize {text : String} {tokens : List (Token α)}
    (h : ofText units text = .ok tokens) : ofText units (Text.normalize text) = .ok tokens := by
  obtain ⟨cut, valid, whole, rfl⟩ := Cut.exists_of_ofText h
  have blank := valid.fit.last
  have written := valid.fit.written valid.validated.adjacent
  have kept := written.kept blank valid.validated.adjacent
  refine ofText_of_validated valid.validated ?_ blank
  rw [Text.normalize, String.toList_ofList, ← whole]
  change Written units _ (respellSigns (lower (Cut.textOf _ _))) _
  rw [written.lower_eq blank]
  exact kept.free

/-- The plus in front of `5` is dropped, and the minus in front of the group is set apart. -/
theorem ofText_normalize_signs :
    let tokens : List (Token Float) := [.quantity (.of (Number.ofDecimal ⟨2, 0⟩) ""),
      .operator .times, .quantity (.of (Number.ofDecimal ⟨5, 0⟩) "px"), .operator .minus, .opening,
      .quantity (.of (-Number.ofDecimal ⟨3, 0⟩) "px"), .closing]
    ofText none "2*+5px-(-3px)" = .ok tokens ∧
      Text.normalize "2*+5px-(-3px)" = "2* 5px- (-3px)" ∧
      ofText none (Text.normalize "2*+5px-(-3px)") = .ok tokens := by
  intro tokens
  have read : ofText none "2*+5px-(-3px)" = .ok tokens := by decide +kernel
  exact ⟨read, by decide +kernel, ofText_normalize read⟩

end Token

end UnitArith
