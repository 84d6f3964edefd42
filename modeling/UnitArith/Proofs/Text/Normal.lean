import UnitArith.Proofs.Text.Character
import UnitArith.Text.Normal

/-! Where signs are respelled in a text. The places do not overlap and are taken from the left,
so a character that stands behind one sign cannot stand in front of the next one. -/
namespace UnitArith.Text

def IsSign (c : Char) : Prop := c = '+' ∨ c = '-'

instance : DecidablePred IsSign := fun c => inferInstanceAs (Decidable (c = '+' ∨ c = '-'))

theorem IsSign.not_isBlank {c : Char} (h : IsSign c) : isBlank c = false := by
  rcases h with rfl | rfl <;> decide

theorem IsSign.ends {sign : Char} (h : IsSign sign) (rest : List Char) : Ends (sign :: rest) := by
  rintro _ _ ⟨⟩
  rcases h with rfl | rfl <;> decide

theorem IsSign.exists_operator {c : Char} (h : IsSign c) : ∃ op, Operator.ofChar? c = some op := by
  rcases h with rfl | rfl
  · exact ⟨.plus, rfl⟩
  · exact ⟨.minus, rfl⟩

theorem InOperand.not_isSign {c : Char} (h : InOperand c) : ¬ IsSign c := by
  rintro (rfl | rfl) <;> simp [InOperand, Decimal.isMark] at h

/-- A sign behind this character is an operator. -/
structure Closes (c : Char) : Prop where
  blank : isBlank c = false
  opening : c ≠ '('
  operator : Operator.ofChar? c = none

theorem closes_of_inOperand {c : Char} (h : InOperand c) : Closes c := by
  refine ⟨h.not_isBlank, ?_, ?_⟩
  · rintro rfl
    simp [InOperand, Decimal.isMark] at h
  · cases known : Operator.ofChar? c with
    | none => rfl
    | some op =>
      obtain rfl := Operator.toChar_of_ofChar? known
      cases op <;> simp [InOperand, Decimal.isMark, Operator.toChar] at h

theorem closes_closing : Closes ')' := by
  constructor <;> decide

namespace Pattern.AttachedSign

def text (s : AttachedSign) : List Char := s.before :: (s.blanks ++ [s.sign, s.target])

theorem text_append (s : AttachedSign) (rest : List Char) :
    s.text ++ rest = s.before :: (s.blanks ++ s.sign :: s.target :: rest) := by
  simp [text]

structure IsAttached (s : AttachedSign) : Prop where
  before : isBlank s.before = false ∧ s.before ≠ '('
  blanks : ∀ b ∈ s.blanks, isBlank b = true
  sign : IsSign s.sign
  target : s.target.isDigit = true ∨ s.target = '('

end Pattern.AttachedSign

open Pattern (attachedSign AttachedSign)

theorem attachedSign_eq_some_iff {cs : List Char} {size : Nat} {s : AttachedSign} :
    attachedSign cs = some (size, s) ↔
      s.IsAttached ∧ size = s.blanks.length + 3 ∧ ∃ rest, cs = s.text ++ rest := by
  constructor
  · intro h
    cases cs with
    | nil => cases h
    | cons before cs =>
      rw [attachedSign] at h
      split at h
      · cases h
      · rename_i front
        simp only [Bool.or_eq_true, beq_iff_eq, not_or, Bool.not_eq_true] at front
        dsimp only at h
        split at h
        · rename_i sign target rest whole
          split at h
          · rename_i found
            cases h
            simp only [Bool.and_eq_true, Bool.or_eq_true, beq_iff_eq] at found
            refine ⟨⟨front, fun b hb => List.mem_takeWhile_imp hb, found.1, found.2⟩, rfl, rest, ?_⟩
            simp [AttachedSign.text, ← whole]
          · cases h
        · cases h
  · rintro ⟨⟨front, blanks, sign, target⟩, rfl, rest, rfl⟩
    have stop := sign.not_isBlank
    have signs : (s.sign == '+' || s.sign == '-') = true := by simpa [IsSign] using sign
    have targets : (s.target.isDigit || s.target == '(') = true := by simpa using target
    simp [AttachedSign.text, attachedSign, front, List.takeWhile_append_of_pos blanks,
      List.dropWhile_append_of_pos blanks, stop, signs, targets]

theorem attachedSign_eq_none {cs : List Char}
    (h : ∀ s : AttachedSign, s.IsAttached → ∀ rest, cs ≠ s.text ++ rest) :
    attachedSign cs = none := by
  cases found : attachedSign cs with
  | none => rfl
  | some whole =>
    obtain ⟨size, s⟩ := whole
    obtain ⟨attached, _, rest, same⟩ := attachedSign_eq_some_iff.mp found
    exact absurd same (h s attached rest)

theorem respellSigns_attached {s : AttachedSign} (attached : s.IsAttached) (rest : List Char) :
    respellSigns (s.text ++ rest) = s.respell ++ respellSigns rest := by
  have found := attachedSign_eq_some_iff.mpr ⟨attached, rfl, rest, rfl⟩
  rw [respellSigns, AttachedSign.text, List.cons_append]
  rw [AttachedSign.text, List.cons_append] at found
  rw [Pattern.replaceAll_some found]
  simp [respellSigns]

theorem respellSigns_cons {c : Char} {cs : List Char} (h : attachedSign (c :: cs) = none) :
    respellSigns (c :: cs) = c :: respellSigns cs :=
  Pattern.replaceAll_none h _

/-- A sign behind an opening parenthesis is not looked at. -/
theorem respellSigns_opening (cs : List Char) :
    respellSigns ('(' :: cs) = '(' :: respellSigns cs := by
  refine respellSigns_cons (attachedSign_eq_none fun s attached rest same => ?_)
  exact attached.before.2 (List.cons.inj same).1.symm

theorem respellSigns_singleton (c : Char) : respellSigns [c] = [c] := by
  refine respellSigns_cons (attachedSign_eq_none fun s _ rest same => ?_)
  simp [AttachedSign.text] at same

/-- The first character stays in front, alone or with a sign that is attached behind it. -/
theorem respellSigns_cons_cases (c : Char) (cs : List Char) :
    respellSigns (c :: cs) = c :: respellSigns cs ∨
      ∃ (s : AttachedSign) (rest : List Char), s.IsAttached ∧ c :: cs = s.text ++ rest ∧
        respellSigns (c :: cs) = s.respell ++ respellSigns rest := by
  cases found : attachedSign (c :: cs) with
  | none => exact .inl (respellSigns_cons found)
  | some whole =>
    obtain ⟨size, s⟩ := whole
    obtain ⟨attached, _, rest, same⟩ := attachedSign_eq_some_iff.mp found
    exact .inr ⟨s, rest, attached, same, by rw [same, respellSigns_attached attached]⟩

theorem head?_respellSigns (cs : List Char) : (respellSigns cs).head? = cs.head? := by
  cases cs with
  | nil => rfl
  | cons c cs =>
    rcases respellSigns_cons_cases c cs with kept | ⟨s, rest, _, same, moved⟩
    · rw [kept, List.head?_cons, List.head?_cons]
    · rw [moved, same, AttachedSign.respell, AttachedSign.text]
      split <;> rfl

theorem exists_of_respellSigns {cs rest : List Char} {c : Char}
    (whole : respellSigns cs = c :: rest) : ∃ others, cs = c :: others := by
  have first := head?_respellSigns cs
  rw [whole, List.head?_cons] at first
  exact List.head?_eq_some_iff.mp first.symm

theorem ends_respellSigns {cs : List Char} (ends : Ends cs) : Ends (respellSigns cs) := by
  intro c rest whole
  obtain ⟨others, rfl⟩ := exists_of_respellSigns whole
  exact ends c others rfl

theorem unmarked_respellSigns {cs : List Char} (unmarked : Unmarked cs) :
    Unmarked (respellSigns cs) := by
  intro c rest whole
  obtain ⟨others, rfl⟩ := exists_of_respellSigns whole
  exact unmarked c others rfl

theorem respellSigns_blanks {blanks : List Char} (blank : ∀ b ∈ blanks, isBlank b = true)
    (cs : List Char) : respellSigns (blanks ++ cs) = blanks ++ respellSigns cs := by
  induction blanks with
  | nil => rfl
  | cons b blanks ih =>
    obtain ⟨first, others⟩ := List.forall_mem_cons.mp blank
    rw [List.cons_append, List.cons_append, ← ih others]
    refine respellSigns_cons (attachedSign_eq_none fun s attached rest same => ?_)
    have front := attached.before.1
    rw [← (List.cons.inj same).1, first] at front
    cases front

/-- Whether a sign stands behind the first character shows in what comes next. -/
theorem respellSigns_cons_cons (c : Char) {d : Char} (blank : isBlank d = false)
    (sign : ¬ IsSign d) (cs : List Char) :
    respellSigns (c :: d :: cs) = c :: respellSigns (d :: cs) := by
  refine respellSigns_cons (attachedSign_eq_none fun s attached rest same => ?_)
  obtain ⟨-, same⟩ := List.cons.inj same
  cases blanks : s.blanks with
  | nil =>
    rw [blanks] at same
    exact sign ((List.cons.inj same).1 ▸ attached.sign)
  | cons b others =>
    rw [blanks] at same
    have first := attached.blanks b (by simp [blanks])
    rw [← (List.cons.inj same).1, blank] at first
    cases first

/-- Without blanks and signs a text is left as it is, up to its last character. -/
theorem respellSigns_append {init : List Char} {last : Char}
    (inner : ∀ c ∈ init ++ [last], isBlank c = false ∧ ¬ IsSign c) (rest : List Char) :
    respellSigns (init ++ last :: rest) = init ++ respellSigns (last :: rest) := by
  induction init with
  | nil => rfl
  | cons c init ih =>
    obtain ⟨-, inner⟩ := List.forall_mem_cons.mp inner
    obtain ⟨d, others, next⟩ : ∃ d others, init ++ last :: rest = d :: others :=
      List.exists_cons_of_ne_nil (by simp)
    have member : d ∈ init ++ [last] := by
      cases init with
      | nil => simp [(List.cons.inj next).1]
      | cons e init => simp [(List.cons.inj next).1]
    obtain ⟨blank, sign⟩ := inner d member
    rw [List.cons_append, List.cons_append, ← ih inner, next,
      respellSigns_cons_cons c blank sign]

/-- The second character does not make an attached sign of the first one. -/
def Apart (sign target : Char) : Prop := IsSign sign → target.isDigit = false ∧ target ≠ '('

/-- Signs that stand apart stay. The first character has nothing in front. -/
theorem respellSigns_eq_self {cs : List Char} (apart : cs.tail.IsChain Apart) :
    respellSigns cs = cs := by
  induction cs with
  | nil => rfl
  | cons c cs ih =>
    rw [List.tail_cons] at apart
    rw [respellSigns_cons, ih apart.tail]
    refine attachedSign_eq_none fun s attached rest same => ?_
    have behind : cs = s.blanks ++ (s.sign :: s.target :: rest) := by
      simpa [AttachedSign.text] using (List.cons.inj same).2
    rw [behind, List.isChain_append] at apart
    obtain ⟨digit, opening⟩ := (List.isChain_cons_cons.mp apart.2.1).1 attached.sign
    rcases attached.target with target | target
    · rw [digit] at target
      cases target
    · exact opening target

end UnitArith.Text
