import UnitArith.Proofs.Number.Double
import UnitArith.Proofs.Plain.Edit
import UnitArith.Proofs.Text.LowerCase
import UnitArith.Proofs.Text.Normal
import UnitArith.Text.Normal

/-! The normal spelling of a text that has a value has a value too. It is the same value unless
a group behind a division is negated: the division applies to the factor that the sign becomes,
and the group is multiplied. -/
namespace UnitArith.Plain

open Text (isBlank lowerChar Simple respellSigns)
open Text.Pattern (attachedSign AttachedSign)
open Decimal (isMark)

/-- A minus comes next and stands right before a group. -/
def negatesGroup (cs : List Char) : Bool :=
  match cs.dropWhile isBlank with
  | '-' :: '(' :: _ => true
  | _ => false

/-- Somewhere in a text that begins at `place`, a group is negated behind an operator that is a
division or belongs to its divisor. -/
def negatesDivisor (place : Place) : List Char → Bool
  | [] => false
  | c :: cs =>
    (Operator.ofChar? c).isSome && decide (place.afterChar c = .divisor) && negatesGroup cs ||
      negatesDivisor (place.afterChar c) cs

theorem negatesDivisor_behind {place : Place} (front : List Char) {cs : List Char}
    (h : negatesDivisor place (front ++ cs) = false) :
    negatesDivisor (front.foldl Place.afterChar place) cs = false := by
  induction front generalizing place with
  | nil => exact h
  | cons c front ih =>
    rw [List.cons_append, negatesDivisor, Bool.or_eq_false_iff] at h
    exact ih h.2

theorem negatesGroup_iff {cs : List Char} :
    negatesGroup cs = true ↔
      ∃ blanks after, cs = blanks ++ '-' :: '(' :: after ∧ ∀ b ∈ blanks, isBlank b = true := by
  constructor
  · intro h
    rw [negatesGroup] at h
    split at h
    · rename_i after whole
      exact ⟨cs.takeWhile isBlank, after, by rw [← whole, List.takeWhile_append_dropWhile],
        fun b member => List.mem_takeWhile_imp member⟩
    · cases h
  · rintro ⟨blanks, after, rfl, blank⟩
    rw [negatesGroup, List.dropWhile_append_of_pos blank]
    rfl

section Respelling

variable {intact : Prop}

theorem afterChar_target {s : AttachedSign} (attached : s.IsAttached) (place : Place) :
    place.afterChar s.target = .free := by
  rcases attached.target with digit | opening
  · exact place.afterChar_mark (by simp [isMark, digit])
  · rw [opening]
    rfl

theorem foldl_text {s : AttachedSign} (attached : s.IsAttached) (place : Place) :
    s.text.foldl Place.afterChar place = .free := by
  have last : s.text = (s.before :: (s.blanks ++ [s.sign])) ++ [s.target] := by
    simp [AttachedSign.text]
  rw [last, List.foldl_append, List.foldl_cons, List.foldl_nil, afterChar_target attached]

theorem edited_target {s : AttachedSign} (attached : s.IsAttached) (place : Place)
    {a b : List Char} (h : Edited intact .free a b) :
    Edited intact place (s.target :: a) (s.target :: b) :=
  .keep s.target (by rwa [afterChar_target attached])

theorem edited_sign {s : AttachedSign} (attached : s.IsAttached) {place : Place}
    (behind : place ≠ .free)
    (whole : intact → s.sign = '-' → s.target = '(' → place ≠ .divisor) {a b : List Char}
    (h : Edited intact .free a b) :
    Edited intact place (s.sign :: s.target :: a)
      ((if s.sign == '+' then []
        else if s.target == '(' then ['-', '1', ' ', '*', ' ']
        else [s.sign]) ++ s.target :: b) := by
  have target (p : Place) := edited_target attached p h
  rcases attached.sign with plus | minus
  · rw [plus]
    exact .plus behind (target place)
  · by_cases opening : s.target = '('
    · rw [minus, opening]
      exact .factor behind (fun h => whole h minus opening) h
    · rw [minus]
      simpa [opening] using Edited.keep '-' (target _)

theorem edited_attached {s : AttachedSign} (attached : s.IsAttached) {place : Place}
    {a b : List Char} (whole : intact → negatesDivisor place (s.text ++ a) = false)
    (h : Edited intact .free a b) : Edited intact place (s.text ++ a) (s.respell ++ b) := by
  cases known : Operator.ofChar? s.before with
  | none =>
    -- the sign stays, and with it in front a blank does no harm
    obtain ⟨op, sign⟩ := attached.sign.exists_operator
    have target (p : Place) (behind : p ≠ .free) :
        Edited intact p (s.target :: a) (' ' :: s.target :: b) :=
      .gap behind (edited_target attached p h)
    have signed (p : Place) :
        Edited intact p (s.sign :: s.target :: a) (s.sign :: ' ' :: s.target :: b) :=
      .keep s.sign (target _ (by rw [p.afterChar_operator sign]; exact p.after_ne_free op))
    simpa [AttachedSign.text, AttachedSign.respell, known] using
      Edited.keep s.before (.blanks attached.blanks (signed _))
  | some op =>
    have behind := place.after_ne_free op
    have divisor : intact → s.sign = '-' → s.target = '(' → place.after op ≠ .divisor := by
      intro h minus opening same
      have group : negatesGroup (s.blanks ++ '-' :: '(' :: a) = true :=
        negatesGroup_iff.mpr ⟨s.blanks, a, rfl, attached.blanks⟩
      simpa [AttachedSign.text, minus, opening, negatesDivisor, known,
        place.afterChar_operator known, same, group] using whole h
    have signed := edited_sign attached behind divisor h
    rw [← place.afterChar_operator known] at behind signed
    cases empty : s.blanks.isEmpty with
    | true =>
      have none : s.blanks = [] := List.isEmpty_iff.mp empty
      simpa [AttachedSign.text, AttachedSign.respell, known, none] using
        Edited.keep s.before (.gap behind signed)
    | false =>
      simpa [AttachedSign.text, AttachedSign.respell, known, empty] using
        Edited.keep s.before (.blanks attached.blanks signed)

/-- A match takes several characters at once, so the induction is on the length. -/
theorem edited_respellSigns {place : Place} (cs : List Char)
    (whole : intact → negatesDivisor place cs = false) :
    Edited intact place cs (respellSigns cs) := by
  cases cs with
  | nil => exact .nil
  | cons c cs =>
    rcases Text.respellSigns_cons_cases c cs with kept | ⟨s, rest, attached, same, moved⟩
    · rw [kept]
      exact .keep c (edited_respellSigns cs fun h => negatesDivisor_behind [c] (whole h))
    · have shorter : rest.length < (c :: cs).length := by
        rw [same, AttachedSign.text]
        simp only [List.length_append, List.length_cons]
        omega
      rw [moved]
      rw [same] at whole ⊢
      refine edited_attached attached whole (edited_respellSigns rest fun h => ?_)
      rw [← foldl_text attached place]
      exact negatesDivisor_behind s.text (whole h)
termination_by cs.length

end Respelling

section LowerCase

/-- In lower case a unit stays a unit, and nothing else changes. -/
def Kept (c : Char) : Prop :=
  lowerChar c = c ∨ isUnitChar c = true ∧ isUnitChar (lowerChar c) = true

theorem isUnitChar_lowerChar {c : Char} (unit : isUnitChar c = true) :
    isUnitChar (lowerChar c) = true := by
  have table : ∀ n < 128, isUnitChar (Char.ofNat n) = true →
      isUnitChar (lowerChar (Char.ofNat n)) = true := by
    decide +kernel
  by_cases small : c.toNat < 128
  · have ascii := table c.toNat small
    rw [Char.ofNat_toNat] at ascii
    exact ascii unit
  · have others : c = 'ſ' ∨ c = '\u212a' := by
      rw [isUnitChar_iff] at unit
      rw [← Char.toNat_inj, ← Char.toNat_inj]
      simp
      omega
    rcases others with rfl | rfl <;> decide +kernel

theorem simple_of_isUnitChar {c : Char} (unit : isUnitChar c = true) : Simple c := by
  constructor <;> rintro rfl <;> cases unit

theorem kept_of_symbols? {α : Type} [Number α] {cs : List Char} {symbols : List (Symbol α)}
    (cut : symbols? (withoutUnits cs) = some symbols) : ∀ c ∈ cs, Simple c ∧ Kept c := by
  intro c member
  cases unit : isUnitChar c with
  | true => exact ⟨simple_of_isUnitChar unit, .inr ⟨unit, isUnitChar_lowerChar unit⟩⟩
  | false =>
    have left : c ∈ withoutUnits cs := List.mem_filter.mpr ⟨member, by simp [unit]⟩
    rcases of_symbols? cut c left with blank | mark | ⟨symbol, known⟩
    · exact ⟨Text.simple_of_isBlank blank, .inl (Text.lowerChar_of_isBlank blank)⟩
    · have operand : Text.InOperand c := .inl mark
      exact ⟨Text.simple_of_ascii operand.ascii.1, .inl operand.lowerChar⟩
    · have punctuation := Text.isPunctuation_of_eq_some known
      exact ⟨punctuation.simple, .inl punctuation.lowerChar⟩

theorem withoutUnits_lower {cs : List Char} (kept : ∀ c ∈ cs, Kept c) :
    withoutUnits (cs.map lowerChar) = withoutUnits cs := by
  induction cs with
  | nil => rfl
  | cons c cs ih =>
    obtain ⟨first, others⟩ := List.forall_mem_cons.mp kept
    rw [List.map_cons, withoutUnits, withoutUnits, List.filter_cons, List.filter_cons]
    rcases first with same | ⟨unit, small⟩
    · rw [same, ← withoutUnits, ← withoutUnits, ih others]
    · simpa [unit, small, withoutUnits] using ih others

theorem Kept.afterChar {c : Char} (kept : Kept c) (place : Place) :
    place.afterChar (lowerChar c) = place.afterChar c := by
  rcases kept with same | ⟨unit, small⟩
  · rw [same]
  · rw [Place.afterChar_skipped (.inr unit), Place.afterChar_skipped (.inr small)]

/-- Small letters are no operators, blanks or parentheses. -/
theorem Kept.eq {c : Char} (kept : Kept c) (h : isUnitChar (lowerChar c) = false) :
    lowerChar c = c := by
  rcases kept with same | ⟨_, small⟩
  · exact same
  · rw [h] at small
    cases small

theorem negatesGroup_lower {cs : List Char} (kept : ∀ c ∈ cs, Kept c)
    (h : negatesGroup (cs.map lowerChar) = true) : negatesGroup cs = true := by
  rw [negatesGroup_iff] at h ⊢
  obtain ⟨blanks, after, whole, blank⟩ := h
  obtain ⟨front, others, rfl, rfl, negated⟩ := List.map_eq_append_iff.mp whole
  obtain ⟨m, others, rfl, minus, group⟩ := List.map_eq_cons_iff.mp negated
  obtain ⟨o, back, rfl, opening, -⟩ := List.map_eq_cons_iff.mp group
  have sign := (kept m (by simp)).eq (by rw [minus]; rfl)
  have bracket := (kept o (by simp)).eq (by rw [opening]; rfl)
  refine ⟨front, back, by rw [← sign, ← bracket, minus, opening], fun b member => ?_⟩
  have small := blank (lowerChar b) (List.mem_map_of_mem member)
  rwa [(kept b (by simp [member])).eq (not_of_isBlank small).1] at small

theorem negatesDivisor_lower {cs : List Char} (kept : ∀ c ∈ cs, Kept c) {place : Place}
    (h : negatesDivisor place cs = false) : negatesDivisor place (cs.map lowerChar) = false := by
  induction cs generalizing place with
  | nil => rfl
  | cons c cs ih =>
    obtain ⟨first, others⟩ := List.forall_mem_cons.mp kept
    rw [negatesDivisor, Bool.or_eq_false_iff] at h
    obtain ⟨here, behind⟩ := h
    rw [List.map_cons, negatesDivisor, first.afterChar, ih others behind, Bool.or_false]
    cases known : Operator.ofChar? (lowerChar c) with
    | none => rfl
    | some op =>
      rw [← first.eq (not_of_operator known).1, known] at here
      rw [first.afterChar] at here
      cases group : negatesGroup (cs.map lowerChar) with
      | false => exact Bool.and_false _
      | true => rwa [negatesGroup_lower others group] at here

end LowerCase

/-- Normalization keeps that a text has a value, and the value itself, as long as no divisor is
negated. -/
theorem evaluate_normalize {text : String} {value : Float} (h : evaluate text = some value) :
    ∃ value', evaluate (Text.normalize text) = some value' ∧
      (negatesDivisor .free text.toList = false → value' = value) := by
  have one : Number.ofDecimal ⟨1, 0⟩ = (1 : Float) := by decide +kernel
  obtain ⟨symbols, cut, read⟩ := Option.bind_eq_some_iff.mp h
  have kept := kept_of_symbols? cut
  have lower : Text.lower text.toList = text.toList.map lowerChar :=
    Text.lower_eq_map fun c member => (kept c member).1
  have bare := withoutUnits_lower fun c member => (kept c member).2
  have edited : Edited (negatesDivisor .free text.toList = false) .free
      (text.toList.map lowerChar) (respellSigns (text.toList.map lowerChar)) :=
    edited_respellSigns _ (negatesDivisor_lower fun c member => (kept c member).2)
  obtain ⟨out, cut, respelled⟩ := edited.withoutUnits.symbols? one (by rw [bare, cut])
  obtain ⟨value', read, same⟩ := respelled.value? read
  refine ⟨value', ?_, same⟩
  rw [evaluate, Text.normalize, String.toList_ofList, lower, cut, Option.bind_some, read]

theorem evaluate_normalize_negated :
    evaluate "3 / (1PX - -2) * -(4 + +-5)" = some (1 : Float) ∧
      Text.normalize "3 / (1PX - -2) * -(4 + +-5)" = "3 / (1px - -2) * -1 * (4 + + -5)" ∧
      evaluate "3 / (1px - -2) * -1 * (4 + + -5)" = some (1 : Float) := by
  have read : evaluate "3 / (1PX - -2) * -(4 + +-5)" = some (1 : Float) := by decide +kernel
  have normal : Text.normalize "3 / (1PX - -2) * -(4 + +-5)" =
      "3 / (1px - -2) * -1 * (4 + + -5)" := by
    decide +kernel
  obtain ⟨value, again, same⟩ := evaluate_normalize read
  rw [normal, same (by decide +kernel)] at again
  exact ⟨read, normal, again⟩

/-- The normal spelling is `2 / -1 * (4)`. -/
theorem evaluate_normalize_divisor :
    ¬ ∀ (text : String) (value : Float), evaluate text = some value →
      evaluate (Text.normalize text) = some value := by
  intro h
  have read : evaluate "2 / -(4)" = some (-0.5 : Float) := by decide +kernel
  have again : evaluate (Text.normalize "2 / -(4)") = some (-8 : Float) := by decide +kernel
  have same := h _ _ read
  rw [again] at same
  exact absurd same (by decide +kernel)

end UnitArith.Plain
