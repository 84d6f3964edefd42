import UnitArith.Proofs.Term.Representation
import UnitArith.Reduce

/-! Lists of allowed units only filter. A smaller list stops the reading at an operand whose unit
it leaves out, and up to there nothing that is read or found wrong depends on the list. -/
namespace UnitArith

variable {α β γ : Type} [Number α]

/-- What a result becomes under the list: it stays as it is, or a unit is not in the list. -/
inductive Filtered (list : List String) (result : Except (LexError α) β) :
    Except (LexError α) β → Prop
  | same : Filtered list result result
  | stopped {unit : String} (absent : unit ∉ list) :
      Filtered list result (.error (.unsupportedUnit unit list))

theorem Filtered.map {list : List String} {result listed : Except (LexError α) β}
    (h : Filtered list result listed) (f : β → γ) :
    Filtered list (result.map f) (listed.map f) := by
  cases h with
  | same => exact .same
  | stopped absent => exact .stopped absent

/-- Whatever the list allows is allowed, as the empty unit is everywhere. -/
def AllowedUnits.Cover (units : AllowedUnits) (list : List String) : Prop :=
  ∀ others, units = some others → list ⊆ others

theorem AllowedUnits.Cover.accepts {units : AllowedUnits} {list : List String}
    (cover : units.Cover list) {unit : String}
    (accepted : AllowedUnits.accepts (some list) unit = true) : units.accepts unit = true := by
  cases units with
  | none => rfl
  | some others =>
    have within := cover others rfl
    simp only [AllowedUnits.accepts, Bool.or_eq_true, beq_iff_eq, List.contains_iff_mem] at accepted ⊢
    exact accepted.imp_right fun member => within member

namespace Token

open Text (Cursor Lexeme Pattern)

variable {units : AllowedUnits} {list : List String}

theorem filtered_ofOperand (cover : units.Cover list) (lexeme : Lexeme Pattern.Operand) :
    Filtered list (ofOperand (α := α) units lexeme) (ofOperand (some list) lexeme) := by
  rw [ofOperand, ofOperand]
  cases Number.read? (α := α) lexeme.parts.number with
  | none => exact .same
  | some value =>
    cases listed : AllowedUnits.accepts (some list) (String.ofList lexeme.parts.unit) with
    | true =>
      simp only [cover.accepts listed, if_true]
      exact .same
    | false =>
      have absent : String.ofList lexeme.parts.unit ∉ list := by
        simp_all [AllowedUnits.accepts]
      simp only [Bool.false_eq_true, if_false]
      exact .stopped absent

/-- One step reads as far under the list, whether it fails or not. -/
theorem filtered_read (cover : units.Cover list) (c : Cursor) :
    Filtered list (read (α := α) units c).1 (read (some list) c).1 ∧
      (read (α := α) units c).2 = (read (α := α) (some list) c).2 := by
  rw [read, read]
  cases c.read Pattern.operand with
  | mk lexeme rest =>
    cases lexeme with
    | some lexeme => exact ⟨filtered_ofOperand cover lexeme, rfl⟩
    | none => exact ⟨.same, rfl⟩

/-- The steps up to the one that is stopped are the same, so an error in front of it stays and
one behind it is not met. -/
theorem filtered_readRest (cover : units.Cover list) (p : Progress α) (c : Cursor) :
    Filtered list (readRest units p c).1 (readRest (some list) p c).1 := by
  by_cases ended : c.skipBlanks.rest = []
  · rw [readRest, readRest, dif_pos ended, dif_pos ended]
    exact .same
  · have shorter : (read (α := α) units c.skipBlanks).2.rest.length < c.rest.length :=
      Nat.lt_of_lt_of_le (length_read_lt units ended) c.length_skipBlanks_le
    obtain ⟨first, behind⟩ := filtered_read (α := α) cover c.skipBlanks
    rw [readRest, readRest, dif_neg ended, dif_neg ended]
    dsimp only
    rw [← behind]
    generalize (read (α := α) (some list) c.skipBlanks).1 = listed at first ⊢
    cases first with
    | stopped absent => exact .stopped absent
    | same =>
      cases (read (α := α) units c.skipBlanks).1 with
      | error e => exact .same
      | ok token =>
        dsimp only
        cases p.advance token with
        | error e => exact .same
        | ok p' => exact (filtered_readRest cover p' _).map (token :: ·)
termination_by c.rest.length

end Token

/-- Under a list, an input is reduced as under every setting that allows at least as much, to the
same text or the same error, unless one of its units is not in the list. -/
theorem reduce_of_cover {narrow wider : UnitSetting} {list : List String}
    (listed : narrow.allowed = some list) (cover : wider.allowed.Cover list) (input : String) :
    (∃ unit, unit ∉ list ∧
      reduce ⟨narrow, false⟩ input = .error (.lex (.unsupportedUnit unit list))) ∨
    reduce ⟨narrow, false⟩ input = reduce ⟨wider, false⟩ input := by
  by_cases empty : input = ""
  · exact .inr (by simp [reduce, empty])
  · have tokens : Filtered list (Token.ofText (α := Float) wider.allowed (Text.normalize input))
        (Token.ofText narrow.allowed (Text.normalize input)) := by
      rw [listed]
      exact Token.filtered_readRest cover .start _
    simp only [reduce, empty, if_false, Options.allowedUnits, Term.ofText]
    generalize Token.ofText (α := Float) wider.allowed (Text.normalize input) = result at tokens ⊢
    generalize Token.ofText (α := Float) narrow.allowed (Text.normalize input) = found at tokens ⊢
    cases tokens with
    | same => exact .inr rfl
    | stopped absent => exact .inl ⟨_, absent, rfl⟩

/-- The unit behind the group that is closed once too often is not looked at. -/
theorem reduce_of_cover_unmatched :
    UnitSetting.allowed (.only ["px"]) = some ["px"] ∧
      UnitSetting.default.allowed.Cover ["px"] ∧
      reduce ⟨.only ["px"], false⟩ "2 * (1px - 3)) / 4vh" =
        reduce ⟨.default, false⟩ "2 * (1px - 3)) / 4vh" := by
  have listed : UnitSetting.allowed (.only ["px"]) = some ["px"] := rfl
  have cover : UnitSetting.default.allowed.Cover ["px"] := by
    rintro _ ⟨⟩
    decide
  have found : reduce ⟨.only ["px"], false⟩ "2 * (1px - 3)) / 4vh" =
      .error (.lex (.malformed .unbalanced)) := by
    decide +kernel
  refine ⟨listed, cover, (reduce_of_cover listed cover _).resolve_left ?_⟩
  rintro ⟨unit, _, stopped⟩
  rw [found] at stopped
  cases stopped

end UnitArith
