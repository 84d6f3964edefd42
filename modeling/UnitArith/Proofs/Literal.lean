import UnitArith.Proofs.Decimal
import UnitArith.Proofs.Term.Representation
import UnitArith.Proofs.Token.Spelling
import UnitArith.Reduce

/-! A number directly followed by a unit. The text is read in small letters, and the units in a
list of allowed ones are compared as they are spelled there, so capitals in a list are never met. -/
namespace UnitArith

namespace Text

/-- A percent sign, or letters in either case. -/
def UnitLetters (unit : String) : Prop := unit = "%" ∨ ∀ c ∈ unit.toList, c.isAlpha = true

theorem lowerChar_eq_toLower {c : Char} (ascii : c.toNat < 128) : lowerChar c = c.toLower := by
  by_cases upper : c.isUpper = true
  · rw [lowerChar_of_isUpper upper, Char.toLower_eq_of_isUpper upper]
  · rw [lowerChar_of_ascii ascii (by simpa using upper), Char.toLower_eq_of_not_isUpper upper]

theorem toLower_eq_self {s : String} (small : ∀ c ∈ s.toList, c.isUpper = false) :
    s.toLower = s := by
  have same : ∀ c ∈ s.toList, c.toLower = c := fun c hc =>
    Char.toLower_eq_of_not_isUpper (by simp [small c hc])
  rw [← String.toList_inj, String.toLower, String.toList_map]
  exact (List.map_congr_left same).trans (List.map_id _)

variable {unit : String}

theorem UnitLetters.ascii (letters : UnitLetters unit) : ∀ c ∈ unit.toList, c.toNat < 128 := by
  intro c hc
  rcases letters with rfl | alpha
  · obtain rfl : c = '%' := by simpa using hc
    decide
  · have alpha := alpha c hc
    rw [Char.isAlpha, Bool.or_eq_true, isUpper_iff, isLower_iff] at alpha
    omega

theorem UnitLetters.unitText (letters : UnitLetters unit) : UnitText unit.toLower.toList := by
  rw [String.toLower, String.toList_map]
  rcases letters with rfl | alpha
  · exact .inl (by decide)
  · refine .inr fun c hc => ?_
    obtain ⟨d, hd, rfl⟩ := List.mem_map.mp hc
    rw [Char.isLower_toLower_eq_isAlpha, alpha d hd]

theorem UnitLetters.map_lowerChar (letters : UnitLetters unit) :
    unit.toList.map lowerChar = unit.toLower.toList := by
  rw [String.toLower, String.toList_map]
  exact List.map_congr_left fun c hc => lowerChar_eq_toLower (letters.ascii c hc)

/-- The number stays as it is, its sign included, and the unit is put in small letters. -/
theorem normalize_literal {signs marks : List Char}
    (signed : signs = [] ∨ signs = ['+'] ∨ signs = ['-'])
    (digits : ∀ c ∈ marks, Decimal.isMark c = true) (letters : UnitLetters unit) :
    normalize (String.ofList (signs ++ marks) ++ unit) =
      String.ofList (signs ++ marks ++ unit.toLower.toList) := by
  have sign : ∀ c ∈ signs, c.toNat < 128 ∧ c.isUpper = false := by
    rcases signed with rfl | rfl | rfl
    · exact List.forall_mem_nil _
    · exact List.forall_mem_singleton.mpr (by decide)
    · exact List.forall_mem_singleton.mpr (by decide)
  have mark : ∀ c ∈ marks, InOperand c := fun c hc => .inl (digits c hc)
  have simple : ∀ c ∈ signs ++ marks ++ unit.toList, Simple c := by
    intro c hc
    rcases List.mem_append.mp hc with number | letter
    · rcases List.mem_append.mp number with hc | hc
      · exact simple_of_ascii (sign c hc).1
      · exact simple_of_ascii (mark c hc).ascii.1
    · exact simple_of_ascii (letters.ascii c letter)
  have body : (marks ++ unit.toLower.toList).IsChain Apart := by
    have inOperand := List.forall_mem_append.mpr ⟨mark, letters.unitText.inOperand⟩
    have whole := Token.isChain_append inOperand .nil
    rwa [List.append_nil] at whole
  have apart : (signs ++ marks ++ unit.toLower.toList).tail.IsChain Apart := by
    rw [List.append_assoc]
    rcases signed with rfl | rfl | rfl
    · exact body.tail
    · exact body
    · exact body
  rw [normalize, String.toList_append, String.toList_ofList, lower_eq_map simple, List.map_append,
    List.map_append, map_lowerChar_eq_self fun c hc => lowerChar_of_ascii (sign c hc).1 (sign c hc).2,
    map_lowerChar_eq_self fun c hc => (mark c hc).lowerChar, letters.map_lowerChar,
    respellSigns_eq_self apart]

end Text

namespace Token

open Text (Cursor isBlank)

variable {α : Type} [Number α] {units : AllowedUnits} {signs marks letters : List Char} {value : α}

/-- Nothing is read behind a unit that is not allowed, wherever it stands. -/
theorem readRest_unsupported (p : Progress α) {c : Cursor} {blanks tail : List Char}
    (blank : ∀ b ∈ blanks, isBlank b = true)
    (signed : signs = [] ∨ signs = ['+'] ∨ signs = ['-']) (nonempty : marks ≠ [])
    (digits : ∀ c ∈ marks, Decimal.isMark c = true)
    (numeral : Number.read? (signs ++ marks) = some value) (valid : Text.UnitText letters)
    (refused : units.accepts (String.ofList letters) = false) (ends : Text.Ends tail)
    (whole : c.rest = blanks ++ (signs ++ marks ++ letters ++ tail)) :
    (readRest units p c).1 =
      .error (.unsupportedUnit (String.ofList letters) (units.getD [])) := by
  -- Where a token ends does not depend on the units that are allowed.
  obtain ⟨first, others, begins, visible⟩ := Stands.exists_cons
    (.operand signed nonempty digits numeral valid (rfl : AllowedUnits.accepts none _ = true) ends)
  have start : c.skipBlanks.rest = signs ++ marks ++ letters ++ tail := by
    refine rest_skipBlanks blank (fun d rest same => ?_) whole
    rw [begins] at same
    exact (List.cons.inj same).1 ▸ visible
  have failed : (read (α := α) units c.skipBlanks).1 =
      .error (.unsupportedUnit (String.ofList letters) (units.getD [])) := by
    have found := Text.Pattern.operand_append signed nonempty digits valid ends
    simp only [read, Cursor.read, start, found, ofOperand, numeral, refused, Bool.false_eq_true,
      if_false]
  have more : c.skipBlanks.rest ≠ [] := by simp [start, nonempty]
  rw [readRest, dif_neg more]
  simp only [failed]

/-- A text of one operand is read as that operand, unless its unit is not allowed. -/
theorem ofText_literal (units : AllowedUnits)
    (signed : signs = [] ∨ signs = ['+'] ∨ signs = ['-']) (nonempty : marks ≠ [])
    (digits : ∀ c ∈ marks, Decimal.isMark c = true)
    (numeral : Number.read? (signs ++ marks) = some value) (valid : Text.UnitText letters) :
    ofText units (String.ofList (signs ++ marks ++ letters)) =
      if units.accepts (String.ofList letters) then
        .ok [.quantity (.of value (String.ofList letters))]
      else .error (.unsupportedUnit (String.ofList letters) (units.getD [])) := by
  cases accepted : units.accepts (String.ofList letters) with
  | true =>
    let e : Grammar.Sum α := .product (.factor (.quantity (.of value (String.ofList letters))))
    have stands := Stands.operand signed nonempty digits numeral valid accepted Text.ends_nil
    have written : Written units e.tokens (String.ofList (signs ++ marks ++ letters)).toList [] := by
      have alone := Written.cons (List.forall_mem_nil _) stands (.nil [])
      rw [String.toList_ofList]
      rwa [List.append_nil, List.nil_append] at alone
    exact ofText_of_written written
  | false =>
    have whole : (Cursor.ofText (String.ofList (signs ++ marks ++ letters))).rest =
        [] ++ (signs ++ marks ++ letters ++ []) := by
      simp [Cursor.ofText]
    exact readRest_unsupported .start (List.forall_mem_nil _) signed nonempty digits numeral valid
      accepted Text.ends_nil whole

end Token

theorem Term.ofText_literal {α : Type} [Number α] (units : AllowedUnits)
    {signs marks : List Char} (signed : signs = [] ∨ signs = ['+'] ∨ signs = ['-'])
    (nonempty : marks ≠ []) (digits : ∀ c ∈ marks, Decimal.isMark c = true) {value : α}
    (numeral : Number.read? (signs ++ marks) = some value) {unit : String}
    (letters : Text.UnitLetters unit) :
    ofText units (Text.normalize (String.ofList (signs ++ marks) ++ unit)) =
      if units.accepts unit.toLower then .ok (some (.quantity (.of value unit.toLower)))
      else .error (.lex (.unsupportedUnit unit.toLower (units.getD []))) := by
  rw [Text.normalize_literal signed digits letters, ofText,
    Token.ofText_literal units signed nonempty digits numeral letters.unitText,
    String.ofList_toList]
  cases units.accepts unit.toLower <;> rfl

/-- A number with a listed unit is reduced to this one quantity in small letters, when the list
has the unit in small letters, and is refused otherwise. So a listed unit without capitals can
always be used. -/
theorem reduce_literal {list : List String} {unit : String} (entry : unit ∈ list)
    (letters : Text.UnitLetters unit) {signs : List Char}
    (signed : signs = [] ∨ signs = ['+'] ∨ signs = ['-']) (numeral : Decimal.Numeral)
    {value : Float} (meaning : Number.withSign signs (Number.ofDecimal numeral.decimal) = value)
    (nonzero : Number.isZero value = false) (quiet : Bool) :
    let text := String.ofList (signs ++ numeral.text) ++ unit
    (unit.toLower ∈ list → ∃ q : Quantity Float, q.value = value ∧ q.unit = unit.toLower ∧
      Term.ofText (some list) (Text.normalize text) = .ok (some (.quantity q)) ∧
      reduce ⟨.only list, quiet⟩ text = .ok (some q.text)) ∧
    (unit.toLower ∉ list → reduce ⟨.only list, quiet⟩ text =
      if quiet then .ok none else .error (.lex (.unsupportedUnit unit.toLower list))) ∧
    ((∀ c ∈ unit.toList, c.isUpper = false) → unit.toLower ∈ list) := by
  intro text
  have number := (Number.read?_eq_some_iff signed numeral.text_ne_nil numeral.isMark_of_mem_text).mpr
    ⟨numeral, rfl, meaning⟩
  have read := Term.ofText_literal (some list) signed numeral.text_ne_nil numeral.isMark_of_mem_text
    number letters
  have nonempty : text ≠ "" := by
    intro none
    have none := congrArg String.toList none
    simp [text, numeral.text_ne_nil] at none
  refine ⟨fun listed => ?_, fun absent => ?_, fun small => ?_⟩
  · have accepted : AllowedUnits.accepts (some list) unit.toLower = true := by
      simp [AllowedUnits.accepts, listed]
    rw [accepted, if_pos rfl] at read
    refine ⟨.of value unit.toLower, Quantity.value_of nonzero _, Quantity.unit_of nonzero _, read, ?_⟩
    simp only [reduce, nonempty, if_false, Options.allowedUnits, UnitSetting.allowed, text, read]
    rfl
  · have present : unit.toLower ≠ "" := by
      intro none
      exact absent (by rwa [none, ← String.map_eq_empty.mp none])
    have refused : AllowedUnits.accepts (some list) unit.toLower = false := by
      simp [AllowedUnits.accepts, absent, present]
    rw [refused, if_neg Bool.false_ne_true] at read
    simp only [reduce, nonempty, if_false, Options.allowedUnits, UnitSetting.allowed, text, read]
    rfl
  · rwa [Text.toLower_eq_self small]

/-- The list has the unit in both spellings, and the small one is what is met. -/
theorem reduce_literal_small :
    let numeral : Decimal.Numeral :=
      ⟨['0', '0', '7'], some ['5', '0'], List.all_eq_true.mp rfl, by decide⟩
    reduce ⟨.only ["Rem", "px", "rem"], false⟩ (String.ofList ('-' :: numeral.text) ++ "Rem") =
      .ok (some "-7.5rem") := by
  intro numeral
  have entry : "Rem" ∈ ["Rem", "px", "rem"] := by decide
  have letters : Text.UnitLetters "Rem" := .inr (List.all_eq_true.mp rfl)
  obtain ⟨listed, _, _⟩ :=
    reduce_literal entry letters (.inr (.inr rfl)) numeral rfl (by decide +kernel) false
  obtain ⟨q, value, unit, _, reduced⟩ := listed (by decide +kernel)
  have same : q = .of (-7.5) "rem" :=
    Quantity.ext (value.trans (by decide +kernel)) (unit.trans (by decide +kernel))
  rw [same] at reduced
  exact reduced.trans (by decide +kernel)

/-- A unit that is listed with a capital only cannot be used. -/
theorem reduce_literal_capital :
    ¬ ∀ (list : List String) (unit : String) (numeral : Decimal.Numeral),
      let value : Float := Number.ofDecimal numeral.decimal
      let text := String.ofList numeral.text ++ unit
      unit ∈ list → Text.UnitLetters unit → value.isFinite = true → Number.isZero value = false →
        ∃ q : Quantity Float, q.value = value ∧ q.unit.toLower = unit.toLower ∧
          Term.ofText (some list) (Text.normalize text) = .ok (some (.quantity q)) ∧
          reduce ⟨.only list, false⟩ text = .ok (some q.text) := by
  intro h
  let five : Decimal.Numeral := ⟨['5'], none, List.all_eq_true.mp rfl, by decide⟩
  have refused : reduce ⟨.only ["PX"], false⟩ (String.ofList five.text ++ "PX") =
      .error (.lex (.unsupportedUnit "px" ["PX"])) := by
    decide +kernel
  obtain ⟨q, _, _, _, reduced⟩ :=
    h ["PX"] "PX" five (by decide) (.inr (List.all_eq_true.mp rfl)) (by decide +kernel) (by decide +kernel)
  rw [refused] at reduced
  cases reduced

end UnitArith
