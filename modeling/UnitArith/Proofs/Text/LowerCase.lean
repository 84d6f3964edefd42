import UnitArith.Proofs.Text.Character
import UnitArith.Text.LowerCase

/-! Lower case one character at a time, which is all of it but for two letters. -/
namespace UnitArith.Text

/-- Its small form is a single character and does not depend on the text around it. -/
def Simple (c : Char) : Prop := c ≠ 'İ' ∧ c ≠ 'Σ'

theorem simple_of_ascii {c : Char} (small : c.toNat < 128) : Simple c := by
  constructor <;> rintro rfl <;> exact absurd small (by decide)

theorem simple_of_isBlank {c : Char} (blank : isBlank c = true) : Simple c := by
  constructor <;> rintro rfl <;> cases blank

theorem lowerAfter_eq_map {cs : List Char} (simple : ∀ c ∈ cs, Simple c) (before : List Char) :
    lowerAfter before cs = cs.map lowerChar := by
  induction cs generalizing before with
  | nil => rfl
  | cons c cs ih =>
    obtain ⟨⟨notDotted, notSigma⟩, others⟩ := List.forall_mem_cons.mp simple
    simp [lowerAfter, notDotted, notSigma, ih others]

theorem lower_eq_map {cs : List Char} (simple : ∀ c ∈ cs, Simple c) :
    lower cs = cs.map lowerChar :=
  lowerAfter_eq_map simple []

theorem map_lowerChar_eq_self {cs : List Char} (same : ∀ c ∈ cs, lowerChar c = c) :
    cs.map lowerChar = cs :=
  (List.map_congr_left same).trans (List.map_id cs)

theorem lower_eq_self {cs : List Char} (small : ∀ c ∈ cs, Simple c ∧ lowerChar c = c) :
    lower cs = cs := by
  rw [lower_eq_map fun c hc => (small c hc).1]
  exact map_lowerChar_eq_self fun c hc => (small c hc).2

theorem lowerChar_of_isUpper {c : Char} (upper : c.isUpper = true) :
    lowerChar c = Char.ofNat (c.toNat + 32) := by
  have table : ∀ n < 128, (Char.ofNat n).isUpper = true →
      lowerChar (Char.ofNat n) = Char.ofNat (n + 32) := by
    decide +kernel
  have small : c.toNat < 128 := by
    rw [isUpper_iff] at upper
    omega
  have same := table c.toNat small
  rw [Char.ofNat_toNat] at same
  exact same upper

theorem IsPunctuation.simple {c : Char} (h : IsPunctuation c) : Simple c :=
  simple_of_ascii h.ascii.1

theorem IsPunctuation.lowerChar {c : Char} (h : IsPunctuation c) : lowerChar c = c :=
  lowerChar_of_ascii h.ascii.1 h.ascii.2

theorem InOperand.lowerChar {c : Char} (h : InOperand c) : lowerChar c = c :=
  lowerChar_of_ascii h.ascii.1 h.ascii.2

theorem lowerChar_of_isBlank {c : Char} (blank : isBlank c = true) : lowerChar c = c := by
  have table : ∀ range ∈ blankRanges, ∀ n ∈ List.range' range.1 (range.2 + 1 - range.1),
      lowerChar (Char.ofNat n) = Char.ofNat n := by
    decide +kernel
  rw [isBlank, List.any_eq_true] at blank
  obtain ⟨range, member, inside⟩ := blank
  simp only [Bool.and_eq_true, decide_eq_true_eq] at inside
  have same := table range member c.toNat (List.mem_range'_1.mpr (by omega))
  rwa [Char.ofNat_toNat] at same

end UnitArith.Text
