import Mathlib
import UnitArith.Proofs.Number.Double

/-! Products and quotients of doubles are the exact ones, rounded once. The digits that are cut off
are kept as two bits, and what these say about the value is enough to find the nearest double. -/
namespace UnitArith.Double

open Float.Model (UnpackedFloat Format totalExponent)
open Float.Model.UnpackedFloat (Sign ExtendedMantissa Accuracy accuracyOfFraction)

/-- The mantissa is what is whole in `x`, and the two bits tell where the rest of it lies. -/
structure Represents (em : ExtendedMantissa) (x : ℚ) : Prop where
  lower : em.mantissa ≤ x
  upper : x < em.mantissa + 1
  round : em.roundBit = true ↔ em.mantissa + 1 / 2 ≤ x
  sticky : em.stickyBit = true ↔ x ≠ em.mantissa ∧ x ≠ em.mantissa + 1 / 2

theorem Represents.unique {a b : ExtendedMantissa} {x : ℚ} (ha : Represents a x)
    (hb : Represents b x) : a = b := by
  have below : a.mantissa < b.mantissa + 1 := by
    exact_mod_cast ha.lower.trans_lt hb.upper
  have above : b.mantissa < a.mantissa + 1 := by
    exact_mod_cast hb.lower.trans_lt ha.upper
  have mantissa : a.mantissa = b.mantissa := by omega
  have round : a.roundBit = b.roundBit := by
    rw [Bool.eq_iff_iff, ha.round, hb.round, mantissa]
  have sticky : a.stickyBit = b.stickyBit := by
    rw [Bool.eq_iff_iff, ha.sticky, hb.sticky, mantissa]
  cases a
  cases b
  simp_all

theorem represents_whole (m : Nat) : Represents ⟨m, false, false⟩ m := by
  refine ⟨le_rfl, by simp, ?_, ?_⟩ <;> simp

/-- The digits of a quotient, with its remainder. -/
theorem represents_quotient (n : Nat) {d : Nat} (h : 0 < d) :
    Represents (.ofMantissaAndAccuracy (n / d) (accuracyOfFraction (n % d) d)) (n / d : ℚ) := by
  have positive : (0 : ℚ) < d := by exact_mod_cast h
  have split : (n / d : ℚ) = (n / d : Nat) + (n % d : Nat) / d := by
    field_simp
    exact_mod_cast (Nat.div_add_mod n d).symm
  have small : ((n % d : Nat) / d : ℚ) < 1 := by
    rw [div_lt_one positive]
    exact_mod_cast Nat.mod_lt n h
  rw [split]
  generalize n / d = q
  generalize n % d = r at small
  have half : (r / d : ℚ) < 1 / 2 ↔ 2 * r < d := by
    rw [div_lt_div_iff₀ positive (by norm_num), one_mul, Rat.mul_comm]
    norm_cast
  have middle : (r / d : ℚ) = 1 / 2 ↔ 2 * r = d := by
    rw [div_eq_div_iff positive.ne' (by norm_num), one_mul, Rat.mul_comm]
    norm_cast
  by_cases whole : r = 0
  · simpa [whole, accuracyOfFraction, ExtendedMantissa.ofMantissaAndAccuracy] using
      represents_whole q
  · have above : (0 : ℚ) < r / d := div_pos (by exact_mod_cast Nat.pos_of_ne_zero whole) positive
    rw [accuracyOfFraction, if_neg whole]
    rcases Nat.lt_trichotomy (2 * r) d with less | equal | greater
    · have := half.mpr less
      rw [Nat.compare_eq_lt.mpr less]
      constructor <;> simp [ExtendedMantissa.ofMantissaAndAccuracy] <;> grind
    · have := middle.mpr equal
      rw [Nat.compare_eq_eq.mpr equal]
      constructor <;> simp [ExtendedMantissa.ofMantissaAndAccuracy] <;> grind
    · have := mt half.mp greater.not_gt
      have := mt middle.mp greater.ne'
      rw [Nat.compare_eq_gt.mpr greater]
      constructor <;> simp [ExtendedMantissa.ofMantissaAndAccuracy] <;> grind

theorem Represents.shiftRightOne {em : ExtendedMantissa} {x : ℚ} (h : Represents em x) :
    Represents em.shiftRightOne (x / 2) := by
  obtain ⟨m, round, sticky⟩ := em
  obtain ⟨lower, upper, half, rest⟩ := h
  have parity : (m : ℚ) = 2 * (m / 2 : Nat) + (m % 2 : Nat) := by
    exact_mod_cast (Nat.div_add_mod m 2).symm
  dsimp only at lower upper half rest
  have bit : m % 2 = 0 ∨ m % 2 = 1 := by omega
  rcases bit with even | odd
  · rw [even] at parity
    constructor <;> simp [ExtendedMantissa.shiftRightOne, even] <;> grind
  · rw [odd] at parity
    constructor <;> simp [ExtendedMantissa.shiftRightOne, odd] <;> grind

theorem Represents.shiftRight {em : ExtendedMantissa} {x : ℚ} (h : Represents em x) (k : Nat) :
    Represents (em >>> k) (x / 2 ^ k) := by
  change Represents (k.repeat ExtendedMantissa.shiftRightOne em) _
  induction k with
  | zero => simpa [Nat.repeat] using h
  | succ k ih =>
    rw [Nat.repeat, pow_succ, ← div_div]
    exact ih.shiftRightOne

/-- The nearest whole number, the even one of two. -/
theorem Represents.rounded {em : ExtendedMantissa} {x : ℚ} (h : Represents em x) :
    |em.roundedMantissa - x| ≤ 1 / 2 := by
  obtain ⟨m, round, sticky⟩ := em
  obtain ⟨lower, upper, half, rest⟩ := h
  dsimp only at lower upper half rest
  have parity : ((m % 2 : Nat) : ℚ) ≤ 1 := by
    exact_mod_cast Nat.lt_succ_iff.mp (Nat.mod_lt m two_pos)
  rw [abs_le]
  cases round <;> cases sticky <;> simp [ExtendedMantissa.roundedMantissa,
    ExtendedMantissa.accuracy, Accuracy.roundToNearestEven] at half rest ⊢ <;> grind

theorem le_log_iff {k : Int} {x : ℚ} (positive : 0 < x) : k ≤ Int.log 2 x ↔ 2 ^ k ≤ x := by
  have iff := Int.zpow_le_iff_le_log (b := 2) one_lt_two (x := k) positive
  exact_mod_cast iff.symm

theorem log_lt_iff {k : Int} {x : ℚ} (positive : 0 < x) : Int.log 2 x < k ↔ x < 2 ^ k := by
  have iff := Int.lt_zpow_iff_log_lt (b := 2) one_lt_two (x := k) positive
  exact_mod_cast iff.symm

/-- The exponent of the last digit of a double of this size. -/
def lastPlace (x : ℚ) : Int := max (Int.log 2 x - 52) (-1074)

theorem log_eq {m : Nat} (h : 0 < m) {x : ℚ} {e : Int} (lower : (m : ℚ) ≤ x / 2 ^ e)
    (upper : x / 2 ^ e < m + 1) : Int.log 2 x = m.log2 + e := by
  have scale : (0 : ℚ) < 2 ^ e := by positivity
  have least : (2 : ℚ) ^ m.log2 ≤ m := by exact_mod_cast Nat.log2_self_le h.ne'
  have most : (m + 1 : ℚ) ≤ 2 ^ (m.log2 + 1) := by exact_mod_cast (Nat.lt_log2_self : m < _)
  have low : (2 : ℚ) ^ ((m.log2 : Int) + e) ≤ x := by
    rw [zpow_add₀ two_ne_zero, zpow_natCast]
    exact (le_div_iff₀ scale).mp (least.trans lower)
  have high : x < (2 : ℚ) ^ ((m.log2 : Int) + 1 + e) := by
    rw [zpow_add₀ two_ne_zero]
    exact (div_lt_iff₀ scale).mp (upper.trans_le (by exact_mod_cast most))
  have positive : 0 < x := low.trans_lt' (by positivity)
  have above := (le_log_iff positive).mpr low
  have below := (log_lt_iff positive).mpr high
  omega

theorem targetExponent_max (m : Nat) (e : Int) :
    Format.binary64.targetExponent (totalExponent m e) =
      max ((m.log2 : Int) + 1 + e - 53) (-1074) :=
  rfl

theorem mantissa_ofMantissaAndAccuracy (m : Nat) (accuracy : Accuracy) :
    (ExtendedMantissa.ofMantissaAndAccuracy m accuracy).mantissa = m := by
  rcases accuracy with _ | _ | _ | _ <;> rfl

/-- The digits that are known are enough to see how large the value is. -/
theorem targetExponent_of_represents {m : Nat} {accuracy : Accuracy} {x : ℚ} {e : Int}
    (positive : 0 < x) (h : Represents (.ofMantissaAndAccuracy m accuracy) (x / 2 ^ e))
    (fine : e ≤ lastPlace x) :
    Format.binary64.targetExponent (totalExponent m e) = lastPlace x := by
  have lower := h.lower
  have upper := h.upper
  rw [mantissa_ofMantissaAndAccuracy] at lower upper
  rw [targetExponent_max, lastPlace]
  by_cases empty : m = 0
  · have less : x < 2 ^ e := by
      rw [empty, Nat.cast_zero, zero_add, div_lt_one (by positivity)] at upper
      exact upper
    have small := (log_lt_iff positive).mpr less
    have nothing : Nat.log2 0 = 0 := by simp
    rw [lastPlace] at fine
    rw [empty, nothing]
    omega
  · rw [log_eq (Nat.pos_of_ne_zero empty) lower upper]
    omega

/-- A mantissa that rounding has made too long by one bit gives up the last one. -/
def carried (s : Sign) (m : Nat) (e : Int) : UnpackedFloat :=
  if m = 2 ^ 53 then .finite s (2 ^ 52) (e + 1) (by decide)
  else if h : m = 0 then .zero s
  else .finite s m e (Nat.pos_of_ne_zero h)

/-- The double next to `x`, and the even one of two, for any size of its exponent. -/
def IsRounded (s : Sign) (x : ℚ) (u : UnpackedFloat) : Prop :=
  ∃ em, Represents em (x / 2 ^ lastPlace x) ∧ u = carried s em.roundedMantissa (lastPlace x)

theorem IsRounded.unique {s : Sign} {x : ℚ} {u v : UnpackedFloat} (hu : IsRounded s x u)
    (hv : IsRounded s x v) : u = v := by
  obtain ⟨a, ha, rfl⟩ := hu
  obtain ⟨b, hb, rfl⟩ := hv
  rw [ha.unique hb]

theorem div_lt (x : ℚ) : x / 2 ^ lastPlace x < 2 ^ 53 := by
  have size := Int.lt_zpow_succ_log_self (b := 2) one_lt_two x
  rw [div_lt_iff₀ (by positivity), ← zpow_natCast, ← zpow_add₀ two_ne_zero]
  refine size.trans_le ?_
  have : Int.log 2 x + 1 ≤ (53 : Nat) + lastPlace x := by
    rw [lastPlace]
    omega
  exact zpow_le_zpow_right₀ one_le_two this

theorem le_div {x : ℚ} (positive : 0 < x) (coarse : 2 ^ (-1022 : Int) ≤ x ∨ lastPlace x ≠ -1074) :
    2 ^ 52 ≤ x / 2 ^ lastPlace x := by
  have size := Int.zpow_log_le_self (b := 2) one_lt_two positive
  rw [le_div_iff₀ (by positivity), ← zpow_natCast, ← zpow_add₀ two_ne_zero]
  refine le_trans ?_ size
  have : (52 : Nat) + lastPlace x ≤ Int.log 2 x := by
    rcases coarse with coarse | coarse
    · have := (le_log_iff positive).mpr coarse
      rw [lastPlace]
      omega
    · rw [lastPlace] at coarse ⊢
      omega
  exact zpow_le_zpow_right₀ one_le_two this

theorem roundedMantissa_cases (em : ExtendedMantissa) :
    em.roundedMantissa = em.mantissa ∨ em.roundedMantissa = em.mantissa + 1 := by
  obtain ⟨m, round, sticky⟩ := em
  have parity : m % 2 = 0 ∨ m % 2 = 1 := by omega
  cases round <;> cases sticky <;> simp [ExtendedMantissa.roundedMantissa,
    ExtendedMantissa.accuracy, Accuracy.roundToNearestEven, parity]

theorem Represents.bound {em : ExtendedMantissa} {x : ℚ}
    (h : Represents em (x / 2 ^ lastPlace x)) : em.roundedMantissa ≤ 2 ^ 53 := by
  have below : em.mantissa < 2 ^ 53 := by
    exact_mod_cast h.lower.trans_lt (div_lt x)
  rcases roundedMantissa_cases em with down | up <;> omega

theorem shiftToTargetExponent_eq (m : Nat) (e : Int) (accuracy : Accuracy) {k : Nat}
    (distance : (Format.binary64.targetExponent (totalExponent m e) - e).toNat = k) :
    UnpackedFloat.shiftToTargetExponent Format.binary64 m e accuracy =
      (ExtendedMantissa.ofMantissaAndAccuracy m accuracy >>> k, e + k) := by
  rw [← distance]
  rfl

/-- What has been rounded once is not rounded again: at most a zero is cut off. -/
theorem roundWithAccuracy_carried (s : Sign) {m : Nat} {e f : Int} {accuracy : Accuracy}
    {em : ExtendedMantissa} (bound : em.roundedMantissa ≤ 2 ^ 53) (fine : -1074 ≤ f)
    (first : UnpackedFloat.shiftToTargetExponent Format.binary64 m e accuracy = (em, f)) :
    UnpackedFloat.roundWithAccuracy Format.binary64 s m e accuracy =
      carried s em.roundedMantissa f := by
  by_cases full : em.roundedMantissa = 2 ^ 53
  · have half : (⟨2 ^ 53, false, false⟩ : ExtendedMantissa) >>> 1 = ⟨2 ^ 52, false, false⟩ :=
      shift_exact (2 ^ 52) 1
    have second := shiftToTargetExponent_eq (2 ^ 53) f .exact (k := 1) (by
      rw [targetExponent_max, Nat.log2_two_pow]
      omega)
    rw [ExtendedMantissa.ofMantissaAndAccuracy, half] at second
    simp only [UnpackedFloat.roundWithAccuracy, first, full, second, carried, if_true]
    rfl
  · have second := shiftToTargetExponent_eq em.roundedMantissa f .exact (k := 0) (by
      have short : em.roundedMantissa.log2 < 53 := by
        by_cases empty : em.roundedMantissa = 0
        · simp [empty]
        · exact (Nat.log2_lt empty).mpr (by omega)
      rw [targetExponent_max]
      omega)
    rw [ExtendedMantissa.ofMantissaAndAccuracy] at second
    simp only [UnpackedFloat.roundWithAccuracy, first, second, carried, if_neg full]
    simp [HShiftRight.hShiftRight, Nat.repeat]

/-- Rounding looks at nothing but the value. -/
theorem roundWithAccuracy_isRounded (s : Sign) {m : Nat} {accuracy : Accuracy} {x : ℚ} {e : Int}
    (positive : 0 < x) (h : Represents (.ofMantissaAndAccuracy m accuracy) (x / 2 ^ e))
    (fine : e ≤ lastPlace x) :
    IsRounded s x (UnpackedFloat.roundWithAccuracy Format.binary64 s m e accuracy) := by
  have first := h.shiftRight (lastPlace x - e).toNat
  have scale : x / 2 ^ e / 2 ^ (lastPlace x - e).toNat = x / 2 ^ lastPlace x := by
    rw [div_div, ← zpow_natCast, ← zpow_add₀ two_ne_zero]
    congr 2
    omega
  rw [scale] at first
  have shifted := shiftToTargetExponent_eq m e accuracy (k := (lastPlace x - e).toNat) (by
    rw [targetExponent_of_represents positive h fine])
  rw [show e + ((lastPlace x - e).toNat : Int) = lastPlace x by omega] at shifted
  exact ⟨_, first, roundWithAccuracy_carried s first.bound (le_max_right ..) shifted⟩

theorem lastPlace_mul {m : Nat} (h : 0 < m) (e : Int) :
    lastPlace (m * 2 ^ e) = max (m.log2 + e - 52) (-1074) := by
  have same : (m * 2 ^ e / 2 ^ e : ℚ) = m := mul_div_cancel_right₀ _ (by positivity)
  rw [lastPlace, log_eq h (e := e) (by rw [same]) (by rw [same]; linarith)]

/-- Rounding changes nothing where the value is a double. -/
theorem IsRounded.exact {s : Sign} {m : Nat} {e : Int} {u : UnpackedFloat} (h : 0 < m)
    (rounded : IsRounded s (m * 2 ^ e) u) (small : m < 2 ^ 53)
    (grid : e = -1074 ∨ 2 ^ 52 ≤ m ∧ -1074 ≤ e) : u = .finite s m e h := by
  have place : lastPlace (m * 2 ^ e) = e := by
    have target := targetExponent_eq h small grid
    rw [targetExponent_max] at target
    rw [lastPlace_mul h]
    omega
  obtain ⟨em, represents, rfl⟩ := rounded
  rw [place, mul_div_cancel_right₀ _ (by positivity)] at represents
  rw [represents.unique (represents_whole m), place]
  change carried s m e = _
  rw [carried, if_neg (by omega), dif_neg h.ne']

/-- A product of doubles is the product of their values, rounded. -/
theorem mul_isRounded (s t : Sign) {m₁ m₂ : Nat} {e₁ e₂ : Int} (h₁ : 0 < m₁) (h₂ : 0 < m₂)
    (grid₁ : e₁ = -1074 ∨ 2 ^ 52 ≤ m₁ ∧ -1074 ≤ e₁)
    (grid₂ : e₂ = -1074 ∨ 2 ^ 52 ≤ m₂ ∧ -1074 ≤ e₂) :
    IsRounded (s * t) (m₁ * 2 ^ e₁ * (m₂ * 2 ^ e₂))
      (UnpackedFloat.mul Format.binary64 (.finite s m₁ e₁ h₁) (.finite t m₂ e₂ h₂)) := by
  have product := Nat.mul_pos h₁ h₂
  have same : (m₁ * 2 ^ e₁ * (m₂ * 2 ^ e₂) : ℚ) = (m₁ * m₂ : Nat) * 2 ^ (e₁ + e₂) := by
    rw [zpow_add₀ two_ne_zero]
    push_cast
    ring
  rw [same]
  refine roundWithAccuracy_isRounded _ (by positivity) ?_ ?_
  · rw [mul_div_cancel_right₀ _ (by positivity)]
    exact represents_whole _
  · rw [lastPlace_mul product]
    by_cases long : 2 ^ 52 ≤ m₁ * m₂
    · have := (Nat.le_log2 product.ne').mpr long
      omega
    · have : m₁ ≤ m₁ * m₂ := Nat.le_mul_of_pos_right m₁ h₂
      have : m₂ ≤ m₁ * m₂ := Nat.le_mul_of_pos_left m₂ h₁
      omega

/-- A quotient of doubles is the quotient of their values, rounded. -/
theorem div_isRounded (s t : Sign) {m₁ m₂ : Nat} (e₁ e₂ : Int) (h₁ : 0 < m₁) (h₂ : 0 < m₂) :
    IsRounded (s / t) (m₁ * 2 ^ e₁ / (m₂ * 2 ^ e₂))
      (UnpackedFloat.div Format.binary64 (.finite s m₁ e₁ h₁) (.finite t m₂ e₂ h₂)) := by
  have target : Format.binary64.targetExponent (totalExponent m₁ e₁ - totalExponent m₂ e₂) =
      max (m₁.log2 + 1 + e₁ - (m₂.log2 + 1 + e₂) - 53) (-1074) := rfl
  simp only [UnpackedFloat.div, UnpackedFloat.divCore, target]
  generalize small : min (e₁ - e₂) (max (m₁.log2 + 1 + e₁ - (m₂.log2 + 1 + e₂) - 53) (-1074)) = e
  refine roundWithAccuracy_isRounded _ (by positivity) ?_ ?_
  · have same : (m₁ * 2 ^ e₁ / (m₂ * 2 ^ e₂) / 2 ^ e : ℚ) =
        (m₁ <<< (e₁ - e₂ - e).toNat : Nat) / m₂ := by
      have scale : (2 ^ e₁ : ℚ) = 2 ^ (e₁ - e₂ - e).toNat * 2 ^ e₂ * 2 ^ e := by
        rw [← zpow_natCast, ← zpow_add₀ two_ne_zero, ← zpow_add₀ two_ne_zero]
        congr 1
        omega
      rw [Nat.shiftLeft_eq, scale]
      push_cast
      field_simp
    rw [same]
    exact represents_quotient _ h₂
  · have least : (2 : ℚ) ^ m₁.log2 ≤ m₁ := by exact_mod_cast Nat.log2_self_le h₁.ne'
    have most : (m₂ : ℚ) ≤ 2 ^ (m₂.log2 + 1) := by exact_mod_cast (Nat.lt_log2_self (n := m₂)).le
    have lower : (2 : ℚ) ^ ((m₁.log2 : Int) + e₁ - (m₂.log2 + 1 + e₂)) ≤
        m₁ * 2 ^ e₁ / (m₂ * 2 ^ e₂) := by
      rw [zpow_sub₀ two_ne_zero, zpow_add₀ two_ne_zero, zpow_add₀ two_ne_zero]
      gcongr
      · exact_mod_cast least
      · exact_mod_cast most
    have log := (le_log_iff (by positivity)).mpr lower
    rw [lastPlace]
    omega

end UnitArith.Double
