import UnitArith.Proofs.Number.Rounding

/-! Multiplying by a reciprocal instead of dividing. The two agree when the reciprocal is exact;
otherwise it is rounded once more, and they may differ in their last digits. -/
namespace UnitArith.Double

open Float.Model (UnpackedFloat Format)
open Float.Model.UnpackedFloat (Sign)
open Number (Same absorbing isZero)

theorem view_ofView_zero (s : Sign) : view (ofView (.zero s)) = .zero s := by
  cases s <;> rfl

/-- Beyond the largest exponent there are only the infinities. -/
theorem view_ofView_finite (s : Sign) {m : Nat} {e : Int} (h : 0 < m) (small : m < 2 ^ 53)
    (grid : e = -1074 ∨ 2 ^ 52 ≤ m ∧ -1074 ≤ e) :
    view (ofView (.finite s m e h)) = if 972 ≤ e then .infinity s else .finite s m e h := by
  change unpack (pack (.finite s m e h)) = _
  have log : m.log2 = 52 ↔ 2 ^ 52 ≤ m := by
    rw [Nat.log2_eq_iff h.ne']
    omega
  rw [pack_finite]
  simp only [log]
  by_cases large : 972 ≤ e
  · rw [if_pos (by omega), if_pos large, unpack_join, if_pos rfl, if_pos rfl]
  · rw [if_neg (by omega), if_neg large]
    split
    · have exponent : (BitVec.ofNat 11 (e + 1075).toNat).toNat = (e + 1075).toNat := by
        rw [BitVec.toNat_ofNat]
        omega
      have mantissa : 2 ^ 52 + (BitVec.ofNat 52 m).toNat = m := by
        rw [BitVec.toNat_ofNat]
        omega
      have notSpecial : BitVec.ofNat 11 (e + 1075).toNat ≠ -1#11 := fun eq => by
        rw [eq] at exponent
        change 2047 = _ at exponent
        omega
      have normal : BitVec.ofNat 11 (e + 1075).toNat ≠ 0#11 := fun eq => by
        rw [eq] at exponent
        change 0 = _ at exponent
        omega
      rw [unpack_join, if_neg notSpecial, if_neg normal]
      simp only [mantissa, exponent]
      congr 1
      omega
    · have mantissa : (BitVec.ofNat 52 m).toNat = m := by
        rw [BitVec.toNat_ofNat]
        omega
      have nonzero : BitVec.ofNat 52 m ≠ 0#52 := fun eq => by
        rw [eq] at mantissa
        change 0 = m at mantissa
        omega
      rw [unpack_join, if_neg (by decide), if_pos rfl, dif_neg nonzero]
      simp only [mantissa]
      congr 1
      omega

/-- A value that is not too large is not rounded to an infinity. -/
theorem IsRounded.view_ofView {s : Sign} {x : ℚ} {u : UnpackedFloat} (positive : 0 < x)
    (rounded : IsRounded s x u) (large : x ≤ 3 * 2 ^ (1022 : Int)) : view (ofView u) = u := by
  obtain ⟨em, h, rfl⟩ := rounded
  have bound := h.bound
  have near := abs_le.mp h.rounded
  have log : Int.log 2 x < 1024 := by
    rw [log_lt_iff positive]
    calc x ≤ 3 * 2 ^ (1022 : Int) := large
      _ < 2 ^ (2 : Int) * 2 ^ (1022 : Int) := by gcongr; norm_num
      _ = 2 ^ (1024 : Int) := (zpow_add₀ two_ne_zero 2 1022).symm
  have last : lastPlace x ≤ 971 := by
    rw [lastPlace]
    omega
  rw [carried]
  split
  · rename_i full
    have below : lastPlace x ≠ 971 := fun eq => by
      have room : (2 : ℚ) ^ (1022 : Int) = 2 ^ (51 : Int) * 2 ^ (971 : Int) :=
        zpow_add₀ two_ne_zero 51 971
      have : x / 2 ^ (971 : Int) ≤ 3 * 2 ^ (51 : Int) := by
        rwa [div_le_iff₀ (by positivity), Rat.mul_assoc, ← room]
      rw [eq, full] at near
      rw [Nat.cast_pow, Nat.cast_ofNat] at near
      linarith
    rw [view_ofView_finite s _ (by decide) (.inr ⟨le_rfl, by rw [lastPlace]; omega⟩),
      if_neg (by omega)]
  · rename_i short
    split
    · exact view_ofView_zero s
    · rename_i nonzero
      have grid : lastPlace x = -1074 ∨ 2 ^ 52 ≤ em.roundedMantissa ∧ -1074 ≤ lastPlace x := by
        by_cases coarse : lastPlace x = -1074
        · exact .inl coarse
        · have digits := (le_div positive (.inr coarse)).trans_lt h.upper
          have : 2 ^ 52 < em.mantissa + 1 := by exact_mod_cast digits
          have := roundedMantissa_cases em
          exact .inr ⟨by omega, le_max_right ..⟩
      rw [view_ofView_finite s _ (by omega) grid, if_neg (by omega)]

def signum : Sign → ℚ
  | .positive => 1
  | .negative => -1

theorem signum_mul (s t : Sign) : signum (s * t) = signum s * signum t := by
  cases s <;> cases t <;> decide +kernel

theorem signum_div (s t : Sign) : signum (s / t) = signum s / signum t := by
  cases s <;> cases t <;> decide +kernel

theorem signum_mul_inj {s t : Sign} {a b : ℚ} (ha : 0 < a) (hb : 0 < b)
    (h : signum s * a = signum t * b) : s = t ∧ a = b := by
  cases s <;> cases t <;> simp only [signum, one_mul, neg_one_mul, neg_inj] at h
  · exact ⟨rfl, h⟩
  · linarith
  · linarith
  · exact ⟨rfl, h⟩

theorem abs_signum (s : Sign) : |signum s| = 1 := by
  cases s <;> simp [signum]

/-- The value of what is a number and not infinite. -/
def rational : UnpackedFloat → ℚ
  | .finite s m e _ => signum s * (m * 2 ^ e)
  | _ => 0

def toRat (x : Float) : ℚ := rational (view x)

theorem exists_view {x : Float} (h : toRat x ≠ 0) :
    ∃ s m e positive, view x = .finite s m e positive ∧ toRat x = signum s * (m * 2 ^ e) := by
  rw [toRat] at h ⊢
  cases hx : view x with
  | notANumber | infinity _ | zero _ => simp [hx, rational] at h
  | finite s m e positive => exact ⟨s, m, e, positive, rfl, rfl⟩

theorem rational_carried (s : Sign) (m : Nat) (e : Int) :
    rational (carried s m e) = signum s * (m * 2 ^ e) := by
  rw [carried]
  split
  · rename_i full
    rw [full, rational, zpow_add₀ two_ne_zero]
    push_cast
    ring
  · split
    · rename_i empty
      simp [empty, rational]
    · rfl

/-- Half of the last place is a small part of a value that has all its digits. -/
theorem IsRounded.error {s : Sign} {x value : ℚ} {u : UnpackedFloat} (rounded : IsRounded s x u)
    (positive : 0 < x) (signed : value = signum s * x) (small : 2 ^ (-1022 : Int) ≤ |value|)
    (large : |value| ≤ 3 * 2 ^ (1022 : Int)) :
    |toRat (ofView u) - value| ≤ |value| / 2 ^ 53 := by
  have size : |value| = x := by
    rw [signed, abs_mul, abs_signum, one_mul, abs_of_pos positive]
  rw [size] at small large ⊢
  rw [toRat, rounded.view_ofView positive large, signed]
  obtain ⟨em, h, rfl⟩ := rounded
  have scale : (0 : ℚ) < 2 ^ lastPlace x := by positivity
  have near := h.rounded
  have digits := le_div positive (.inl small)
  rw [le_div_iff₀ scale] at digits
  have split : (em.roundedMantissa * 2 ^ lastPlace x - x : ℚ) =
      (em.roundedMantissa - x / 2 ^ lastPlace x) * 2 ^ lastPlace x := by
    rw [sub_mul, div_mul_cancel₀ _ scale.ne']
  rw [rational_carried, ← mul_sub, abs_mul, abs_signum, one_mul, split, abs_mul, abs_of_pos scale]
  calc |(em.roundedMantissa - x / 2 ^ lastPlace x : ℚ)| * 2 ^ lastPlace x
      ≤ 1 / 2 * 2 ^ lastPlace x := by gcongr
    _ = 2 ^ 52 * 2 ^ lastPlace x / 2 ^ 53 := by ring
    _ ≤ x / 2 ^ 53 := by gcongr

theorem toRat_mul {x y : Float} (small : 2 ^ (-1022 : Int) ≤ |toRat x * toRat y|)
    (large : |toRat x * toRat y| ≤ 3 * 2 ^ (1022 : Int)) :
    |toRat (x * y) - toRat x * toRat y| ≤ |toRat x * toRat y| / 2 ^ 53 := by
  have nonzero := abs_pos.mp (small.trans_lt' (by positivity))
  obtain ⟨s, m₁, e₁, h₁, hx, left⟩ := exists_view (left_ne_zero_of_mul nonzero)
  obtain ⟨t, m₂, e₂, h₂, hy, right⟩ := exists_view (right_ne_zero_of_mul nonzero)
  have rounded := mul_isRounded s t h₁ h₂ (view_finite hx).2 (view_finite hy).2
  have signed : toRat x * toRat y = signum (s * t) * (m₁ * 2 ^ e₁ * (m₂ * 2 ^ e₂)) := by
    rw [left, right, signum_mul]
    ring
  rw [mul_eq, hx, hy]
  exact rounded.error (by positivity) signed small large

theorem toRat_div {x y : Float} (small : 2 ^ (-1022 : Int) ≤ |toRat x / toRat y|)
    (large : |toRat x / toRat y| ≤ 3 * 2 ^ (1022 : Int)) :
    |toRat (x / y) - toRat x / toRat y| ≤ |toRat x / toRat y| / 2 ^ 53 := by
  have nonzero := abs_pos.mp (small.trans_lt' (by positivity))
  obtain ⟨numerator, denominator⟩ := div_ne_zero_iff.mp nonzero
  obtain ⟨s, m₁, e₁, h₁, hx, left⟩ := exists_view numerator
  obtain ⟨t, m₂, e₂, h₂, hy, right⟩ := exists_view denominator
  have rounded := div_isRounded s t e₁ e₂ h₁ h₂
  have signed : toRat x / toRat y = signum (s / t) * (m₁ * 2 ^ e₁ / (m₂ * 2 ^ e₂)) := by
    rw [left, right, signum_div, mul_div_mul_comm]
  rw [div_eq, hx, hy]
  exact rounded.error (by positivity) signed small large

theorem exponent_le {x : Float} {s : Sign} {m : Nat} {e : Int} {h : 0 < m}
    (hx : view x = .finite s m e h) : e ≤ 971 := by
  obtain ⟨small, grid⟩ := view_finite hx
  have round := view_ofView_finite s h small grid
  rw [← hx, ofView_view, hx] at round
  by_contra large
  rw [if_pos (by omega)] at round
  cases round

/-- A power of two has an exact reciprocal, unless that is too large for a double. -/
theorem toRat_reciprocal {d : Float} {k : Int} (normal : -1023 ≤ k) (power : |toRat d| = 2 ^ k) :
    toRat (1 / d) = 1 / toRat d := by
  have nonzero : toRat d ≠ 0 := abs_pos.mp (power ▸ by positivity)
  obtain ⟨s, m, e, h, hd, value⟩ := exists_view nonzero
  have size : (m * 2 ^ e : ℚ) = 2 ^ k := by
    rwa [value, abs_mul, abs_signum, one_mul, abs_of_pos (by positivity)] at power
  have bounded : k < 1024 := by
    have small : (m : ℚ) < 2 ^ 53 := by exact_mod_cast (view_finite hd).1
    have less : (2 : ℚ) ^ k < 2 ^ (1024 : Int) := by
      calc (2 : ℚ) ^ k = m * 2 ^ e := size.symm
        _ < 2 ^ (53 : Int) * 2 ^ e := by gcongr; exact_mod_cast small
        _ ≤ 2 ^ (53 : Int) * 2 ^ (971 : Int) := by
          gcongr
          · exact one_le_two
          · exact exponent_le hd
        _ = 2 ^ (1024 : Int) := (zpow_add₀ two_ne_zero 53 971).symm
    exact (zpow_lt_zpow_iff_right₀ one_lt_two).mp less
  obtain ⟨j, f, long, grid, scale⟩ : ∃ (j : Nat) (f : Int), j < 53 ∧
      (f = -1074 ∨ 52 ≤ j ∧ -1074 ≤ f) ∧ j + f = -k :=
    ⟨(min 52 (1074 - k)).toNat, -k - (min 52 (1074 - k)).toNat, by omega, by omega, by omega⟩
  have rounded := div_isRounded .positive s (-52) e (Nat.two_pow_pos 52) h
  have quotient : ((2 ^ 52 : Nat) * 2 ^ (-52 : Int) / (m * 2 ^ e) : ℚ) = (2 ^ j : Nat) * 2 ^ f := by
    have right : ((2 ^ j : Nat) * 2 ^ f : ℚ) = 2 ^ (-k) := by
      rw [Nat.cast_pow, Nat.cast_ofNat, ← zpow_natCast, ← zpow_add₀ two_ne_zero, scale]
    rw [size, right, zpow_neg]
    norm_num
  rw [quotient] at rounded
  have small : 2 ^ j < 2 ^ 53 := Nat.pow_lt_pow_right one_lt_two long
  have grid : f = -1074 ∨ 2 ^ 52 ≤ 2 ^ j ∧ -1074 ≤ f :=
    grid.imp_right fun h => ⟨Nat.pow_le_pow_right two_pos h.1, h.2⟩
  have reciprocal : view (1 / d) = .finite (.positive / s) (2 ^ j) f (Nat.two_pow_pos j) := by
    rw [div_eq, view_one, hd, rounded.exact (Nat.two_pow_pos j) small grid,
      view_ofView_finite _ _ small grid, if_neg (by omega)]
  rw [toRat, reciprocal, rational, ← quotient, value, signum_div]
  simp only [signum]
  ring_nf

/-- When the reciprocal is exact, it may be multiplied with instead of dividing. -/
theorem mul_reciprocal {d : Float} (nonzero : toRat d ≠ 0)
    (inverse : toRat (1 / d) = 1 / toRat d) (x : Float) : x * (1 / d) = x / d := by
  have present : toRat (1 / d) ≠ 0 := by
    rw [inverse]
    exact one_div_ne_zero nonzero
  obtain ⟨u, n, f, k, hd, value⟩ := exists_view nonzero
  obtain ⟨t, n', f', k', hr, reciprocal⟩ := exists_view present
  have same : signum t * (n' * 2 ^ f' : ℚ) = signum u * (1 / (n * 2 ^ f)) := by
    rw [← reciprocal, inverse, value]
    cases u <;> simp [signum]
  obtain ⟨rfl, size⟩ := signum_mul_inj (by positivity) (by positivity) same
  have sign (s t : Sign) : s * t = s / t := by cases s <;> cases t <;> rfl
  rw [mul_eq x (1 / d), hr, div_eq x d, hd]
  congr 1
  cases hx : view x with
  | notANumber => rfl
  | infinity s | zero s => simp only [UnpackedFloat.mul, UnpackedFloat.div, sign]
  | finite s m e h =>
    have product := mul_isRounded s t h k' (view_finite hx).2 (view_finite hr).2
    have quotient := div_isRounded s t e f h k
    rw [size, mul_one_div, sign] at product
    exact product.unique quotient

theorem toRat_one : toRat 1 = 1 := by
  rw [toRat, view_one, rational, signum]
  norm_num

/-- Around exact values of this size doubles have all their digits. -/
structure InRange (x : ℚ) : Prop where
  small : 2 ^ (-1021 : Int) ≤ |x|
  large : |x| ≤ 2 ^ (1023 : Int)

theorem InRange.half {x : ℚ} (h : InRange x) : 2 ^ (-1022 : Int) ≤ |x| / 2 := by
  have double : (2 : ℚ) ^ (-1021 : Int) = 2 ^ (-1022 : Int) * 2 :=
    zpow_add_one₀ two_ne_zero (-1022)
  rw [le_div_iff₀ two_pos, ← double]
  exact h.small

theorem InRange.more {x : ℚ} (h : InRange x) : |x| * (3 / 2) ≤ 3 * 2 ^ (1022 : Int) := by
  have double : (2 : ℚ) ^ (1023 : Int) = 2 ^ (1022 : Int) * 2 := zpow_add_one₀ two_ne_zero 1022
  calc |x| * (3 / 2) ≤ 2 ^ (1022 : Int) * 2 * (3 / 2) := by
        gcongr
        exact h.large.trans_eq double
    _ = 3 * 2 ^ (1022 : Int) := by ring

/-- What rounding one of `x / d`, `1 / d` and `x * (1 / d)` adds, once or three times. -/
theorem reciprocal_error {x d : Float} (reciprocal : InRange (1 / toRat d))
    (quotient : InRange (toRat x / toRat d)) :
    |toRat (x * (1 / d)) - toRat (x / d)| ≤ |toRat x / toRat d| / 2 ^ 51 := by
  have positive := abs_nonneg (toRat x / toRat d)
  have positive' := abs_nonneg (1 / toRat d)
  have first : |toRat (1 / d) - 1 / toRat d| ≤ |1 / toRat d| / 2 ^ 53 := by
    have error := toRat_div (x := 1) (y := d)
    rw [toRat_one] at error
    exact error (reciprocal.half.trans (by linarith)) (reciprocal.more.trans' (by linarith))
  have second : |toRat x * toRat (1 / d) - toRat x / toRat d| ≤ |toRat x / toRat d| / 2 ^ 53 := by
    calc |toRat x * toRat (1 / d) - toRat x / toRat d|
        = |toRat x| * |toRat (1 / d) - 1 / toRat d| := by
          rw [← abs_mul, mul_sub, mul_one_div]
      _ ≤ |toRat x| * (|1 / toRat d| / 2 ^ 53) := by gcongr
      _ = |toRat x / toRat d| / 2 ^ 53 := by rw [← mul_div_assoc, ← abs_mul, mul_one_div]
  have size := abs_le.mp ((abs_abs_sub_abs_le ..).trans second)
  have third := toRat_mul (x := x) (y := 1 / d) (quotient.half.trans (by linarith))
    (quotient.more.trans' (by linarith))
  have direct := toRat_div (x := x) (y := d) (quotient.half.trans (by linarith))
    (quotient.more.trans' (by linarith))
  calc |toRat (x * (1 / d)) - toRat (x / d)|
      ≤ |toRat (x * (1 / d)) - toRat x * toRat (1 / d)| +
          |toRat x * toRat (1 / d) - toRat x / toRat d| +
          |toRat x / toRat d - toRat (x / d)| := by
        refine (abs_sub_le _ (toRat x / toRat d) _).trans ?_
        gcongr
        exact abs_sub_le ..
    _ ≤ |toRat x / toRat d| / 2 ^ 51 := by
        rw [abs_sub_comm (toRat x / toRat d)]
        linarith

theorem isZero_mul {x y : Float} (finite : x.isFinite = true) (zero : isZero y = true) :
    isZero (x * y) = true := by
  obtain ⟨t, hy⟩ := (isZero_iff y).mp zero
  change (view x).isFinite = true at finite
  rw [isZero_iff, mul_eq, hy]
  cases hx : view x with
  | notANumber | infinity _ => simp [hx, UnpackedFloat.isFinite] at finite
  | zero s | finite s => exact ⟨s * t, view_ofView_zero (s * t)⟩

/-- Of a finite number the product with zero is zero anyway. -/
theorem same_absorbing {x y : Float} (finite : x.isFinite = true) (nonzero : isZero x = false) :
    Same (absorbing x y) (x * y) := by
  cases zero : isZero y with
  | true =>
    rw [Number.absorbing_of_isZero (by simp [zero])]
    exact .inr ⟨LawfulNumber.isZero_zero, isZero_mul finite zero⟩
  | false => exact .of_eq (Number.absorbing_of_nonzero nonzero zero)

theorem toRat_eq_of_same {x y : Float} (h : Same x y) : toRat x = toRat y := by
  have zero {z : Float} (zero : isZero z = true) : toRat z = 0 := by
    obtain ⟨s, hz⟩ := (isZero_iff z).mp zero
    rw [toRat, hz]
    rfl
  rcases h with rfl | ⟨hx, hy⟩
  · rfl
  · rw [zero hx, zero hy]

theorem toRat_ne_zero {x : Float} (finite : x.isFinite = true) (nonzero : isZero x = false) :
    toRat x ≠ 0 := by
  change (view x).isFinite = true at finite
  rw [← Bool.not_eq_true, isZero_iff] at nonzero
  rw [toRat]
  cases hx : view x with
  | notANumber | infinity _ => simp [hx, UnpackedFloat.isFinite] at finite
  | zero s => exact absurd ⟨s, hx⟩ nonzero
  | finite s m e h =>
    have : signum s ≠ 0 := by cases s <;> simp [signum]
    rw [rational]
    positivity

end UnitArith.Double
