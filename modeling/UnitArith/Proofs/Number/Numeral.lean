import UnitArith.Proofs.Number.Rounding

/-! A double is read back from its numeral. Where no short numeral is found, all of the digits
stand there, and the quotient that they make is the double itself: nothing has to be rounded. -/
namespace UnitArith

open Float.Model (UnpackedFloat Format totalExponent)

namespace Double

/-- The quotient of two integers is exact where it is a double. -/
theorem div_exact (s t : UnpackedFloat.Sign) {m m₁ m₂ : Nat} {e e₁ e₂ : Int} (h : 0 < m)
    (h₁ : 0 < m₁) (h₂ : 0 < m₂) (small : m < 2 ^ 53) (grid : e = -1074 ∨ 2 ^ 52 ≤ m ∧ -1074 ≤ e)
    {a b : Nat} (same : m₁ * 2 ^ a = m₂ * m * 2 ^ b) (scale : e + a = e₁ - e₂ + b) :
    UnpackedFloat.div Format.binary64 (.finite s m₁ e₁ h₁) (.finite t m₂ e₂ h₂) =
      .finite (s / t) m e h := by
  have value : (m₁ * 2 ^ e₁ / (m₂ * 2 ^ e₂) : ℚ) = m * 2 ^ e := by
    have digits : (m₁ * 2 ^ a : ℚ) = m₂ * m * 2 ^ b := by exact_mod_cast same
    have exponents : (2 ^ e * 2 ^ a : ℚ) * 2 ^ e₂ = 2 ^ e₁ * 2 ^ b := by
      simp only [← zpow_natCast, ← zpow_add₀ (two_ne_zero' ℚ)]
      congr 1
      omega
    rw [div_eq_iff (by positivity)]
    apply mul_right_cancel₀ (by positivity : (2 ^ a : ℚ) ≠ 0)
    linear_combination 2 ^ e₁ * digits - m * m₂ * exponents
  have rounded := div_isRounded s t e₁ e₂ h₁ h₂
  rw [value] at rounded
  exact rounded.exact h small grid

theorem mul_exact (s t : UnpackedFloat.Sign) {m m₁ m₂ k : Nat} {e e₁ e₂ : Int} (h : 0 < m)
    (h₁ : 0 < m₁) (h₂ : 0 < m₂) (small : m < 2 ^ 53) (grid : e = -1074 ∨ 2 ^ 52 ≤ m ∧ -1074 ≤ e)
    (same : m₁ * m₂ = m * 2 ^ k) (scale : e₁ + e₂ = e - k) :
    UnpackedFloat.mul Format.binary64 (.finite s m₁ e₁ h₁) (.finite t m₂ e₂ h₂) =
      .finite (s * t) m e h := by
  simp only [UnpackedFloat.mul, same, scale]
  exact roundWithAccuracy_exact (s * t) h k small grid

theorem div_one (x : Float) : x / 1 = x := by
  have sign (s : UnpackedFloat.Sign) : s / .positive = s := by cases s <;> rfl
  have same : UnpackedFloat.div Format.binary64 (view x) (view 1) = view x := by
    rw [view_one]
    cases hx : view x with
    | notANumber => rfl
    | infinity s | zero s => simp only [UnpackedFloat.div, sign]
    | finite s m e h =>
      obtain ⟨small, grid⟩ := view_finite hx
      have quotient : UnpackedFloat.div Format.binary64 (.finite s m e h)
          (.finite .positive (2 ^ 52) (-52) (by decide)) = .finite (s / .positive) m e h :=
        div_exact s .positive h h (by decide) small grid (a := 52) (b := 0)
          (by rw [Nat.pow_zero, Nat.mul_one, Nat.mul_comm]) (by omega)
      rwa [sign] at quotient
  rw [div_eq, same, ofView_view]

/-- The fields of a double in its bits. -/
theorem fields (x : Float) : ∃ (s : UnpackedFloat.Sign) (e : BitVec 11) (m : BitVec 52),
    view x = unpack (join s e m) ∧ (2 ^ 63 ≤ x.toBits.toNat ↔ s = .negative) ∧
      x.toBits.toNat / 2 ^ 52 % 2 ^ 11 = e.toNat ∧ x.toBits.toNat % 2 ^ 52 = m.toNat := by
  let bits : Bits := x.toModel.toBits.toBitVec
  refine ⟨_, UnpackedFloat.unpackExponent bits, UnpackedFloat.unpackMantissa bits,
    (congrArg unpack (join_fields bits)).symm, ?_, ?_, ?_⟩
  · have bound : x.toModel.toBits.toNat < 2 ^ 64 := x.toModel.toBits.toBitVec.isLt
    simp only [UnpackedFloat.unpackSign, UnpackedFloat.Sign.ofBitVec, bits, Float.toBits,
      ← BitVec.toNat_inj, BitVec.toNat_cast, BitVec.extractLsb_toNat]
    simp only [Nat.reducePow, UInt64.toNat_toBitVec, Nat.reduceAdd, Nat.sub_self, Nat.zero_add,
      Nat.pow_one, BitVec.toNat_ofNat, Nat.zero_mod, ite_eq_right_iff, reduceCtorEq, imp_false]
    omega
  · simp [UnpackedFloat.unpackExponent, bits, Float.toBits, Nat.shiftRight_eq_div_pow]
  · simp [UnpackedFloat.unpackMantissa, bits, Float.toBits]

/-- The size of a double with the sign that its first bit shows. -/
theorem sign_abs (x : Float) : (if 2 ^ 63 ≤ x.toBits.toNat then -x.abs else x.abs) = x := by
  obtain ⟨s, e, m, whole, negative, _⟩ := fields x
  rw [abs_eq]
  split
  · rename_i bit
    obtain rfl := negative.mp bit
    have turned : (view x).abs = (view x).neg := by
      rw [whole, unpack_join]
      split
      · split <;> rfl
      · split
        · split <;> rfl
        · rfl
    rw [turned, ← neg_ofView, ofView_view, neg_neg]
  · rename_i bit
    have positive : s = .positive := by
      cases s with
      | positive => rfl
      | negative => exact absurd (negative.mpr rfl) bit
    have same : (view x).abs = view x := by
      rw [whole, positive, unpack_join]
      split
      · split <;> rfl
      · split
        · split <;> rfl
        · rfl
    rw [same, ofView_view]

end Double

namespace Decimal

open Double (view ofView)

theorem ofFloat_zero {x : Float} {s : UnpackedFloat.Sign} (zero : view x = .zero s) :
    Dyadic.ofFloat x = ⟨0, -1074⟩ := by
  obtain ⟨t, e, m, whole, _, scale, fraction⟩ := Double.fields x
  rw [zero, Double.unpack_join] at whole
  simp only [Dyadic.ofFloat, Nat.pow_eq, fraction, scale]
  split at whole
  · split at whole <;> cases whole
  · split at whole
    · rename_i subnormal
      split at whole
      · rename_i empty
        rw [subnormal, empty]
        rfl
      · cases whole
    · cases whole

theorem ofFloat_finite {x : Float} {s : UnpackedFloat.Sign} {m : Nat} {e : Int} {h : 0 < m}
    (finite : view x = .finite s m e h) : Dyadic.ofFloat x = ⟨m, e⟩ := by
  obtain ⟨t, scale, fraction, whole, _, hscale, hfraction⟩ := Double.fields x
  rw [finite, Double.unpack_join] at whole
  simp only [Dyadic.ofFloat, Nat.pow_eq, hfraction, hscale]
  split at whole
  · split at whole <;> cases whole
  · split at whole
    · rename_i subnormal
      split at whole
      · cases whole
      · cases whole
        rw [subnormal]
        rfl
    · rename_i normal
      have nonzero : scale.toNat ≠ 0 := fun h => normal (BitVec.eq_of_toNat_eq h)
      cases whole
      rw [if_neg nonzero, Nat.add_comm]

/-- Numerals that are not small are rounded from their exact value. -/
theorem toFloat_eq {d : Decimal} (large : ¬ (d.digits < 2 ^ 53 ∧ d.places ≤ 22)) :
    d.toFloat = ofView (.ofScientific Format.binary64 d.digits (-d.places)) := by
  rw [toFloat, Float.ofScientific, dif_neg large, if_pos rfl, Int.negOfNat_eq]
  rfl

/-- A whole number with as many digits as a double has. -/
theorem toFloat_toUInt64 {m : Nat} (h : 0 < m) (small : m < 2 ^ 53) (large : 2 ^ 52 ≤ m) :
    m.toUInt64.toFloat = ofView (.finite .positive m 0 h) := by
  have value : m.toUInt64.toNat = m := by
    rw [UInt64.toNat_ofNat']
    omega
  have target := Double.targetExponent_eq h small (e := 0) (.inr ⟨large, by decide⟩)
  have exact := Double.roundWithAccuracy_exact .positive h 0 small (e := 0)
    (.inr ⟨large, by decide⟩)
  have positive : compare (m : Int) 0 = .gt := Int.compare_eq_gt.mpr (by omega)
  change ofView (UnpackedFloat.ofInt _ (m.toUInt64.toNat : Int)) = _
  rw [value, UnpackedFloat.ofInt, UnpackedFloat.normalize, positive]
  simp only [UnpackedFloat.round, target, UnpackedFloat.decreaseExponent, Int.toNat_natCast]
  simpa using congrArg ofView exact

theorem toFloat_exactly_whole {m k : Nat} (h : 0 < m) (small : m < 2 ^ 53) (large : 2 ^ 52 ≤ m) :
    (Dyadic.exactly ⟨m, k⟩).toFloat = ofView (.finite .positive m k h) := by
  have whole : Dyadic.exactly ⟨m, k⟩ = ⟨m * 2 ^ k, 0⟩ := by
    simp [Dyadic.exactly, Dyadic.num]
  rw [whole]
  cases k with
  | zero =>
    rw [Nat.pow_zero, Nat.mul_one, toFloat, Float.ofScientific,
      dif_pos ⟨small, Nat.zero_le 22⟩, if_pos rfl, toFloat_toUInt64 h small large]
    exact Double.div_one _
  | succ k =>
    have wide : 2 ^ 53 ≤ m * 2 ^ (k + 1) := by
      have := Nat.two_pow_pos k
      calc 2 ^ 53 = 2 ^ 52 * 2 := rfl
        _ ≤ m * 2 ^ (k + 1) := Nat.mul_le_mul large (by rw [Nat.pow_succ]; omega)
    have nonzero : m * 2 ^ (k + 1) ≠ 0 := by omega
    generalize number : m * 2 ^ (k + 1) = n at wide nonzero
    rw [toFloat_eq (fun small => absurd small.1 (Nat.not_lt.mpr wide))]
    congr 1
    simp only [UnpackedFloat.ofScientific]
    rw [dif_neg nonzero, if_neg (by decide), if_neg (by omega), if_pos (by decide)]
    refine Double.mul_exact .positive .positive h _ _ small (.inr ⟨large, by omega⟩)
      (k := k + 1 + 53) ?_ ?_
    · change n <<< 53 * 10 ^ 0 = _
      rw [Nat.shiftLeft_eq, Nat.pow_zero, Nat.mul_one, ← number, Nat.mul_assoc, ← Nat.pow_add]
    · change (-53 : Int) + 0 = _
      omega

theorem toFloat_exactly_fraction {m k : Nat} {e : Int} (h : 0 < m) (small : m < 2 ^ 53)
    (grid : e = -1074 ∨ 2 ^ 52 ≤ m ∧ -1074 ≤ e) (fraction : e = -(k + 1 : Nat)) :
    (Dyadic.exactly ⟨m, e⟩).toFloat = ofView (.finite .positive m e h) := by
  have places : (-e).toNat = k + 1 := by omega
  have whole : Dyadic.exactly ⟨m, e⟩ = ⟨m * 5 ^ (k + 1), k + 1⟩ := by
    simp only [Dyadic.exactly, Dyadic.num, places, Nat.pow_eq]
    rw [show e.toNat = 0 by omega, Nat.pow_zero, Nat.mul_one]
  have positive : 0 < m * 5 ^ (k + 1) := Nat.mul_pos h (Nat.pow_pos (by decide))
  have wide : ¬ (m * 5 ^ (k + 1) < 2 ^ 53 ∧ k + 1 ≤ 22) := by
    rcases grid with rfl | ⟨large, _⟩
    · omega
    · have := Nat.pow_pos (n := k) (by decide : 0 < 5)
      have : 2 ^ 52 * 5 ≤ m * 5 ^ (k + 1) :=
        Nat.mul_le_mul large (by rw [Nat.pow_succ]; omega)
      omega
  rw [whole, toFloat_eq wide, UnpackedFloat.ofScientific]
  dsimp only
  rw [dif_neg positive.ne', if_neg (by omega), if_neg (by omega), if_neg (by omega)]
  congr 1
  refine Double.div_exact .positive .positive h _ _ small grid (a := k + 1) (b := 0) ?_ ?_
  · have ten : 10 ^ (k + 1) = 5 ^ (k + 1) * 2 ^ (k + 1) := by rw [← Nat.mul_pow]
    rw [Nat.pow_zero, Nat.mul_one, Int.neg_neg, Int.toNat_natCast, ten]
    ac_rfl
  · omega

/-- The numeral with all the digits of a double is the double. -/
theorem toFloat_exactly {m : Nat} {e : Int} (h : 0 < m) (small : m < 2 ^ 53)
    (grid : e = -1074 ∨ 2 ^ 52 ≤ m ∧ -1074 ≤ e) :
    (Dyadic.exactly ⟨m, e⟩).toFloat = ofView (.finite .positive m e h) := by
  rcases e with k | k
  · exact toFloat_exactly_whole h small (by simpa using grid)
  · exact toFloat_exactly_fraction h small grid rfl

theorem toFloat_shortest {x : Float} (finite : x.isFinite = true) :
    (shortest x).toFloat = x.abs := by
  rw [shortest]
  cases found : search x.abs (Dyadic.ofFloat x) 20 (Dyadic.ofFloat x).coarsest with
  | some d => exact toFloat_of_search found
  | none =>
    change (view x).isFinite = true at finite
    rw [Option.getD_none, Double.abs_eq]
    cases hx : view x with
    | notANumber | infinity _ =>
      rw [hx] at finite
      cases finite
    | zero s =>
      have empty : Dyadic.exactly ⟨0, -1074⟩ = ⟨0, 1074⟩ := by
        simp only [Dyadic.exactly, Dyadic.num, Nat.zero_mul]
        rfl
      rw [ofFloat_zero hx, empty, toFloat_eq (by decide), UnpackedFloat.ofScientific,
        dif_pos rfl]
      rfl
    | finite s m e h =>
      obtain ⟨small, grid⟩ := Double.view_finite hx
      rw [ofFloat_finite hx]
      exact toFloat_exactly h small grid

theorem isMark_of_mem_spell {d : Decimal} {c : Char} (h : c ∈ d.spell) : isMark c = true := by
  have whole {c : Char} (h : c ∈ Nat.toDigits 10 (d.digits / Nat.pow 10 d.places)) :
      isMark c = true := by
    rw [isMark, Nat.isDigit_of_mem_toDigits (by decide) (by decide) h]
    rfl
  simp only [spell] at h
  split at h
  · exact whole h
  · rcases List.mem_append.mp h with h | h
    · exact whole h
    · rcases List.mem_cons.mp h with rfl | h
      · rfl
      · rw [isMark, isDigit_of_mem_lastDigits h]
        rfl

/-- A numeral that is written out begins with a digit, never with a point. -/
theorem exists_spell_eq_cons (d : Decimal) : ∃ c cs, d.spell = c :: cs ∧ c.isDigit = true := by
  obtain ⟨c, cs, whole⟩ := List.exists_cons_of_ne_nil
    (Nat.toDigits_ne_nil (n := d.digits / Nat.pow 10 d.places) (b := 10))
  have digit : c.isDigit = true :=
    Nat.isDigit_of_mem_toDigits (by decide) (by decide) (whole ▸ List.mem_cons_self ..)
  simp only [spell, whole]
  split
  · exact ⟨c, cs, rfl, digit⟩
  · exact ⟨c, _, rfl, digit⟩

end Decimal

namespace Double

open Number (isZero isNegative)

theorem of_isFinite {x : Float} (finite : x.isFinite = true) :
    x.isNaN = false ∧ x.isInf = false := by
  change (view x).isFinite = true at finite
  change (view x).isNaN = false ∧ (view x).isInf = false
  cases hx : view x with
  | notANumber | infinity _ =>
    rw [hx] at finite
    cases finite
  | zero _ | finite _ => exact ⟨rfl, rfl⟩

theorem of_not_isFinite {x : Float} (infinite : x.isFinite = false) :
    x.isNaN = true ∨ x.isNaN = false ∧ x.isInf = true := by
  change (view x).isFinite = false at infinite
  change (view x).isNaN = true ∨ (view x).isNaN = false ∧ (view x).isInf = true
  cases hx : view x with
  | notANumber => exact .inl rfl
  | infinity _ => exact .inr ⟨rfl, rfl⟩
  | zero _ | finite _ =>
    rw [hx] at infinite
    cases infinite

theorem spell_eq {x : Float} (finite : x.isFinite = true) :
    Spelled.spell x =
      (if 2 ^ 63 ≤ x.toBits.toNat then ['-'] else []) ++ (Decimal.shortest x).spell := by
  obtain ⟨number, bounded⟩ := of_isFinite finite
  simp only [Spelled.spell, number, bounded, Nat.pow_eq, Bool.false_eq_true, if_false]
  split <;> rfl

/-- Of the numbers that are not negative, only the other zero shows a sign. -/
theorem unsigned_of_nonnegative {x : Float} (number : x.isNaN = false)
    (nonnegative : isNegative x = false) (zero : isZero x = true → x = 0) :
    ¬ 2 ^ 63 ≤ x.toBits.toNat := by
  intro bit
  obtain ⟨s, e, m, whole, negative, _⟩ := fields x
  obtain rfl := negative.mp bit
  rw [unpack_join] at whole
  change (view x).isNaN = false at number
  rw [← Bool.not_eq_true, isNegative_iff] at nonnegative
  split at whole
  · split at whole
    · rw [whole] at nonnegative
      exact nonnegative trivial
    · rw [whole] at number
      cases number
  · split at whole
    · split at whole
      · have same := zero ((isZero_iff x).mpr ⟨_, whole⟩)
        rw [same, view_zero] at whole
        cases whole
      · rw [whole] at nonnegative
        exact nonnegative trivial
    · rw [whole] at nonnegative
      exact nonnegative trivial

theorem spell_of_nonnegative {x : Float} (finite : x.isFinite = true)
    (nonnegative : isNegative x = false) (zero : isZero x = true → x = 0) :
    Spelled.spell x = (Decimal.shortest x).spell := by
  have unsigned := unsigned_of_nonnegative (of_isFinite finite).1 nonnegative zero
  rw [spell_eq finite, if_neg unsigned, List.nil_append]

/-- What is not a finite number is written in letters. -/
theorem spell_of_not_isFinite {x : Float} (infinite : x.isFinite = false)
    (zero : isZero x = true → x = 0) :
    Spelled.spell x = ['N', 'a', 'N'] ∨ Spelled.spell x = ['i', 'n', 'f'] ∨
      isNegative x = true ∧ Spelled.spell x = ['-', 'i', 'n', 'f'] := by
  rcases of_not_isFinite infinite with nan | ⟨number, infinity⟩
  · exact .inl (if_pos nan)
  · refine .inr ?_
    simp only [Spelled.spell, number, infinity, Bool.false_eq_true, if_false, if_true, Nat.pow_eq]
    split
    · rename_i bit
      refine .inr ⟨?_, rfl⟩
      by_contra nonnegative
      exact unsigned_of_nonnegative number (by simpa using nonnegative) zero bit
    · exact .inl rfl

/-- Reading undoes writing for all doubles that are finite. -/
theorem read?_spell {x : Float} (finite : x.isFinite = true) :
    Number.read? (Spelled.spell x) = some x := by
  have size : Number.ofDecimal (Decimal.shortest x) = x.abs := Decimal.toFloat_shortest finite
  have signed := sign_abs x
  rw [spell_eq finite]
  split
  · rename_i negative
    rw [if_pos negative] at signed
    rw [List.singleton_append, Number.read?, Decimal.read?_spell, Option.map_some, size, signed]
  · rename_i negative
    rw [if_neg negative] at signed
    obtain ⟨c, cs, whole, digit⟩ := Decimal.exists_spell_eq_cons (Decimal.shortest x)
    have mark : Decimal.isMark c = true := by rw [Decimal.isMark, digit, Bool.true_or]
    rw [List.nil_append, whole, Number.read?_unsigned mark, ← whole, Decimal.read?_spell,
      Option.map_some, size, signed]

end Double

end UnitArith
