import Mathlib
import UnitArith.Proofs.Number.Law

/-! The laws of arithmetic for doubles. A double is looked at through `view`, as a sign with a
mantissa and an exponent; every operation is one on views that is packed into 64 bits again. -/
namespace UnitArith.Double

open Float.Model (UnpackedFloat Format)
open Float.Model.UnpackedFloat (Sign ExtendedMantissa)
open Number (isZero isNegative)

abbrev Bits := BitVec Format.binary64.numBits

abbrev pack : UnpackedFloat → Bits := UnpackedFloat.pack Format.binary64
abbrev unpack : Bits → UnpackedFloat := UnpackedFloat.unpack Format.binary64

/-- The bits of these three fields. -/
abbrev join (s : Sign) (exponent : BitVec 11) (mantissa : BitVec 52) : Bits :=
  UnpackedFloat.packComponents Format.binary64 s exponent mantissa

theorem unpackSign_join (s : Sign) (e : BitVec 11) (m : BitVec 52) :
    UnpackedFloat.unpackSign (join s e m) = s.toBitVec := by
  simp only [UnpackedFloat.unpackSign, UnpackedFloat.packComponents]
  apply BitVec.eq_of_getLsbD_eq
  intro i bound
  simp only [BitVec.getLsbD_append, BitVec.getLsbD_cast, BitVec.getLsbD_extractLsb]
  grind

theorem join_fields (b : Bits) :
    join (.ofBitVec (UnpackedFloat.unpackSign b)) (UnpackedFloat.unpackExponent b)
      (UnpackedFloat.unpackMantissa b) = b := by
  have sign : ∀ v : BitVec 1, (Sign.ofBitVec v).toBitVec = v := by decide
  simp only [UnpackedFloat.packComponents, sign, UnpackedFloat.unpackSign,
    UnpackedFloat.unpackExponent, UnpackedFloat.unpackMantissa]
  apply BitVec.eq_of_getLsbD_eq
  intro i bound
  simp only [BitVec.getLsbD_append, BitVec.getLsbD_cast, BitVec.getLsbD_extractLsb]
  grind

theorem unpack_join (s : Sign) (e : BitVec 11) (m : BitVec 52) :
    unpack (join s e m) =
      if e = -1#11 then if m = 0#52 then .infinity s else .notANumber
      else if e = 0#11 then
        if h : m = 0#52 then .zero s
        else .finite s m.toNat (-1074) (by simpa [BitVec.toNat_pos, BitVec.pos_iff_ne_zero])
      else .finite s (2 ^ 52 + m.toNat) (e.toNat - 1075) (by omega) := by
  have sign : Sign.ofBitVec s.toBitVec = s := by cases s <;> rfl
  have lead : (1#1 ++ m).toNat = 2 ^ 52 + m.toNat := by
    rw [BitVec.toNat_append, ← Nat.shiftLeft_add_eq_or_of_lt m.isLt]
    rfl
  simp only [UnpackedFloat.unpack, UnpackedFloat.unpackMantissa_packComponents,
    UnpackedFloat.unpackExponent_packComponents, unpackSign_join s e m, sign, lead]
  split
  · rfl
  · split
    · rename_i subnormal
      subst subnormal
      split <;> rfl
    · rfl

theorem pack_finite (s : Sign) (m : Nat) (e : Int) (h : 0 < m) :
    pack (.finite s m e h) =
      if 2047 ≤ (e + 1075).toNat then join s (-1#11) 0#52
      else if m.log2 = 52 then join s (BitVec.ofNat _ (e + 1075).toNat) (BitVec.ofNat _ m)
      else join s 0#11 (BitVec.ofNat _ m) := by
  have bias : e + Format.binary64.exponentBias + (52 : Nat) = e + 1075 := by
    have : Format.binary64.exponentBias = 1023 := rfl
    omega
  have bits : Format.binary64.mantissaBits = 52 + 1 := rfl
  simp only [UnpackedFloat.pack, bias, bits, UnpackedFloat.packedInfinity,
    show 2 ^ 11 = 2047 + 1 by rfl, Nat.add_le_add_iff_right, Nat.add_right_cancel_iff]
  rfl

/-- All fields but those of a NaN, which may carry a payload, survive unpacking. -/
theorem pack_unpack_join (s : Sign) (e : BitVec 11) (m : BitVec 52)
    (number : e = -1#11 → m = 0#52) : pack (unpack (join s e m)) = join s e m := by
  rw [unpack_join]
  split
  · rename_i special
    rw [if_pos (number special), number special, special]
    rfl
  · rename_i finite
    split
    · rename_i subnormal
      split
      · rename_i zero
        rw [zero, subnormal]
        rfl
      · rename_i nonzero
        have positive : m.toNat ≠ 0 := fun h => nonzero (BitVec.eq_of_toNat_eq h)
        have short := (Nat.log2_lt positive).mpr m.isLt
        rw [pack_finite, if_neg (by decide), if_neg (by omega), subnormal, BitVec.ofNat_toNat,
          BitVec.setWidth_eq]
    · have below := e.isLt
      have small := m.isLt
      have bound : e.toNat ≠ 2047 := fun h => finite (BitVec.eq_of_toNat_eq h)
      have scale : ((e.toNat : Int) - 1075 + 1075).toNat = e.toNat := by omega
      have lead : (2 ^ 52 + m.toNat).log2 = 52 := by
        rw [Nat.log2_eq_iff (by omega)]
        omega
      have rest : BitVec.ofNat 52 (2 ^ 52 + m.toNat) = m := by
        apply BitVec.eq_of_toNat_eq
        rw [BitVec.toNat_ofNat]
        omega
      rw [pack_finite, scale, if_neg (by omega), if_pos lead, rest, BitVec.ofNat_toNat,
        BitVec.setWidth_eq]

theorem pack_unpack (x : Float.Model) : Float.Model.pack x.unpack = x := by
  obtain ⟨⟨bits⟩, valid⟩ := x
  simp only [Float.Model.pack, Float.Model.unpack, Float.Model.mk.injEq]
  congr 1
  by_cases nan : @UnpackedFloat.unpackExponent Format.binary64 bits = -1#11 ∧
      @UnpackedFloat.unpackMantissa Format.binary64 bits ≠ 0#52
  · have canonical : bits = UnpackedFloat.packedNaN Format.binary64 :=
      valid.eq_packedNaN nan.1 nan.2
    rw [canonical]
    rfl
  · rw [← join_fields bits]
    exact pack_unpack_join _ _ _ fun special =>
      Classical.byContradiction fun payload => nan ⟨special, payload⟩

theorem unpack_join_neg (s : Sign) (e : BitVec 11) (m : BitVec 52) :
    unpack (join (-s) e m) = (unpack (join s e m)).neg := by
  simp only [unpack_join]
  split
  · split <;> rfl
  · split
    · split <;> rfl
    · rfl

/-- What is too large for a double becomes an infinity of the same sign. -/
theorem unpack_pack_neg (u : UnpackedFloat) : unpack (pack u.neg) = (unpack (pack u)).neg := by
  cases u with
  | notANumber => rfl
  | infinity s | zero s => exact unpack_join_neg s _ _
  | finite s m e h =>
    simp only [UnpackedFloat.neg, pack_finite]
    split
    · exact unpack_join_neg s _ _
    · split <;> exact unpack_join_neg s _ _

def view (x : Float) : UnpackedFloat := x.toModel.unpack

/-- The double next to a view that need not be rounded yet. -/
def ofView (u : UnpackedFloat) : Float := .ofModel (.pack u)

theorem ofView_view (x : Float) : ofView (view x) = x :=
  congrArg Float.ofModel (pack_unpack x.toModel)

theorem view_injective {x y : Float} (h : view x = view y) : x = y := by
  rw [← ofView_view x, h, ofView_view]

theorem view_ofView_neg (u : UnpackedFloat) : view (ofView u.neg) = (view (ofView u)).neg :=
  unpack_pack_neg u

theorem neg_ofView (u : UnpackedFloat) : -ofView u = ofView u.neg := by
  rw [← ofView_view (ofView u.neg), view_ofView_neg]
  rfl

theorem view_neg (x : Float) : view (-x) = (view x).neg := by
  rw [← ofView_view x, neg_ofView, view_ofView_neg]

theorem view_zero : view 0 = .zero .positive := rfl
theorem view_one : view 1 = .finite .positive (2 ^ 52) (-52) (by decide) := rfl

theorem add_eq (x y : Float) : x + y = ofView (.add Format.binary64 (view x) (view y)) := rfl
theorem sub_eq (x y : Float) : x - y = ofView (.sub Format.binary64 (view x) (view y)) := rfl
theorem mul_eq (x y : Float) : x * y = ofView (.mul Format.binary64 (view x) (view y)) := rfl
theorem div_eq (x y : Float) : x / y = ofView (.div Format.binary64 (view x) (view y)) := rfl
theorem abs_eq (x : Float) : x.abs = ofView (view x).abs := rfl

theorem isZero_iff (x : Float) : isZero x = true ↔ ∃ s, view x = .zero s := by
  change UnpackedFloat.beq (view x) (view 0) = true ↔ _
  rw [view_zero]
  cases view x with
  | zero _ | notANumber => simp [UnpackedFloat.beq, UnpackedFloat.compare]
  | infinity s | finite s => cases s <;> simp [UnpackedFloat.beq, UnpackedFloat.compare]

def Below : UnpackedFloat → Prop
  | .infinity .negative | .finite .negative .. => True
  | _ => False

theorem not_below_neg {u : UnpackedFloat} (h : Below u) : ¬ Below u.neg := by
  cases u with
  | notANumber | zero _ => cases h
  | infinity s | finite s =>
    cases s with
    | positive => cases h
    | negative => exact id

theorem abs_of_below {u : UnpackedFloat} (h : Below u) : u.abs = u.neg := by
  cases u with
  | notANumber | zero _ => cases h
  | infinity s | finite s =>
    cases s with
    | positive => cases h
    | negative => rfl

theorem isNegative_iff (x : Float) : isNegative x = true ↔ Below (view x) := by
  have lt : x < 0 ↔ UnpackedFloat.lt (view x) (view 0) = true := decide_eq_true_iff
  rw [show isNegative x = decide (x < 0) from rfl, decide_eq_true_iff, lt, view_zero]
  cases view x with
  | zero _ | notANumber => simp [UnpackedFloat.lt, UnpackedFloat.compare, Below]
  | infinity s | finite s => cases s <;> simp [UnpackedFloat.lt, UnpackedFloat.compare, Below]

theorem neg_neg (x : Float) : - -x = x := by
  have twice (s : Sign) : - -s = s := by cases s <;> rfl
  apply view_injective
  rw [view_neg, view_neg]
  cases view x <;> simp [UnpackedFloat.neg, twice]

theorem isZero_neg (x : Float) : isZero (-x) = isZero x := by
  rw [Bool.eq_iff_iff, isZero_iff, isZero_iff, view_neg]
  cases view x with
  | zero s => exact ⟨fun _ => ⟨s, rfl⟩, fun _ => ⟨-s, rfl⟩⟩
  | notANumber | infinity _ | finite _ => simp [UnpackedFloat.neg]

theorem isZero_of_isNegative {x : Float} (h : isNegative x = true) : isZero x = false := by
  rw [isNegative_iff] at h
  rw [← Bool.not_eq_true, isZero_iff]
  rintro ⟨s, zero⟩
  rw [zero] at h
  exact h

theorem isNegative_neg {x : Float} (h : isNegative x = true) : isNegative (-x) = false := by
  rw [isNegative_iff] at h
  rw [← Bool.not_eq_true, isNegative_iff, view_neg]
  exact not_below_neg h

theorem abs_of_isNegative {x : Float} (h : isNegative x = true) : Number.abs x = -x := by
  rw [isNegative_iff] at h
  change x.abs = -x
  rw [abs_eq, abs_of_below h, ← neg_ofView, ofView_view]

theorem add_comm (x y : Float) : x + y = y + x := by
  rw [add_eq, add_eq]
  congr 1
  cases view x with
  | notANumber => cases view y <;> rfl
  | zero s | infinity s =>
    cases view y with
    | zero t | infinity t => cases s <;> cases t <;> rfl
    | notANumber | finite _ => rfl
  | finite s m e h =>
    cases view y with
    | finite t n f k => simp only [UnpackedFloat.add, Int.add_comm, Int.min_comm]
    | notANumber | zero _ | infinity _ => rfl

theorem add_of_isZero {x z : Float} (zero : isZero z = true) (h : isZero x = false) :
    x + z = x := by
  obtain ⟨s, hz⟩ := (isZero_iff z).mp zero
  rw [← Bool.not_eq_true, isZero_iff] at h
  have same : UnpackedFloat.add Format.binary64 (view x) (.zero s) = view x := by
    cases hx : view x with
    | zero t => exact absurd ⟨t, hx⟩ h
    | notANumber | infinity _ | finite _ => rfl
  rw [add_eq, hz, same, ofView_view]

theorem isZero_add {x z : Float} (hx : isZero x = true) (hz : isZero z = true) :
    isZero (x + z) = true := by
  obtain ⟨s, hx⟩ := (isZero_iff x).mp hx
  obtain ⟨t, hz⟩ := (isZero_iff z).mp hz
  rw [isZero_iff, add_eq, hx, hz]
  cases s <;> cases t <;> exact ⟨_, rfl⟩

theorem sub_eq_add_neg (x y : Float) : x - y = x + -y := by
  have apply (s : Sign) (n : Int) : (-s).apply n = -s.apply n := by
    cases s with
    | negative => exact (Int.neg_neg n).symm
    | positive => rfl
  rw [sub_eq, add_eq, view_neg]
  congr 1
  cases view x with
  | notANumber => cases view y <;> rfl
  | zero s | infinity s =>
    cases view y with
    | zero t | infinity t => cases s <;> cases t <;> rfl
    | notANumber | finite _ => rfl
  | finite s m e h =>
    cases view y with
    | finite t n f k =>
      simp only [UnpackedFloat.sub, UnpackedFloat.add, UnpackedFloat.neg, apply, Int.sub_eq_add_neg]
    | notANumber | zero _ | infinity _ => rfl

theorem mul_comm (x y : Float) : x * y = y * x := by
  have sign (s t : Sign) : s * t = t * s := by cases s <;> cases t <;> rfl
  rw [mul_eq, mul_eq]
  congr 1
  cases view x <;> cases view y <;>
    simp [UnpackedFloat.mul, sign, Nat.mul_comm, Int.add_comm]

theorem neg_mul (x y : Float) : -x * y = -(x * y) := by
  have sign (s t : Sign) : -s * t = -(s * t) := by cases s <;> cases t <;> rfl
  rw [mul_eq, mul_eq, view_neg, neg_ofView]
  congr 1
  cases view x <;> cases view y <;> simp [UnpackedFloat.mul, UnpackedFloat.neg, sign]
  simp only [UnpackedFloat.roundWithAccuracy]
  split <;> rfl

/-- Doubles have 53 bits, and fewer only on the finest grid. -/
theorem view_finite {x : Float} {s : Sign} {m : Nat} {e : Int} {h : 0 < m}
    (finite : view x = .finite s m e h) :
    m < 2 ^ 53 ∧ (e = -1074 ∨ 2 ^ 52 ≤ m ∧ -1074 ≤ e) := by
  let bits : Bits := x.toModel.toBits.toBitVec
  have small : (UnpackedFloat.unpackMantissa bits).toNat < 2 ^ 52 := BitVec.isLt _
  have fields : unpack (join _ _ _) = view x := congrArg unpack (join_fields bits)
  rw [unpack_join, finite] at fields
  split at fields
  · split at fields <;> cases fields
  · split at fields
    · split at fields
      · cases fields
      · cases fields
        omega
    · rename_i normal
      have : (UnpackedFloat.unpackExponent bits).toNat ≠ 0 := fun h =>
        normal (BitVec.eq_of_toNat_eq h)
      cases fields
      omega

theorem shift_exact (m k : Nat) :
    (⟨m * 2 ^ k, false, false⟩ : ExtendedMantissa) >>> k = ⟨m, false, false⟩ := by
  change k.repeat ExtendedMantissa.shiftRightOne _ = _
  induction k generalizing m with
  | zero => simp [Nat.repeat]
  | succ k ih =>
    rw [Nat.repeat, Nat.pow_succ', ← Nat.mul_assoc, ih]
    simp [ExtendedMantissa.shiftRightOne]

theorem log2_mul_two_pow {m : Nat} (h : 0 < m) (k : Nat) : (m * 2 ^ k).log2 = m.log2 + k := by
  induction k with
  | zero => simp
  | succ k ih =>
    have positive : m * 2 ^ k ≠ 0 := Nat.mul_ne_zero (by omega) (by simp)
    rw [Nat.pow_succ', Nat.mul_left_comm, Nat.log2_two_mul positive, ih, Nat.add_assoc]

/-- A double lies on the grid that rounding chooses for numbers of its size. -/
theorem targetExponent_eq {m : Nat} {e : Int} (h : 0 < m) (small : m < 2 ^ 53)
    (grid : e = -1074 ∨ 2 ^ 52 ≤ m ∧ -1074 ≤ e) :
    Format.binary64.targetExponent (Float.Model.totalExponent m e) = e := by
  have length : m.log2 < 53 := (Nat.log2_lt (by omega)).mpr small
  change max (m.log2 + 1 + e - 53) (-1074) = e
  rcases grid with rfl | ⟨large, bound⟩
  · omega
  · have := (Nat.le_log2 (by omega)).mpr large
    omega

/-- Rounding changes nothing where zeros are all that is cut off. -/
theorem roundWithAccuracy_exact (s : Sign) {m : Nat} {e : Int} (h : 0 < m) (k : Nat)
    (small : m < 2 ^ 53) (grid : e = -1074 ∨ 2 ^ 52 ≤ m ∧ -1074 ≤ e) :
    UnpackedFloat.roundWithAccuracy Format.binary64 s (m * 2 ^ k) (e - k) .exact =
      .finite s m e h := by
  have target := targetExponent_eq h small grid
  have scaled : Float.Model.totalExponent (m * 2 ^ k) (e - k) = Float.Model.totalExponent m e := by
    simp only [Float.Model.totalExponent, log2_mul_two_pow h]
    omega
  have first : (e - (e - k)).toNat = k := by omega
  have back : e - k + (k : Int) = e := by omega
  have second : (e - e).toNat = 0 := by omega
  have still := shift_exact m 0
  rw [Nat.pow_zero, Nat.mul_one] at still
  simp only [UnpackedFloat.roundWithAccuracy, UnpackedFloat.shiftToTargetExponent,
    UnpackedFloat.shiftToExponent, scaled, target, first,
    ExtendedMantissa.ofMantissaAndAccuracy, shift_exact, ExtendedMantissa.roundedMantissa,
    ExtendedMantissa.accuracy, UnpackedFloat.Accuracy.roundToNearestEven, back, second, still]
  rw [dif_neg (by omega)]
  simp

theorem mul_one (x : Float) : x * 1 = x := by
  have sign (s : Sign) : s * .positive = s := by cases s <;> rfl
  have same : UnpackedFloat.mul Format.binary64 (view x) (view 1) = view x := by
    rw [view_one]
    cases hx : view x with
    | notANumber => rfl
    | infinity s | zero s => simp only [UnpackedFloat.mul, sign]
    | finite s m e h =>
      obtain ⟨small, grid⟩ := view_finite hx
      simp only [UnpackedFloat.mul, sign]
      exact roundWithAccuracy_exact s h 52 small grid
  rw [mul_eq, same, ofView_view]

instance : LawfulNumber Float where
  isZero_zero := by decide +kernel
  isZero_one := by decide +kernel
  isZero_neg := isZero_neg
  isZero_of_isNegative := isZero_of_isNegative
  isNegative_neg := isNegative_neg
  abs_of_isNegative := abs_of_isNegative
  neg_neg := neg_neg
  add_comm := add_comm
  add_of_isZero := add_of_isZero
  isZero_add := isZero_add
  sub_eq_add_neg := sub_eq_add_neg
  mul_comm := mul_comm
  mul_one := mul_one
  neg_mul := neg_mul

theorem beq_iff (x y : Float) :
    x == y ↔ view x = view y ∧ view x ≠ .notANumber ∨ isZero x = true ∧ isZero y = true := by
  change UnpackedFloat.beq (view x) (view y) = true ↔ _
  rw [isZero_iff, isZero_iff]
  have swapped (o : Ordering) : o.swap = .eq ↔ o = .eq := by cases o <;> decide
  have same (s : Sign) : compare s s = .eq := by cases s <;> rfl
  cases view x with
  | notANumber => simp [UnpackedFloat.beq, UnpackedFloat.compare]
  | zero s =>
    cases view y with
    | zero t => simp [UnpackedFloat.beq, UnpackedFloat.compare]
    | notANumber => simp [UnpackedFloat.beq, UnpackedFloat.compare]
    | infinity t | finite t => cases t <;> simp [UnpackedFloat.beq, UnpackedFloat.compare]
  | infinity s =>
    cases s <;> cases view y with
    | zero t | notANumber | finite t => simp [UnpackedFloat.beq, UnpackedFloat.compare]
    | infinity t => cases t <;> simp [UnpackedFloat.beq, UnpackedFloat.compare, same]
  | finite s m e h =>
    cases s <;> cases view y with
    | zero t | notANumber => simp [UnpackedFloat.beq, UnpackedFloat.compare]
    | infinity t => cases t <;> simp [UnpackedFloat.beq, UnpackedFloat.compare]
    | finite t n f k =>
      cases t <;> simp [UnpackedFloat.beq, UnpackedFloat.compare, swapped, Ordering.then_eq_eq,
        and_comm]

/-- Two doubles are the same when they compare equal or are both NaN. -/
theorem same_iff (x y : Float) : Number.Same x y ↔ x == y ∨ x.isNaN ∧ y.isNaN := by
  have nan (z : Float) : z.isNaN = true ↔ view z = .notANumber := by
    change UnpackedFloat.isNaN (view z) = true ↔ _
    cases view z <;> simp [UnpackedFloat.isNaN]
  rw [beq_iff, nan, nan]
  constructor
  · rintro (rfl | zeros)
    · by_cases h : view x = .notANumber
      · exact .inr ⟨h, h⟩
      · exact .inl (.inl ⟨rfl, h⟩)
    · exact .inl (.inr zeros)
  · rintro ((⟨same, _⟩ | zeros) | ⟨hx, hy⟩)
    · exact .inl (view_injective same)
    · exact .inr zeros
    · exact .inl (view_injective (hx.trans hy.symm))

end UnitArith.Double
