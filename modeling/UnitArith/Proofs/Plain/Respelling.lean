import UnitArith.Proofs.Plain.Grammar

/-! Respelling the signs behind operators keeps the grammar: a plus may go, and a minus before
a group may become a factor. The factor binds to what stands in front of it, which changes the
value only behind a division. -/
namespace UnitArith.Plain

/-- What stands in front of a symbol. -/
inductive Place where
  /-- No operator: a sign joins two values here, or begins an expression. -/
  | free
  /-- An operator: a sign belongs to the operand that is due. -/
  | operand
  /-- A division, and nothing behind it but signs. -/
  | divisor
  deriving DecidableEq, Repr

def Place.after : Place → Operator → Place
  | _, .times => .operand
  | _, .divide => .divisor
  | .free, .plus | .free, .minus => .operand
  | place, .plus | place, .minus => place

theorem Place.after_ne_free (place : Place) (op : Operator) : place.after op ≠ .free := by
  cases place <;> cases op <;> decide

theorem Place.after_sign (op : Operator) (sign : op.isAdditive = true) {place : Place} :
    place.after op = .divisor ↔ place = .divisor := by
  cases op <;> cases place <;> simp [Place.after, Operator.isAdditive] at sign ⊢

variable {α : Type} [Number α]

def Symbol.placeAfter (place : Place) : Symbol α → Place
  | .operator op => place.after op
  | _ => .free

/-- The signs of the first list that stand behind an operator are respelled in the second one,
some of them. If `intact`, no minus behind a division becomes a factor. -/
inductive Respelled (intact : Prop) : Place → List (Symbol α) → List (Symbol α) → Prop
  | nil {place : Place} : Respelled intact place [] []
  | keep {place : Place} (symbol : Symbol α) {a b : List (Symbol α)}
      (rest : Respelled intact (symbol.placeAfter place) a b) :
      Respelled intact place (symbol :: a) (symbol :: b)
  | plus {place : Place} (behind : place ≠ .free) {a b : List (Symbol α)}
      (rest : Respelled intact place a b) :
      Respelled intact place (.operator .plus :: a) b
  | factor {place : Place} (behind : place ≠ .free) (whole : intact → place ≠ .divisor)
      {a b : List (Symbol α)} (rest : Respelled intact .free a b) :
      Respelled intact place (.operator .minus :: .opening :: a)
        (.operator .minus :: .number 1 :: .operator .times :: .opening :: b)

/-- What becomes of a signed atom at a place: a signed atom again, or a unit with its sign and
a group. -/
inductive Signed.Becomes (intact : Prop) (place : Place) (s : Signed α) :
    List (Symbol α) → Prop
  | signed (s' : Signed α) (same : intact → s'.value = s.value) : s.Becomes intact place s'.symbols
  | product (unit group : Signed α) (whole : intact → place ≠ .divisor)
      (one : unit.value = 1 ∨ unit.value = -1)
      (same : intact → unit.value * group.value = s.value) :
      s.Becomes intact place (unit.symbols ++ .operator .times :: group.symbols)

variable {intact : Prop}

theorem Respelled.free_operator {op : Operator} {a out : List (Symbol α)}
    (h : Respelled intact .free (.operator op :: a) out) :
    ∃ b, out = .operator op :: b ∧ Respelled intact (Place.free.after op) a b := by
  cases h with
  | keep _ rest => exact ⟨_, rfl, rest⟩
  | plus behind => exact absurd rfl behind
  | factor behind => exact absurd rfl behind

namespace Signed.Becomes

theorem dropped {place : Place} {s : Signed α} {front : List (Symbol α)}
    (h : s.Becomes intact place front) : (Signed.positive s).Becomes intact place front := by
  cases h with
  | signed s' same => exact .signed s' same
  | product unit group whole one same => exact .product unit group whole one same

theorem positive {place : Place} {s : Signed α} {front : List (Symbol α)}
    (h : s.Becomes intact (place.after .plus) front) :
    (Signed.positive s).Becomes intact place (.operator .plus :: front) := by
  cases h with
  | signed s' same => exact .signed (.positive s') same
  | product unit group whole one same =>
    refine .product (.positive unit) group (fun h => ?_) one same
    rw [Ne, ← Place.after_sign .plus rfl]
    exact whole h

theorem negative [LawfulNumber α] {place : Place} {s : Signed α} {front : List (Symbol α)}
    (h : s.Becomes intact (place.after .minus) front) :
    (Signed.negative s).Becomes intact place (.operator .minus :: front) := by
  cases h with
  | signed s' same =>
    exact .signed (.negative s') fun h => by rw [Signed.value, Signed.value, same h]
  | product unit group whole one same =>
    refine .product (.negative unit) group (fun h => ?_) ?_ fun h => ?_
    · rw [Ne, ← Place.after_sign .minus rfl]
      exact whole h
    · rw [Signed.value]
      rcases one with one | one
      · exact .inr (by rw [one])
      · exact .inl (by rw [one, LawfulNumber.neg_neg])
    · rw [Signed.value, Signed.value, LawfulNumber.neg_mul, same h]

theorem factor [LawfulNumber α] {place : Place} (whole : intact → place ≠ .divisor)
    {e e' : Sum α} (same : intact → e'.value = e.value) :
    (Signed.negative (.group e)).Becomes intact place
      (.operator .minus :: .number 1 :: .operator .times :: .opening ::
        (e'.symbols ++ [.closing])) := by
  refine .product (.negative (.number 1)) (.group e') whole (.inr rfl) fun h => ?_
  rw [Signed.value, Signed.value, Signed.value, Signed.value, Signed.value, same h,
    LawfulNumber.neg_mul, LawfulNumber.mul_comm, LawfulNumber.mul_one]

/-- At the beginning of a product the group belongs to the product. -/
theorem exists_product {place : Place} {s : Signed α} {front : List (Symbol α)}
    (h : s.Becomes intact place front) :
    ∃ p : Product α, p.symbols = front ∧ (intact → p.value = s.value) := by
  cases h with
  | signed s' same => exact ⟨.signed s', rfl, same⟩
  | product unit group _ _ same => exact ⟨.join (.signed unit) .times rfl group, rfl, same⟩

theorem exists_join [LawfulNumber α] {place : Place} {s : Signed α} {front : List (Symbol α)}
    (left : Product α) {op : Operator} (multiplicative : op.isAdditive = false)
    (h : s.Becomes intact (place.after op) front) :
    ∃ p : Product α, p.symbols = left.symbols ++ .operator op :: front ∧
      (intact → p.value = op.apply left.value s.value) := by
  cases h with
  | signed s' same =>
    exact ⟨.join left op multiplicative s', rfl, fun h => by rw [Product.value, same h]⟩
  | product unit group whole one same =>
    refine ⟨.join (.join left op multiplicative unit) .times rfl group, by simp [Product.symbols],
      fun h => ?_⟩
    have times : op = .times := by
      cases op with
      | times => rfl
      | divide => exact absurd rfl (whole h)
      | plus | minus => cases multiplicative
    subst times
    simp only [Product.value, Operator.apply, ← same h]
    -- a unit may be grouped with either neighbour
    rcases one with one | one <;> rw [one]
    · rw [LawfulNumber.mul_one, LawfulNumber.mul_comm 1, LawfulNumber.mul_one]
    · rw [Number.mul_neg_one, LawfulNumber.mul_comm (-1), Number.mul_neg_one,
        LawfulNumber.neg_mul, Number.mul_neg]

end Signed.Becomes

mutual

theorem Respelled.signed [LawfulNumber α] : ∀ (s : Signed α) {place : Place}
    {rest out : List (Symbol α)}, Respelled intact place (s.symbols ++ rest) out →
      ∃ front tail, out = front ++ tail ∧ s.Becomes intact place front ∧
        Respelled intact .free rest tail
  | .number value, place, rest, out, h => by
    cases h with
    | keep _ behind => exact ⟨_, _, rfl, .signed (.number value) fun _ => rfl, behind⟩
  | .positive s, place, rest, out, h => by
    cases h with
    | keep _ others =>
      obtain ⟨front, tail, rfl, becomes, behind⟩ := Respelled.signed s others
      exact ⟨_, tail, rfl, becomes.positive, behind⟩
    | plus _ others =>
      obtain ⟨front, tail, rfl, becomes, behind⟩ := Respelled.signed s others
      exact ⟨front, tail, rfl, becomes.dropped, behind⟩
  | .negative s, place, rest, out, h => by
    generalize whole : Signed.symbols (.negative s) ++ rest = symbols at h
    rw [Signed.symbols, List.cons_append] at whole
    cases h with
    | nil => cases whole
    | keep _ others =>
      cases whole
      obtain ⟨front, tail, rfl, becomes, behind⟩ := Respelled.signed s others
      exact ⟨_, tail, rfl, becomes.negative, behind⟩
    | plus => cases whole
    | factor _ kept inside =>
      -- what opens a group is the group itself
      cases s with
      | group e =>
        rw [Signed.symbols, List.cons_append, List.append_assoc] at whole
        cases whole
        obtain ⟨e', tail, rfl, closed, same⟩ := Respelled.sum e inside
        cases closed with
        | keep _ behind => exact ⟨_, _, by simp, .factor kept same, behind⟩
      | number | positive | negative => cases whole
  | .group e, place, rest, out, h => by
    rw [Signed.symbols, List.cons_append, List.append_assoc] at h
    cases h with
    | keep _ inside =>
      obtain ⟨e', tail, rfl, closed, same⟩ := Respelled.sum e inside
      cases closed with
      | keep _ behind => exact ⟨_, _, by simp [Signed.symbols], .signed (.group e') same, behind⟩

theorem Respelled.product [LawfulNumber α] : ∀ (p : Product α) {place : Place}
    {rest out : List (Symbol α)}, Respelled intact place (p.symbols ++ rest) out →
      ∃ (p' : Product α) (tail : List (Symbol α)), out = p'.symbols ++ tail ∧
        Respelled intact .free rest tail ∧ (intact → p'.value = p.value)
  | .signed s, place, rest, out, h => by
    obtain ⟨front, tail, rfl, becomes, behind⟩ := Respelled.signed s h
    obtain ⟨p, rfl, same⟩ := becomes.exists_product
    exact ⟨p, tail, rfl, behind, same⟩
  | .join left op multiplicative right, place, rest, out, h => by
    rw [Product.symbols, List.append_assoc, List.cons_append] at h
    obtain ⟨left', tail, rfl, joined, same_left⟩ := Respelled.product left h
    obtain ⟨tail, rfl, others⟩ := joined.free_operator
    obtain ⟨front, tail, rfl, becomes, behind⟩ := Respelled.signed right others
    obtain ⟨p, whole, same⟩ := becomes.exists_join left' multiplicative
    refine ⟨p, tail, by simp [whole], behind, fun h => ?_⟩
    rw [same h, same_left h, Product.value]

theorem Respelled.sum [LawfulNumber α] : ∀ (e : Sum α) {place : Place}
    {rest out : List (Symbol α)}, Respelled intact place (e.symbols ++ rest) out →
      ∃ (e' : Sum α) (tail : List (Symbol α)), out = e'.symbols ++ tail ∧
        Respelled intact .free rest tail ∧ (intact → e'.value = e.value)
  | .product p, place, rest, out, h => by
    obtain ⟨p', tail, rfl, behind, same⟩ := Respelled.product p h
    exact ⟨.product p', tail, rfl, behind, same⟩
  | .join left op additive right, place, rest, out, h => by
    rw [Sum.symbols, List.append_assoc, List.cons_append] at h
    obtain ⟨left', tail, rfl, joined, same_left⟩ := Respelled.sum left h
    obtain ⟨tail, rfl, others⟩ := joined.free_operator
    obtain ⟨right', tail, rfl, behind, same_right⟩ := Respelled.product right others
    refine ⟨.join left' op additive right', tail, by simp [Sum.symbols], behind, fun h => ?_⟩
    rw [Sum.value, Sum.value, same_left h, same_right h]

end

/-- A respelled expression has a value again, and the same value if the divisors are intact. -/
theorem Respelled.value? [LawfulNumber α] {place : Place} {symbols out : List (Symbol α)}
    {value : α} (h : Respelled intact place symbols out) (read : value? symbols = some value) :
    ∃ value', Plain.value? out = some value' ∧ (intact → value' = value) := by
  obtain ⟨e, rfl, rfl⟩ := exists_sum_of_value? read
  rw [← List.append_nil e.symbols] at h
  obtain ⟨e', tail, rfl, behind, same⟩ := Respelled.sum e h
  cases behind
  rw [List.append_nil]
  exact ⟨e'.value, value?_symbols e', same⟩

end UnitArith.Plain
