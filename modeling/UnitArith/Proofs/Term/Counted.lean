import UnitArith.Term.Arithmetic

/-! Arithmetic on whole terms that counts its calls. Each function calls the others as the sums and
products are defined, on terms that it has just made; nothing in its shape says that it ends. -/
namespace UnitArith

open Term (ofOperands signedOperand)

/-- Arithmetic that may make a number of calls: what comes of it and how many are left, or nothing
where there were not enough. -/
abbrev Counted (α : Type) [Number α] : Type → Type := ExceptT (AlgebraError α) (StateT Nat Option)

namespace Counted

variable {α β γ : Type} [Number α]

/-- Makes one call, if one is left. -/
def call : Counted α Unit := fun
  | 0 => none
  | left + 1 => some (.ok (), left)

def exhausted : Counted α β := fun _ => none

/-- The side of a sum on which the expression stands. -/
inductive Side where
  | left
  | right

def addQuantities (p q : Quantity α) : Counted α (Term α) :=
  if q.isZero then pure (.quantity p)
  else if p.isZero then pure (.quantity q)
  else if p.hasUnit != q.hasUnit then throw (.unitMismatch (.quantity p) (.quantity q))
  else if p.sameUnit q then pure (.quantity (p.plus q))
  else pure (.expression (.quantity p) [signedOperand q])

/-- A new operand stands on the side of the quantity. -/
def insert (head : Term α) (tail : List (Operator × Term α)) (q : Quantity α) : Side → Term α
  | .left => ofOperands ((.plus, head) :: tail ++ [signedOperand q])
  | .right =>
    let second := match head with
      | .quantity p => signedOperand p
      | .expression .. => (.plus, head)
    ofOperands ((.plus, .quantity q) :: second :: tail)

def mismatch (t : Term α) (q : Quantity α) : Side → AlgebraError α
  | .left => .unitMismatch t (.quantity q)
  | .right => .unitMismatch (.quantity q) t

mutual

/-- Calls nest at most `depth` deep. -/
def calculate : Nat → Term α → Operator → Term α → Counted α (Term α)
  | 0, _, _, _ => exhausted
  | depth + 1, s, op, t => do
    call
    match op with
    | .plus => add depth s t
    | .minus => subtract depth s t
    | .times => multiply depth s t
    | .divide => divide depth s t

def add : Nat → Term α → Term α → Counted α (Term α)
  | 0, _, _ => exhausted
  | depth + 1, s, t => do
    call
    match s, t with
    | .expression .., .expression .. =>
      t.operands.foldlM (fun sum operand => calculate depth sum operand.1 operand.2) s
    | .expression head tail, .quantity q =>
      if q.isZero then pure s else addToExpression depth head tail q .left
    | .quantity q, .expression head tail =>
      if q.isZero then pure t else addToExpression depth head tail q .right
    | .quantity p, .quantity q => addQuantities p q

/-- The quantity is added to its unit in place, or stands beside the expression. Where the head
cancels out, the next operand takes its place and the sign of its operator. -/
def addToExpression : Nat → Term α → List (Operator × Term α) → Quantity α → Side →
    Counted α (Term α)
  | 0, _, _, _, _ => exhausted
  | depth + 1, head, tail, q, side => do
    call
    match (Term.expression head tail).find? q.unit with
    | none =>
      if q.hasUnit then pure (insert head tail q side)
      else throw (mismatch (.expression head tail) q side)
    | some (index, op, found) =>
      let others := ((.plus, head) :: tail).eraseIdx index
      let sum := (found.after op).plus q
      if sum.isZero then
        match index, others with
        | 0, (next, t) :: rest => do
          let first ← if next = .minus then negate depth t else pure t
          pure (ofOperands ((.plus, first) :: rest))
        | _, _ => pure (ofOperands others)
      else if index = 0 then pure (ofOperands ((.plus, .quantity sum) :: others))
      else pure (ofOperands (others.insertIdx index (signedOperand sum)))

def negate : Nat → Term α → Counted α (Term α)
  | 0, _ => exhausted
  | depth + 1, t => do
    call
    match t with
    | .quantity q => pure (.quantity q.neg)
    | .expression .. => calculate depth t .times (.quantity (.unitless (-1)))

def subtract : Nat → Term α → Term α → Counted α (Term α)
  | 0, _, _ => exhausted
  | depth + 1, s, t => do
    call
    let negated ← match t with
      | .quantity q => pure (.quantity q.neg)
      | .expression .. => multiply depth t (.quantity (.unitless (-1)))
    add depth s negated

def multiply : Nat → Term α → Term α → Counted α (Term α)
  | 0, _, _ => exhausted
  | depth + 1, s, t => do
    call
    match s, t with
    | .expression .., .expression .. => throw (.productOfSums s t)
    | .expression head tail, .quantity q | .quantity q, .expression head tail =>
      if q.hasUnit && (Term.expression head tail).hasUnit then throw .productOfUnits
      else distribute depth head tail q
    | .quantity p, .quantity q =>
      if p.hasUnit && q.hasUnit then throw .productOfUnits else pure (.quantity (p.times q))

/-- Each product is folded into those before it as soon as it is there. -/
def distribute : Nat → Term α → List (Operator × Term α) → Quantity α → Counted α (Term α)
  | 0, _, _, _ => exhausted
  | depth + 1, head, tail, factor => do
    call
    let first ← multiply depth head (.quantity factor)
    tail.foldlM (fun product operand => do
      let next ← multiply depth operand.2 (.quantity factor)
      calculate depth product operand.1 next) first

def divide : Nat → Term α → Term α → Counted α (Term α)
  | 0, _, _ => exhausted
  | depth + 1, s, t => do
    call
    match t with
    | .expression .. => throw .divisionBySum
    | .quantity divisor =>
      if divisor.hasUnit then throw .divisionByUnit
      else if divisor.isZero then throw .divisionByZero
      else
        match s with
        | .expression .. => multiply depth s (.quantity divisor.reciprocal)
        | .quantity q => pure (.quantity (q.dividedBy divisor))

end

/-- The result within a number of calls. -/
def calculateWithin (limit : Nat) (s : Term α) (op : Operator) (t : Term α) :
    Option (Except (AlgebraError α) (Term α)) :=
  ((calculate limit s op t).run.run limit).map Prod.fst

/-- With `cost` calls or more to make, `f` comes to `r` and leaves the others. -/
def Runs (f : Nat → Counted α β) (cost : Nat) (r : Except (AlgebraError α) β) : Prop :=
  ∀ depth limit, cost ≤ depth → cost ≤ limit →
    ∃ left, limit ≤ left + cost ∧ (f depth).run.run limit = some (r, left)

namespace Runs

variable {f : Nat → Counted α β} {cost more : Nat} {r : Except (AlgebraError α) β}

theorem mono (h : Runs f cost r) (enough : cost ≤ more) : Runs f more r := by
  intro depth limit deep many
  obtain ⟨left, spent, run⟩ := h depth limit (by omega) (by omega)
  exact ⟨left, by omega, run⟩

theorem congr {g : Nat → Counted α β} (h : Runs g cost r) (same : ∀ depth, f depth = g depth) :
    Runs f cost r :=
  funext same ▸ h

theorem pure (b : β) : Runs (α := α) (fun _ => Pure.pure b) cost (.ok b) :=
  fun _ limit _ _ => ⟨limit, Nat.le_add_right limit cost, rfl⟩

theorem throw (e : AlgebraError α) : Runs (β := β) (fun _ => MonadExcept.throw e) cost (.error e) :=
  fun _ limit _ _ => ⟨limit, Nat.le_add_right limit cost, rfl⟩

theorem ite {p : Prop} [Decidable p] {g : Nat → Counted α β} {r' : Except (AlgebraError α) β}
    (pos : Runs f cost r) (neg : Runs g cost r') :
    Runs (fun depth => if p then f depth else g depth) cost (if p then r else r') := by
  split
  · exact pos
  · exact neg

/-- What comes after a failure costs nothing. -/
theorem bind {g : Nat → β → Counted α γ} {k : β → Except (AlgebraError α) γ}
    (first : Runs f cost r) (next : ∀ b, r = .ok b → Runs (fun depth => g depth b) more (k b)) :
    Runs (fun depth => f depth >>= g depth) (cost + more) (r >>= k) := by
  intro depth limit deep many
  obtain ⟨left, spent, run⟩ := first depth limit (by omega) (by omega)
  cases r with
  | error e =>
    refine ⟨left, by omega, ?_⟩
    rw [ExceptT.run_bind, StateT.run_bind, run]
    rfl
  | ok b =>
    obtain ⟨left', spent', run'⟩ := next b rfl depth left (by omega) (by omega)
    refine ⟨left', by omega, ?_⟩
    rw [ExceptT.run_bind, StateT.run_bind, run]
    exact run'

/-- The result may be written as another one before it is passed on. -/
theorem bind_map {δ : Type} {w : δ → β} {x : Except (AlgebraError α) δ}
    {g : Nat → β → Counted α γ} {k : δ → Except (AlgebraError α) γ}
    (first : Runs f cost (do .ok (w (← x))))
    (next : ∀ a, x = .ok a → Runs (fun depth => g depth (w a)) more (k a)) :
    Runs (fun depth => f depth >>= g depth) (cost + more) (x >>= k) := by
  cases x with
  | error e => exact first.bind (k := fun _ => .error e) nofun
  | ok a =>
    refine first.bind (k := fun _ => k a) ?_
    rintro b result
    cases result
    exact next a rfl

/-- A function makes its call and goes on one level further down. -/
theorem call {g : Nat → Counted α β} (h : Runs g cost r)
    (step : ∀ depth, f (depth + 1) = Counted.call >>= fun _ => g depth) : Runs f (cost + 1) r := by
  intro depth limit deep many
  obtain ⟨depth, rfl⟩ := Nat.exists_eq_add_of_le' (Nat.one_le_of_lt deep)
  obtain ⟨limit, rfl⟩ := Nat.exists_eq_add_of_le' (Nat.one_le_of_lt many)
  obtain ⟨left, spent, run⟩ := h depth limit (by omega) (by omega)
  refine ⟨left, by omega, ?_⟩
  rw [step]
  exact run

end Runs

end Counted

end UnitArith
