import UnitArith.Plain.Evaluate
import UnitArith.Proofs.Number.Law

/-! The grammar of plain arithmetic, and the evaluator on it: the symbols of a tree evaluate to
the value of the tree, and nothing but the symbols of a tree has a value. -/
namespace UnitArith.Plain

variable (α : Type)

mutual

inductive Sum where
  | product (p : Product)
  | join (left : Sum) (op : Operator) (additive : op.isAdditive = true) (right : Product)

inductive Product where
  | signed (s : Signed)
  | join (left : Product) (op : Operator) (multiplicative : op.isAdditive = false)
      (right : Signed)

/-- A sign binds tighter than any operator between two values. -/
inductive Signed where
  | number (value : α)
  | positive (s : Signed)
  | negative (s : Signed)
  | group (e : Sum)

end

variable {α}

mutual

def Sum.symbols : Sum α → List (Symbol α)
  | .product p => p.symbols
  | .join left op _ right => left.symbols ++ .operator op :: right.symbols

def Product.symbols : Product α → List (Symbol α)
  | .signed s => s.symbols
  | .join left op _ right => left.symbols ++ .operator op :: right.symbols

def Signed.symbols : Signed α → List (Symbol α)
  | .number value => [.number value]
  | .positive s => .operator .plus :: s.symbols
  | .negative s => .operator .minus :: s.symbols
  | .group e => .opening :: (e.symbols ++ [.closing])

end

variable [Number α]

mutual

def Sum.value : Sum α → α
  | .product p => p.value
  | .join left op _ right => op.apply left.value right.value

def Product.value : Product α → α
  | .signed s => s.value
  | .join left op _ right => op.apply left.value right.value

def Signed.value : Signed α → α
  | .number value => value
  | .positive s => s.value
  | .negative s => -s.value
  | .group e => e.value

end

section Readings

/-! The readings without the bounds on what they leave. -/

def sum? (symbols : List (Symbol α)) : Option (α × List (Symbol α)) :=
  (readSum symbols).map fun (value, rest) => (value, rest.1)

def sumTail? (left : α) (symbols : List (Symbol α)) : Option (α × List (Symbol α)) :=
  (readSumTail left symbols).map fun (value, rest) => (value, rest.1)

def product? (symbols : List (Symbol α)) : Option (α × List (Symbol α)) :=
  (readProduct symbols).map fun (value, rest) => (value, rest.1)

def productTail? (left : α) (symbols : List (Symbol α)) : Option (α × List (Symbol α)) :=
  (readProductTail left symbols).map fun (value, rest) => (value, rest.1)

def signed? (symbols : List (Symbol α)) : Option (α × List (Symbol α)) :=
  (readSigned symbols).map fun (value, rest) => (value, rest.1)

theorem sum?_eq (symbols : List (Symbol α)) :
    sum? symbols = (product? symbols).bind fun (value, rest) => sumTail? value rest := by
  rw [sum?, readSum, product?]
  cases readProduct symbols with
  | none => rfl
  | some first =>
    obtain ⟨value, rest, h⟩ := first
    simp only [Option.map_some, Option.bind_some, sumTail?]
    cases readSumTail value rest <;> rfl

theorem product?_eq (symbols : List (Symbol α)) :
    product? symbols = (signed? symbols).bind fun (value, rest) => productTail? value rest := by
  rw [product?, readProduct, signed?]
  cases readSigned symbols with
  | none => rfl
  | some first =>
    obtain ⟨value, rest, h⟩ := first
    simp only [Option.map_some, Option.bind_some, productTail?]
    cases readProductTail value rest <;> rfl

theorem sumTail?_nil (left : α) : sumTail? left [] = some (left, []) := by
  rw [sumTail?, readSumTail]
  rfl

theorem sumTail?_cons (left : α) (symbol : Symbol α) (after : List (Symbol α)) :
    sumTail? left (symbol :: after) =
      match symbol.additive? with
      | none => some (left, symbol :: after)
      | some apply =>
        (product? after).bind fun (right, rest) => sumTail? (apply left right) rest := by
  rw [sumTail?, readSumTail]
  cases symbol.additive? with
  | none => rfl
  | some apply =>
    dsimp only
    rw [product?]
    cases readProduct after with
    | none => rfl
    | some right =>
      obtain ⟨value, rest, h⟩ := right
      simp only [Option.map_some, Option.bind_some, sumTail?]
      cases readSumTail (apply left value) rest <;> rfl

theorem productTail?_nil (left : α) : productTail? left [] = some (left, []) := by
  rw [productTail?, readProductTail]
  rfl

theorem productTail?_cons (left : α) (symbol : Symbol α) (after : List (Symbol α)) :
    productTail? left (symbol :: after) =
      match symbol.multiplicative? with
      | none => some (left, symbol :: after)
      | some apply =>
        (signed? after).bind fun (right, rest) => productTail? (apply left right) rest := by
  rw [productTail?, readProductTail]
  cases symbol.multiplicative? with
  | none => rfl
  | some apply =>
    dsimp only
    rw [signed?]
    cases readSigned after with
    | none => rfl
    | some right =>
      obtain ⟨value, rest, h⟩ := right
      simp only [Option.map_some, Option.bind_some, productTail?]
      cases readProductTail (apply left value) rest <;> rfl

theorem signed?_number (value : α) (rest : List (Symbol α)) :
    signed? (.number value :: rest) = some (value, rest) := by
  rw [signed?, readSigned]
  rfl

theorem signed?_positive (after : List (Symbol α)) :
    signed? (.operator .plus :: after) = signed? after := by
  rw [signed?, readSigned, signed?]
  cases readSigned after <;> rfl

theorem signed?_negative (after : List (Symbol α)) :
    signed? (.operator .minus :: after) =
      (signed? after).map fun (value, rest) => (-value, rest) := by
  rw [signed?, readSigned, signed?]
  cases readSigned after <;> rfl

theorem signed?_group {after rest : List (Symbol α)} {value : α}
    (h : sum? after = some (value, .closing :: rest)) :
    signed? (.opening :: after) = some (value, rest) := by
  rw [sum?] at h
  rw [signed?, readSigned]
  obtain ⟨⟨value', whole, shorter⟩, read, same⟩ := Option.map_eq_some_iff.mp h
  cases same
  rw [read]
  rfl

/-- No product goes on here. -/
def Stops (symbols : List (Symbol α)) : Prop :=
  ∀ symbol after, symbols = symbol :: after → symbol.multiplicative? = none

theorem productTail?_stops (left : α) {rest : List (Symbol α)} (stops : Stops rest) :
    productTail? left rest = some (left, rest) := by
  cases rest with
  | nil => exact productTail?_nil left
  | cons symbol after => rw [productTail?_cons, stops symbol after rfl]

theorem multiplicative?_operator (op : Operator) :
    (Symbol.operator op : Symbol α).multiplicative? =
      if op.isAdditive then none else some op.apply := by
  cases op <;> rfl

theorem additive?_operator (op : Operator) :
    (Symbol.operator op : Symbol α).additive? =
      if op.isAdditive then some op.apply else none := by
  cases op <;> rfl

mutual

theorem signed?_symbols : ∀ (s : Signed α) (rest : List (Symbol α)),
    signed? (s.symbols ++ rest) = some (s.value, rest)
  | .number value, rest => signed?_number value rest
  | .positive s, rest => by
    rw [Signed.symbols, Signed.value, List.cons_append, signed?_positive, signed?_symbols s rest]
  | .negative s, rest => by
    rw [Signed.symbols, Signed.value, List.cons_append, signed?_negative, signed?_symbols s rest]
    rfl
  | .group e, rest => by
    have stops : Stops (.closing :: rest : List (Symbol α)) := by
      rintro _ _ ⟨⟩
      rfl
    rw [Signed.symbols, Signed.value, List.cons_append, List.append_assoc, List.singleton_append]
    apply signed?_group
    rw [sum?_symbols e stops, sumTail?_cons]
    rfl

theorem product?_symbols : ∀ (p : Product α) (rest : List (Symbol α)),
    product? (p.symbols ++ rest) = productTail? p.value rest
  | .signed s, rest => by
    rw [Product.symbols, Product.value, product?_eq, signed?_symbols s rest]
    rfl
  | .join left op multiplicative right, rest => by
    rw [Product.symbols, Product.value, List.append_assoc, List.cons_append,
      product?_symbols left, productTail?_cons, multiplicative?_operator, multiplicative,
      signed?_symbols right rest]
    rfl

/-- After a sum its chain may go on, but no product that it ends with. -/
theorem sum?_symbols : ∀ (e : Sum α) {rest : List (Symbol α)}, Stops rest →
    sum? (e.symbols ++ rest) = sumTail? e.value rest
  | .product p, rest, stops => by
    rw [Sum.symbols, Sum.value, sum?_eq, product?_symbols p rest, productTail?_stops _ stops]
    rfl
  | .join left op additive right, rest, stops => by
    have next : Stops (.operator op :: (right.symbols ++ rest)) := by
      rintro _ _ ⟨⟩
      rw [multiplicative?_operator, additive]
      rfl
    rw [Sum.symbols, Sum.value, List.append_assoc, List.cons_append, sum?_symbols left next,
      sumTail?_cons, additive?_operator, additive, product?_symbols right rest,
      productTail?_stops _ stops]
    rfl

end

/-- The evaluator computes the value of the tree. -/
theorem value?_symbols (e : Sum α) : value? e.symbols = some e.value := by
  have read : sum? e.symbols = some (e.value, []) := by
    have whole := sum?_symbols e (nofun : Stops [])
    rwa [List.append_nil, sumTail?_nil] at whole
  rw [sum?] at read
  obtain ⟨⟨value, rest, shorter⟩, found, same⟩ := Option.map_eq_some_iff.mp read
  cases same
  rw [value?, found]

theorem length_of_product? {symbols rest : List (Symbol α)} {value : α}
    (h : product? symbols = some (value, rest)) : rest.length < symbols.length := by
  obtain ⟨⟨value', tail, shorter⟩, _, same⟩ := Option.map_eq_some_iff.mp h
  cases same
  exact shorter

theorem length_of_signed? {symbols rest : List (Symbol α)} {value : α}
    (h : signed? symbols = some (value, rest)) : rest.length < symbols.length := by
  obtain ⟨⟨value', tail, shorter⟩, _, same⟩ := Option.map_eq_some_iff.mp h
  cases same
  exact shorter

theorem of_additive? {symbol : Symbol α} {apply : α → α → α} (h : symbol.additive? = some apply) :
    ∃ op : Operator, op.isAdditive = true ∧ symbol = .operator op ∧ op.apply = apply := by
  cases symbol with
  | operator op =>
    rw [additive?_operator] at h
    split at h
    · rename_i additive
      exact ⟨op, additive, rfl, Option.some.inj h⟩
    · cases h
  | number | opening | closing => cases h

theorem of_multiplicative? {symbol : Symbol α} {apply : α → α → α}
    (h : symbol.multiplicative? = some apply) :
    ∃ op : Operator, op.isAdditive = false ∧ symbol = .operator op ∧ op.apply = apply := by
  cases symbol with
  | operator op =>
    rw [multiplicative?_operator] at h
    split at h
    · cases h
    · rename_i multiplicative
      exact ⟨op, Bool.eq_false_iff.mpr multiplicative, rfl, Option.some.inj h⟩
  | number | opening | closing => cases h

/-! From a reading back to the tree that it reads. A tail goes on with the tree on its left, which
the symbols in front of it have made. -/

/-- How a signed atom begins. -/
theorem signed?_eq_some {symbols rest : List (Symbol α)} {value : α}
    (h : signed? symbols = some (value, rest)) :
    symbols = .number value :: rest ∨
    (∃ after, symbols = .operator .plus :: after ∧ signed? after = some (value, rest)) ∨
    (∃ after size, symbols = .operator .minus :: after ∧ signed? after = some (size, rest) ∧
      -size = value) ∨
    (∃ after, symbols = .opening :: after ∧ sum? after = some (value, .closing :: rest)) := by
  cases symbols with
  | nil => simp [signed?, readSigned] at h
  | cons symbol after =>
    cases symbol with
    | number value' =>
      rw [signed?_number] at h
      cases h
      exact .inl rfl
    | operator op =>
      cases op with
      | plus => exact .inr (.inl ⟨after, rfl, by rwa [signed?_positive] at h⟩)
      | minus =>
        rw [signed?_negative] at h
        obtain ⟨⟨size, rest'⟩, read, same⟩ := Option.map_eq_some_iff.mp h
        cases same
        exact .inr (.inr (.inl ⟨after, size, rfl, read, rfl⟩))
      | times | divide => simp [signed?, readSigned] at h
    | opening =>
      refine .inr (.inr (.inr ⟨after, rfl, ?_⟩))
      rw [signed?, readSigned] at h
      cases read : readSum after with
      | none => simp [read] at h
      | some whole =>
        obtain ⟨value', tail, shorter⟩ := whole
        rw [sum?, read]
        cases tail with
        | nil => simp [read] at h
        | cons bracket tail => cases bracket <;> simp_all
    | closing => simp [signed?, readSigned] at h

mutual

theorem exists_signed_of_read {symbols rest : List (Symbol α)} {value : α}
    (h : signed? symbols = some (value, rest)) :
    ∃ s : Signed α, symbols = s.symbols ++ rest ∧ s.value = value := by
  rcases signed?_eq_some h with rfl | ⟨after, rfl, read⟩ | ⟨after, size, rfl, read, rfl⟩ |
    ⟨after, rfl, read⟩
  · exact ⟨.number value, rfl, rfl⟩
  · obtain ⟨s, rfl, rfl⟩ := exists_signed_of_read read
    exact ⟨.positive s, rfl, rfl⟩
  · obtain ⟨s, rfl, rfl⟩ := exists_signed_of_read read
    exact ⟨.negative s, rfl, rfl⟩
  · obtain ⟨e, rfl, rfl⟩ := exists_sum_of_read read
    exact ⟨.group e, by simp [Signed.symbols], rfl⟩
termination_by 3 * symbols.length

theorem exists_product_of_tail (left : Product α) {symbols rest : List (Symbol α)} {value : α}
    (h : productTail? left.value symbols = some (value, rest)) :
    ∃ p : Product α, left.symbols ++ symbols = p.symbols ++ rest ∧ p.value = value := by
  cases symbols with
  | nil =>
    rw [productTail?_nil] at h
    cases h
    exact ⟨left, rfl, rfl⟩
  | cons symbol after =>
    rw [productTail?_cons] at h
    cases joins : symbol.multiplicative? with
    | none =>
      rw [joins] at h
      cases h
      exact ⟨left, rfl, rfl⟩
    | some apply =>
      rw [joins] at h
      obtain ⟨⟨size, tail⟩, read, behind⟩ := Option.bind_eq_some_iff.mp h
      obtain ⟨op, multiplicative, rfl, rfl⟩ := of_multiplicative? joins
      have shorter := length_of_signed? read
      obtain ⟨right, rfl, rfl⟩ := exists_signed_of_read read
      obtain ⟨p, whole, total⟩ :=
        exists_product_of_tail (.join left op multiplicative right) behind
      refine ⟨p, ?_, total⟩
      rw [← whole, Product.symbols, List.append_assoc, List.cons_append]
termination_by 3 * symbols.length

theorem exists_product_of_read {symbols rest : List (Symbol α)} {value : α}
    (h : product? symbols = some (value, rest)) :
    ∃ p : Product α, symbols = p.symbols ++ rest ∧ p.value = value := by
  rw [product?_eq] at h
  obtain ⟨⟨first, tail⟩, read, behind⟩ := Option.bind_eq_some_iff.mp h
  have shorter := length_of_signed? read
  obtain ⟨s, rfl, rfl⟩ := exists_signed_of_read read
  exact exists_product_of_tail (.signed s) behind
termination_by 3 * symbols.length + 1

theorem exists_sum_of_tail (left : Sum α) {symbols rest : List (Symbol α)} {value : α}
    (h : sumTail? left.value symbols = some (value, rest)) :
    ∃ e : Sum α, left.symbols ++ symbols = e.symbols ++ rest ∧ e.value = value := by
  cases symbols with
  | nil =>
    rw [sumTail?_nil] at h
    cases h
    exact ⟨left, rfl, rfl⟩
  | cons symbol after =>
    rw [sumTail?_cons] at h
    cases joins : symbol.additive? with
    | none =>
      rw [joins] at h
      cases h
      exact ⟨left, rfl, rfl⟩
    | some apply =>
      rw [joins] at h
      obtain ⟨⟨size, tail⟩, read, behind⟩ := Option.bind_eq_some_iff.mp h
      obtain ⟨op, additive, rfl, rfl⟩ := of_additive? joins
      have shorter := length_of_product? read
      obtain ⟨right, rfl, rfl⟩ := exists_product_of_read read
      obtain ⟨e, whole, total⟩ := exists_sum_of_tail (.join left op additive right) behind
      refine ⟨e, ?_, total⟩
      rw [← whole, Sum.symbols, List.append_assoc, List.cons_append]
termination_by 3 * symbols.length

theorem exists_sum_of_read {symbols rest : List (Symbol α)} {value : α}
    (h : sum? symbols = some (value, rest)) :
    ∃ e : Sum α, symbols = e.symbols ++ rest ∧ e.value = value := by
  rw [sum?_eq] at h
  obtain ⟨⟨first, tail⟩, read, behind⟩ := Option.bind_eq_some_iff.mp h
  have shorter := length_of_product? read
  obtain ⟨p, rfl, rfl⟩ := exists_product_of_read read
  exact exists_sum_of_tail (.product p) behind
termination_by 3 * symbols.length + 2

end

/-- The evaluator accepts nothing but the symbols of a tree. -/
theorem exists_sum_of_value? {symbols : List (Symbol α)} {value : α}
    (h : value? symbols = some value) : ∃ e : Sum α, e.symbols = symbols ∧ e.value = value := by
  rw [value?] at h
  split at h
  · rename_i value' shorter read
    cases h
    have whole : sum? symbols = some (value, []) := by rw [sum?, read]; rfl
    obtain ⟨e, rfl, rfl⟩ := exists_sum_of_read whole
    exact ⟨e, (List.append_nil _).symm, rfl⟩
  · cases h

end Readings

end UnitArith.Plain
