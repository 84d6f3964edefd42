import UnitArith.Proofs.Except
import UnitArith.Proofs.Term.Grammar
import UnitArith.Token.Structure

/-! Token sequences that pass the structure check are the tokens of a tree. The tree is built
from the left: for every open group, what stands in front of the operand that comes next. -/
namespace UnitArith

namespace Token

open Grammar

variable {α : Type} [Number α]

/-- The check from some point on. -/
def checkFrom (p : Progress α) (tokens : List (Token α)) : Except (StructureError α) Unit := do
  (← tokens.foldlM Progress.advance p).finish

/-- After these an operand is due. -/
def Kind.isDue : Kind → Bool
  | start | operator | opening => true
  | operand | closing | finish => false

theorem mayPrecede_of_due {kind next : Kind} (due : kind.isDue = true) :
    kind.mayPrecede next = true ↔ next = .operand ∨ next = .opening := by
  cases kind <;> cases next <;> simp [Kind.mayPrecede, Kind.isDue] at due ⊢

theorem of_mayPrecede {kind next : Kind} (due : kind.isDue = false)
    (h : kind.mayPrecede next = true) : next = .operator ∨ next = .closing ∨ next = .finish := by
  cases kind <;> cases next <;> simp [Kind.mayPrecede, Kind.isDue] at due h ⊢

theorem checkStep_eq_ok {previous next : Option (Token α)} (h : checkStep previous next = .ok ()) :
    (kindBefore previous).mayPrecede (kindAfter next) = true := by
  rw [checkStep.eq_def] at h
  split at h
  · assumption
  · split at h <;> cases h

/-- What a token that passes does to the number of open groups. -/
def Nests (before : Nat) (token : Token α) (after : Nat) : Prop :=
  match token with
  | opening => after = before + 1
  | closing => before = after + 1
  | quantity _ | operator _ => after = before

theorem advance_eq_ok {p p' : Progress α} {token : Token α} (h : p.advance token = .ok p') :
    (kindBefore p.last).mayPrecede token.kind = true ∧ p'.last = some token ∧
      Nests p.depth token p'.depth := by
  rw [Progress.advance.eq_def] at h
  split at h
  · cases h
  · rename_i step
    refine ⟨checkStep_eq_ok step, ?_⟩
    cases token with
    | quantity q =>
      cases h
      exact ⟨rfl, rfl⟩
    | operator op =>
      cases h
      exact ⟨rfl, rfl⟩
    | opening =>
      cases h
      exact ⟨rfl, rfl⟩
    | closing =>
      cases deep : p.depth with
      | zero => simp [deep] at h
      | succ depth =>
        rw [deep] at h
        cases h
        exact ⟨rfl, rfl⟩

theorem finish_eq_ok {p : Progress α} (h : p.finish = .ok ()) :
    (kindBefore p.last).mayPrecede .finish = true ∧ p.depth = 0 := by
  rw [Progress.finish] at h
  split at h
  · cases h
  · rename_i step
    split at h
    · rename_i closed
      exact ⟨checkStep_eq_ok step, closed⟩
    · cases h

theorem checkFrom_eq_ok_cons (p : Progress α) (token : Token α) (tokens : List (Token α)) :
    checkFrom p (token :: tokens) = .ok () ↔
      ∃ p', p.advance token = .ok p' ∧ checkFrom p' tokens = .ok () := by
  rw [checkFrom, List.foldlM_cons, bind_assoc, bind_eq_ok_iff]
  rfl

theorem checkFrom_cons {p : Progress α} {token : Token α} {tokens : List (Token α)}
    (h : checkFrom p (token :: tokens) = .ok ()) :
    ∃ p', (kindBefore p.last).mayPrecede token.kind = true ∧ p'.last = some token ∧
      Nests p.depth token p'.depth ∧ checkFrom p' tokens = .ok () := by
  obtain ⟨p', advanced, rest⟩ := (checkFrom_eq_ok_cons p token tokens).mp h
  obtain ⟨next, last, nest⟩ := advance_eq_ok advanced
  exact ⟨p', next, last, nest, rest⟩

/-- What stands in a group in front of the operand that comes next. -/
structure Frame (α : Type) [Number α] where
  sum : Option (Grammar.Sum α × { op : Operator // op.isAdditive = true })
  product : Option (Product α × { op : Operator // op.isAdditive = false })

namespace Frame

def start : Frame α := ⟨none, none⟩

def tokens (frame : Frame α) : List (Token α) :=
  frame.sum.elim [] (fun (left, op) => left.tokens ++ [.operator op]) ++
    frame.product.elim [] (fun (left, op) => left.tokens ++ [.operator op])

def closeProduct (frame : Frame α) (f : Factor α) : Product α :=
  match frame.product with
  | none => .factor f
  | some (left, op) => .join left op op.2 f

def closeSum (frame : Frame α) (f : Factor α) : Grammar.Sum α :=
  match frame.sum with
  | none => .product (frame.closeProduct f)
  | some (left, op) => .join left op op.2 (frame.closeProduct f)

/-- The frame after one more factor and its operator. -/
def extend (frame : Frame α) (f : Factor α) (op : Operator) : Frame α :=
  if h : op.isAdditive = true then ⟨some (frame.closeSum f, ⟨op, h⟩), none⟩
  else ⟨frame.sum, some (frame.closeProduct f, ⟨op, Bool.eq_false_iff.mpr h⟩)⟩

theorem tokens_closeSum (frame : Frame α) (f : Factor α) :
    (frame.closeSum f).tokens = frame.tokens ++ f.tokens := by
  obtain ⟨_ | ⟨s, op⟩, _ | ⟨p, op'⟩⟩ := frame <;>
    simp [closeSum, closeProduct, tokens, Grammar.Sum.tokens, Product.tokens]

theorem tokens_extend (frame : Frame α) (f : Factor α) (op : Operator) :
    (frame.extend f op).tokens = frame.tokens ++ f.tokens ++ [.operator op] := by
  unfold extend
  split
  · simp [tokens, tokens_closeSum]
  · obtain ⟨sum, _ | ⟨p, op'⟩⟩ := frame <;>
      simp [closeProduct, tokens, Product.tokens]

end Frame

/-- The tokens in front of the innermost group that is open. -/
def tokensBefore : List (Frame α) → List (Token α)
  | [] => []
  | frame :: outer => tokensBefore outer ++ frame.tokens ++ [.opening]

/-- An operand is due, or one has just been read: the tokens that follow complete the tree. -/
theorem exists_sum (tokens : List (Token α)) :
    (∀ (p : Progress α) (frame : Frame α) (outer : List (Frame α)),
      (kindBefore p.last).isDue = true → outer.length = p.depth → checkFrom p tokens = .ok () →
      ∃ e : Grammar.Sum α, e.tokens = tokensBefore outer ++ frame.tokens ++ tokens) ∧
    (∀ (p : Progress α) (frame : Frame α) (outer : List (Frame α)) (f : Factor α),
      (kindBefore p.last).isDue = false → outer.length = p.depth → checkFrom p tokens = .ok () →
      ∃ e : Grammar.Sum α,
        e.tokens = tokensBefore outer ++ frame.tokens ++ f.tokens ++ tokens) := by
  induction tokens with
  | nil =>
    constructor
    · intro p frame outer due _ checked
      obtain ⟨next, _⟩ := finish_eq_ok checked
      rw [mayPrecede_of_due due] at next
      simp at next
    · intro p frame outer f _ depth checked
      obtain ⟨_, closed⟩ := finish_eq_ok checked
      rw [closed, List.length_eq_zero_iff] at depth
      exact ⟨frame.closeSum f, by simp [depth, tokensBefore, Frame.tokens_closeSum]⟩
  | cons token tokens ih =>
    constructor
    · intro p frame outer due depth checked
      obtain ⟨p', next, last, nests, rest⟩ := checkFrom_cons checked
      rw [mayPrecede_of_due due] at next
      cases token with
      | quantity q =>
        obtain ⟨e, whole⟩ :=
          ih.2 p' frame outer (.quantity q) (by rw [last]; rfl) (depth.trans nests.symm) rest
        exact ⟨e, by simp [whole, Factor.tokens]⟩
      | opening =>
        have deeper : (frame :: outer).length = p'.depth := by
          rw [List.length_cons, depth]
          exact nests.symm
        obtain ⟨e, whole⟩ := ih.1 p' .start (frame :: outer) (by rw [last]; rfl) deeper rest
        exact ⟨e, by simp [whole, tokensBefore, Frame.start, Frame.tokens]⟩
      | operator op => simp [kind] at next
      | closing => simp [kind] at next
    · intro p frame outer f due depth checked
      obtain ⟨p', next, last, nests, rest⟩ := checkFrom_cons checked
      have next := of_mayPrecede due next
      cases token with
      | operator op =>
        obtain ⟨e, whole⟩ :=
          ih.1 p' (frame.extend f op) outer (by rw [last]; rfl) (depth.trans nests.symm) rest
        exact ⟨e, by simp [whole, Frame.tokens_extend]⟩
      | closing =>
        rw [nests] at depth
        obtain ⟨before, outer, rfl⟩ := List.exists_cons_of_length_eq_add_one depth
        have shallower : outer.length = p'.depth := Nat.succ.inj depth
        obtain ⟨e, whole⟩ :=
          ih.2 p' before outer (.group (frame.closeSum f)) (by rw [last]; rfl) shallower rest
        exact ⟨e, by simp [whole, tokensBefore, Factor.tokens, Frame.tokens_closeSum]⟩
      | quantity q => simp [kind] at next
      | opening => simp [kind] at next

/-- What passes the structure check is an expression. -/
theorem exists_sum_of_checkAll {tokens : List (Token α)} (h : checkAll tokens = .ok ()) :
    ∃ e : Grammar.Sum α, e.tokens = tokens :=
  (exists_sum tokens).1 .start .start [] rfl rfl h

theorem checkStep_of_mayPrecede {previous next : Option (Token α)}
    (h : (kindBefore previous).mayPrecede (kindAfter next) = true) :
    checkStep previous next = .ok () := by
  rw [checkStep.eq_def, if_pos h]

theorem advance_of {p : Progress α} {token : Token α} {depth : Nat}
    (next : (kindBefore p.last).mayPrecede token.kind = true) (nests : Nests p.depth token depth) :
    p.advance token = .ok ⟨token, depth⟩ := by
  have step : checkStep p.last (some token) = .ok () := checkStep_of_mayPrecede next
  rw [Progress.advance.eq_def, step]
  cases token with
  | quantity q | operator op | opening =>
    rw [show depth = _ from nests]
  | closing =>
    rw [show p.depth = depth + 1 from nests]

/-- An operand or a group has just been read. -/
def Progress.IsAfter (p : Progress α) : Prop :=
  kindBefore p.last = .operand ∨ kindBefore p.last = .closing

theorem mayPrecede_of_isAfter {p : Progress α} (after : p.IsAfter) {next : Kind}
    (h : next = .operator ∨ next = .closing ∨ next = .finish) :
    (kindBefore p.last).mayPrecede next = true := by
  rcases after with kind | kind <;> rw [kind] <;> rcases h with rfl | rfl | rfl <;> rfl

/-- The tokens may be read where an operand is due, and leave the open groups as they are. -/
def Reads (tokens : List (Token α)) : Prop :=
  ∀ p : Progress α, (kindBefore p.last).isDue = true →
    ∃ p' : Progress α, tokens.foldlM Progress.advance p = .ok p' ∧ p'.depth = p.depth ∧ p'.IsAfter

theorem Reads.join {left right : List (Token α)} (hl : Reads left) (op : Operator)
    (hr : Reads right) : Reads (left ++ .operator op :: right) := by
  intro p due
  obtain ⟨middle, first, depth, after⟩ := hl p due
  have step : middle.advance (.operator op) = .ok ⟨some (.operator op), middle.depth⟩ :=
    advance_of (mayPrecede_of_isAfter after (.inl rfl)) rfl
  obtain ⟨last, second, depth', after'⟩ := hr ⟨some (.operator op), middle.depth⟩ rfl
  have next := foldlM_cons_eq_ok_iff.mpr ⟨_, step, second⟩
  exact ⟨last, foldlM_append_eq_ok_iff.mpr ⟨middle, first, next⟩, depth'.trans depth, after'⟩

theorem Reads.group {tokens : List (Token α)} (inner : Reads tokens) :
    Reads (.opening :: (tokens ++ [.closing])) := by
  intro p due
  have opened : p.advance .opening = .ok ⟨some .opening, p.depth + 1⟩ :=
    advance_of ((mayPrecede_of_due due).mpr (.inr rfl)) rfl
  obtain ⟨last, read, depth, after⟩ := inner ⟨some .opening, p.depth + 1⟩ rfl
  have closed : last.advance .closing = .ok ⟨some .closing, p.depth⟩ :=
    advance_of (mayPrecede_of_isAfter after (.inr (.inl rfl))) depth
  have end' : [Token.closing].foldlM Progress.advance last = .ok ⟨some .closing, p.depth⟩ :=
    foldlM_cons_eq_ok_iff.mpr ⟨_, closed, rfl⟩
  have rest := foldlM_append_eq_ok_iff.mpr ⟨last, read, end'⟩
  exact ⟨⟨some .closing, p.depth⟩, foldlM_cons_eq_ok_iff.mpr ⟨_, opened, rest⟩, rfl, .inr rfl⟩

/-- What can be read from the beginning passes the structure check. -/
theorem Reads.checkAll {tokens : List (Token α)} (reads : Reads tokens) :
    checkAll tokens = .ok () := by
  obtain ⟨p, read, depth, after⟩ := reads .start rfl
  refine bind_eq_ok_iff.mpr ⟨p, read, ?_⟩
  rw [Progress.finish, checkStep_of_mayPrecede (mayPrecede_of_isAfter after (.inr (.inr rfl)))]
  exact if_pos depth

mutual

theorem reads_sum : ∀ e : Grammar.Sum α, Reads e.tokens
  | .product p => reads_product p
  | .join left op _ right => (reads_sum left).join op (reads_product right)

theorem reads_product : ∀ p : Product α, Reads p.tokens
  | .factor f => reads_factor f
  | .join left op _ right => (reads_product left).join op (reads_factor right)

theorem reads_factor : ∀ f : Factor α, Reads f.tokens
  | .quantity q => by
    intro p due
    have step : p.advance (.quantity q) = .ok ⟨some (.quantity q), p.depth⟩ :=
      advance_of ((mayPrecede_of_due due).mpr (.inl rfl)) rfl
    exact ⟨_, foldlM_cons_eq_ok_iff.mpr ⟨_, step, rfl⟩, rfl, .inl rfl⟩
  | .group e => (reads_sum e).group

end

theorem last_of_foldlM {before : List (Token α)} {token : Token α} {p p' : Progress α}
    (passed : (before ++ [token]).foldlM Progress.advance p = .ok p') : p'.last = some token := by
  obtain ⟨middle, _, passed⟩ := foldlM_append_eq_ok_iff.mp passed
  obtain ⟨p, advanced, ended⟩ := foldlM_cons_eq_ok_iff.mp passed
  cases ended
  exact (advance_eq_ok advanced).2.1

/-- The tokens of a tree pass the structure check. -/
theorem checkAll_tokens (e : Grammar.Sum α) : checkAll e.tokens = .ok () :=
  (reads_sum e).checkAll

end Token

end UnitArith
