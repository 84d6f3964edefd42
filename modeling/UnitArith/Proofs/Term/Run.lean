import Mathlib.Data.List.Forall2
import Mathlib.Logic.Function.Iterate
import UnitArith.Proofs.Term.Grammar

/-! Parsing one step at a time: a step reads a token or applies an operator. Running the steps
ends with what the parser returns, after at most two steps for each token and one more. Two runs
can so be compared step by step. -/
namespace UnitArith.Term

variable {α : Type} [Number α]

/-- What is at hand between two steps: an operand is due, or one has been read, or all is done. -/
inductive Stage (α : Type) [Number α] where
  | operand (groups : List (List (Pending α))) (pending : List (Pending α))
      (tokens : List (Token α))
  | operator (groups : List (List (Pending α))) (pending : List (Pending α)) (right : Term α)
      (tokens : List (Token α))
  | finished (result : Except (ParseError α) (Term α))

/-- How tightly that binds which comes next: the end of a group binds like nothing. -/
def incoming : List (Token α) → Precedence
  | .operator op :: _ => op.precedence
  | _ => .lowest

namespace Stage

def start (tokens : List (Token α)) : Stage α := operand [] [] tokens

/-- Goes on behind an operand for which no operator in front is ready. -/
def shift (groups : List (List (Pending α))) (pending : List (Pending α)) (right : Term α) :
    List (Token α) → Stage α
  | [] =>
    match groups with
    | [] => finished (.ok right)
    | _ :: _ => finished (.error .unexpectedEnd)
  | .operator op :: rest => operand groups (⟨right, op⟩ :: pending) rest
  | .closing :: rest =>
    match groups with
    | [] => finished (.error (.unexpectedToken .closing))
    | outer :: groups => operator groups outer right rest
  | token :: _ => finished (.error (.unexpectedToken token))

def step : Stage α → Stage α
  | operand _ _ [] => finished (.error .unexpectedEnd)
  | operand groups pending (.quantity q :: rest) => operator groups pending (.quantity q) rest
  | operand groups pending (.opening :: rest) => operand (pending :: groups) [] rest
  | operand _ _ (token :: _) => finished (.error (.unexpectedToken token))
  | operator groups [] right tokens => shift groups [] right tokens
  | operator groups (p :: pending) right tokens =>
    if incoming tokens < p.op.rightPrecedence then
      match p.left.calculate p.op right with
      | .ok t => operator groups pending t tokens
      | .error e => finished (.error (.algebra e))
    else shift groups (p :: pending) right tokens
  | finished result => finished result

/-- What the parser returns from here on. -/
def result : Stage α → Except (ParseError α) (Term α)
  | operand groups pending tokens => parseOperand groups pending tokens
  | operator groups pending right tokens => parseOperator groups pending right tokens
  | finished result => result

/-- A bound for the steps that are left. -/
def size : Stage α → Nat
  | operand groups pending tokens | operator groups pending _ tokens =>
    2 * tokens.length + (pending :: groups).flatten.length + 1
  | finished _ => 0

theorem result_shift_empty (groups : List (List (Pending α))) (right : Term α)
    (tokens : List (Token α)) :
    (shift groups [] right tokens).result = parseOperator groups [] right tokens := by
  rw [parseOperator.eq_def]
  cases tokens with
  | nil => cases groups <;> rfl
  | cons token rest =>
    cases token with
    | closing => cases groups <;> rfl
    | quantity | operator | opening => rfl

/-- Only an operator that binds more tightly keeps another one waiting. -/
theorem result_shift_waiting {groups : List (List (Pending α))} {p : Pending α}
    {pending : List (Pending α)} {right : Term α} {tokens : List (Token α)}
    (waits : ¬ incoming tokens < p.op.rightPrecedence) :
    (shift groups (p :: pending) right tokens).result =
      parseOperator groups (p :: pending) right tokens := by
  have lowest : Precedence.lowest < p.op.rightPrecedence := by
    cases p.op <;> decide
  rw [incoming.eq_def] at waits
  split at waits
  · rw [parseOperator.eq_def]
    simp only [settle, if_neg waits]
    rfl
  · exact absurd lowest waits

theorem ends_of_incoming {op : Operator} {tokens : List (Token α)}
    (ready : incoming tokens < op.rightPrecedence) : Ends op tokens := by
  rintro next rest rfl
  exact ready

/-- A step does not change what comes out. -/
theorem result_step (s : Stage α) : s.step.result = s.result := by
  cases s with
  | finished result => rfl
  | operand groups pending tokens =>
    cases tokens with
    | nil => rfl
    | cons token rest => cases token <;> rfl
  | operator groups pending right tokens =>
    cases pending with
    | nil => exact result_shift_empty groups right tokens
    | cons p pending =>
      rw [step]
      split
      · rename_i ready
        have applied := parseOperator_ended groups pending p.left right (ends_of_incoming ready)
        rw [result, applied]
        cases p.left.calculate p.op right <;> rfl
      · rename_i waits
        exact result_shift_waiting waits

theorem size_shift_lt (groups : List (List (Pending α))) (pending : List (Pending α))
    (right : Term α) (tokens : List (Token α)) :
    (shift groups pending right tokens).size < (operator groups pending right tokens).size := by
  rw [shift.eq_def]
  split
  · split <;> exact Nat.succ_pos _
  · simp only [size, List.flatten_cons, List.length_append, List.length_cons]
    omega
  · split
    · exact Nat.succ_pos _
    · simp only [size, List.flatten_cons, List.length_append, List.length_cons]
      omega
  · exact Nat.succ_pos _

/-- A step comes closer to the end, where nothing is left to do. -/
theorem size_step (s : Stage α) : s.step.size < s.size ∨ s = finished s.result := by
  cases s with
  | finished result => exact .inr rfl
  | operand groups pending tokens =>
    left
    cases tokens with
    | nil => exact Nat.succ_pos _
    | cons token rest =>
      cases token with
      | quantity | opening =>
        simp only [step, size, List.flatten_cons, List.length_append, List.length_cons,
          List.length_nil]
        omega
      | operator | closing => exact Nat.succ_pos _
  | operator groups pending right tokens =>
    left
    cases pending with
    | nil => exact size_shift_lt groups [] right tokens
    | cons p pending =>
      rw [step]
      split
      · split
        · simp only [size, List.flatten_cons, List.length_append, List.length_cons]
          omega
        · exact Nat.succ_pos _
      · exact size_shift_lt groups (p :: pending) right tokens

/-- The run ends with what the parser returns. -/
theorem iterate_step_of_size_le {s : Stage α} {n : Nat} (enough : s.size ≤ n) :
    step^[n] s = finished s.result := by
  induction n generalizing s with
  | zero =>
    rcases size_step s with closer | done
    · omega
    · exact done
  | succ n ih =>
    rw [Function.iterate_succ_apply, ← result_step s]
    rcases size_step s with closer | done
    · exact ih (by omega)
    · apply ih
      rw [done]
      exact Nat.zero_le n

theorem iterate_step_start (tokens : List (Token α)) :
    step^[2 * tokens.length + 1] (start tokens) = finished (parseOperand [] [] tokens) :=
  iterate_step_of_size_le (Nat.le_refl _)

end Stage

/-! Two runs on tokens that differ in their quantities only. -/
section Alike

variable {R : Term α → Term α → Prop}

/-- Operators and parentheses are the same, quantities are related. -/
inductive TokenAlike (R : Term α → Term α → Prop) : Token α → Token α → Prop
  | quantity {q q' : Quantity α} (related : R (.quantity q) (.quantity q')) :
      TokenAlike R (.quantity q) (.quantity q')
  | operator (op : Operator) : TokenAlike R (.operator op) (.operator op)
  | opening : TokenAlike R .opening .opening
  | closing : TokenAlike R .closing .closing

inductive PendingAlike (R : Term α → Term α → Prop) : Pending α → Pending α → Prop
  | mk {s s' : Term α} (related : R s s') (op : Operator) : PendingAlike R ⟨s, op⟩ ⟨s', op⟩

/-- All operands at hand are related, unless one of the runs has failed. -/
inductive StageAlike (R : Term α → Term α → Prop) : Stage α → Stage α → Prop
  | operand {groups groups' : List (List (Pending α))} {pending pending' : List (Pending α)}
      {tokens tokens' : List (Token α)}
      (outer : List.Forall₂ (List.Forall₂ (PendingAlike R)) groups groups')
      (waiting : List.Forall₂ (PendingAlike R) pending pending')
      (unread : List.Forall₂ (TokenAlike R) tokens tokens') :
      StageAlike R (.operand groups pending tokens) (.operand groups' pending' tokens')
  | operator {groups groups' : List (List (Pending α))} {pending pending' : List (Pending α)}
      {right right' : Term α} {tokens tokens' : List (Token α)}
      (outer : List.Forall₂ (List.Forall₂ (PendingAlike R)) groups groups')
      (waiting : List.Forall₂ (PendingAlike R) pending pending') (related : R right right')
      (unread : List.Forall₂ (TokenAlike R) tokens tokens') :
      StageAlike R (.operator groups pending right tokens)
        (.operator groups' pending' right' tokens')
  | finished {t t' : Term α} (related : R t t') :
      StageAlike R (.finished (.ok t)) (.finished (.ok t'))
  | left (e : ParseError α) (s : Stage α) : StageAlike R (.finished (.error e)) s
  | right (s : Stage α) (e : ParseError α) : StageAlike R s (.finished (.error e))

theorem incoming_alike {tokens tokens' : List (Token α)}
    (unread : List.Forall₂ (TokenAlike R) tokens tokens') : incoming tokens = incoming tokens' := by
  cases unread with
  | nil => rfl
  | cons first others => cases first <;> rfl

theorem shift_alike {groups groups' : List (List (Pending α))}
    {pending pending' : List (Pending α)} {right right' : Term α} {tokens tokens' : List (Token α)}
    (outer : List.Forall₂ (List.Forall₂ (PendingAlike R)) groups groups')
    (waiting : List.Forall₂ (PendingAlike R) pending pending') (related : R right right')
    (unread : List.Forall₂ (TokenAlike R) tokens tokens') :
    StageAlike R (.shift groups pending right tokens) (.shift groups' pending' right' tokens') := by
  cases unread with
  | nil =>
    cases outer with
    | nil => exact .finished related
    | cons => exact .left _ _
  | cons first others =>
    cases first with
    | operator op => exact .operand outer (.cons (.mk related op) waiting) others
    | closing =>
      cases outer with
      | nil => exact .left _ _
      | cons waiting outer => exact .operator outer waiting related others
    | quantity | opening => exact .left _ _

variable (closed : ∀ {s s' t t' r r' : Term α} {op : Operator}, R s s' → R t t' →
  s.calculate op t = .ok r → s'.calculate op t' = .ok r' → R r r')

include closed

/-- What arithmetic keeps, a step keeps. -/
theorem step_alike {s s' : Stage α} (alike : StageAlike R s s') : StageAlike R s.step s'.step := by
  cases alike with
  | finished related => exact .finished related
  | left e => exact .left e _
  | right _ e => exact .right _ e
  | operand outer waiting unread =>
    cases unread with
    | nil => exact .left _ _
    | cons first others =>
      cases first with
      | quantity related => exact .operator outer waiting related others
      | opening => exact .operand (.cons waiting outer) .nil others
      | operator | closing => exact .left _ _
  | operator outer waiting related unread =>
    cases waiting with
    | nil => exact shift_alike outer .nil related unread
    | cons first others =>
      cases first with
      | @mk left left' operands op =>
        rw [Stage.step, Stage.step, incoming_alike unread]
        split
        · cases applied : left.calculate op _ with
          | error e => exact .left _ _
          | ok t =>
            cases applied' : left'.calculate op _ with
            | error e => exact .right _ _
            | ok t' =>
              exact .operator outer others (closed operands related applied applied') unread
        · exact shift_alike outer (.cons (.mk operands op) others) related unread

theorem iterate_step_alike {s s' : Stage α} (alike : StageAlike R s s') (n : Nat) :
    StageAlike R (Stage.step^[n] s) (Stage.step^[n] s') := by
  induction n with
  | zero => exact alike
  | succ n ih =>
    rw [Function.iterate_succ_apply', Function.iterate_succ_apply']
    exact step_alike closed ih

/-- Where both runs succeed, the results are related as the quantities are. -/
theorem ofTokens_alike {tokens tokens' : List (Token α)}
    (unread : List.Forall₂ (TokenAlike R) tokens tokens') {t t' : Term α}
    (h : ofTokens tokens = .ok (some t)) (h' : ofTokens tokens' = .ok (some t')) : R t t' := by
  have ends := Stage.iterate_step_start tokens
  have ends' := Stage.iterate_step_start tokens'
  rw [parseOperand_of_ofTokens h, unread.length_eq] at ends
  rw [parseOperand_of_ofTokens h'] at ends'
  have alike := iterate_step_alike closed (.operand .nil .nil unread) (2 * tokens'.length + 1)
  change StageAlike R (Stage.step^[_] (.start tokens)) (Stage.step^[_] (.start tokens')) at alike
  rw [ends, ends'] at alike
  cases alike with
  | finished related => exact related

end Alike

end UnitArith.Term
