import UnitArith.Proofs.Plain.Respelling
import UnitArith.Proofs.Plain.Symbol

/-! Respelled signs in a text. What stands in front of a sign is known from the characters before
it, of which blanks and units do not count. -/
namespace UnitArith.Plain

open Text (isBlank Unmarked)
open Decimal (isMark)

/-- Blanks and units do not count. -/
def Place.afterChar (place : Place) (c : Char) : Place :=
  if isBlank c || isUnitChar c then place
  else
    match Operator.ofChar? c with
    | some op => place.after op
    | none => .free

/-- The characters of respelled signs, with blanks behind operators as they please. -/
inductive Edited (intact : Prop) : Place → List Char → List Char → Prop
  | nil {place : Place} : Edited intact place [] []
  | keep {place : Place} (c : Char) {a b : List Char}
      (rest : Edited intact (place.afterChar c) a b) : Edited intact place (c :: a) (c :: b)
  | gap {place : Place} (behind : place ≠ .free) {a b : List Char}
      (rest : Edited intact place a b) : Edited intact place a (' ' :: b)
  | plus {place : Place} (behind : place ≠ .free) {a b : List Char}
      (rest : Edited intact place a b) : Edited intact place ('+' :: a) b
  | factor {place : Place} (behind : place ≠ .free) (whole : intact → place ≠ .divisor)
      {a b : List Char} (rest : Edited intact .free a b) :
      Edited intact place ('-' :: '(' :: a) ('-' :: '1' :: ' ' :: '*' :: ' ' :: '(' :: b)

theorem not_of_operator {c : Char} {op : Operator} (h : Operator.ofChar? c = some op) :
    isUnitChar c = false ∧ isMark c = false ∧ isBlank c = false := by
  rw [← Operator.toChar_of_ofChar? h]
  cases op <;> decide

namespace Place

theorem afterChar_skipped {place : Place} {c : Char} (h : isBlank c = true ∨ isUnitChar c = true) :
    place.afterChar c = place :=
  if_pos (by simpa using h)

theorem afterChar_operator (place : Place) {c : Char} {op : Operator}
    (h : Operator.ofChar? c = some op) : place.afterChar c = place.after op := by
  obtain ⟨unit, _, blank⟩ := not_of_operator h
  rw [afterChar, unit, blank, h]
  rfl

theorem afterChar_mark (place : Place) {c : Char} (mark : isMark c = true) :
    place.afterChar c = .free := by
  obtain ⟨unit, blank⟩ := not_of_isMark mark
  rw [afterChar, unit, blank]
  cases known : Operator.ofChar? c with
  | none => rfl
  | some op =>
    rw [(not_of_operator known).2.1] at mark
    cases mark

theorem afterChar_symbol {α : Type} (place : Place) {c : Char} {symbol : Symbol α}
    (h : Symbol.ofChar? c = some symbol) : place.afterChar c = symbol.placeAfter place := by
  rw [Symbol.ofChar?] at h
  split at h
  · rename_i same
    subst same
    cases h
    rfl
  · split at h
    · rename_i same
      subst same
      cases h
      rfl
    · obtain ⟨op, known, rfl⟩ := Option.map_eq_some_iff.mp h
      exact place.afterChar_operator known

theorem afterChar_blanks (place : Place) {blanks : List Char}
    (blank : ∀ b ∈ blanks, isBlank b = true) : blanks.foldl afterChar place = place := by
  induction blanks with
  | nil => rfl
  | cons b blanks ih =>
    obtain ⟨first, others⟩ := List.forall_mem_cons.mp blank
    rw [List.foldl_cons, afterChar_skipped (.inl first), ih others]

end Place

variable {α : Type} [Number α]

theorem symbols?_factor (one : Number.ofDecimal ⟨1, 0⟩ = (1 : α)) (cs : List Char) :
    symbols? ('1' :: ' ' :: '*' :: ' ' :: '(' :: cs) =
      (symbols? cs).map fun symbols : List (Symbol α) =>
        .number 1 :: .operator .times :: .opening :: symbols := by
  have blank : isBlank ' ' = true := rfl
  have times : Symbol.ofChar? '*' = some (.operator .times : Symbol α) := rfl
  have opening : Symbol.ofChar? '(' = some (.opening : Symbol α) := rfl
  have numeral : Decimal.read? ['1'] = some ⟨1, 0⟩ := rfl
  have unmarked : Unmarked (' ' :: '*' :: ' ' :: '(' :: cs) := by
    rintro _ _ ⟨⟩
    rfl
  have read := symbols?_marks (α := α) (List.cons_ne_nil _ _)
    (List.forall_mem_cons.mpr ⟨rfl, List.forall_mem_nil _⟩) numeral unmarked
  rw [List.singleton_append, symbols?_blank blank, symbols?_symbol times, symbols?_blank blank,
    symbols?_symbol opening, one] at read
  rw [read, Option.map_map, Option.map_map]
  rfl

namespace Edited

variable {intact : Prop}

theorem append {place : Place} (front : List Char) {a b : List Char}
    (h : Edited intact (front.foldl Place.afterChar place) a b) :
    Edited intact place (front ++ a) (front ++ b) := by
  induction front generalizing place with
  | nil => exact h
  | cons c front ih => exact .keep c (ih h)

theorem blanks {place : Place} {blanks : List Char} (blank : ∀ b ∈ blanks, isBlank b = true)
    {a b : List Char} (h : Edited intact place a b) :
    Edited intact place (blanks ++ a) (blanks ++ b) :=
  .append blanks (by rwa [place.afterChar_blanks blank])

theorem withoutUnits {place : Place} {a b : List Char} (h : Edited intact place a b) :
    Edited intact place (withoutUnits a) (withoutUnits b) := by
  induction h with
  | nil => exact .nil
  | @keep place c a b rest ih =>
    cases unit : isUnitChar c with
    | true =>
      rw [Place.afterChar_skipped (.inr unit)] at ih
      simpa [Plain.withoutUnits, unit] using ih
    | false =>
      rw [withoutUnits_cons unit, withoutUnits_cons unit]
      exact .keep c ih
  | gap behind rest ih => exact .gap behind ih
  | plus behind rest ih => exact .plus behind ih
  | factor behind whole rest ih => exact .factor behind whole ih

/-- Inside of a numeral nothing is edited. -/
theorem exists_run {a b : List Char} (h : Edited intact .free a b) :
    ∃ marks rest rest', a = marks ++ rest ∧ b = marks ++ rest' ∧ (∀ c ∈ marks, isMark c = true) ∧
      Unmarked rest ∧ Unmarked rest' ∧ Edited intact .free rest rest' := by
  induction a generalizing b with
  | nil =>
    cases h with
    | nil =>
      exact ⟨[], [], [], rfl, rfl, List.forall_mem_nil _, by rintro _ _ ⟨⟩, by rintro _ _ ⟨⟩, .nil⟩
    | gap behind => exact absurd rfl behind
  | cons c a ih =>
    cases h with
    | @keep _ _ _ b rest =>
      cases mark : isMark c with
      | true =>
        rw [Place.afterChar_mark _ mark] at rest
        obtain ⟨marks, tail, tail', rfl, rfl, marked, unmarked, unmarked', behind⟩ := ih rest
        exact ⟨c :: marks, tail, tail', rfl, rfl, List.forall_mem_cons.mpr ⟨mark, marked⟩,
          unmarked, unmarked', behind⟩
      | false =>
        have unmarked (cs : List Char) : Unmarked (c :: cs) := by
          rintro _ _ ⟨⟩
          exact mark
        exact ⟨[], c :: a, c :: b, rfl, rfl, List.forall_mem_nil _, unmarked a, unmarked b,
          .keep c rest⟩
    | gap behind | plus behind | factor behind => exact absurd rfl behind

/-- Edited texts are cut into respelled symbols. A numeral is taken whole and a blank stands in
only one of the texts, so the induction is on both lengths. -/
theorem symbols? (one : Number.ofDecimal ⟨1, 0⟩ = (1 : α)) {place : Place} {a b : List Char}
    (h : Edited intact place a b) {symbols : List (Symbol α)}
    (cut : Plain.symbols? a = some symbols) :
    ∃ out, Plain.symbols? b = some out ∧ Respelled intact place symbols out := by
  cases h with
  | nil =>
    rw [Plain.symbols?] at cut
    cases cut
    exact ⟨[], by rw [Plain.symbols?], .nil⟩
  | gap behind rest =>
    obtain ⟨out, read, respelled⟩ := rest.symbols? one cut
    exact ⟨out, by rw [symbols?_blank rfl, read], respelled⟩
  | plus behind rest =>
    have sign : Symbol.ofChar? '+' = some (.operator .plus : Symbol α) := rfl
    rw [symbols?_symbol sign] at cut
    obtain ⟨others, tail, rfl⟩ := Option.map_eq_some_iff.mp cut
    obtain ⟨out, read, respelled⟩ := rest.symbols? one tail
    exact ⟨out, read, .plus behind respelled⟩
  | factor behind whole rest =>
    have sign : Symbol.ofChar? '-' = some (.operator .minus : Symbol α) := rfl
    have opening : Symbol.ofChar? '(' = some (.opening : Symbol α) := rfl
    rw [symbols?_symbol sign, symbols?_symbol opening, Option.map_map] at cut
    obtain ⟨others, tail, rfl⟩ := Option.map_eq_some_iff.mp cut
    obtain ⟨out, read, respelled⟩ := rest.symbols? one tail
    exact ⟨_, by rw [symbols?_symbol sign, symbols?_factor one, read]; rfl,
      .factor behind whole respelled⟩
  | @keep _ c a b rest =>
    rcases of_symbols? cut c (List.mem_cons_self ..) with blank | mark | ⟨symbol, known⟩
    · rw [symbols?_blank blank] at cut
      rw [Place.afterChar_skipped (.inl blank)] at rest
      obtain ⟨out, read, respelled⟩ := rest.symbols? one cut
      exact ⟨out, by rw [symbols?_blank blank, read], respelled⟩
    · rw [Place.afterChar_mark _ mark] at rest
      obtain ⟨marks, tail, tail', rfl, rfl, marked, unmarked, unmarked', rest⟩ :=
        rest.exists_run
      have digits : ∀ m ∈ c :: marks, isMark m = true := List.forall_mem_cons.mpr ⟨mark, marked⟩
      rw [← List.cons_append, symbols?_run (List.cons_ne_nil _ _) digits unmarked] at cut
      obtain ⟨d, numeral, behind⟩ := Option.bind_eq_some_iff.mp cut
      obtain ⟨others, follows, rfl⟩ := Option.map_eq_some_iff.mp behind
      obtain ⟨out, read, respelled⟩ := rest.symbols? one follows
      refine ⟨_, ?_, .keep (.number (Number.ofDecimal d)) respelled⟩
      rw [← List.cons_append, symbols?_marks (List.cons_ne_nil _ _) digits numeral unmarked', read]
      rfl
    · rw [symbols?_symbol known] at cut
      rw [Place.afterChar_symbol _ known] at rest
      obtain ⟨others, behind, rfl⟩ := Option.map_eq_some_iff.mp cut
      obtain ⟨out, read, respelled⟩ := rest.symbols? one behind
      exact ⟨_, by rw [symbols?_symbol known, read]; rfl, .keep symbol respelled⟩
termination_by a.length + b.length

end Edited

end UnitArith.Plain
