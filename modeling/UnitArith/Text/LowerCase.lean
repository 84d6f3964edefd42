import UnitArith.Text.CaseTable

/-! Lower case for all of Unicode. A capital has one small form, except that an I with a dot
keeps its dot as a mark and that a sigma has a form of its own at the end of a word. -/
namespace UnitArith.Text

def inRanges (ranges : List (Nat × Nat)) (c : Char) : Bool :=
  ranges.any fun (low, high) => low ≤ c.toNat && c.toNat ≤ high

def isCased (c : Char) : Bool := inRanges casedRanges c
def isCaseIgnorable (c : Char) : Bool := inRanges caseIgnorableRanges c

def CaseRun.covers (run : CaseRun) (c : Char) : Bool :=
  run.first ≤ c.toNat && c.toNat ≤ run.last && (c.toNat - run.first) % run.step == 0

def lowerChar (c : Char) : Char :=
  match caseRuns.find? (·.covers c) with
  | some run => Char.ofNat (run.small + (c.toNat - run.first))
  | none => c

/-- The next character that counts is a letter. -/
def meetsCased (cs : List Char) : Bool :=
  match cs.dropWhile isCaseIgnorable with
  | c :: _ => isCased c
  | [] => false

/-- `before` is the text in front, the nearest character first. -/
def lowerAfter (before : List Char) : List Char → List Char
  | [] => []
  | c :: cs =>
    let small :=
      if c = 'İ' then ['i', '\u0307']
      else if c = 'Σ' then [if meetsCased before && !meetsCased cs then 'ς' else 'σ']
      else [lowerChar c]
    small ++ lowerAfter (c :: before) cs

def lower (cs : List Char) : List Char := lowerAfter [] cs

/-- The first 128 characters have no other capitals than the 26 letters. -/
theorem lowerChar_of_ascii {c : Char} (small : c.toNat < 128) (h : c.isUpper = false) :
    lowerChar c = c := by
  have table : ∀ n < 128, (Char.ofNat n).isUpper = false →
      caseRuns.find? (·.covers (Char.ofNat n)) = none := by decide +kernel
  have none := table c.toNat small
  rw [Char.ofNat_toNat] at none
  simp [lowerChar, none h]

end UnitArith.Text
