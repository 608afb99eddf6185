/-!
# Blanks, white space and letter case

A *blank* is a space or a tab: it separates the words of a command. *White
space* is the Unicode property `White_Space`: it is what trimming removes, from
whole lines as well as from single literals. Letter case is folded for the
letters `A` to `Z` only.

Texts are cut as lists of characters; `trim` and `foldCase` are the same
operations on strings.
-/

namespace FlightScript

namespace Text

def isBlank (c : Char) : Bool :=
  c = ' ' || c = '\t'

/-- The characters with the Unicode property `White_Space`. -/
def isSpace (c : Char) : Bool :=
  let n := c.toNat
  (9 ≤ n && n ≤ 13) || n = 0x20 || n = 0x85 || n = 0xA0 || n = 0x1680 ||
    (0x2000 ≤ n && n ≤ 0x200A) || n = 0x2028 || n = 0x2029 || n = 0x202F ||
    n = 0x205F || n = 0x3000

/-- Every blank is white space. -/
theorem isSpace_of_isBlank {c : Char} (h : isBlank c) : isSpace c := by
  simp only [isBlank, Bool.or_eq_true, decide_eq_true_eq] at h
  rcases h with rfl | rfl <;> decide

/-- Every character that core counts as white space is white space. -/
theorem isSpace_of_isWhitespace {c : Char} (h : c.isWhitespace) : isSpace c := by
  simp only [Char.isWhitespace, Bool.or_eq_true, decide_eq_true_eq] at h
  rcases h with ((rfl | rfl) | rfl) | rfl <;> decide

/-- The list without its longest end on which `p` holds throughout. -/
def dropTrailing {α : Type} (p : α → Bool) : List α → List α
  | [] => []
  | a :: l =>
    match dropTrailing p l with
    | [] => if p a then [] else [a]
    | b :: r => a :: b :: r

@[simp] theorem dropTrailing_nil {α : Type} (p : α → Bool) :
    dropTrailing p [] = [] := rfl

/-- A last element on which `p` fails stops the dropping at once. -/
theorem dropTrailing_append_singleton_of_not {α : Type} (p : α → Bool) (l : List α)
    {a : α} (h : p a = false) : dropTrailing p (l ++ [a]) = l ++ [a] := by
  induction l with
  | nil => simp [dropTrailing, h]
  | cons b l ih =>
    rw [List.cons_append, dropTrailing, ih]
    cases l <;> rfl

/-- A last element on which `p` holds is dropped. -/
theorem dropTrailing_append_singleton_of_pos {α : Type} (p : α → Bool) (l : List α)
    {a : α} (h : p a) : dropTrailing p (l ++ [a]) = dropTrailing p l := by
  induction l with
  | nil => simp [dropTrailing, h]
  | cons b l ih => rw [List.cons_append, dropTrailing, ih, dropTrailing]

/-- What is dropped is an end of the list on which `p` holds throughout. -/
theorem exists_dropTrailing_append {α : Type} (p : α → Bool) (l : List α) :
    ∃ t, l = dropTrailing p l ++ t ∧ ∀ a ∈ t, p a := by
  induction l with
  | nil => exact ⟨[], rfl, by simp⟩
  | cons a l ih =>
    obtain ⟨t, hl, ht⟩ := ih
    cases hd : dropTrailing p l with
    | nil =>
      rw [hd, List.nil_append] at hl
      subst hl
      by_cases ha : p a
      · exact ⟨a :: l, by simp [dropTrailing, hd, ha], by simpa [ha] using ht⟩
      · exact ⟨l, by simp [dropTrailing, hd, ha], ht⟩
    | cons b r =>
      rw [hd] at hl
      refine ⟨t, ?_, ht⟩
      rw [dropTrailing, hd, hl]
      rfl

def trimStartChars (cs : List Char) : List Char :=
  cs.dropWhile isSpace

def trimEndChars (cs : List Char) : List Char :=
  dropTrailing isSpace cs

def trimChars (cs : List Char) : List Char :=
  trimEndChars (trimStartChars cs)

def trim (s : String) : String :=
  String.ofList (trimChars s.toList)

theorem toList_trim (s : String) : (trim s).toList = trimChars s.toList := by
  simp [trim]

/-- The characters with `A` to `Z` made small. -/
def foldChars (cs : List Char) : List Char :=
  cs.map Char.toLower

def foldCase (s : String) : String :=
  String.ofList (foldChars s.toList)

/-- The two texts differ at most in the case of the letters `A` to `Z`. -/
def sameIgnoringCase (s t : String) : Bool :=
  foldCase s = foldCase t

end Text

end FlightScript
