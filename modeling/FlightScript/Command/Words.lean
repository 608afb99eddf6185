import FlightScript.Text.Space

/-!
# The words of a command

Each function here removes one word from the front of a line and returns what
follows it, or `none` when the word is not there. Keywords match in any case of
the letters `A` to `Z`, names keep theirs. Words are taken as long as they go.
-/

namespace FlightScript

namespace Words

def isNameStart (c : Char) : Bool :=
  c.isAlpha || c = '_'

def isNamePart (c : Char) : Bool :=
  c.isAlphanum || c = '_'

/-- The rest of a line after its longest name, with that name. -/
def name? : List Char → Option (String × List Char)
  | [] => none
  | c :: rest =>
    if isNameStart c then
      some (String.ofList (c :: rest.takeWhile isNamePart), rest.dropWhile isNamePart)
    else none

/-- The rest of a line after a keyword, which is given in small letters. -/
def keyword? : List Char → List Char → Option (List Char)
  | [], cs => some cs
  | _ :: _, [] => none
  | k :: ks, c :: cs => if c.toLower = k then keyword? ks cs else none

def symbol? (s : Char) : List Char → Option (List Char)
  | [] => none
  | c :: rest => if c = s then some rest else none

/-- The rest of a line after the blanks at its front, of which there may be none. -/
def skipBlanks (cs : List Char) : List Char :=
  cs.dropWhile Text.isBlank

/-- The rest of a line after the blanks at its front, of which there is at least
one. -/
def blanks? : List Char → Option (List Char)
  | [] => none
  | c :: rest => if Text.isBlank c then some (skipBlanks rest) else none

def nonempty? : List Char → Option (List Char)
  | [] => none
  | c :: rest => some (c :: rest)

/-- The longest parts of a line that are free of blanks, in order. -/
def split : List Char → List (List Char)
  | [] => []
  | c :: rest =>
    if Text.isBlank c then split rest
    else
      match rest with
      | [] => [[c]]
      | d :: _ =>
        if Text.isBlank d then [c] :: split rest
        else
          match split rest with
          | [] => [[c]]
          | word :: words => (c :: word) :: words

@[simp] theorem split_nil : split [] = [] := rfl

@[simp] theorem name?_nil : name? [] = none := rfl

@[simp] theorem keyword?_nil (cs : List Char) : keyword? [] cs = some cs := by
  cases cs <;> rfl

/-- A keyword stands at the front exactly when folding the case of as many
characters gives it. -/
theorem keyword?_eq_some_iff (ks cs rest : List Char) :
    keyword? ks cs = some rest ↔ ∃ w, cs = w ++ rest ∧ Text.foldChars w = ks := by
  induction ks generalizing cs with
  | nil =>
    simp only [keyword?_nil, Option.some.injEq, Text.foldChars, List.map_eq_nil_iff]
    constructor
    · rintro rfl
      exact ⟨[], rfl, rfl⟩
    · rintro ⟨w, rfl, rfl⟩
      rfl
  | cons k ks ih =>
    cases cs with
    | nil => simp [keyword?, Text.foldChars]
    | cons c cs =>
      by_cases hc : c.toLower = k
      · rw [keyword?, if_pos hc, ih]
        constructor
        · rintro ⟨w, rfl, hw⟩
          exact ⟨c :: w, rfl, by rw [← hw, ← hc]; rfl⟩
        · rintro ⟨w, hw, hk⟩
          cases w with
          | nil => simp [Text.foldChars] at hk
          | cons d w =>
            obtain ⟨rfl, rfl⟩ := List.cons.inj hw
            exact ⟨w, rfl, (List.cons.inj hk).2⟩
      · rw [keyword?, if_neg hc]
        constructor
        · intro h
          exact absurd h (by simp)
        · rintro ⟨w, hw, hk⟩
          cases w with
          | nil => simp [Text.foldChars] at hk
          | cons d w =>
            obtain ⟨rfl, rfl⟩ := List.cons.inj hw
            exact absurd (List.cons.inj hk).1 hc

end Words

end FlightScript
