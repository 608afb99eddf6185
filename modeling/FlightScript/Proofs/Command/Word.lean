import FlightScript.Command.Words
import FlightScript.Proofs.Text.Trim

/-!
# Words, gaps and names

Every reader of a word is described twice: what it returns when it succeeds (`sound`),
and on which lists it succeeds (`complete`). Words are taken as long as they go, so the
second half needs that the rest of the line does not go on with the word; the rest
begins with a character of another sort in every shape of a command.
-/

namespace FlightScript

namespace Words

open Text

/-- Blanks, of which there may be none. -/
def IsGap (cs : List Char) : Prop :=
  ∀ c ∈ cs, isBlank c

/-- Blanks, of which there is at least one. -/
def IsSeparator (cs : List Char) : Prop :=
  cs ≠ [] ∧ IsGap cs

/-- A letter or an underscore, followed by letters, digits and underscores. -/
def IsName (cs : List Char) : Prop :=
  ∃ c rest, cs = c :: rest ∧ isNameStart c ∧ ∀ d ∈ rest, isNamePart d

/-- A keyword, in any case of its letters. -/
def IsKeyword (keyword : String) (cs : List Char) : Prop :=
  foldChars cs = keyword.toList

theorem isNamePart_of_isNameStart {c : Char} (h : isNameStart c) : isNamePart c := by
  rw [isNameStart, Bool.or_eq_true] at h
  have halphanum : c.isAlphanum = (c.isAlpha || c.isDigit) := rfl
  rw [isNamePart, Bool.or_eq_true, halphanum, Bool.or_eq_true]
  exact h.imp_left Or.inl

theorem isNamePart_of_isBlank {c : Char} (h : isBlank c) : isNamePart c = false := by
  rw [isBlank, Bool.or_eq_true, decide_eq_true_eq, decide_eq_true_eq] at h
  rcases h with rfl | rfl
  · rfl
  · rfl

theorem isBlank_of_isNameStart {c : Char} (h : isNameStart c) : isBlank c = false := by
  cases hb : isBlank c with
  | false => rfl
  | true =>
      have hpart := isNamePart_of_isNameStart h
      rw [isNamePart_of_isBlank hb] at hpart
      cases hpart

theorem isSpace_of_isNameStart {c : Char} (h : isNameStart c) : isSpace c = false := by
  have halpha : c.isAlpha = (decide (c.val ≥ 'A'.val ∧ c.val ≤ 'Z'.val) ||
      decide (c.val ≥ 'a'.val) && decide (c.val ≤ 'z'.val)) := rfl
  rw [isNameStart, Bool.or_eq_true, halpha, Bool.or_eq_true] at h
  simp only [decide_eq_true_eq, Bool.and_eq_true, ge_iff_le, UInt32.le_iff_toNat_le] at h
  have hletter : (65 ≤ c.toNat ∧ c.toNat ≤ 90) ∨ (97 ≤ c.toNat ∧ c.toNat ≤ 122) ∨
      c.toNat = 95 := by
    rcases h with (h | h) | rfl
    · exact Or.inl h
    · exact Or.inr (Or.inl h)
    · exact Or.inr (Or.inr rfl)
  simp only [isSpace, Bool.or_eq_false_iff, Bool.and_eq_false_iff, decide_eq_false_iff_not]
  omega

theorem isAlpha_of_toLower {c : Char} (h : c.toLower.isAlpha) : c.isAlpha := by
  by_cases hc : c.val ≥ 'A'.val ∧ c.val ≤ 'Z'.val
  · have hupper : c.isUpper := decide_eq_true hc
    exact Bool.or_eq_true_iff.2 (Or.inl hupper)
  · have hlower : c.toLower = c := dif_neg hc
    rwa [hlower] at h

namespace IsName

variable {w : List Char}

theorem startsOutside_isBlank (h : IsName w) (rest : List Char) :
    StartsOutside isBlank (w ++ rest) := by
  obtain ⟨c, tail, rfl, hc, -⟩ := h
  exact startsOutside_cons (isBlank_of_isNameStart hc) (tail ++ rest)

end IsName

namespace IsSeparator

variable {g : List Char}

theorem startsOutside_isNamePart (h : IsSeparator g) (rest : List Char) :
    StartsOutside isNamePart (g ++ rest) := by
  obtain ⟨c, g, rfl⟩ := List.exists_cons_of_ne_nil h.1
  exact startsOutside_cons (isNamePart_of_isBlank (h.2 c List.mem_cons_self)) (g ++ rest)

theorem startsOutside_not_isBlank (h : IsSeparator g) (rest : List Char) :
    StartsOutside (fun c => !isBlank c) (g ++ rest) := by
  obtain ⟨c, g, rfl⟩ := List.exists_cons_of_ne_nil h.1
  have hc : isBlank c := h.2 c List.mem_cons_self
  exact startsOutside_cons (by rw [hc]; rfl) (g ++ rest)

theorem cons_ne_append (h : IsSeparator g) {c : Char} (hc : isBlank c = false)
    (tail rest : List Char) : c :: tail ≠ g ++ rest := by
  obtain ⟨d, g, rfl⟩ := List.exists_cons_of_ne_nil h.1
  intro heq
  obtain ⟨rfl, -⟩ := List.cons.inj heq
  rw [h.2 c List.mem_cons_self] at hc
  cases hc

end IsSeparator

/-- A name does not go on over a gap and a character that is no part of names. -/
theorem IsGap.startsOutside_isNamePart {g : List Char} (h : IsGap g) {c : Char}
    (hc : isNamePart c = false) (rest : List Char) :
    StartsOutside isNamePart (g ++ c :: rest) := by
  cases g with
  | nil => exact startsOutside_cons hc rest
  | cons b g =>
      exact IsSeparator.startsOutside_isNamePart ⟨List.cons_ne_nil b g, h⟩ (c :: rest)

/-! ### Names -/

theorem name?_sound {cs rest : List Char} {name : String} (h : name? cs = some (name, rest)) :
    ∃ w, IsName w ∧ cs = w ++ rest ∧ name = String.ofList w := by
  cases cs with
  | nil => cases h
  | cons c cs =>
      cases hc : isNameStart c with
      | false => simp [name?, hc] at h
      | true =>
          simp only [name?, hc, if_true, Option.some.injEq, Prod.mk.injEq] at h
          obtain ⟨rfl, rfl⟩ := h
          refine ⟨c :: cs.takeWhile isNamePart, ⟨c, _, rfl, hc, ?_⟩, ?_, rfl⟩
          · intro d hd
            exact List.mem_takeWhile_imp hd
          · rw [List.cons_append, List.takeWhile_append_dropWhile]

theorem name?_complete {w rest : List Char} (hw : IsName w)
    (hrest : StartsOutside isNamePart rest) :
    name? (w ++ rest) = some (String.ofList w, rest) := by
  obtain ⟨c, tail, rfl, hc, htail⟩ := hw
  rw [List.cons_append, name?, if_pos hc, takeWhile_append_of_startsOutside htail hrest,
    dropWhile_append_of_startsOutside htail hrest]

theorem name?_whole {w : List Char} (hw : IsName w) :
    name? w = some (String.ofList w, []) := by
  have hname := name?_complete hw startsOutside_nil
  rwa [List.append_nil] at hname

/-! ### Keywords and symbols -/

theorem keyword?_sound {keyword : String} {cs rest : List Char}
    (h : keyword? keyword.toList cs = some rest) : ∃ w, IsKeyword keyword w ∧ cs = w ++ rest := by
  obtain ⟨w, hw, hk⟩ := (keyword?_eq_some_iff _ _ _).1 h
  exact ⟨w, hk, hw⟩

theorem keyword?_complete {keyword : String} {w : List Char} (hw : IsKeyword keyword w)
    (rest : List Char) : keyword? keyword.toList (w ++ rest) = some rest :=
  (keyword?_eq_some_iff _ _ _).2 ⟨w, rfl, hw⟩

theorem symbol?_cons (s : Char) (rest : List Char) : symbol? s (s :: rest) = some rest :=
  if_pos rfl

theorem keyword?_whole {keyword : String} {w : List Char} (hw : IsKeyword keyword w) :
    keyword? keyword.toList w = some [] := by
  have hkeyword := keyword?_complete hw []
  rwa [List.append_nil] at hkeyword

theorem symbol?_eq_some_iff {s : Char} {cs rest : List Char} :
    symbol? s cs = some rest ↔ cs = s :: rest := by
  cases cs with
  | nil => simp [symbol?]
  | cons c cs =>
      by_cases hc : c = s
      · simp [symbol?, hc]
      · simp [symbol?, hc]

theorem nonempty?_eq_some_iff {cs rest : List Char} :
    nonempty? cs = some rest ↔ cs = rest ∧ rest ≠ [] := by
  cases cs with
  | nil =>
      simp only [nonempty?, reduceCtorEq, false_iff, not_and, not_not]
      exact Eq.symm
  | cons c cs =>
      simp only [nonempty?, Option.some.injEq]
      constructor
      · rintro rfl
        exact ⟨rfl, List.cons_ne_nil c cs⟩
      · exact And.left

/-- A keyword of letters would be a name by itself. -/
theorem IsKeyword.isName {keyword : String} {w : List Char} (hw : IsKeyword keyword w)
    (hletters : keyword.toList.all Char.isAlpha) (hkeyword : keyword.toList ≠ []) : IsName w := by
  have hall : ∀ c ∈ w, isNameStart c := by
    intro c hc
    have hlower : c.toLower ∈ keyword.toList := hw ▸ List.mem_map_of_mem hc
    have halpha := List.all_eq_true.1 hletters c.toLower hlower
    rw [isNameStart, isAlpha_of_toLower halpha, Bool.true_or]
  have hne : w ≠ [] := by
    rintro rfl
    exact hkeyword hw.symm
  obtain ⟨c, rest, rfl⟩ := List.exists_cons_of_ne_nil hne
  refine ⟨c, rest, rfl, hall c List.mem_cons_self, ?_⟩
  intro d hd
  exact isNamePart_of_isNameStart (hall d (List.mem_cons_of_mem c hd))

/-- The word before the name that is declared would be a name by itself. -/
theorem IsKeyword.isName_var {w : List Char} (hw : IsKeyword "var" w) : IsName w :=
  hw.isName rfl (List.cons_ne_nil _ _)

/-! ### Blanks -/

theorem skipBlanks_sound (cs : List Char) : ∃ g, IsGap g ∧ cs = g ++ skipBlanks cs :=
  ⟨cs.takeWhile isBlank, fun _ hc => List.mem_takeWhile_imp hc,
    List.takeWhile_append_dropWhile.symm⟩

theorem startsOutside_skipBlanks (cs : List Char) : StartsOutside isBlank (skipBlanks cs) :=
  startsOutside_dropWhile cs

theorem skipBlanks_append {g : List Char} (hg : IsGap g) (rest : List Char) :
    skipBlanks (g ++ rest) = skipBlanks rest :=
  List.dropWhile_append_of_pos hg

theorem skipBlanks_complete {g rest : List Char} (hg : IsGap g)
    (hrest : StartsOutside isBlank rest) : skipBlanks (g ++ rest) = rest :=
  dropWhile_append_of_startsOutside hg hrest

theorem skipBlanks_append_cons {g : List Char} (hg : IsGap g) {c : Char}
    (hc : isBlank c = false) (rest : List Char) : skipBlanks (g ++ c :: rest) = c :: rest :=
  skipBlanks_complete hg (startsOutside_cons hc rest)

theorem blanks?_sound {cs rest : List Char} (h : blanks? cs = some rest) :
    (∃ g, IsSeparator g ∧ cs = g ++ rest) ∧ StartsOutside isBlank rest := by
  cases cs with
  | nil => cases h
  | cons c cs =>
      cases hc : isBlank c with
      | false => simp [blanks?, hc] at h
      | true =>
          simp only [blanks?, hc, if_true, Option.some.injEq] at h
          obtain ⟨g, hg, hcs⟩ := skipBlanks_sound cs
          rw [h] at hcs
          refine ⟨⟨c :: g, ⟨List.cons_ne_nil c g, ?_⟩, by rw [hcs, List.cons_append]⟩, ?_⟩
          · exact List.forall_mem_cons.2 ⟨hc, hg⟩
          · exact h ▸ startsOutside_skipBlanks cs

theorem blanks?_append {g : List Char} (hg : IsSeparator g) (rest : List Char) :
    blanks? (g ++ rest) = some (skipBlanks rest) := by
  obtain ⟨c, g, rfl⟩ := List.exists_cons_of_ne_nil hg.1
  obtain ⟨hc, hgap⟩ := List.forall_mem_cons.1 hg.2
  rw [List.cons_append, blanks?, if_pos hc, skipBlanks_append hgap]

theorem blanks?_complete {g rest : List Char} (hg : IsSeparator g)
    (hrest : StartsOutside isBlank rest) : blanks? (g ++ rest) = some rest := by
  rw [blanks?_append hg, skipBlanks, dropWhile_of_startsOutside hrest]

/-- Blanks before a text bear not on what it is trimmed to. -/
theorem trimChars_skipBlanks (cs : List Char) : trimChars (skipBlanks cs) = trimChars cs := by
  obtain ⟨g, hg, hcs⟩ := skipBlanks_sound cs
  have hspace : ∀ c ∈ g, isSpace c := fun c hc => isSpace_of_isBlank (hg c hc)
  conv_rhs => rw [hcs]
  exact (trimChars_append_left hspace _).symm

/-! ### Tokens -/

/-- A text between blanks. -/
def IsToken (cs : List Char) : Prop :=
  cs ≠ [] ∧ ∀ c ∈ cs, isBlank c = false

/-- Tokens, each with at least one blank before it. -/
inductive Fields : List Char → List (List Char) → Prop where
  | nil : Fields [] []
  | cons {g token rest : List Char} {tokens : List (List Char)} (hg : IsSeparator g)
      (htoken : IsToken token) (hrest : Fields rest tokens) :
      Fields (g ++ token ++ rest) (token :: tokens)

theorem split_cons_of_isBlank {c : Char} (hc : isBlank c) (rest : List Char) :
    split (c :: rest) = split rest := by
  rw [split.eq_def]
  exact if_pos hc

theorem split_cons_of_not_isBlank {c : Char} (hc : isBlank c = false) {rest : List Char}
    (hrest : StartsOutside (fun d => !isBlank d) rest) : split (c :: rest) = [c] :: split rest := by
  cases rest with
  | nil =>
      rw [split.eq_def]
      simp [hc]
  | cons d rest =>
      have hd : isBlank d := by simpa using hrest d rfl
      rw [split.eq_def]
      simp [hc, hd]

theorem split_cons_cons {c d : Char} (hc : isBlank c = false) (hd : isBlank d = false)
    {rest word : List Char} {words : List (List Char)} (h : split (d :: rest) = word :: words) :
    split (c :: d :: rest) = (c :: word) :: words := by
  rw [split.eq_def]
  simp [hc, hd, h]

theorem split_append_of_isGap {g : List Char} (hg : IsGap g) (rest : List Char) :
    split (g ++ rest) = split rest := by
  induction g with
  | nil => rfl
  | cons c g ih =>
      obtain ⟨hc, hgap⟩ := List.forall_mem_cons.1 hg
      rw [List.cons_append, split_cons_of_isBlank hc, ih hgap]

theorem split_append_of_isToken {token rest : List Char} (htoken : IsToken token)
    (hrest : StartsOutside (fun c => !isBlank c) rest) :
    split (token ++ rest) = token :: split rest := by
  obtain ⟨hne, hall⟩ := htoken
  induction token with
  | nil => exact absurd rfl hne
  | cons c token ih =>
      obtain ⟨hc, hall⟩ := List.forall_mem_cons.1 hall
      cases token with
      | nil => exact split_cons_of_not_isBlank hc hrest
      | cons d token =>
          have hd := hall d List.mem_cons_self
          exact split_cons_cons hc hd (ih (List.cons_ne_nil d token) hall)

theorem Fields.startsOutside {cs : List Char} {tokens : List (List Char)}
    (h : Fields cs tokens) : StartsOutside (fun c => !isBlank c) cs := by
  cases h with
  | nil => exact startsOutside_nil
  | cons hg htoken hrest =>
      rw [List.append_assoc]
      exact hg.startsOutside_not_isBlank _

theorem Fields.ne_nil {cs : List Char} {tokens : List (List Char)} (h : Fields cs tokens)
    (hcs : cs ≠ []) : tokens ≠ [] := by
  cases h with
  | nil => exact absurd rfl hcs
  | cons => exact List.cons_ne_nil _ _

theorem Fields.split_eq {cs : List Char} {tokens : List (List Char)} (h : Fields cs tokens) :
    split cs = tokens := by
  induction h with
  | nil => rfl
  | cons hg htoken hrest ih =>
      rw [List.append_assoc, split_append_of_isGap hg.2, split_append_of_isToken htoken
        hrest.startsOutside, ih]

/-- A text that begins with a blank and does not end with one has a first field. -/
theorem exists_field {c : Char} {tail : List Char} (hc : isBlank c)
    (hend : EndsOutside isBlank (c :: tail)) :
    ∃ g token rest, c :: tail = g ++ token ++ rest ∧ IsSeparator g ∧ IsToken token ∧
      StartsOutside (fun d => !isBlank d) rest := by
  obtain ⟨g, text, hg, hne, hgap, htext⟩ := exists_span hc tail
  cases text with
  | nil =>
      rw [List.append_nil] at hg
      obtain ⟨d, hd, hfalse⟩ := hend.exists_mem (List.cons_ne_nil c tail)
      rw [hgap d (hg ▸ hd)] at hfalse
      cases hfalse
  | cons d text =>
      have hd : (!isBlank d) = true := by rw [htext d rfl]; rfl
      obtain ⟨token, rest, htoken, hne', hall, hrest⟩ :=
        exists_span (p := fun e => !isBlank e) hd text
      refine ⟨g, token, rest, ?_, ⟨hne, hgap⟩, ⟨hne', ?_⟩, hrest⟩
      · rw [hg, htoken, List.append_assoc]
      · intro e he
        simpa using hall e he

/-- A text that begins with a blank and does not end with one is made of fields. -/
theorem fields_split {cs : List Char} (hstart : StartsOutside (fun c => !isBlank c) cs)
    (hend : EndsOutside isBlank cs) : Fields cs (split cs) := by
  obtain ⟨n, hn⟩ : ∃ n, cs.length ≤ n := ⟨_, Nat.le_refl _⟩
  -- The induction is on a bound of the length, for a whole field goes at once.
  induction n generalizing cs with
  | zero =>
      obtain rfl := List.length_eq_zero_iff.1 (Nat.le_zero.1 hn)
      exact Fields.nil
  | succ n ih =>
      cases cs with
      | nil => exact Fields.nil
      | cons c tail =>
          have hc : isBlank c := by simpa using hstart c rfl
          obtain ⟨g, token, rest, hsplit, hg, htoken, hrest⟩ := exists_field hc hend
          have hlength : rest.length ≤ n := by
            have hpos := List.length_pos_iff.2 htoken.1
            have htotal := congrArg List.length hsplit
            rw [List.length_append, List.length_append] at htotal
            omega
          rw [hsplit] at hend
          have hfields := Fields.cons hg htoken (ih hrest hend.of_append hlength)
          rw [hsplit, hfields.split_eq]
          exact hfields

end Words

end FlightScript
