import FlightScript.Proofs.Decimal.ReadBack
import FlightScript.Value

/-!
# The three kinds of values

A text is read as a number, as a text between quotes or as any other text, in this order and
without the white space around it. The kinds do not get in each other's way: a number has no
quote in it, and neither the text of a number nor what is left of a text has white space around
it. So a text between quotes is told by its ends, and what is shown of a number or of a plain
text is read as the same value (`read_isStable`).
-/

namespace FlightScript

namespace Value

open Text

variable {cs : List Char} {q : Char}

def IsQuote (q : Char) : Prop :=
  q = '\'' ∨ q = '"'

def wrap (q : Char) (s : String) : String :=
  String.ofList (q :: (s.toList ++ [q]))

theorem IsQuote.isSpace_eq_false (h : IsQuote q) : isSpace q = false := by
  rcases h with rfl | rfl <;> rfl

/-! ### Trimmed texts -/

theorem trimChars_wrap (hq : IsQuote q) (cs : List Char) :
    trimChars (q :: (cs ++ [q])) = q :: (cs ++ [q]) :=
  trimChars_of_outside (startsOutside_cons hq.isSpace_eq_false _)
    (endsOutside_append_singleton hq.isSpace_eq_false (q :: cs))

theorem trimChars_of_read? {x : Float} (h : Double.read? cs = some x) : trimChars cs = cs := by
  have hspace : ∀ c ∈ cs, isSpace c = false := fun c hc =>
    (Decimal.outside_of_isNumeral (Double.forall_isNumeral_of_read? h c hc)).1
  exact trimChars_of_outside (fun c hc => hspace c (List.mem_of_mem_head? hc))
    fun c hc => hspace c (List.mem_of_getLast? hc)

/-! ### Numbers and quotes -/

theorem read?_cons_of_isQuote (hq : IsQuote q) (cs : List Char) :
    Double.read? (q :: cs) = none := by
  refine Option.eq_none_iff_forall_ne_some.2 fun x h => ?_
  have hnumeral := Double.forall_isNumeral_of_read? h q List.mem_cons_self
  obtain ⟨-, hsingle, hdouble⟩ := Decimal.outside_of_isNumeral hnumeral
  exact hq.elim hsingle hdouble

theorem ofChars_wrap (hq : IsQuote q) (cs : List Char) :
    ofChars (q :: (cs ++ [q])) = .quoted (String.ofList cs) := by
  rw [ofChars, read?_cons_of_isQuote hq, unquote?_wrap hq]

theorem ofChars_eq_quoted_iff {s : String} :
    ofChars cs = .quoted s ↔ ∃ q, IsQuote q ∧ cs = q :: (s.toList ++ [q]) := by
  constructor
  · intro h
    rw [ofChars] at h
    split at h
    · cases h
    · split at h
      · next inner hinner =>
        obtain rfl := Value.quoted.inj h
        rw [String.toList_ofList]
        exact unquote?_eq_some_iff.1 hinner
      · cases h
  · rintro ⟨q, hq, rfl⟩
    rw [ofChars_wrap hq, String.ofList_toList]

/-- The first and the last character of a text are the same quote, and they are two characters. -/
def IsEnclosed (s : String) : Prop :=
  2 ≤ s.length ∧ ∃ q, IsQuote q ∧ s.toList.head? = some q ∧ s.toList.getLast? = some q

theorem isEnclosed_iff {s : String} :
    IsEnclosed s ↔ ∃ q inner, IsQuote q ∧ s.toList = q :: (inner ++ [q]) := by
  rw [IsEnclosed, ← String.length_toList]
  constructor
  · rintro ⟨hlength, q, hq, hhead, hlast⟩
    obtain ⟨rest, hrest⟩ := List.head?_eq_some_iff.1 hhead
    rw [hrest] at hlength hlast ⊢
    have hne : rest ≠ [] := by
      rintro rfl
      exact absurd hlength (by simp)
    rw [List.getLast?_cons, List.getLast?_eq_some_getLast hne, Option.getD_some] at hlast
    refine ⟨q, rest.dropLast, hq, ?_⟩
    rw [← Option.some.inj hlast, List.dropLast_append_getLast hne]
  · rintro ⟨q, inner, hq, hs⟩
    refine ⟨by simp [hs], q, hq, by simp [hs], by simp [hs, List.getLast?_cons]⟩

theorem read_eq_quoted_iff (r : String) :
    (∃ s, read r = .quoted s) ↔ IsEnclosed (trim r) := by
  simp only [read, ofChars_eq_quoted_iff, isEnclosed_iff, toList_trim]
  constructor
  · rintro ⟨s, q, hq, hs⟩
    exact ⟨q, s.toList, hq, hs⟩
  · rintro ⟨q, inner, hq, hs⟩
    exact ⟨String.ofList inner, q, hq, by rw [hs, String.toList_ofList]⟩

/-! ### What is shown is read back -/

theorem read_toText_number (x : Float) : read (number x).toText = .number x := by
  have hread := Double.read?_plain x
  rw [read, toText, trimChars_of_read? hread, ofChars, hread]

/-- A plain text is shown as what was read, and read again in the same way. -/
theorem read_toText_plain {r s : String} (h : read r = .plain s) : read s = .plain s := by
  have hs : s = trim r := by
    rw [read, ofChars] at h
    split at h
    · cases h
    · split at h
      · cases h
      · exact (Value.plain.inj h).symm
  rw [← h, hs, read, read, toList_trim, trimChars_trimChars]

/-- Numbers and plain texts are shown so that they are read back, a text in quotes is read
verbatim, white space around a text never matters, and only enclosed texts are read as texts in
quotes. -/
theorem read_isStable :
    (∀ r, (∀ s, read r ≠ .quoted s) → read (read r).toText = read r) ∧
      (∀ q s, IsQuote q → read (wrap q s) = .quoted s) ∧
      (∀ front r back : String, (∀ c ∈ front.toList, isSpace c) → (∀ c ∈ back.toList, isSpace c) →
        read (front ++ r ++ back) = read r) ∧
      ∀ r, (∃ s, read r = .quoted s) ↔ IsEnclosed (trim r) := by
  refine ⟨fun r hquoted => ?_, fun q s hq => ?_, fun front r back hfront hback => ?_,
    read_eq_quoted_iff⟩
  · cases hr : read r with
    | number x => exact read_toText_number x
    | plain s => exact read_toText_plain hr
    | quoted s => exact (hquoted s hr).elim
  · rw [read, wrap, String.toList_ofList, trimChars_wrap hq, ofChars_wrap hq, String.ofList_toList]
  · rw [read, read, String.toList_append, String.toList_append, trimChars_surround hfront hback]

/-- A number with zeros too many, a text with the other quote in it, and blanks around a word. -/
theorem read_isStable_of_blanks :
    read (read " 7.50 ").toText = read " 7.50 " ∧ read (wrap '"' " it's ") = .quoted " it's " ∧
      read ("\t" ++ "EarthMJ2000Eq" ++ "  ") = read "EarthMJ2000Eq" ∧
      IsEnclosed (trim " 'GMAT' ") := by
  obtain ⟨hshown, hwrapped, hspace, henclosed⟩ := read_isStable
  have hnumber : read " 7.50 " = .number 7.5 := by decide +kernel
  have hquoted : read " 'GMAT' " = .quoted "GMAT" := by decide +kernel
  refine ⟨hshown " 7.50 " fun s h => ?_, hwrapped '"' " it's " (Or.inr rfl),
    hspace "\t" "EarthMJ2000Eq" "  " (by simp [isSpace]) (by simp [isSpace]),
    (henclosed " 'GMAT' ").1 ⟨"GMAT", hquoted⟩⟩
  rw [hnumber] at h
  cases h

end Value

end FlightScript
