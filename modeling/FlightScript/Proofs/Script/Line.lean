import FlightScript.Proofs.Command.Recognition
import FlightScript.Script.Statement

/-!
# The language of lines

A line is trimmed first. It is a comment if it then begins with `%`; otherwise one
semicolon at its end is dropped, and what is left has to be a command. Reading accepts
exactly these lines, and every other line is refused as unrecognised.
-/

namespace FlightScript

open Words Text

namespace Statement

/-- The line `t` is `u` without one semicolon at its end and the white space before
that, if `u` ends with one. -/
inductive DropsSemicolon : List Char → List Char → Prop where
  | dropped {t back : List Char} (hback : ∀ c ∈ back, isSpace c) (ht : EndsOutside isSpace t) :
      DropsSemicolon (t ++ back ++ [';']) t
  | kept {t : List Char} (ht : t.getLast? ≠ some ';') : DropsSemicolon t t

/-- What a whole line denotes: a comment, or a command. -/
inductive Means : List Char → Command → Prop where
  | comment {cs rest text : List Char} (hcs : TrimsTo cs ('%' :: rest))
      (htext : TrimsTo rest text) : Means cs (.comment (String.ofList text))
  | command {cs u t : List Char} {c : Command} (hcs : TrimsTo cs u) (hu : u.head? ≠ some '%')
      (ht : DropsSemicolon u t) (hc : c.IsDenoted t) : Means cs c

theorem dropSemicolon_eq_iff {u t : List Char} : DropsSemicolon u t ↔ dropSemicolon u = t := by
  constructor
  · intro h
    cases h with
    | @dropped t back hback ht =>
        rw [dropSemicolon, if_pos List.getLast?_concat, List.dropLast_concat, trimEndChars,
          dropTrailing_append hback, dropTrailing_of_endsOutside ht]
    | kept ht => exact if_neg ht
  · rintro rfl
    by_cases hu : u.getLast? = some ';'
    · obtain ⟨front, rfl⟩ := List.getLast?_eq_some_iff.1 hu
      obtain ⟨back, hfront, hback⟩ := exists_dropTrailing_append isSpace front
      have hdropped := DropsSemicolon.dropped hback (endsOutside_dropTrailing front)
      rw [dropSemicolon, if_pos hu, List.dropLast_concat, trimEndChars]
      rwa [← hfront] at hdropped
    · rw [dropSemicolon, if_neg hu]
      exact DropsSemicolon.kept hu

/-- Nothing is left at the end of a trimmed line that a value could lose. -/
theorem endsOutside_of_dropsSemicolon {u t : List Char} (h : DropsSemicolon u t)
    (hu : EndsOutside isSpace u) : EndsOutside isBlank t := by
  have ht : EndsOutside isSpace t := by
    cases h with
    | dropped _ ht => exact ht
    | kept _ => exact hu
  exact ht.mono fun _ => isSpace_of_isBlank

theorem command?_of_head_ne {u : List Char} (hu : u.head? ≠ some '%') :
    command? u = Command.read? (dropSemicolon u) := by
  rw [command?]
  rintro rest rfl
  exact hu rfl

theorem command?_eq_some_iff {cs : List Char} {c : Command} :
    command? (trimChars cs) = some c ↔ Means cs c := by
  have hcs := trimsTo_trimChars cs
  constructor
  · intro h
    by_cases hu : (trimChars cs).head? = some '%'
    · obtain ⟨rest, hrest⟩ := List.head?_eq_some_iff.1 hu
      rw [hrest] at h hcs
      obtain rfl := Option.some.inj h
      exact Means.comment hcs (trimsTo_trimChars rest)
    · have hdrops : DropsSemicolon (trimChars cs) (dropSemicolon (trimChars cs)) :=
        dropSemicolon_eq_iff.2 rfl
      have hend := endsOutside_of_dropsSemicolon hdrops (endsOutside_dropTrailing _)
      rw [command?_of_head_ne hu, Command.read?_eq_some_iff hend] at h
      exact Means.command hcs hu hdrops h
  · intro h
    cases h with
    | comment hcs htext =>
        rw [trimsTo_iff.1 hcs, command?, trimsTo_iff.1 htext]
    | command hcs hu ht hc =>
        have htrim := trimsTo_iff.1 hcs
        obtain ⟨_, _, _, _, _, _, hends⟩ := hcs
        have hend := endsOutside_of_dropsSemicolon ht hends
        rw [htrim, command?_of_head_ne hu, dropSemicolon_eq_iff.1 ht]
        exact (Command.read?_eq_some_iff hend).2 hc

/-- A line is accepted exactly if it denotes a command, and the statement is of that
command; any other line is refused as unrecognised. -/
theorem read_eq_iff (line : Nat) (text : String) :
    (∀ s, read line text = .ok s ↔
      s.line = line ∧ s.text = text ∧ Means text.toList s.command) ∧
    (∀ e, read line text = .error e ↔
      e = .unrecognized (Text.trim text) ∧ ∀ c, ¬ Means text.toList c) := by
  simp only [← command?_eq_some_iff]
  cases h : command? (trimChars text.toList) with
  | none =>
      have hread : read line text = .error (.unrecognized (Text.trim text)) := by
        rw [read, h]
      refine ⟨fun s => ?_, fun e => ?_⟩
      · rw [hread]
        exact iff_of_false nofun fun hs => nomatch hs.2.2
      · rw [hread, Except.error.injEq]
        exact ⟨fun he => ⟨he.symm, nofun⟩, fun he => he.1.symm⟩
  | some c =>
      have hread : read line text = .ok ⟨line, text, c⟩ := by
        rw [read, h]
      refine ⟨fun s => ?_, fun e => ?_⟩
      · rw [hread, Except.ok.injEq, Option.some.injEq]
        constructor
        · rintro rfl
          exact ⟨rfl, rfl, rfl⟩
        · rintro ⟨rfl, rfl, rfl⟩
          rfl
      · rw [hread]
        exact iff_of_false nofun fun he => he.2 c rfl

end Statement

end FlightScript
