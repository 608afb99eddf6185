import FlightScript.Proofs.Engine.Inlining
import FlightScript.Proofs.Library.Catalogue

/-!
# Hidden scripts

A saved script is hidden from the users who may not see it. What is written in it then makes
no difference to any of them: if two libraries look alike to some users, then a history in
which only these users run saved scripts is answered in the same way with either
(`answers_withLibrary`).
-/

namespace FlightScript

namespace Library

/-- The libraries have scripts under the same identifiers, and where the scripts differ, none
of the users may see either. -/
def LooksAlike (users : List String) (l l' : Library) : Prop :=
  ∀ id, l.get? id = l'.get? id ∨ ∃ s s', l.get? id = some s ∧ l'.get? id = some s' ∧
    ∀ user ∈ users, ¬ s.isVisibleTo user ∧ ¬ s'.isVisibleTo user

/-- Attempts to change two libraries fail alike, or the libraries look alike afterwards. -/
inductive ChangesAlike (users : List String) :
    Except LibraryError Library → Except LibraryError Library → Prop where
  | ok {m m' : Library} (h : LooksAlike users m m') : ChangesAlike users (.ok m) (.ok m')
  | error (error : LibraryError) : ChangesAlike users (.error error) (.error error)

namespace LooksAlike

variable {users : List String} {l l' m : Library} {id : String}

theorem get?_cases (h : LooksAlike users l l') (id : String) :
    (l.get? id = none ∧ l'.get? id = none) ∨
      ∃ s s', l.get? id = some s ∧ l'.get? id = some s' := by
  rcases h id with heq | ⟨s, s', hs, hs', -⟩
  · cases hs : l.get? id with
    | none => exact Or.inl ⟨rfl, heq.symm.trans hs⟩
    | some s => exact Or.inr ⟨s, s, rfl, heq.symm.trans hs⟩
  · exact Or.inr ⟨s, s', hs, hs'⟩

/-- The libraries still look alike if the same happens to a script in both. -/
theorem of_get?_eq (h : LooksAlike users l l') {m m' : Library} {o : Option SavedScript}
    (hm : ∀ other, m.get? other = if id = other then o else l.get? other)
    (hm' : ∀ other, m'.get? other = if id = other then o else l'.get? other) :
    LooksAlike users m m' := by
  intro other
  rw [hm, hm']
  by_cases hid : id = other
  · rw [if_pos hid, if_pos hid]
    exact Or.inl rfl
  · rw [if_neg hid, if_neg hid]
    exact h other

theorem put (h : LooksAlike users l l') (s : SavedScript) :
    LooksAlike users (l.put s) (l'.put s) :=
  h.of_get?_eq (l.get?_put s) (l'.get?_put s)

/-- A script that none of the users may see can be replaced by any other one of this kind. -/
theorem put_of_hidden {s s' : SavedScript} (hs : l.get? s'.id = some s)
    (hhidden : ∀ user ∈ users, ¬ s.isVisibleTo user ∧ ¬ s'.isVisibleTo user) :
    LooksAlike users l (l.put s') := by
  intro id
  rw [get?_put]
  by_cases hid : s'.id = id
  · subst hid
    rw [if_pos rfl]
    exact Or.inr ⟨s, s', hs, rfl, hhidden⟩
  · rw [if_neg hid]
    exact Or.inl rfl

theorem add (h : LooksAlike users l l') (s : SavedScript) :
    ChangesAlike users (l.add s) (l'.add s) := by
  rw [Library.add, Library.add]
  rcases h.get?_cases s.id with ⟨hs, hs'⟩ | ⟨t, t', ht, ht'⟩
  · rw [hs, hs']
    exact .ok (h.put s)
  · rw [ht, ht']
    exact .error _

theorem update (h : LooksAlike users l l') (s : SavedScript) (now : Int) :
    ChangesAlike users (l.update s now) (l'.update s now) := by
  rw [Library.update, Library.update]
  rcases h.get?_cases s.id with ⟨hs, hs'⟩ | ⟨t, t', ht, ht'⟩
  · rw [hs, hs']
    exact .error _
  · rw [ht, ht']
    exact .ok (h.put _)

theorem delete (h : LooksAlike users l l') (id : String) :
    ChangesAlike users (l.delete id) (l'.delete id) := by
  rw [Library.delete, Library.delete]
  rcases h.get?_cases id with ⟨hs, hs'⟩ | ⟨t, t', ht, ht'⟩
  · rw [hs, hs']
    exact .error _
  · rw [ht, ht']
    exact .ok (h.of_get?_eq (Table.get?_erase l.scripts id) (Table.get?_erase l'.scripts id))

end LooksAlike

end Library

namespace Engine

variable {e : Engine} {users : List String} {l' : Library}

/-- A saved script is found or refused alike in libraries that look alike. -/
theorem savedScript_withLibrary (h : e.library.LooksAlike users l') {user : String}
    (hu : user ∈ users) (id : String) :
    (e.withLibrary l').savedScript id user = e.savedScript id user := by
  have husesLibrary : (e.withLibrary l').usesLibrary = e.usesLibrary := rfl
  have hlibrary : (e.withLibrary l').library = l' := rfl
  rw [savedScript, savedScript, husesLibrary, hlibrary]
  rcases h id with heq | ⟨s, s', hs, hs', hhidden⟩
  · rw [heq]
  · obtain ⟨hno, hno'⟩ := hhidden user hu
    rw [hs, hs']
    simp only [if_neg hno, if_neg hno']

theorem exists_apply_withLibrary (h : e.library.LooksAlike users l') {operation : Operation}
    (hop : ∀ id user, operation = .submitSaved id user → user ∈ users) :
    ∃ l'', (e.withLibrary l').apply operation =
        ((e.apply operation).1.withLibrary l'', (e.apply operation).2) ∧
      (e.apply operation).1.library.LooksAlike users l'' := by
  cases operation with
  | save s =>
      have halike := h.add s
      simp only [apply, withLibrary]
      generalize e.library.add s = result, l'.add s = result' at halike
      cases halike with
      | ok hm => exact ⟨_, rfl, hm⟩
      | error error => exact ⟨l', rfl, h⟩
  | resave s =>
      have halike := h.update s e.clock
      simp only [apply, withLibrary]
      generalize e.library.update s e.clock = result, l'.update s e.clock = result' at halike
      cases halike with
      | ok hm => exact ⟨_, rfl, hm⟩
      | error error => exact ⟨l', rfl, h⟩
  | unsave id =>
      have halike := h.delete id
      simp only [apply, withLibrary]
      generalize e.library.delete id = result, l'.delete id = result' at halike
      cases halike with
      | ok hm => exact ⟨_, rfl, hm⟩
      | error error => exact ⟨l', rfl, h⟩
  | submitSaved id user =>
      have hsaved' := savedScript_withLibrary h (hop id user rfl) id
      refine ⟨l', ?_, by rwa [e.library_apply rfl]⟩
      cases hsaved : e.savedScript id user with
      | error error =>
          rw [apply_submitSaved_of_error hsaved, apply_submitSaved_of_error (hsaved'.trans hsaved)]
      | ok s =>
          rw [apply_submitSaved_of_ok hsaved, apply_submitSaved_of_ok (hsaved'.trans hsaved)]
          exact e.apply_withLibrary l' rfl rfl
  | _ =>
      refine ⟨l', e.apply_withLibrary l' rfl rfl, ?_⟩
      rwa [e.library_apply rfl]

/-- What is written in scripts that are hidden from all who run saved scripts makes no
difference to any answer, nor to anything but the library. -/
theorem answers_withLibrary (h : e.library.LooksAlike users l') {history : List Operation}
    (hhistory : ∀ id user, .submitSaved id user ∈ history → user ∈ users) :
    (e.withLibrary l').answers history = e.answers history ∧
      ∃ l'', (e.withLibrary l').after history = (e.after history).withLibrary l'' := by
  induction history generalizing e l' with
  | nil => exact ⟨rfl, l', rfl⟩
  | cons operation rest ih =>
      obtain ⟨l₁, happly, hl₁⟩ := exists_apply_withLibrary h
        fun id user hop => hhistory id user (hop ▸ List.mem_cons_self)
      obtain ⟨hanswers, l'', hafter⟩ :=
        ih hl₁ fun id user hmem => hhistory id user (List.mem_cons_of_mem _ hmem)
      rw [answers, answers, after_cons, after_cons, happly]
      exact ⟨congrArg _ hanswers, l'', hafter⟩

end Engine

end FlightScript
