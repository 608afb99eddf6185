import FlightScript.Proofs.Engine.Hidden
import FlightScript.Proofs.Engine.Session

/-!
# Running saved scripts

A saved script is run for a user who may see it as if its text were submitted, under the
identifier of the script, and is otherwise refused (`Guards`). What happens to the library from
then on makes no difference to its job: the record is that of the text as it was submitted
(`Session.Records`).
-/

namespace FlightScript

namespace Engine

/-- The operation is refused with a problem, and changes nothing. -/
def Refuses (e : Engine) (operation : Operation) (problem : Problem) : Prop :=
  ∃ error, e.apply operation = (e, .failed error) ∧ error.problem = problem

/-- A saved script is run only if there is one of this identifier which the user may see, and
then as if its text were submitted. -/
structure Guards (e : Engine) (id user : String) : Prop where
  noLibrary : e.usesLibrary = false →
    e.Refuses (.submitSaved id user) ⟨.storage, "No script repository configured"⟩
  unknown : e.usesLibrary = true → e.library.get? id = none →
    e.Refuses (.submitSaved id user) ⟨.notFound, "Script " ++ id⟩
  hidden : e.usesLibrary = true → ∀ s, e.library.get? id = some s →
    ¬ (s.isPublic = true ∨ s.owner = user) →
    e.Refuses (.submitSaved id user) ⟨.permission, "Script " ++ id ++ " is private to its owner"⟩
  visible : e.usesLibrary = true → ∀ s, e.library.get? id = some s →
    (s.isPublic = true ∨ s.owner = user) →
    e.apply (.submitSaved id user) = e.apply (.submit s.content user (some id) none)
  started_iff : (∃ queued, e.started? (.submitSaved id user) = some queued) ↔
    e.usesLibrary = true ∧ ∃ s, e.library.get? id = some s ∧
      (s.isPublic = true ∨ s.owner = user) ∧ (validate s.content).isValid

variable {e : Engine} {id user : String} {s : SavedScript}

theorem savedScript_eq_ok_iff : e.savedScript id user = .ok s ↔
    e.usesLibrary = true ∧ e.library.get? id = some s ∧
      (s.isPublic = true ∨ s.owner = user) := by
  rw [savedScript, ← SavedScript.isVisibleTo_iff]
  by_cases hl : e.usesLibrary = true
  · cases hs : e.library.get? id with
    | none => simp [hl]
    | some t =>
        simp only [hl, if_true, true_and, Option.some.injEq]
        by_cases hv : t.isVisibleTo user
        · rw [if_pos hv, Except.ok.injEq]
          exact (and_iff_left_of_imp fun h => h ▸ hv).symm
        · rw [if_neg hv]
          constructor
          · intro h
            cases h
          · rintro ⟨rfl, hvisible⟩
            exact absurd hvisible hv
  · simp [hl]

theorem refuses_of_savedScript {error : EngineError} (h : e.savedScript id user = .error error) :
    e.Refuses (.submitSaved id user) error.problem :=
  ⟨error, apply_submitSaved_of_error h, rfl⟩

theorem keyed_apply (h : e.library.Keyed) (operation : Operation) :
    (e.apply operation).1.library.Keyed := by
  cases operation with
  | save s =>
      rw [apply]
      cases hadd : e.library.add s with
      | error error => exact h
      | ok l => exact ((Library.add_eq_ok_iff _ _ _).1 hadd).2 ▸ h.put s
  | resave s =>
      rw [apply]
      cases hupdate : e.library.update s e.clock with
      | error error => exact h
      | ok l => exact ((Library.update_eq_ok_iff _ _ _ _).1 hupdate).2 ▸ h.put _
  | unsave id =>
      rw [apply]
      cases hdelete : e.library.delete id with
      | error error => exact h
      | ok l => exact h.delete hdelete
  | _ => rwa [e.library_apply rfl]

theorem keyed_after (h : e.library.Keyed) (history : List Operation) :
    (e.after history).library.Keyed := by
  induction history generalizing e with
  | nil => exact h
  | cons operation rest ih => exact ih (keyed_apply h operation)

theorem Reachable.keyed (h : e.Reachable) : e.library.Keyed := by
  obtain ⟨step, publisher, usesLibrary, history, rfl⟩ := h
  exact keyed_after Library.keyed_empty history

theorem Reachable.guards (he : e.Reachable) (id user : String) : e.Guards id user where
  noLibrary := by
    intro hl
    have hsaved : e.savedScript id user = .error .noLibrary := by
      rw [savedScript, hl]
      rfl
    exact refuses_of_savedScript hsaved
  unknown := by
    intro hl hnone
    have hsaved : e.savedScript id user = .error (.unknownScript id) := by
      rw [savedScript, if_pos hl, hnone]
    exact refuses_of_savedScript hsaved
  hidden := by
    intro hl s hs hv
    rw [← SavedScript.isVisibleTo_iff] at hv
    have hsaved : e.savedScript id user = .error (.privateScript id) := by
      rw [savedScript, if_pos hl, hs]
      exact if_neg hv
    exact refuses_of_savedScript hsaved
  visible := by
    intro hl s hs hv
    rw [apply_submitSaved_of_ok (savedScript_eq_ok_iff.2 ⟨hl, hs, hv⟩), he.keyed id s hs]
  started_iff := by
    constructor
    · rintro ⟨queued, hstarted⟩
      obtain ⟨text, user', script, hsubmits, hvalid, -⟩ := exists_submits_of_started? hstarted
      cases hsubmits with
      | submitSaved user hsaved =>
          obtain ⟨hl, hs, hv⟩ := savedScript_eq_ok_iff.1 hsaved
          exact ⟨hl, _, hs, hv, hvalid⟩
    · rintro ⟨hl, s, hs, hv, hvalid⟩
      have hsubmits := Submits.submitSaved user (savedScript_eq_ok_iff.2 ⟨hl, hs, hv⟩)
      exact ⟨_, hsubmits.started?_eq.trans (if_pos hvalid)⟩

end Engine

namespace Session

open Engine

variable {text user : String} {script : Option String}

/-- The record of a session with a valid text is that of the whole text, or of the part of it
before the statement at which the job is stopped. -/
structure Records (s : Session text user script) (record : Job) : Prop where
  reply_eq : s.reply = .job record
  origin_eq : record.origin = (s.id, script, user)
  of_isStoppedAt : ∀ k, s.IsStoppedAt k → ∃ b,
    Bindings.empty.executeAll s.engine.defaultStep ((Script.read text).executable.take k) = .ok b ∧
      record.summary = .cancelled (Script.read text).executable.length
        ((Script.read text).executable.take k) b
  of_not_isStoppedAt : (∀ k, ¬ s.IsStoppedAt k) →
    record.summary = .ofSequence s.engine.defaultStep (Script.read text).executable

theorem exists_records (s : Session text user script) (hv : (validate text).isValid) :
    ∃ record, s.Records record := by
  obtain ⟨record, x, r, hreply, hends⟩ := s.exists_endsIn hv
  have hsame : ∀ record', s.reply = .job record' → record' = record := by
    intro record' hreply'
    exact Reply.job.inj (hreply'.symm.trans hreply)
  refine ⟨record, hreply, hends.origin_eq hv, ?_, ?_⟩
  · intro k hk
    obtain ⟨record', x', r', hreply', hends', rfl, hsummary⟩ := endsIn_of_isStoppedAt hv hk
    obtain rfl := hsame record' hreply'
    have hdone := hends'.endsAs.reaches.executeAll_eq
    rw [defaultStep_of_mem_rounds hends'.mem_rounds] at hdone
    exact ⟨r'.bindings, hdone, hsummary⟩
  · intro hgo
    obtain ⟨record', -, -, hreply', -, -, hsummary⟩ := endsIn_of_not_isStoppedAt hv hgo
    obtain rfl := hsame record' hreply'
    exact hsummary

end Session

namespace Engine

variable {e : Engine}

theorem Reachable.exists_session (he : e.Reachable) {id user : String} {s : SavedScript}
    {queued : Job} (hsaved : e.savedScript id user = .ok s)
    (hstarted : e.started? (.submitSaved id user) = some queued) {between : List Operation}
    (hwait : Operation.wait queued.id ∉ between) :
    ∃ session : Session s.content user (some id), session.engine = e ∧
      session.submission = .submitSaved id user ∧ session.between = between ∧
      ∃ record, (((e.apply (.submitSaved id user)).1.after between).apply (.wait queued.id)).2 =
        .job record ∧ session.Records record := by
  obtain rfl : s.id = id := he.keyed id s (savedScript_eq_ok_iff.1 hsaved).2.1
  have hsubmits := Submits.submitSaved user hsaved
  rw [hsubmits.started?_eq] at hstarted
  by_cases hv : (validate s.content).isValid
  · rw [if_pos hv] at hstarted
    obtain rfl := Option.some.inj hstarted
    let session : Session s.content user (some s.id) :=
      { engine := e
        reachable := he
        submission := .submitSaved s.id user
        submits := hsubmits
        between := between
        wait_not_mem := hwait }
    obtain ⟨record, hrecord⟩ := session.exists_records hv
    exact ⟨session, rfl, rfl, rfl, record, hrecord.reply_eq, hrecord⟩
  · rw [if_neg hv] at hstarted
    cases hstarted

/-- A saved script is run only for a user who may see it, and then as if its text were
submitted; all else is refused and changes nothing. What is written in scripts that the users
may not see makes no difference to any answer. What happens to the library after a job was
started from it makes no difference to the record of the job, which is that of the text as it
was. -/
theorem saved_scripts_guarded (he : e.Reachable) (id user : String) :
    e.Guards id user ∧
    (∀ users l', e.library.LooksAlike users l' → ∀ history,
      (∀ id user, .submitSaved id user ∈ history → user ∈ users) →
      (e.withLibrary l').answers history = e.answers history ∧
        ∃ l'', (e.withLibrary l').after history = (e.after history).withLibrary l'') ∧
    ∀ s queued, e.savedScript id user = .ok s →
      e.started? (.submitSaved id user) = some queued →
      let next := (e.apply (.submitSaved id user)).1
      (∀ look ∈ [Operation.status queued.id, .wait queued.id],
        (∀ later l, ((next.after later).apply look).2 =
          (((next.withLibrary l).after (next.inlined later)).apply look).2) ∧
        ∀ later, (∀ operation ∈ later, operation.runsSaved = false) →
          ((next.after later).apply look).2 =
            ((next.after (later.filter fun operation => !operation.changesLibrary)).apply look).2) ∧
      ∀ between, Operation.wait queued.id ∉ between →
        ∃ session : Session s.content user (some id), session.engine = e ∧
          session.submission = .submitSaved id user ∧ session.between = between ∧
          ∃ record, ((next.after between).apply (.wait queued.id)).2 = .job record ∧
            session.Records record := by
  refine ⟨he.guards id user, fun users l' h history => answers_withLibrary h, ?_⟩
  intro s queued hsaved hstarted next
  have hlook : ∀ look ∈ [Operation.status queued.id, .wait queued.id],
      look.changesLibrary = false ∧ look.runsSaved = false := by
    simp [Operation.changesLibrary, Operation.runsSaved]
  refine ⟨fun look hmem => ⟨fun later l => ?_, fun later hruns => ?_⟩, fun between hwait => ?_⟩
  · exact (next.apply_after_inlined l later (hlook look hmem).1 (hlook look hmem).2).symm
  · have hinlined :=
      next.apply_after_inlined next.library later (hlook look hmem).1 (hlook look hmem).2
    rw [inlined_eq_filter hruns] at hinlined
    exact hinlined.symm
  · exact he.exists_session hsaved hstarted hwait

/-- A private script is refused to others, whatever is written in it; its owner's job runs the
text that is replaced and deleted after the first round. -/
theorem saved_script_replaced_and_deleted :
    let script : SavedScript := ⟨"a", "A", "n = 1\nm = 2", "", "ann", false, [], 0, 0⟩
    let other : SavedScript := { script with content := "n = 7" }
    let e := (create 60 .channel true).after [.save script]
    let next := (e.apply (.submitSaved "a" "ann")).1
    e.Refuses (.submitSaved "a" "bob") ⟨.permission, "Script a is private to its owner"⟩ ∧
    (e.withLibrary (e.library.put other)).answers [.submitSaved "a" "bob", .list] =
      e.answers [.submitSaved "a" "bob", .list] ∧
    ((next.after [.round, .resave other, .unsave "a"]).apply (.wait (.numbered 0))).2 =
      ((next.after [.round]).apply (.wait (.numbered 0))).2 := by
  intro script other e next
  have he : e.Reachable := ⟨60, .channel, true, _, rfl⟩
  have hscript : e.library.get? "a" = some script := by decide +kernel
  obtain ⟨hbob, hhidden, -⟩ := saved_scripts_guarded he "a" "bob"
  obtain ⟨-, -, hann⟩ := saved_scripts_guarded he "a" "ann"
  refine ⟨hbob.hidden (by decide +kernel) script hscript (by decide), ?_, ?_⟩
  · refine (hhidden ["bob"] _ (.put_of_hidden hscript (by decide)) _ ?_).1
    intro id user hmem
    simpa using (by simpa using hmem : id = "a" ∧ user = "bob").2
  · obtain ⟨hkept, -⟩ := hann script (Job.create (.numbered 0) "ann" (some "a"))
      (by decide +kernel) (by decide +kernel)
    exact (hkept (.wait (.numbered 0)) (by decide)).2 _ (by decide)

end Engine

end FlightScript
