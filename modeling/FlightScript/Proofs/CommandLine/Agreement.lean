import FlightScript.CommandLine
import FlightScript.Proofs.Engine.Admission
import FlightScript.Proofs.Engine.Session
import FlightScript.Proofs.Script.Reading

/-!
# How the actions agree

A script is validated in two places: where it is only shown what is found in it, and where an
engine is to run it. Both come to the same (`CommandLine.exitCode_validate`,
`CommandLine.run_of_not_valid`). A valid script runs as the only job of an engine, so that
nobody stops it, and what is written is its final record (`CommandLine.exists_record`).

What is written is told character by character: lines each with its end, after what was logged to
the output meanwhile. A failure adds a line of its own to the diagnostics
(`CommandLine.headline_after_diagnostics`).
-/

namespace FlightScript

open Engine

/-! ### Who stops a job -/

/-- A job that follows no signal and is waited for at once is told to stop by nobody. -/
theorem Session.not_isStoppedAt {text user : String} {script : Option String}
    (s : Session text user script) (hv : (validate text).isValid) (hbetween : s.between = [])
    (hfollows : s.engine.followed? s.submission = none) (k : Nat) : ¬ s.IsStoppedAt k := by
  rintro ⟨x, hx, r, hr, hid, -, -, hcancelled⟩
  obtain ⟨front, rest, hsplit, rfl⟩ := mem_rounds_iff.1 hx
  rcases ((s.isQueued hv).hasToken.isCancelled_iff hr hid).1 hcancelled with hcancel | ⟨n, hn, -⟩
  · -- waiting is a number of rounds and nothing else
    have hmem : Move.cancel s.id ∈ s.submitted.movesUntil s.between s.id := by
      rw [hsplit]
      exact List.mem_append_left _ hcancel
    rw [hbetween, movesUntil, trace, List.nil_append] at hmem
    cases List.eq_of_mem_replicate hmem
  · rw [hfollows] at hn
    cases hn

/-! ### Diagnostics -/

theorem Script.severity_of_mem_errors {text : String} {d : Diagnostic}
    (hd : d ∈ (Script.read text).errors) : d.severity = .error := by
  have herrors : (Script.read text).errors =
      ((Script.read text).statements.filter Statement.isUnknown).map Statement.refusal :=
    errors_ofLines _
  rw [herrors] at hd
  obtain ⟨s, -, rfl⟩ := List.mem_map.1 hd
  rfl

/-- The errors of a validation are what is grave in all that was found. -/
theorem Validation.filter_found (text : String) :
    ((validate text).errors ++ (validate text).warnings).filter (fun d => d.severity = .error) =
      (validate text).errors := by
  have herrors : ∀ d ∈ (validate text).errors, d.severity = .error := by
    intro d hd
    rcases List.mem_append.1 hd with hread | hfound
    · exact Script.severity_of_mem_errors hread
    · simpa using (List.mem_filter.1 hfound).2
  have hwarnings : ∀ d ∈ (validate text).warnings, d.severity = .warning := by
    intro d hd
    rcases List.mem_append.1 hd with hread | hfound
    · cases hread
    · simpa using (List.mem_filter.1 hfound).2
  rw [List.filter_append, List.filter_eq_self.2, List.filter_eq_nil_iff.2, List.append_nil]
  · intro d hd
    simp [hwarnings d hd]
  · intro d hd
    simp [herrors d hd]

/-- A statement is shown by its number, its keyword and its text, the first two in columns. -/
def Statement.IsShownAs (s : Statement) (line : List Char) : Prop :=
  line = List.replicate (4 - (toString s.line).length) ' ' ++ (toString s.line).toList ++
    [' ', ' '] ++ s.command.keyword.toList ++
    List.replicate (10 - s.command.keyword.length) ' ' ++ [' '] ++ s.trimmed.toList

namespace Outcome

def withLog (o : Outcome) (directory : Option String) : Outcome :=
  { o with logDirectory := directory }

@[simp] theorem exitCode_withLog (o : Outcome) (directory : Option String) :
    (o.withLog directory).exitCode = o.exitCode := rfl

@[simp] theorem diagnostics_withLog (o : Outcome) (directory : Option String) :
    (o.withLog directory).diagnostics = o.diagnostics := rfl

theorem toList_unlines (lines : List String) :
    (unlines lines).toList = lines.flatMap fun l => l.toList ++ ['\n'] := by
  rw [unlines, String.toList_join, List.flatMap_map]
  exact List.flatMap_congr fun l _ => String.toList_append

/-- Nothing is written about a script but some errors in it and that it was not run. -/
structure Rejects (o : Outcome) (path : String) (errors : List Diagnostic) : Prop where
  exitCode_ne_zero : o.exitCode ≠ 0
  outputText_eq : ∀ logged elapsed, o.outputText logged elapsed = logged
  errorText_eq : ∀ nameOf, (o.errorText nameOf).toList =
    (errors.flatMap fun d => d.toText.toList ++ ['\n']) ++
      ("Error: " ++ path ++ " failed validation\n").toList

/-- What is written is the log of a job and whether it completed, and beside that its errors and
the status in which it ended otherwise. -/
structure Shows (o : Outcome) (record : Job) : Prop where
  exitCode_eq_zero_iff : o.exitCode = 0 ↔ record.status = .completed
  outputText_eq : ∀ logged elapsed, (o.outputText logged elapsed).toList =
    logged.toList ++ (record.log.flatMap fun l => l.toList ++ ['\n']) ++
      if record.status = .completed then ("Completed in " ++ elapsed ++ " ms\n").toList else []
  errorText_eq : ∀ nameOf, (o.errorText nameOf).toList =
    (record.errors.flatMap fun d => d.toText.toList ++ ['\n']) ++
      if record.status = .completed then []
      else ("Error: job " ++ nameOf record.id ++ " ended " ++ record.status.toText ++ "\n").toList

/-- Every statement of a script is shown, in their order: on a line of its own, or as a node of a
tree. -/
structure Enumerates (o : Outcome) (script : Script) (asTree : Bool) : Prop where
  exitCode_eq_zero : o.exitCode = 0
  ascending : script.statements.Pairwise fun s t => s.line < t.line
  lines_eq : asTree = false → ∃ lines last,
    List.Forall₂ Statement.IsShownAs script.statements lines ∧
    ∀ logged elapsed, (o.outputText logged elapsed).toList =
      logged.toList ++ (lines.flatMap fun l => l ++ ['\n']) ++ (last ++ ['\n'])
  tree_eq : asTree = true → ∃ members,
    ("ast", .array (script.statements.map Statement.toJson)) ∈ members ∧
      ∀ logged elapsed, (o.outputText logged elapsed).toList =
        logged.toList ++ ((JsonValue.object members).toText 0).toList ++ ['\n']

theorem Rejects.withLog {o : Outcome} {path : String} {errors : List Diagnostic}
    (h : o.Rejects path errors) (directory : Option String) :
    (o.withLog directory).Rejects path errors :=
  ⟨h.exitCode_ne_zero, h.outputText_eq, h.errorText_eq⟩

theorem Shows.withLog {o : Outcome} {record : Job} (h : o.Shows record)
    (directory : Option String) : (o.withLog directory).Shows record :=
  ⟨h.exitCode_eq_zero_iff, h.outputText_eq, h.errorText_eq⟩

theorem Enumerates.withLog {o : Outcome} {script : Script} {asTree : Bool}
    (h : o.Enumerates script asTree) (directory : Option String) :
    (o.withLog directory).Enumerates script asTree :=
  ⟨h.exitCode_eq_zero, h.ascending, h.lines_eq, h.tree_eq⟩

end Outcome

def Action.file : Action → String
  | .parse file _ => file
  | .validate file => file
  | .run file _ => file

namespace CommandLine

def perform (s : Settings) (text : String) : Action → Outcome
  | .parse _ asTree => parse text asTree
  | .validate path => validate path text
  | .run path user => run s.defaultStep path text user

/-- Under valid settings, some arguments ask for an action on a file that has a text. A log file
that is asked for can be opened, and a channel can be made of the size that the settings give to
that of a run. -/
structure Asks (files : Files) (filesWith : String → Option Files) (env : Settings.Environment)
    (arguments : List String) (s : Settings) (action : Action) (text : String) : Prop where
  prepare_eq : prepare files env arguments = .ok (s, action)
  readable : ∃ opened, s.logDirectory.elim (some files) filesWith = some opened ∧
    opened action.file = .ok text
  hasChannel : ∀ path user, action = .run path user → s.eventBuffer ≤ largestBuffer

variable {files : Files} {filesWith : String → Option Files} {env : Settings.Environment}
  {arguments : List String} {s : Settings} {action : Action} {step : Float}
  {path text user : String} {record : Job}

theorem Asks.outcome_eq (h : Asks files filesWith env arguments s action text) :
    outcome files filesWith env arguments = (perform s text action).withLog s.logDirectory := by
  obtain ⟨opened, hopened, hfile⟩ := h.readable
  have hact : act opened s action = perform s text action := by
    cases action with
    | run path user =>
        rw [Action.file] at hfile
        simp only [act, hfile, perform, if_pos (h.hasChannel path user rfl)]
    | _ =>
        rw [Action.file] at hfile
        simp only [act, hfile, perform]
  simp only [outcome, h.prepare_eq, hopened, hact, Outcome.withLog]

theorem exitCode_validate :
    (validate path text).exitCode = 0 ↔ (FlightScript.validate text).isValid := by
  rw [validate]
  cases hv : (FlightScript.validate text).isValid with
  | true => exact iff_of_true rfl rfl
  | false => exact iff_of_false Nat.one_ne_zero Bool.false_ne_true

theorem diagnostics_validate : (validate path text).diagnostics =
    (FlightScript.validate text).errors ++ (FlightScript.validate text).warnings := by
  rw [validate]
  cases (FlightScript.validate text).isValid <;> rfl

def engine (step : Float) : Engine :=
  .create step .channel false

/-- The script is submitted to the engine of an invocation, and its job is waited for at once. -/
def session (step : Float) (text user : String) : Session text user none where
  engine := engine step
  reachable := ⟨step, .channel, false, [], rfl⟩
  submission := .submit text user none none
  submits := .submit text user none none
  between := []
  wait_not_mem := List.not_mem_nil

theorem run_of_not_valid (hv : (FlightScript.validate text).isValid = false) :
    run step path text user =
      ⟨[], false, (FlightScript.validate text).errors, some (.rejected path), none⟩ := by
  rw [run, ← Prod.eta ((Engine.create step .channel false).submit text user none none),
    submit_snd_of_not_valid hv]

/-- The job of a valid script ends with the record of its statements one after the other, which
is what the events say, and what is written. -/
theorem exists_record (hv : (FlightScript.validate text).isValid) (step : Float)
    (path user : String) :
    ∃ record, (session step text user).reply = .job record ∧
      record.summary = .ofSequence step (Script.read text).executable ∧
      record.Announces ((session step text user).final.published (session step text user).id) ∧
      run step path text user = ofJob record := by
  let s := session step text user
  obtain ⟨record, -, -, hreply, -, -, hsummary⟩ :=
    s.endsIn_of_not_isStoppedAt hv (s.not_isStoppedAt hv rfl rfl)
  refine ⟨record, hreply, hsummary, (s.published_of_reply hreply).1 rfl, ?_⟩
  have hsubmitted : s.submitted = ((engine step).submit text user none none).1 :=
    congrArg Prod.fst (apply_submit_of_valid hv (engine step) user none none)
  have hqueued : ((engine step).submit text user none none).2 =
      .ok (Job.create s.id user none) := by
    rw [submit_of_valid hv]
    rfl
  have hwait : (s.submitted.wait s.id).2 = .ok record := wait_eq_ok_of_reply hreply
  have hid : (Job.create s.id user none).id = s.id := rfl
  rw [hsubmitted] at hwait
  rw [engine] at hqueued hwait
  rw [run, ← Prod.eta ((Engine.create step .channel false).submit text user none none), hqueued]
  simp only [hid, hwait]

theorem toText_of_cause?_eq_none {f : Failure} (h : f.cause? = none) (nameOf : JobId → String) :
    f.toText nameOf = "Error: " ++ f.headline nameOf := by
  rw [Failure.toText, h]
  exact String.append_empty

theorem rejects_of_not_valid (hv : (FlightScript.validate text).isValid = false) :
    (run step path text user).Rejects path (FlightScript.validate text).errors := by
  rw [run_of_not_valid hv]
  refine ⟨Nat.one_ne_zero, fun _ _ => String.append_empty, fun nameOf => ?_⟩
  have hlast : (Failure.rejected path).toText nameOf = "Error: " ++ path ++ " failed validation" :=
    (toText_of_cause?_eq_none (f := .rejected path) rfl nameOf).trans String.append_assoc.symm
  simp [Outcome.errorText, Outcome.toList_unlines, Failure.lines, hlast, List.flatMap_map]

theorem shows_ofJob (record : Job) : (ofJob record).Shows record := by
  have hlast (nameOf : JobId → String) : (Failure.ended record.id record.status).toText nameOf =
      "Error: job " ++ nameOf record.id ++ " ended " ++ record.status.toText := by
    have hheadline : (Failure.ended record.id record.status).headline nameOf =
        "job " ++ nameOf record.id ++ " ended " ++ record.status.toText := rfl
    have hjob : "Error: job " = "Error: " ++ "job " := by decide
    rw [toText_of_cause?_eq_none (f := .ended record.id record.status) rfl, hheadline, hjob]
    simp only [String.append_assoc]
  by_cases hstatus : record.status = .completed
  · have hjob : ofJob record = ⟨record.log, true, record.errors, none, none⟩ := by
      simp [ofJob, hstatus]
    rw [hjob]
    refine ⟨iff_of_true rfl hstatus, fun logged elapsed => ?_, fun nameOf => ?_⟩
    · simp [Outcome.outputText, Outcome.toList_unlines, hstatus]
    · simp [Outcome.errorText, Outcome.toList_unlines, hstatus, List.flatMap_map]
  · have hjob : ofJob record =
        ⟨record.log, false, record.errors, some (.ended record.id record.status), none⟩ := by
      simp [ofJob, hstatus]
    rw [hjob]
    refine ⟨iff_of_false Nat.one_ne_zero hstatus, fun logged elapsed => ?_, fun nameOf => ?_⟩
    · simp [Outcome.outputText, Outcome.toList_unlines, hstatus]
    · simp [Outcome.errorText, Outcome.toList_unlines, hstatus, List.flatMap_map, Failure.lines,
        hlast]

theorem isShownAs_statementLine (s : Statement) : s.IsShownAs (statementLine s).toList := by
  have hgap : "  ".toList = [' ', ' '] := rfl
  have hblank : " ".toList = [' '] := rfl
  simp only [Statement.IsShownAs, statementLine, padded, String.toList_append,
    String.toList_ofList, hgap, hblank]

theorem enumerates_parse (text : String) (asTree : Bool) :
    (parse text asTree).Enumerates (Script.read text) asTree := by
  have hascending := (Script.isReadingOf_ofLines (Text.lines text)).ascending
  cases asTree with
  | false =>
      refine ⟨rfl, hascending, fun _ => ?_, nofun⟩
      refine ⟨(Script.read text).statements.map fun s => (statementLine s).toList,
        (summary (Script.read text)).toList, ?_, fun logged elapsed => ?_⟩
      · exact List.forall₂_map_right_iff.2
          (List.forall₂_same.2 fun s _ => isShownAs_statementLine s)
      · simp [parse, Outcome.outputText, Outcome.toList_unlines, List.flatMap_map]
  | true =>
      obtain ⟨members, hmem, hjson⟩ : ∃ members,
          ("ast", .array ((Script.read text).statements.map Statement.toJson)) ∈ members ∧
            (Script.read text).toJson = .object members :=
        ⟨_, List.mem_cons_of_mem _ List.mem_cons_self, rfl⟩
      refine ⟨rfl, hascending, nofun, fun _ => ⟨members, hmem, fun logged elapsed => ?_⟩⟩
      rw [← hjson]
      simp [parse, Outcome.outputText, Outcome.toList_unlines]

/-! ### Invocations -/

namespace Asks

theorem exitCode_eq_zero_iff (h : Asks files filesWith env arguments s (.validate path) text) :
    (outcome files filesWith env arguments).exitCode = 0 ↔
      (FlightScript.validate text).isValid := by
  rw [h.outcome_eq, Outcome.exitCode_withLog, perform]
  exact exitCode_validate

theorem filter_diagnostics (h : Asks files filesWith env arguments s (.validate path) text) :
    (outcome files filesWith env arguments).diagnostics.filter (fun d => d.severity = .error) =
      (FlightScript.validate text).errors := by
  rw [h.outcome_eq, Outcome.diagnostics_withLog, perform, diagnostics_validate,
    Validation.filter_found]

theorem rejects (h : Asks files filesWith env arguments s (.run path user) text)
    (hv : (FlightScript.validate text).isValid = false) :
    (outcome files filesWith env arguments).Rejects path (FlightScript.validate text).errors := by
  rw [h.outcome_eq, perform]
  exact (rejects_of_not_valid hv).withLog _

theorem exists_shows (h : Asks files filesWith env arguments s (.run path user) text)
    (hv : (FlightScript.validate text).isValid) :
    let session := session s.defaultStep text user
    ∃ record, session.reply = .job record ∧
      record.summary = .ofSequence s.defaultStep (Script.read text).executable ∧
      record.Announces (session.final.published session.id) ∧
      (outcome files filesWith env arguments).Shows record := by
  obtain ⟨record, hreply, hsummary, hevents, hshown⟩ := exists_record hv s.defaultStep path user
  refine ⟨record, hreply, hsummary, hevents, ?_⟩
  rw [h.outcome_eq, perform, hshown]
  exact (shows_ofJob record).withLog _

theorem enumerates {asTree : Bool}
    (h : Asks files filesWith env arguments s (.parse path asTree) text) :
    (outcome files filesWith env arguments).Enumerates (Script.read text) asTree := by
  rw [h.outcome_eq, perform]
  exact (enumerates_parse text asTree).withLog _

end Asks

/-- Running a script executes a job just if validating it succeeds. If not, nothing is executed,
and nothing is written but the errors among the diagnostics of the validation, in their order, and
that the script was not run. If so, what is written is the final record of the job, in which its
statements were executed one after the other, and success is the same in its status, in its events
and for the program. Parsing always succeeds, and shows every statement once, in order. -/
theorem actions_agree (files : Files) (filesWith : String → Option Files)
    (env : Settings.Environment) (path text : String) :
    (∀ validating running s s' user,
      Asks files filesWith env validating s (.validate path) text →
      Asks files filesWith env running s' (.run path user) text →
      let validated := outcome files filesWith env validating
      let ran := outcome files filesWith env running
      let submitted := (engine s'.defaultStep).apply (.submit text user none none)
      ((∃ job, submitted.2 = .job job) ↔ validated.exitCode = 0) ∧
      (validated.exitCode ≠ 0 →
        ran.Rejects path (validated.diagnostics.filter fun d => d.severity = .error) ∧
        submitted.1.active = [] ∧ submitted.1.ended = [] ∧ submitted.1.received = []) ∧
      ∀ job, submitted.2 = .job job → ∃ record,
        (submitted.1.apply (.wait job.id)).2 = .job record ∧
        record.summary = .ofSequence s'.defaultStep (Script.read text).executable ∧
        record.Announces ((submitted.1.apply (.wait job.id)).1.published job.id) ∧
        ran.Shows record) ∧
    ∀ parsing s asTree, Asks files filesWith env parsing s (.parse path asTree) text →
      (outcome files filesWith env parsing).Enumerates (Script.read text) asTree := by
  refine ⟨fun validating running s s' user hvalidate hrun => ?_, fun _ _ _ h => h.enumerates⟩
  intro validated ran submitted
  have hexit : validated.exitCode = 0 ↔ (FlightScript.validate text).isValid :=
    hvalidate.exitCode_eq_zero_iff
  cases hv : (FlightScript.validate text).isValid with
  | false =>
      have hsubmitted : submitted = _ := apply_submit_of_not_valid hv _ user none none
      have hnone : ∀ job, submitted.2 ≠ .job job := by
        intro job
        rw [hsubmitted]
        exact nofun
      have hfailed : validated.exitCode ≠ 0 := fun h =>
        Bool.false_ne_true (hv.symm.trans (hexit.1 h))
      refine ⟨iff_of_false (fun ⟨job, hjob⟩ => hnone job hjob) hfailed, fun _ => ?_,
        fun job hjob => absurd hjob (hnone job)⟩
      rw [hvalidate.filter_diagnostics, hsubmitted]
      exact ⟨hrun.rejects hv, rfl, rfl, rfl⟩
  | true =>
      have hreply : submitted.2 = .job (Job.create (.numbered 0) user none) :=
        congrArg Prod.snd (apply_submit_of_valid hv _ user none none)
      have hzero : validated.exitCode = 0 := hexit.2 hv
      refine ⟨iff_of_true ⟨_, hreply⟩ hzero, fun h => absurd hzero h, fun job hjob => ?_⟩
      obtain rfl := Reply.job.inj (hreply.symm.trans hjob)
      exact hrun.exists_shows hv

/-- Three scripts: the first one fails while it runs, the second one is not valid, and the third
one is run to its end. -/
def someFiles : Files := fun path =>
  if path = "a.ms" then .ok "Create Spacecraft Sat\nReport Sat.DryMass\nSat.X = far\nSave Hub"
  else if path = "b.ms" then .ok "n = 1\n Sat.X = 2\nSave Sat"
  else if path = "c.ms" then .ok "n = 1\nReport n" else .error .notFound

theorem actions_agree_on_some_files :
    let answer := outcome someFiles (fun _ => some someFiles) fun _ => none
    (answer ["validate", "a.ms"]).exitCode = 0 ∧
    (∃ record : Job, record.status = .failed ∧ (answer ["run", "a.ms"]).Shows record) ∧
    (answer ["run", "a.ms"]).outputText "" "7" =
      "Created Spacecraft Sat\nReport: Sat.DryMass=850.000000\n" ++
        "Error: Cannot convert 'far' to number for property X\n" ∧
    (answer ["run", "a.ms"]).errorText JobId.toText =
      "3:1: error SE100: Cannot convert 'far' to number for property X\n" ++
        "Error: job job-0 ended Failed\n" ∧
    (answer ["run", "b.ms"]).Rejects "b.ms"
      [⟨2, 2, "Object or variable 'Sat' is not declared", "SE002", .error⟩] ∧
    (answer ["run", "b.ms"]).errorText JobId.toText =
      "2:2: error SE002: Object or variable 'Sat' is not declared\n" ++
        "Error: b.ms failed validation\n" ∧
    (answer ["run", "c.ms"]).outputText "" "7" =
      "Variable n = 1\nReport: n=1\nCompleted in 7 ms\n" ∧
    (answer ["parse", "c.ms"]).exitCode = 0 ∧
    (answer ["parse", "c.ms"]).outputText "" "7" =
      "   1  Variable   n = 1\n   2  Report     Report n\n2 lines, 2 commands, 0 errors\n" := by
  intro answer
  have hasks (name file : String) (action : Action)
      (hprepare : prepare someFiles (fun _ => none) [name, file] = .ok (.default, action))
      {text : String} (hfile : someFiles action.file = .ok text) :
      Asks someFiles (fun _ => some someFiles) (fun _ => none) [name, file] .default action text :=
    ⟨hprepare, ⟨_, rfl, hfile⟩, fun _ _ _ => by decide⟩
  obtain ⟨hrun, -⟩ := actions_agree someFiles (fun _ => some someFiles) (fun _ => none) "a.ms"
    "Create Spacecraft Sat\nReport Sat.DryMass\nSat.X = far\nSave Hub"
  obtain ⟨hrejected, -⟩ := actions_agree someFiles (fun _ => some someFiles) (fun _ => none)
    "b.ms" "n = 1\n Sat.X = 2\nSave Sat"
  obtain ⟨-, hparse⟩ := actions_agree someFiles (fun _ => some someFiles) (fun _ => none) "c.ms"
    "n = 1\nReport n"
  obtain ⟨hiff, -, hjob⟩ := hrun ["validate", "a.ms"] ["run", "a.ms"] .default .default "cli"
    (hasks _ _ _ (by decide +kernel) (by decide +kernel))
    (hasks _ _ _ (by decide +kernel) (by decide +kernel))
  obtain ⟨-, hrejects, -⟩ := hrejected ["validate", "b.ms"] ["run", "b.ms"] .default .default
    "cli" (hasks _ _ _ (by decide +kernel) (by decide +kernel))
    (hasks _ _ _ (by decide +kernel) (by decide +kernel))
  have hparsed := hparse ["parse", "c.ms"] .default false
    (hasks _ _ _ (by decide +kernel) (by decide +kernel))
  have hreply : ((engine Settings.default.defaultStep).apply (.submit
      "Create Spacecraft Sat\nReport Sat.DryMass\nSat.X = far\nSave Hub" "cli" none none)).2 =
        .job (Job.create (.numbered 0) "cli" none) := by decide +kernel
  obtain ⟨record, -, hsummary, -, hshows⟩ := hjob _ hreply
  have hstatus : record.status = .failed :=
    (congrArg Summary.status hsummary).trans (by decide +kernel)
  have hfound : (answer ["validate", "b.ms"]).diagnostics.filter (fun d => d.severity = .error) =
      [⟨2, 2, "Object or variable 'Sat' is not declared", "SE002", .error⟩] := by
    decide +kernel
  exact ⟨hiff.1 ⟨_, hreply⟩, ⟨record, hstatus, hshows⟩, by decide +kernel,
    by decide +kernel, hfound ▸ (hrejects (by decide +kernel)).1, by decide +kernel,
    by decide +kernel, hparsed.exitCode_eq_zero, by decide +kernel⟩

/-- What is written is not only the diagnostics of the validation or the log of the job: a line
about the failure follows the one, and what was logged stands before the other. And a channel
that cannot be made keeps a valid script from being run. -/
theorem headline_after_diagnostics :
    let answer := outcome someFiles (fun _ => some someFiles) fun _ => none
    let unheard := outcome someFiles (fun _ => some someFiles) fun name =>
      if name = Settings.eventBufferVariable then some "2305843009213693952" else none
    let lines (ds : List Diagnostic) := ds.flatMap fun d => d.toText.toList ++ ['\n']
    (answer ["validate", "b.ms"]).exitCode = 1 ∧
    (answer ["run", "b.ms"]).diagnostics =
      (answer ["validate", "b.ms"]).diagnostics.filter (fun d => d.severity = .error) ∧
    (∀ nameOf, ((answer ["run", "b.ms"]).errorText nameOf).toList ≠
      lines (answer ["run", "b.ms"]).diagnostics) ∧
    (answer ["run", "c.ms"]).outputText "INFO script job queued\n" "7" ≠
      "Variable n = 1\nReport: n=1\nCompleted in 7 ms\n" ∧
    (unheard ["validate", "c.ms"]).exitCode = 0 ∧ (unheard ["run", "c.ms"]).exitCode = 101 := by
  intro answer unheard lines
  refine ⟨by decide +kernel, by decide +kernel, fun nameOf => ?_, by decide +kernel,
    by decide +kernel, by decide +kernel⟩
  have hrun : answer ["run", "b.ms"] = run Settings.default.defaultStep "b.ms"
      "n = 1\n Sat.X = 2\nSave Sat" "cli" := by decide +kernel
  have hv : (FlightScript.validate "n = 1\n Sat.X = 2\nSave Sat").isValid = false := by
    decide +kernel
  rw [hrun, (rejects_of_not_valid hv).errorText_eq, run_of_not_valid hv]
  have hheadline : ("Error: " ++ "b.ms" ++ " failed validation\n").toList ≠ [] := by decide +kernel
  exact mt List.append_right_eq_self.1 hheadline

end CommandLine

end FlightScript
