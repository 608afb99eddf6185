import FlightScript.Proofs.Script.Reading
import FlightScript.Proofs.Validation.Blocks

/-!
# The rules of declaration

What validation finds at a statement depends on the statements before it only: on
whether one of them creates, or assigns to, a name that the statement uses, and on the
blocks that they leave open. `s.faults earlier` and `s.doubts earlier` are the errors
and the warnings that these rules give, and validation finds no others
(`errors_ofStatements`, `warnings_ofStatements`).

A finding at a statement becomes a diagnostic with the line of the statement, the
column of its first character that is not white space, and a code and a message that
`Finding.Says` lists (`Statement.IsReportedAs`).
-/

namespace FlightScript

/-- The severity, the code and the message of a finding. -/
inductive Finding.Says : Finding → Severity → String → String → Prop where
  | unknownCommand (m : String) : Says (.unknownCommand m) .error "SE001" m
  | undeclaredTarget (o : String) :
      Says (.undeclaredTarget o) .error "SE002"
        ("Object or variable '" ++ o ++ "' is not declared")
  | undeclaredPropagator (p : String) :
      Says (.undeclaredPropagator p) .error "SE003" ("Propagator '" ++ p ++ "' is not declared")
  | undeclaredSpacecraft (s : String) :
      Says (.undeclaredSpacecraft s) .error "SE004" ("Spacecraft '" ++ s ++ "' is not declared")
  | failedCommand (m : String) : Says (.failedCommand m) .error "SE100" m
  | duplicateObject (o : String) :
      Says (.duplicateObject o) .warning "SW001"
        ("Object '" ++ o ++ "' is already created and will be replaced")
  | savedUndeclared (o : String) :
      Says (.savedUndeclared o) .warning "SW002" ("Saving undeclared object '" ++ o ++ "'")
  | strayElse : Says .strayElse .warning "SW003" "Else without a matching If"
  | strayEndIf : Says .strayEndIf .warning "SW003" "EndIf without a matching If"
  | strayEndWhile : Says .strayEndWhile .warning "SW003" "EndWhile without a matching While"
  | unclosedIf : Says .unclosedIf .warning "SW003" "If block is never closed with EndIf"
  | unclosedWhile : Says .unclosedWhile .warning "SW003" "While block is never closed with EndWhile"

namespace Statement

/-- A finding at a statement is reported by a diagnostic. -/
inductive IsReportedAs (s : Statement) (f : Finding) : Diagnostic → Prop where
  | intro {front rest : List Char} {severity : Severity} {code message : String}
      (htext : s.text.toList = front ++ rest) (hfront : ∀ c ∈ front, Text.isSpace c)
      (hrest : Text.StartsOutside Text.isSpace rest) (hwords : f.Says severity code message) :
      IsReportedAs s f ⟨s.line, front.length + 1, message, code, severity⟩

theorem isReportedAs_diagnostic (s : Statement) (f : Finding) :
    s.IsReportedAs f (f.diagnostic s.line s.text) := by
  have hrest : Text.StartsOutside Text.isSpace (s.text.toList.dropWhile Text.isSpace) := by
    intro c hc
    simpa [hc] using List.head?_dropWhile_not Text.isSpace s.text.toList
  have hfront : ∀ c ∈ s.text.toList.takeWhile Text.isSpace, Text.isSpace c :=
    fun _ hc => List.mem_takeWhile_imp hc
  refine .intro List.takeWhile_append_dropWhile.symm hfront hrest ?_
  cases f <;> constructor

def creates? (s : Statement) : Option String :=
  match s.command with
  | .create _ name => some name
  | _ => none

def assigns? (s : Statement) : Option String :=
  match s.command with
  | .variable name _ => some name
  | _ => none

/-- What a statement refers to is introduced by earlier ones. -/
def IsDeclared (s : Statement) (earlier : List Statement) : Prop :=
  match s.command with
  | .set object _ _ => object ∈ earlier.filterMap creates? ∨ object ∈ earlier.filterMap assigns?
  | .propagate propagator spacecraft _ =>
    propagator ∈ earlier.filterMap creates? ∧ spacecraft ∈ earlier.filterMap creates?
  | _ => True

/-- The errors of a statement after some others. -/
def faults (s : Statement) (earlier : List Statement) : List Finding :=
  match s.command with
  | .set object _ _ =>
    if object ∈ earlier.filterMap creates? ∨ object ∈ earlier.filterMap assigns? then []
    else [.undeclaredTarget object]
  | .propagate propagator spacecraft _ =>
    (if propagator ∈ earlier.filterMap creates? then [] else [.undeclaredPropagator propagator]) ++
      if spacecraft ∈ earlier.filterMap creates? then [] else [.undeclaredSpacecraft spacecraft]
  | _ => []

/-- The warnings of a statement after some others. -/
def doubts (s : Statement) (earlier : List Statement) : List Finding :=
  match s.command with
  | .create _ name =>
    if name ∈ earlier.filterMap creates? then [.duplicateObject name] else []
  | .save object =>
    if object ∈ earlier.filterMap creates? then [] else [.savedUndeclared object]
  | .otherwise => if Block.ifThen.IsInnermost earlier then [] else [.strayElse]
  | .endIf => if Block.ifThen.IsInnermost earlier then [] else [.strayEndIf]
  | .endWhile => if Block.whileDo.IsInnermost earlier then [] else [.strayEndWhile]
  | _ => []

theorem faults_eq_nil_iff {s : Statement} {earlier : List Statement} :
    s.faults earlier = [] ↔ s.IsDeclared earlier := by
  rw [faults, IsDeclared]
  cases s.command with
  | set object property value => exact ite_eq_left_iff.trans (by simp [or_iff_not_imp_left])
  | propagate propagator spacecraft stop => simp
  | _ => simp

end Statement

namespace Scope

variable {scope : Scope} {s : Statement} {name : String}

theorem close_eq (scope : Scope) (b : Block) :
    (scope.close b).objects = scope.objects ∧ (scope.close b).assigned = scope.assigned := by
  rw [close]
  split <;> exact ⟨rfl, rfl⟩

theorem mem_objects_after :
    name ∈ (scope.after s).objects ↔ s.creates? = some name ∨ name ∈ scope.objects := by
  rw [after, Statement.creates?]
  cases s.command <;> simp [close_eq, eq_comm]

theorem mem_assigned_after :
    name ∈ (scope.after s).assigned ↔ s.assigns? = some name ∨ name ∈ scope.assigned := by
  rw [after, Statement.assigns?]
  cases s.command <;> simp [close_eq, eq_comm]

/-- Names that are kept are those that statements have introduced. -/
theorem mem_afterAll {names : Scope → List String} {introduces? : Statement → Option String}
    (h : ∀ scope s,
      name ∈ names (scope.after s) ↔ introduces? s = some name ∨ name ∈ names scope)
    (scope : Scope) (l : List Statement) :
    name ∈ names (scope.afterAll l) ↔ name ∈ l.filterMap introduces? ∨ name ∈ names scope := by
  induction l generalizing scope with
  | nil => simp
  | cons s rest ih =>
      rw [afterAll_cons, ih, h, List.mem_filterMap, List.mem_filterMap, List.exists_mem_cons_iff,
        or_left_comm, or_assoc]

theorem mem_objects_afterAll {earlier : List Statement} :
    name ∈ (empty.afterAll earlier).objects ↔ name ∈ earlier.filterMap Statement.creates? :=
  (mem_afterAll (fun _ _ => mem_objects_after) empty earlier).trans
    (or_iff_left List.not_mem_nil)

theorem mem_assigned_afterAll {earlier : List Statement} :
    name ∈ (empty.afterAll earlier).assigned ↔ name ∈ earlier.filterMap Statement.assigns? :=
  (mem_afterAll (fun _ _ => mem_assigned_after) empty earlier).trans
    (or_iff_left List.not_mem_nil)

theorem isInside_afterAll (earlier : List Statement) (b : Block) :
    (empty.afterAll earlier).isInside b = decide (b.IsInnermost earlier) := by
  rw [Bool.eq_iff_iff, decide_eq_true_iff, isInnermost_iff]

theorem filter_unlessHolds (holds : Bool) (f : Finding) (severity : Severity) :
    (unlessHolds holds f).filter (·.severity = severity) =
      if f.severity = severity then unlessHolds holds f else [] := by
  rw [unlessHolds]
  cases holds <;> by_cases hf : f.severity = severity <;> simp [hf]

theorem findings_afterAll (earlier : List Statement) (s : Statement) :
    ((empty.afterAll earlier).findings s.command).filter (·.severity = .error) =
        s.faults earlier ∧
      ((empty.afterAll earlier).findings s.command).filter (·.severity = .warning) =
        s.doubts earlier := by
  rw [Statement.faults, Statement.doubts]
  cases s.command <;>
    simp only [findings, mem_objects_afterAll, mem_assigned_afterAll, isInside_afterAll,
      List.filter_append, List.filter_nil, filter_unlessHolds] <;>
    simp [Finding.severity, unlessHolds, -List.mem_filterMap]

theorem severity_unclosed (b : Block) : (unclosed b).severity = .warning := by
  cases b <;> rfl

theorem severity_of_mem_closing {d : Diagnostic} (h : d ∈ scope.closing) :
    d.severity = .warning := by
  obtain ⟨b, -, rfl⟩ := List.mem_map.1 h
  exact severity_unclosed b.1

end Scope

/-- What is found at each statement, given the ones before it. -/
def located (found : Statement → List Statement → List Finding) (statements : List Statement) :
    List (Statement × Finding) :=
  (statements.mapIdx fun i s => (found s (statements.take i)).map fun f => (s, f)).flatten

/-- The diagnostics of what is found at each statement, given the ones before it. -/
def annotate (found : Statement → List Statement → List Finding) (statements : List Statement) :
    List Diagnostic :=
  (statements.mapIdx fun i s =>
    (found s (statements.take i)).map fun f => f.diagnostic s.line s.text).flatten

theorem annotate_eq_map_located (found : Statement → List Statement → List Finding)
    (statements : List Statement) :
    annotate found statements =
      (located found statements).map fun p => p.2.diagnostic p.1.line p.1.text := by
  simp only [annotate, located, List.map_flatten, List.mapIdx_eq_zipIdx_map, List.map_map,
    Function.comp_def]

/-- What is found is what is reported, in its order. -/
theorem forall₂_isReportedAs (found : List (Statement × Finding)) :
    List.Forall₂ (fun p d => p.1.IsReportedAs p.2 d) found
      (found.map fun p => p.2.diagnostic p.1.line p.1.text) :=
  List.forall₂_map_right_iff.2
    (List.forall₂_same.2 fun p _ => p.1.isReportedAs_diagnostic p.2)

theorem filter_annotate {found found' : Statement → List Statement → List Finding}
    {severity : Severity}
    (h : ∀ s earlier, (found s earlier).filter (·.severity = severity) = found' s earlier)
    (statements : List Statement) :
    (annotate found statements).filter (·.severity = severity) = annotate found' statements := by
  rw [annotate, annotate, List.mapIdx_eq_zipIdx_map, List.mapIdx_eq_zipIdx_map, ← List.flatMap_def,
    ← List.flatMap_def, List.filter_flatMap]
  refine congrArg (List.flatMap · statements.zipIdx) (funext fun l => ?_)
  rw [List.filter_map]
  exact congrArg _ (h l.1 (statements.take l.2))

theorem Scope.diagnostics_eq_annotate (scope : Scope) (statements : List Statement) :
    scope.diagnostics statements =
      annotate (fun s earlier => (scope.afterAll earlier).findings s.command) statements ++
        (scope.afterAll statements).closing := by
  induction statements generalizing scope with
  | nil => rfl
  | cons s rest ih =>
      rw [diagnostics_cons, ih, annotate, annotate, List.mapIdx_cons, List.flatten_cons,
        List.append_assoc]
      rfl

namespace Validation

variable {statements : List Statement}

theorem errors_ofStatements (statements : List Statement) :
    (ofStatements statements).errors = annotate Statement.faults statements := by
  have hclosing : (Scope.empty.afterAll statements).closing.filter (·.severity = .error) = [] := by
    rw [List.filter_eq_nil_iff]
    intro d hd
    simp [Scope.severity_of_mem_closing hd]
  have hfound := filter_annotate (fun s earlier => (Scope.findings_afterAll earlier s).1) statements
  simp only [ofStatements, ofDiagnostics, Scope.diagnostics_eq_annotate, List.filter_append,
    hclosing, hfound, List.append_nil]

theorem warnings_ofStatements (statements : List Statement) :
    (ofStatements statements).warnings =
      annotate Statement.doubts statements ++ (Scope.empty.afterAll statements).closing := by
  have hclosing : (Scope.empty.afterAll statements).closing.filter (·.severity = .warning) =
      (Scope.empty.afterAll statements).closing := by
    rw [List.filter_eq_self]
    intro d hd
    simp [Scope.severity_of_mem_closing hd]
  have hfound := filter_annotate (fun s earlier => (Scope.findings_afterAll earlier s).2) statements
  simp only [ofStatements, ofDiagnostics, Scope.diagnostics_eq_annotate, List.filter_append,
    hclosing, hfound]

theorem errors_ofStatements_eq_nil_iff :
    (ofStatements statements).errors = [] ↔
      ∀ before s rest, statements = before ++ s :: rest → s.IsDeclared before := by
  simp only [← Statement.faults_eq_nil_iff]
  rw [errors_ofStatements, annotate, List.flatten_eq_nil_iff]
  constructor
  · rintro h before s rest rfl
    have hs := h _ (List.mem_mapIdx.2 ⟨before.length, by simp, rfl⟩)
    simpa using hs
  · intro h ds hds
    obtain ⟨i, hi, rfl⟩ := List.mem_mapIdx.1 hds
    rw [List.map_eq_nil_iff]
    refine h _ _ (statements.drop (i + 1)) ?_
    rw [← List.drop_eq_getElem_cons hi, List.take_append_drop]

end Validation

/-- The statements before a line are those with lower numbers. -/
theorem filter_line_lt {before rest : List Statement} {s : Statement}
    (h : (before ++ s :: rest).Pairwise fun s t => s.line < t.line) :
    (before ++ s :: rest).filter (fun t => t.line < s.line) = before := by
  obtain ⟨-, hrest, hbefore⟩ := List.pairwise_append.1 h
  have hkept : before.filter (fun t => t.line < s.line) = before :=
    List.filter_eq_self.2 fun t ht => decide_eq_true (hbefore t ht s List.mem_cons_self)
  have hdropped : (s :: rest).filter (fun t => t.line < s.line) = [] := by
    rw [List.filter_eq_nil_iff]
    intro t ht hlt
    rcases List.mem_cons.1 ht with rfl | ht
    · exact Nat.lt_irrefl _ (of_decide_eq_true hlt)
    · exact Nat.lt_asymm (of_decide_eq_true hlt) (List.rel_of_pairwise_cons hrest ht)
  rw [List.filter_append, hkept, hdropped, List.append_nil]

theorem errors_ofStatements_read_eq_nil_iff {text : String} :
    (Validation.ofStatements (Script.read text).statements).errors = [] ↔
      ∀ s ∈ (Script.read text).statements,
        s.IsDeclared ((Script.read text).statements.filter fun t => t.line < s.line) := by
  have hascending := (Script.isReadingOf_ofLines (Text.lines text)).ascending
  rw [Validation.errors_ofStatements_eq_nil_iff, Script.read]
  generalize (Script.ofLines (Text.lines text)).statements = statements at hascending
  constructor
  · intro h s hs
    obtain ⟨before, rest, rfl⟩ := List.append_of_mem hs
    rw [filter_line_lt hascending]
    exact h before s rest rfl
  · rintro h before s rest rfl
    have hs := h s (List.mem_append_right _ List.mem_cons_self)
    rwa [filter_line_lt hascending] at hs

theorem errors_read_eq_nil_iff {text : String} :
    (Script.read text).errors = [] ↔
      ∀ l ∈ (Text.lines text).zipIdx 1, (¬ ∀ c ∈ l.1.toList, Text.isSpace c) →
        ∃ s, Statement.read l.2 l.1 = .ok s := by
  rw [Script.read, Script.errors_ofLines, List.map_eq_nil_iff, List.filter_eq_nil_iff]
  constructor
  · intro h l hl hspace
    have hmem : Statement.readOrUnknown l.2 l.1 ∈
        (Script.ofLines (Text.lines text)).statements := by
      rw [Script.mem_statements_iff, Statement.line_readOrUnknown, Statement.text_readOrUnknown]
      exact ⟨hl, hspace, rfl⟩
    rcases Statement.readOrUnknown_cases l.2 l.1 with ⟨hread, -⟩ | ⟨-, hunknown⟩
    · exact ⟨_, hread⟩
    · exact absurd hunknown (h _ hmem)
  · intro h s hs hunknown
    obtain ⟨hl, hspace, -⟩ := Script.mem_statements_iff.1 hs
    obtain ⟨s', hread⟩ := h _ hl hspace
    rcases Script.read_eq_or_isUnknown hs with ⟨-, hknown⟩ | ⟨hrefused, -⟩
    · rw [hknown] at hunknown
      cases hunknown
    · rw [hread] at hrefused
      cases hrefused

theorem pairwise_line_errors_read (text : String) :
    (Script.read text).errors.Pairwise fun d e => d.line < e.line := by
  rw [Script.read, Script.errors_ofLines, List.pairwise_map]
  exact (Script.isReadingOf_ofLines (Text.lines text)).ascending.filter _

/-- Validation finds what the rules of declaration say, statement by statement, and then
the blocks that are left open. The errors of refused lines come first, so that a script
is valid just if all of its lines are read and all that they refer to is declared on an
earlier line. -/
theorem validation_eq (statements : List Statement) (v : Validation) (text : String) :
    List.Forall₂ (fun p d => p.1.IsReportedAs p.2 d) (located Statement.faults statements)
      (Validation.ofStatements statements).errors ∧
    (∃ blocks, (∀ bs, Block.LeavesOpen statements bs ↔ bs = blocks) ∧
      List.Forall₂ (fun p d => p.1.IsReportedAs p.2 d)
        (located Statement.doubts statements ++ blocks.map fun b => (b.2, Scope.unclosed b.1))
        (Validation.ofStatements statements).warnings) ∧
    (v.isValid ↔ v.errors = []) ∧
    (let script := Script.read text
    List.Forall₂ Statement.IsRefusedAs (script.statements.filter Statement.isUnknown)
      script.errors ∧
    script.errors.Pairwise (fun d e => d.line < e.line) ∧
    (validate text).errors = script.errors ++ (Validation.ofStatements script.statements).errors ∧
    (validate text).warnings = (Validation.ofStatements script.statements).warnings ∧
    ((validate text).isValid ↔
      (∀ l ∈ (Text.lines text).zipIdx 1, (¬ ∀ c ∈ l.1.toList, Text.isSpace c) →
        ∃ s, Statement.read l.2 l.1 = .ok s) ∧
      ∀ s ∈ script.statements,
        s.IsDeclared (script.statements.filter fun t => t.line < s.line))) := by
  refine ⟨?_, ⟨_, fun _ => Scope.leavesOpen_iff, ?_⟩, List.isEmpty_iff,
    (Script.isReadingOf_ofLines (Text.lines text)).errors, pairwise_line_errors_read text,
    rfl, rfl, ?_⟩
  · rw [Validation.errors_ofStatements, annotate_eq_map_located]
    exact forall₂_isReportedAs _
  · have hclosing : (Scope.empty.afterAll statements).closing =
        (((Scope.empty.afterAll statements).blocks.reverse.map
          fun b => (b.2, Scope.unclosed b.1)).map
            fun p : Statement × Finding => p.2.diagnostic p.1.line p.1.text) := by
      rw [List.map_map]
      rfl
    rw [Validation.warnings_ofStatements, annotate_eq_map_located, hclosing, ← List.map_append]
    exact forall₂_isReportedAs _
  · rw [Validation.isValid, List.isEmpty_iff, ← errors_read_eq_nil_iff,
      ← errors_ofStatements_read_eq_nil_iff]
    exact List.append_eq_nil_iff

/-- A script with one finding of each kind of code. -/
def ofEachCode : String :=
  "  y.z = 1\nPropagate p(s)\nCreate Spacecraft s\nCreate Spacecraft s\nSave q\n" ++
    "\tElse\n what?\n If a"

theorem validation_eq_ofEachCode :
    let v := Validation.ofStatements (Script.read ofEachCode).statements
    (validate ofEachCode).errors =
      [⟨7, 2, "Unrecognized command: what?", "SE001", .error⟩,
        ⟨1, 3, "Object or variable 'y' is not declared", "SE002", .error⟩,
        ⟨2, 1, "Propagator 'p' is not declared", "SE003", .error⟩,
        ⟨2, 1, "Spacecraft 's' is not declared", "SE004", .error⟩] ∧
    (validate ofEachCode).warnings =
      [⟨4, 1, "Object 's' is already created and will be replaced", "SW001", .warning⟩,
        ⟨5, 1, "Saving undeclared object 'q'", "SW002", .warning⟩,
        ⟨6, 2, "Else without a matching If", "SW003", .warning⟩,
        ⟨8, 2, "If block is never closed with EndIf", "SW003", .warning⟩] ∧
    List.Forall₂ (fun p d => p.1.IsReportedAs p.2 d)
      (located Statement.faults (Script.read ofEachCode).statements) v.errors ∧
    v.errors ≠ [] ∧ ¬ (validate ofEachCode).isValid := by
  have h := validation_eq (Script.read ofEachCode).statements (validate ofEachCode) ofEachCode
  obtain ⟨herrors, -, hvalid, -⟩ := h
  have hfound : (validate ofEachCode).errors ≠ [] := by decide +kernel
  exact ⟨by decide +kernel, by decide +kernel, herrors, by decide +kernel, mt hvalid.1 hfound⟩

example :
    (validate "If x > 1\nWhile y\nEndIf\nElse").warnings.map Diagnostic.line = [3, 4, 1, 2] := by
  decide +kernel

end FlightScript
