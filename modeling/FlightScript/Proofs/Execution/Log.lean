import FlightScript.Proofs.Execution.Tokens
import FlightScript.Proofs.Run.Summary

/-!
# What is written to the log

A command that succeeds appends one line to the log if it writes, and otherwise changes
nothing at all. So the log only grows, by one line for every writing statement
(`exists_lines_of_executeAll`), and statements that do not write can be left out of a sequence
or put into it: what it leaves behind stays the same (`leaves_filter`).
-/

namespace FlightScript

namespace Command

/-- The command writes a line to the log when it succeeds. -/
def writes : Command → Bool
  | .create _ _ | .set _ _ _ | .propagate _ _ _ | .report _ | .variable _ _ | .save _ => true
  | .ifThen _ | .otherwise | .endIf | .whileDo _ | .endWhile | .comment _ | .unknown => false

theorem writes_eq (c : Command) : c.writes = (c.isExecutable && !c.isControlFlow) := by
  cases c <;> rfl

end Command

namespace Statement

def writes (s : Statement) : Bool :=
  s.command.writes

def isControlFlow (s : Statement) : Bool :=
  s.command.isControlFlow

def withoutControlFlow (statements : List Statement) : List Statement :=
  statements.filter fun s => !s.isControlFlow

theorem writes_eq (s : Statement) : s.writes = (s.isExecutable && !s.isControlFlow) :=
  s.command.writes_eq

theorem withoutControlFlow_filter (p : Statement → Bool) (l : List Statement) :
    withoutControlFlow (l.filter p) = (withoutControlFlow l).filter p := by
  rw [withoutControlFlow, withoutControlFlow, List.filter_filter, List.filter_filter]
  exact List.filter_congr fun s _ => Bool.and_comm _ _

end Statement

namespace Bindings

variable {b b' c : Bindings} {step : Float} {command : Command} {s : Statement}
  {l l' : List Statement}

theorem execute_of_not_writes (b : Bindings) (step : Float) (h : command.writes = false) :
    b.execute step command = (b, none) := by
  cases command with
  | ifThen condition => rfl
  | otherwise => rfl
  | endIf => rfl
  | whileDo condition => rfl
  | endWhile => rfl
  | comment text => rfl
  | unknown => rfl
  | _ => cases h

/-- A writing command that succeeds appends one line to the log. -/
theorem exists_line_of_writes (hw : command.writes) (h : b.execute step command = (b', none)) :
    ∃ line, b'.log = b.log ++ [line] := by
  cases command with
  | set object property v =>
      rcases set_cases h with ⟨-, line, rfl⟩ | ⟨o, o', line, -, -, rfl⟩
      · exact ⟨line, rfl⟩
      · exact ⟨line, rfl⟩
  | propagate propagator spacecraft stop =>
      obtain ⟨s, s', seconds, line, -, -, rfl⟩ := propagate_cases h
      exact ⟨line, rfl⟩
  | create kind name =>
      obtain rfl := (Prod.mk.inj h).1
      exact ⟨_, rfl⟩
  | report tokens =>
      obtain rfl := (Prod.mk.inj h).1
      exact ⟨_, rfl⟩
  | «variable» name v =>
      obtain rfl := (Prod.mk.inj h).1
      exact ⟨_, rfl⟩
  | save object =>
      obtain rfl := (Prod.mk.inj h).1
      exact ⟨_, rfl⟩
  | _ => cases hw

/-- A statement that succeeds appends as many lines as it writes. -/
theorem exists_lines_of_execute (h : b.execute step s.command = (b', none)) :
    ∃ lines, b'.log = b.log ++ lines ∧ lines.length = [s].countP Statement.writes := by
  cases hw : s.writes with
  | true =>
      obtain ⟨line, hline⟩ := exists_line_of_writes hw h
      exact ⟨[line], hline, by rw [List.countP_cons_of_pos hw]; rfl⟩
  | false =>
      obtain rfl := (Prod.mk.inj ((execute_of_not_writes b step hw).symm.trans h)).1
      exact ⟨[], (List.append_nil _).symm, by rw [List.countP_cons_of_neg (by simp [hw])]; rfl⟩

/-- Statements that succeed append one line for each of them that writes. -/
theorem exists_lines_of_executeAll (h : b.executeAll step l = .ok c) :
    ∃ lines, c.log = b.log ++ lines ∧ lines.length = l.countP Statement.writes := by
  induction l generalizing b with
  | nil =>
      obtain rfl := Except.ok.inj h
      exact ⟨[], (List.append_nil _).symm, rfl⟩
  | cons s rest ih =>
      obtain ⟨b', hs, hrest⟩ := executeAll_cons_eq_ok_iff.1 h
      obtain ⟨line, hline, hone⟩ := exists_lines_of_execute hs
      obtain ⟨lines, hlines, hlength⟩ := ih hrest
      refine ⟨line ++ lines, ?_, ?_⟩
      · rw [hlines, hline, List.append_assoc]
      · rw [List.length_append, hone, hlength, ← List.countP_append, List.singleton_append]

/-- The log after the first of some statements is the beginning of the log after all of them. -/
theorem exists_log_eq_take {front rest : List Statement}
    (h : empty.executeAll step (front ++ rest) = .ok c) :
    ∃ d, empty.executeAll step front = .ok d ∧
      d.log = c.log.take (front.countP Statement.writes) := by
  obtain ⟨d, hfront, hrest⟩ := executeAll_append_eq_ok_iff.1 h
  obtain ⟨lines, hlines, hlength⟩ := exists_lines_of_executeAll hfront
  obtain ⟨more, hmore, -⟩ := exists_lines_of_executeAll hrest
  have hlog : d.log = lines := hlines
  refine ⟨d, hfront, ?_⟩
  rw [hmore, ← hlength, ← hlog, List.take_left]

/-! ### What a sequence leaves behind -/

/-- What a sequence of statements leaves behind: the bindings at its end, or those after the
first statement that failed, with that statement and its error. -/
def leaves (b : Bindings) (step : Float) (statements : List Statement) :
    Bindings × Option (Statement × ExecutionError) :=
  match b.executeAll step statements with
  | .ok c => (c, none)
  | .error f => ((f.bindings.execute step f.statement.command).1, some (f.statement, f.error))

theorem leaves_of_ok (h : b.executeAll step l = .ok c) : b.leaves step l = (c, none) := by
  rw [leaves, h]

theorem leaves_of_error {f : Failure} (h : b.executeAll step l = .error f) :
    b.leaves step l =
      ((f.bindings.execute step f.statement.command).1, some (f.statement, f.error)) := by
  rw [leaves, h]

theorem leaves_cons_of_ok (h : b.execute step s.command = (b', none)) (rest : List Statement) :
    b.leaves step (s :: rest) = b'.leaves step rest := by
  rw [leaves, leaves, executeAll_cons_of_ok h]
  cases b'.executeAll step rest with
  | ok c => rfl
  | error f => rfl

theorem leaves_cons_of_error {e : ExecutionError} (h : b.execute step s.command = (b', some e))
    (rest : List Statement) : b.leaves step (s :: rest) = (b', some (s, e)) := by
  rw [leaves, executeAll_cons_of_error h]
  simp only [h]

/-- Statements that do not write can be left out of a sequence. -/
theorem leaves_filter {p : Statement → Bool} (hp : ∀ s ∈ l, p s = false → s.writes = false)
    (b : Bindings) (step : Float) : b.leaves step (l.filter p) = b.leaves step l := by
  induction l generalizing b with
  | nil => rfl
  | cons s rest ih =>
      rw [List.forall_mem_cons] at hp
      cases hs : p s with
      | false =>
          rw [List.filter_cons_of_neg (by simp [hs]), ih hp.2,
            leaves_cons_of_ok (execute_of_not_writes b step (hp.1 hs))]
      | true =>
          rw [List.filter_cons_of_pos hs]
          rcases hexec : b.execute step s.command with ⟨b', _ | e⟩
          · rw [leaves_cons_of_ok hexec, leaves_cons_of_ok hexec, ih hp.2]
          · rw [leaves_cons_of_error hexec, leaves_cons_of_error hexec]

/-- Sequences that differ in statements of the control flow only leave the same behind. -/
theorem leaves_eq_of_withoutControlFlow_eq
    (h : Statement.withoutControlFlow l = Statement.withoutControlFlow l') (b : Bindings)
    (step : Float) : b.leaves step l = b.leaves step l' := by
  have hfilter : ∀ l, b.leaves step (Statement.withoutControlFlow l) = b.leaves step l := by
    intro l
    refine leaves_filter (fun s _ hs => ?_) b step
    rw [Statement.writes_eq, hs, Bool.and_false]
  rw [← hfilter l, h, hfilter]

end Bindings

namespace Summary

/-- What a summary says, apart from the progress and the statement that it shows. -/
def results (s : Summary) : Status × List Diagnostic × Table Value × List String :=
  (s.status, s.errors, s.values, s.log)

/-- The results of a sequence that leaves these bindings behind and fails at this statement. -/
def resultsOf : Bindings × Option (Statement × ExecutionError) →
    Status × List Diagnostic × Table Value × List String
  | (b, none) => (.completed, [], b.values, b.log)
  | (b, some (s, e)) =>
    (.failed, [(Finding.failedCommand e.message).diagnostic s.line s.text], b.values,
      b.log ++ ["Error: " ++ e.message])

theorem results_ofSequence (step : Float) (l : List Statement) :
    (ofSequence step l).results = resultsOf (Bindings.empty.leaves step l) := by
  cases h : Bindings.empty.executeAll step l with
  | ok b =>
      rw [Bindings.leaves_of_ok h, ofSequence_of_ok h]
      rfl
  | error f =>
      obtain ⟨-, -, herror⟩ := Bindings.executeAll_eq_error_iff.1 h
      obtain ⟨hvalues, hlog⟩ := Bindings.execute_of_error (Prod.ext rfl herror)
      rw [Bindings.leaves_of_error h, ofSequence_of_error h, resultsOf, hvalues, hlog]
      rfl

end Summary

end FlightScript
