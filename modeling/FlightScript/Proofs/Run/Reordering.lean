import FlightScript.Proofs.Execution.Enumeration
import FlightScript.Proofs.Run.Ending
import FlightScript.Proofs.Run.Outcome

/-!
# Runs and the order of what was noted

`b.MayExecuteAll step cs b'` leaves open in which order what is noted with an object stands after
each assignment to it. Then the log may not be determined: two runs of the same commands write
the same lines, but for reports of tokens that are not settled (`logsAgree_of_mayExecuteAll`), and
all else that a job ends with is the same in both (`turn_withBindings`).
-/

namespace FlightScript

def Command.reported : Command → List String
  | .report tokens => tokens
  | _ => []

namespace Bindings

/-- Commands lead from `b` to `b'` one after the other, all of them without an error. -/
def MayExecuteAll (b : Bindings) (step : Float) : List Command → Bindings → Prop
  | [], b' => b' = b
  | c :: rest, b' => ∃ d, b.MayExecute step c d none ∧ d.MayExecuteAll step rest b'

/-- No command reports a token that is not settled when it is reported, up to the first command that
fails. -/
def Settles (b : Bindings) (step : Float) : List Command → Prop
  | [] => True
  | c :: rest => (∀ token ∈ c.reported, b.IsSettled token) ∧
      ((b.execute step c).2 = none → (b.execute step c).1.Settles step rest)

/-- What commands write in one run and in another, up to where both stop: the same, but for reports
of the same tokens of which one is not settled. -/
inductive LogsAgree (step : Float) : Bindings → List Command → List String → List String → Prop
  | stop (b : Bindings) (rest : List Command) : LogsAgree step b rest [] []
  | same {b b' : Bindings} {c : Command} {rest : List Command} {l l' : List String}
      (lines : List String) (h : b.execute step c = (b', none))
      (hrest : LogsAgree step b' rest l l') :
      LogsAgree step b (c :: rest) (lines ++ l) (lines ++ l')
  | report {b b' d d' : Bindings} {tokens : List String} {rest : List Command}
      {l l' : List String} (hunsettled : ∃ token ∈ tokens, ¬ b.IsSettled token)
      (hd : b.Alike d) (hd' : b.Alike d') (h : b.execute step (.report tokens) = (b', none))
      (hrest : LogsAgree step b' rest l l') :
      LogsAgree step b (.report tokens :: rest) (d.reportLine tokens :: l)
        (d'.reportLine tokens :: l')

instance (b : Bindings) (step : Float) (cs : List Command) : Decidable (b.Settles step cs) :=
  match cs with
  | [] => isTrue trivial
  | _ :: rest =>
    have := fun b' : Bindings => instDecidableSettles b' step rest
    inferInstanceAs (Decidable (_ ∧ _))

variable {b b' d d' : Bindings} {step : Float} {c : Command} {cs : List Command}
  {l l' : List String}

theorem MayExecute.of_execute {e : Option ExecutionError} (h : b.execute step c = (b', e)) :
    b.MayExecute step c b' e :=
  ⟨b', h, .refl b', rfl, fun _ _ => rfl⟩

theorem MayExecute.log_eq {e : Option ExecutionError} (h : b.MayExecute step c b' e) :
    b'.log = (b.execute step c).1.log := by
  obtain ⟨d, hexecute, -, hlog, -⟩ := h
  rw [hlog, hexecute]

theorem MayExecute.alike (h : b.MayExecute step c d none) (halike : b'.Alike b) :
    ∃ d', b'.execute step c = (d', none) ∧ d'.Alike d := by
  obtain ⟨d₁, hexecute, hd₁, -, -⟩ := h
  obtain ⟨herror, hresult⟩ := halike.execute step c
  rw [hexecute] at herror hresult
  exact ⟨_, Prod.ext rfl herror.symm, hresult.trans hd₁⟩

theorem MayExecuteAll.alike {statements : List Statement}
    (h : b.MayExecuteAll step (statements.map Statement.command) d) (halike : b'.Alike b) :
    ∃ d', b'.executeAll step statements = .ok d' ∧ d'.Alike d := by
  induction statements generalizing b b' with
  | nil =>
      obtain rfl : d = b := h
      exact ⟨b', rfl, halike⟩
  | cons s rest ih =>
      obtain ⟨b₁, hstep, hrest⟩ := h
      obtain ⟨b₁', hexecute, halike'⟩ := hstep.alike halike
      obtain ⟨d', hall, hd'⟩ := ih hrest halike'
      exact ⟨d', executeAll_cons_eq_ok_iff.2 ⟨b₁', hexecute, hall⟩, hd'⟩

theorem mayExecuteAll_of_executeAll {statements : List Statement}
    (h : b.executeAll step statements = .ok d) :
    b.MayExecuteAll step (statements.map Statement.command) d := by
  induction statements generalizing b with
  | nil => exact (Except.ok.inj h).symm
  | cons s rest ih =>
      obtain ⟨b₁, hexecute, hrest⟩ := executeAll_cons_eq_ok_iff.1 h
      exact ⟨b₁, .of_execute hexecute, ih hrest⟩

/-! ### What is written -/

theorem Alike.exists_lines_of_set (h : b.Alike d) (object property : String) (v : Value) :
    ∃ lines, (b.set object property v).1.log = b.log ++ lines ∧
      (d.set object property v).1.log = d.log ++ lines := by
  cases ho : b.objects.get? object with
  | none =>
      simp only [Bindings.set, ho, (h.objects object).eq_none ho]
      exact ⟨[_], rfl, rfl⟩
  | some o =>
      obtain ⟨o', ho', hreordered⟩ := (h.objects object).exists_of_eq_some ho
      simp only [Bindings.set, ho, ho', (hreordered.set property v).1]
      cases (o.set property v).2 with
      | none => exact ⟨[_], rfl, rfl⟩
      | some error => exact ⟨[], (List.append_nil _).symm, (List.append_nil _).symm⟩

theorem Alike.exists_lines_of_propagate (h : b.Alike d) (step : Float)
    (propagator spacecraft : String) (stop : Option StopClause) :
    ∃ lines, (b.propagate step propagator spacecraft stop).1.log = b.log ++ lines ∧
      (d.propagate step propagator spacecraft stop).1.log = d.log ++ lines := by
  simp only [Bindings.propagate, h.interval_eq]
  cases b.interval step propagator stop with
  | error error => exact ⟨[], (List.append_nil _).symm, (List.append_nil _).symm⟩
  | ok days =>
      rcases h.moved_cases spacecraft days with ⟨error, hm, hm'⟩ | ⟨s, s', hm, hm', -⟩
      · simp only [hm, hm']
        exact ⟨[], (List.append_nil _).symm, (List.append_nil _).symm⟩
      · simp only [hm, hm']
        exact ⟨[_], rfl, rfl⟩

theorem Alike.reportLine_eq (h : b.Alike d) {tokens : List String}
    (hsettled : ∀ token ∈ tokens, b.IsSettled token) :
    d.reportLine tokens = b.reportLine tokens := by
  have htexts : (tokens.map fun token => token ++ "=" ++ d.resolve token) =
      tokens.map fun token => token ++ "=" ++ b.resolve token :=
    List.map_congr_left fun token htoken => by
      rw [(h.readsAlike token).resolve_eq_of_isSettled (hsettled token htoken)]
  rw [reportLine, reportLine, htexts]

/-- A command writes the same in every order if all tokens that it reports are settled. -/
theorem Alike.exists_lines (h : b.Alike d) (step : Float)
    (hsettled : ∀ token ∈ c.reported, b.IsSettled token) :
    ∃ lines, (b.execute step c).1.log = b.log ++ lines ∧
      (d.execute step c).1.log = d.log ++ lines := by
  cases c with
  | create kind name => exact ⟨[_], rfl, rfl⟩
  | set object property v => exact h.exists_lines_of_set object property v
  | propagate propagator spacecraft stop =>
      exact h.exists_lines_of_propagate step propagator spacecraft stop
  | report tokens =>
      have hline : d.reportLine tokens = b.reportLine tokens := h.reportLine_eq hsettled
      exact ⟨[b.reportLine tokens], rfl, congrArg (fun line => d.log ++ [line]) hline⟩
  | «variable» name v => exact ⟨[_], rfl, rfl⟩
  | save object => exact ⟨[_], rfl, rfl⟩
  | _ => exact ⟨[], (List.append_nil _).symm, (List.append_nil _).symm⟩

/-- Two runs of the same commands, in bindings that are alike, write logs that agree. -/
theorem logsAgree_of_mayExecuteAll {d₁ d₁' : Bindings} (hd : b.Alike d) (hd' : b.Alike d')
    (h : d.MayExecuteAll step cs d₁) (h' : d'.MayExecuteAll step cs d₁') :
    ∃ l l', d₁.log = d.log ++ l ∧ d₁'.log = d'.log ++ l' ∧ LogsAgree step b cs l l' := by
  induction cs generalizing b d d' with
  | nil =>
      obtain rfl : d₁ = d := h
      obtain rfl : d₁' = d' := h'
      exact ⟨[], [], (List.append_nil _).symm, (List.append_nil _).symm, .stop b []⟩
  | cons c rest ih =>
      obtain ⟨e, hstep, hrest⟩ := h
      obtain ⟨e', hstep', hrest'⟩ := h'
      obtain ⟨x, hx, hxe⟩ := hstep.alike hd
      obtain ⟨x', hx', hxe'⟩ := hstep'.alike hd'
      obtain rfl : x = x' := (Prod.mk.inj (hx.symm.trans hx')).1
      obtain ⟨l, l', hl, hl', hagree⟩ := ih hxe hxe' hrest hrest'
      have hlog := hstep.log_eq
      have hlog' := hstep'.log_eq
      by_cases hsettled : ∀ token ∈ c.reported, b.IsSettled token
      · obtain ⟨lines, hb, hlines⟩ := hd.exists_lines step hsettled
        obtain ⟨lines', hb', hlines'⟩ := hd'.exists_lines step hsettled
        obtain rfl : lines = lines' := List.append_cancel_left (hb.symm.trans hb')
        refine ⟨lines ++ l, lines ++ l', ?_, ?_, .same lines hx hagree⟩
        · rw [hl, hlog, hlines, List.append_assoc]
        · rw [hl', hlog', hlines', List.append_assoc]
      · cases c with
        | report tokens =>
            have hunsettled : ∃ token ∈ tokens, ¬ b.IsSettled token := by
              simpa [Command.reported] using hsettled
            refine ⟨_, _, ?_, ?_, .report hunsettled hd hd' hx hagree⟩
            · rw [hl, hlog]
              exact List.append_assoc ..
            · rw [hl', hlog']
              exact List.append_assoc ..
        | _ => exact absurd (fun _ => nofun) hsettled

theorem LogsAgree.append (h : LogsAgree step b cs l l') (rest : List Command) :
    LogsAgree step b (cs ++ rest) l l' := by
  induction h with
  | stop b cs => exact .stop b (cs ++ rest)
  | same lines hexecute _ ih => exact .same lines hexecute ih
  | report hunsettled hd hd' hexecute _ ih => exact .report hunsettled hd hd' hexecute ih

theorem LogsAgree.eq_of_settles (h : LogsAgree step b cs l l') (hsettles : b.Settles step cs) :
    l = l' := by
  induction h with
  | stop => rfl
  | same lines hexecute _ ih =>
      rw [Settles, hexecute] at hsettles
      rw [ih (hsettles.2 rfl)]
  | report hunsettled _ _ _ _ _ =>
      obtain ⟨token, htoken, hnot⟩ := hunsettled
      exact absurd (hsettles.1 token htoken) hnot

end Bindings

/-- Two outcomes of a job with these commands agree but for lines of the log, which are reports of
tokens that are not settled. -/
structure Job.Outcome.Agrees (step : Float) (commands : List Command) (o o' : Job.Outcome) :
    Prop where
  besides_log : { o with log := [] } = { o' with log := [] }
  log : ∃ l l' rest, o.log = l ++ rest ∧ o'.log = l' ++ rest ∧
    Bindings.LogsAgree step .empty commands l l'

theorem Job.Outcome.Agrees.eq_of_settles {step : Float} {commands : List Command}
    {o o' : Job.Outcome} (h : o.Agrees step commands o')
    (hsettles : Bindings.empty.Settles step commands) : o = o' := by
  obtain ⟨l, l', rest, hl, hl', hagree⟩ := h.log
  have hlog : o.log = o'.log := by rw [hl, hl', hagree.eq_of_settles hsettles]
  have hbesides := h.besides_log
  cases o
  cases o'
  simp_all

/-! ### The end of a run -/

def Job.withLog (j : Job) (l : List String) : Job :=
  { j with log := l }

theorem Job.settle_withLog (j : Job) (l : List String) (next : Status) :
    (j.withLog l).settle next = (j.settle next).withLog l := by
  cases h : j.status.canBecome next <;> simp [withLog, settle, transition, h]

theorem Job.outcome_withLog (j : Job) (l : List String) :
    (j.withLog l).outcome = { j.outcome with log := l } := rfl

theorem Job.log_settle (j : Job) (next : Status) : (j.settle next).log = j.log := by
  cases h : j.status.canBecome next <;> simp [settle, transition, h]

def Ending.lines : Ending → List String
  | .failed e => ["Error: " ++ e.message]
  | .completed | .cancelled => []

namespace Run

variable {r : Run} {b : Bindings} {step : Float} {now : Int} {cancelled : Bool} {record : Job}

def withBindings (r : Run) (b : Bindings) : Run :=
  { r with bindings := b }

theorem begin_withBindings (r : Run) (b : Bindings) (now : Int) :
    ((r.withBindings b).begin now).1 = (r.begin now).1.withBindings b := by
  by_cases hq : r.job.status = .queued
  · simp [begin, withBindings, hq]
  · simp [begin, withBindings, hq]

theorem results_withBindings (hvalues : b.values = r.bindings.values) (now : Int) :
    (r.withBindings b).results now = (r.results now).withLog b.log := by
  rw [results, results, withBindings, hvalues]
  rfl

theorem log_finish (r : Run) (now : Int) (ending : Ending) :
    (r.finish now ending).1.log = r.bindings.log ++ ending.lines := by
  have hsettle : ∀ next, ((r.results now).settle next).log = r.bindings.log := fun next =>
    (r.results now).log_settle next
  cases ending with
  | completed => exact (hsettle .completed).trans (List.append_nil _).symm
  | cancelled => exact (hsettle .cancelled).trans (List.append_nil _).symm
  | failed e => exact congrArg (· ++ _) (hsettle .failed)

theorem finish_withBindings (hvalues : b.values = r.bindings.values) (now : Int)
    (ending : Ending) : ((r.withBindings b).finish now ending).1 =
      (r.finish now ending).1.withLog (b.log ++ ending.lines) := by
  have hresults := results_withBindings hvalues now
  cases ending with
  | completed =>
      simp only [finish, hresults, Job.settle_withLog, Ending.lines, List.append_nil]
      rfl
  | cancelled =>
      simp only [finish, hresults, Job.settle_withLog, Ending.lines, List.append_nil]
  | failed e =>
      simp only [finish, hresults, Job.settle_withLog, Ending.lines]
      rfl

/-- A started run that is closed is closed in every order of what was noted, with the same record
but for what its commands have written. -/
theorem exists_proceed_withBindings (h : r.bindings.Alike b)
    (hproceed : (r.proceed step now cancelled).1 = .ended record) :
    ∃ rest, record.log = r.bindings.log ++ rest ∧
      ((r.withBindings b).proceed step now cancelled).1 =
        .ended (record.withLog (b.log ++ rest)) := by
  cases hp : r.pending with
  | nil =>
      rw [proceed_of_nil hp] at hproceed
      obtain rfl := Progress.ended.inj hproceed
      refine ⟨_, r.log_finish now .completed, ?_⟩
      rw [proceed_of_nil (r := r.withBindings b) hp]
      exact congrArg Progress.ended (finish_withBindings h.values_eq now .completed)
  | cons s rest =>
      cases cancelled with
      | true =>
          rw [proceed_of_cancelled hp] at hproceed
          obtain rfl := Progress.ended.inj hproceed
          refine ⟨_, r.log_finish now .cancelled, ?_⟩
          rw [proceed_of_cancelled (r := r.withBindings b) hp]
          exact congrArg Progress.ended (finish_withBindings h.values_eq now .cancelled)
      | false =>
          rcases hs : r.bindings.execute step s.command with ⟨b₁, _ | e⟩
          · rw [proceed_of_ok hp hs] at hproceed
            cases hproceed
          · rw [proceed_of_error hp hs] at hproceed
            obtain rfl := Progress.ended.inj hproceed
            obtain ⟨hvalues, hlog⟩ := Bindings.execute_of_error hs
            obtain ⟨herror, halike⟩ := h.execute step s.command
            rw [hs] at herror halike
            have hs' : b.execute step s.command = ((b.execute step s.command).1, some e) :=
              Prod.ext rfl herror
            obtain ⟨hvalues', hlog'⟩ := Bindings.execute_of_error hs'
            let x : Run := { (r.attend s).fault s e with bindings := b₁ }
            have hfinish := finish_withBindings (r := x) halike.values_eq now (.failed e)
            refine ⟨Ending.lines (.failed e), ?_, ?_⟩
            · rw [← hlog]
              exact x.log_finish now (.failed e)
            · rw [proceed_of_error (r := r.withBindings b) hp hs', ← hlog']
              exact congrArg Progress.ended hfinish

/-- A run that ends in a turn ends in it in every order of what was noted, with the same record but
for what its commands have written. -/
theorem exists_turn_withBindings (h : r.bindings.Alike b)
    (hturn : (r.turn step now cancelled).1 = .ended record) :
    ∃ rest, record.log = r.bindings.log ++ rest ∧
      ((r.withBindings b).turn step now cancelled).1 =
        .ended (record.withLog (b.log ++ rest)) := by
  obtain ⟨-, hbindings, -⟩ := r.begin_rest now
  rw [turn_eq] at hturn
  rw [← hbindings] at h
  rw [turn_eq, begin_withBindings, ← hbindings]
  exact exists_proceed_withBindings h hturn

end Run

end FlightScript
