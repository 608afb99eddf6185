import FlightScript.Proofs.Engine.Session
import FlightScript.Proofs.Run.Reordering

/-!
# What a job depends on

Two texts may differ in comments, empty lines, line endings, spacing and the case of
keywords, and yet the same commands are executed when they are run. Then validation finds
the same in both, and their jobs may end with the same if they are told to stop after the same
number of statements, or not at all (`outcome_eq_of_commands_eq`). Two of their records agree in
everything but the places in the script and lines of the log that report tokens which are not
settled: these depend on the order of what was noted, which is another one in every run.
-/

namespace FlightScript

/-- Two events say the same of two jobs, but for the line and the time that a job took. -/
inductive Event.Agrees : Event → Event → Prop where
  | started (job job' : JobId) (script : Option String) :
      Agrees (.started job script) (.started job' script)
  | completed (job job' : JobId) (success : Bool) (elapsed elapsed' : Int) :
      Agrees (.completed job success elapsed) (.completed job' success elapsed')
  | failed (job job' : JobId) (message : String) (line line' : Nat) :
      Agrees (.failed job message line) (.failed job' message line')

theorem Job.Announces.agrees {j j' : Job} {events events' : List Event} (h : j.Announces events)
    (h' : j'.Announces events') (houtcome : j.outcome = j'.outcome)
    (hscript : j.script = j'.script) :
    List.Forall₂ Event.Agrees events events' := by
  have hstatus : j.status = j'.status := congrArg Job.Outcome.status houtcome
  have herrors : j.errors.map Diagnostic.content = j'.errors.map Diagnostic.content :=
    congrArg Job.Outcome.errors houtcome
  have hstarted : Event.Agrees (.started j.id j.script) (.started j'.id j'.script) := by
    rw [hscript]
    exact .started _ _ _
  cases h with
  | cancelled hs =>
      cases h' with
      | cancelled => exact .cons hstarted .nil
      | completed hs' => cases hs.symm.trans (hstatus.trans hs')
      | failed hs' => cases hs.symm.trans (hstatus.trans hs')
  | completed hs =>
      cases h' with
      | cancelled hs' => cases hs.symm.trans (hstatus.trans hs')
      | completed => exact .cons hstarted (.cons (.completed _ _ _ _ _) .nil)
      | failed hs' => cases hs.symm.trans (hstatus.trans hs')
  | @failed d _ hs hd =>
      cases h' with
      | cancelled hs' => cases hs.symm.trans (hstatus.trans hs')
      | completed hs' => cases hs.symm.trans (hstatus.trans hs')
      | @failed d' _ hs' hd' =>
          rw [hd, hd'] at herrors
          have hmessage : d.message = d'.message :=
            congrArg (fun c => c.2.1) (List.cons.inj herrors).1
          rw [hmessage]
          exact .cons hstarted (.cons (.failed _ _ _ _ _) .nil)

theorem Bindings.executedCount_eq_of_commands_eq (step : Float) {l l' : List Statement}
    (h : l.map Statement.command = l'.map Statement.command) :
    executedCount step l = executedCount step l' := by
  have hlength : l.length = l'.length := by simpa using congrArg List.length h
  rcases Bindings.empty.executeAll_cases_of_commands step h with
    ⟨b, hok, hok'⟩ | ⟨f, f', hf, hf', hagrees⟩
  · rw [executedCount, executedCount, hok, hok']
    exact hlength
  · rw [executedCount, executedCount, hf, hf']
    exact hagrees.length_eq

namespace Session

open Engine

/-- A record that the job may end with. The statements before the last turn of its run have been
executed, in any order of what they note, and the last turn ends the run with this record. -/
def MayEndWith {text user : String} {script : Option String} (s : Session text user script)
    (j : Job) : Prop :=
  ∃ record x r b, s.EndsIn record x r ∧
    Bindings.empty.MayExecuteAll x.defaultStep
      (((Script.read text).executable.take r.executed).map Statement.command) b ∧
    (x.turn (r.withBindings b)).1 = .ended j

variable {text text' user : String} {script : Option String} {s : Session text user script}
  {s' : Session text' user script} {record record' j j' : Job} {x x' : Engine} {r r' : Run}

theorem EndsIn.turn_eq (h : s.EndsIn record x r) : (x.turn r).1 = .ended record :=
  h.endsAs.turn_eq (numbered_of_mem_rounds h.mem_rounds)

theorem EndsIn.executeAll_eq (h : s.EndsIn record x r) :
    Bindings.empty.executeAll s.engine.defaultStep
      ((Script.read text).executable.take r.executed) = .ok r.bindings := by
  have hdone := h.endsAs.reaches.executeAll_eq
  rwa [defaultStep_of_mem_rounds h.mem_rounds] at hdone

/-- After the round in which it ends the job has no turn. -/
theorem EndsIn.not_later {front back rest : List Move}
    (h : s.EndsIn record (s.submitted.run front) r)
    (hsplit : s.submitted.movesUntil s.between s.id = front ++ .round :: back ++ rest) :
    ∀ r' ∈ (s.submitted.run (front ++ .round :: back)).active, r'.job.id ≠ s.id := by
  intro r' hr' hid
  have hrecord : record.id = s.id := (congrArg Prod.fst h.endsAs.origin_eq).trans h.id_eq
  have hcollect : Move.collect record.id ∉ back := by
    have hnever : Move.collect s.id ∉ s.submitted.movesUntil s.between s.id :=
      collect_not_mem_movesUntil s.wait_not_mem
    rw [hrecord]
    rw [hsplit] at hnever
    exact fun hmem => hnever
      (List.mem_append_left _ (List.mem_append_right _ (List.mem_cons_of_mem _ hmem)))
  have hended : record ∈ (s.submitted.run (front ++ .round :: back)).ended := by
    rw [run_append]
    exact mem_ended_run h.endsAs.mem_ended hcollect
  exact ((s.consistent.run _).numbered.id_ne_of_ended hr' hended) (hid.trans hrecord.symm)

/-- A job ends in one round only. -/
theorem EndsIn.unique (h : s.EndsIn record x r) (h' : s.EndsIn record' x' r') :
    x = x' ∧ r = r' := by
  have hstate : x = x' := by
    obtain ⟨front, rest, hsplit, rfl⟩ := mem_rounds_iff.1 h.mem_rounds
    obtain ⟨front', rest', hsplit', rfl⟩ := mem_rounds_iff.1 h'.mem_rounds
    rcases List.append_eq_append_iff.1 (hsplit.symm.trans hsplit') with
      ⟨back, rfl, hback⟩ | ⟨back, rfl, hback⟩
    · cases back with
      | nil => rw [List.append_nil]
      | cons m back =>
          obtain ⟨rfl, -⟩ := List.cons.inj hback
          exact absurd h'.id_eq (h.not_later hsplit' r' h'.endsAs.mem_active)
    · cases back with
      | nil => rw [List.append_nil]
      | cons m back =>
          obtain ⟨rfl, -⟩ := List.cons.inj hback
          exact absurd h.id_eq (h'.not_later hsplit r h.endsAs.mem_active)
  subst hstate
  exact ⟨rfl, (numbered_of_mem_rounds h.mem_rounds).eq_of_id_eq h.endsAs.mem_active
    h'.endsAs.mem_active (h.id_eq.trans h'.id_eq.symm)⟩

/-- The record that a job may end with is the one that it does end with, but for the lines that
were written before the last turn. -/
theorem EndsIn.mayEndWith_iff (h : s.EndsIn record x r) :
    s.MayEndWith j ↔ ∃ b rest, Bindings.empty.MayExecuteAll s.engine.defaultStep
        (((Script.read text).executable.take r.executed).map Statement.command) b ∧
      record.log = r.bindings.log ++ rest ∧ j = record.withLog (b.log ++ rest) := by
  have hexists : ∀ b, Bindings.empty.MayExecuteAll s.engine.defaultStep
      (((Script.read text).executable.take r.executed).map Statement.command) b →
      ∃ rest, record.log = r.bindings.log ++ rest ∧
        (x.turn (r.withBindings b)).1 = .ended (record.withLog (b.log ++ rest)) := by
    intro b hb
    obtain ⟨d, hd, halike⟩ := hb.alike (.refl _)
    obtain rfl := Except.ok.inj (hd.symm.trans h.executeAll_eq)
    exact Run.exists_turn_withBindings halike h.turn_eq
  have hstep := defaultStep_of_mem_rounds h.mem_rounds
  constructor
  · rintro ⟨record', x', r', b, h', hb, hturn⟩
    obtain ⟨rfl, rfl⟩ := h.unique h'
    rw [hstep] at hb
    obtain ⟨rest, hlog, hended⟩ := hexists b hb
    exact ⟨b, rest, hb, hlog, (Progress.ended.inj (hended.symm.trans hturn)).symm⟩
  · rintro ⟨b, rest, hb, hlog, rfl⟩
    obtain ⟨rest', hlog', hended⟩ := hexists b hb
    obtain rfl : rest = rest' := List.append_cancel_left (hlog.symm.trans hlog')
    exact ⟨record, x, r, b, h, hstep ▸ hb, hended⟩

theorem map_command_take (h : (Script.read text).executable.map Statement.command =
      (Script.read text').executable.map Statement.command) (n : Nat) :
    ((Script.read text).executable.take n).map Statement.command =
      ((Script.read text').executable.take n).map Statement.command := by
  rw [List.map_take, List.map_take, h]

theorem EndsIn.bindings_eq (h : s.EndsIn record x r) (h' : s'.EndsIn record' x' r')
    (hcommands : (Script.read text).executable.map Statement.command =
      (Script.read text').executable.map Statement.command)
    (hstep : s.engine.defaultStep = s'.engine.defaultStep) (hexecuted : r.executed = r'.executed) :
    r.bindings = r'.bindings := by
  have hdone := h.executeAll_eq
  have hdone' := h'.executeAll_eq
  rw [← hstep, ← hexecuted] at hdone'
  rcases Bindings.empty.executeAll_cases_of_commands s.engine.defaultStep
      (map_command_take hcommands r.executed) with ⟨b, hok, hok'⟩ | ⟨f, f', hf, -⟩
  · rw [Except.ok.inj (hdone.symm.trans hok), Except.ok.inj (hdone'.symm.trans hok')]
  · cases hdone.symm.trans hf

/-- Jobs with the same commands that are stopped after the same number of statements, or are
not stopped, end after the same number of statements with the same outcome. -/
theorem exists_outcome_eq (hv : (validate text).isValid) (hv' : (validate text').isValid)
    (hcommands : (Script.read text).executable.map Statement.command =
      (Script.read text').executable.map Statement.command)
    (hstep : s.engine.defaultStep = s'.engine.defaultStep)
    (hstop : ∀ k, s.IsStoppedAt k ↔ s'.IsStoppedAt k) :
    ∃ record x r record' x' r', s.reply = .job record ∧ s.EndsIn record x r ∧
      s'.reply = .job record' ∧ s'.EndsIn record' x' r' ∧
      r.executed = r'.executed ∧ record.outcome = record'.outcome := by
  have hlength : (Script.read text).executable.length = (Script.read text').executable.length := by
    simpa using congrArg List.length hcommands
  by_cases hstopped : ∃ k, s.IsStoppedAt k
  · -- both are stopped, and at the same place
    obtain ⟨k, hk⟩ := hstopped
    obtain ⟨record, x, r, hreply, hends, hexecuted, hsummary⟩ := endsIn_of_isStoppedAt hv hk
    obtain ⟨record', x', r', hreply', hends', hexecuted', hsummary'⟩ :=
      endsIn_of_isStoppedAt hv' ((hstop k).1 hk)
    have hexecuted := hexecuted.trans hexecuted'.symm
    refine ⟨record, x, r, record', x', r', hreply, hends, hreply', hends', hexecuted, ?_⟩
    have hbindings := hends.bindings_eq hends' hcommands hstep hexecuted
    have htake := congrArg List.length (map_command_take hcommands k)
    rw [Job.outcome, Job.outcome, hsummary, hsummary', hbindings]
    exact Summary.outcome_cancelled_eq (by simpa using htake) hlength _
  · -- both end as their statements do in sequence
    rw [not_exists] at hstopped
    obtain ⟨record, x, r, hreply, hends, hexecuted, hsummary⟩ :=
      endsIn_of_not_isStoppedAt hv hstopped
    obtain ⟨record', x', r', hreply', hends', hexecuted', hsummary'⟩ :=
      endsIn_of_not_isStoppedAt hv' fun k hk => hstopped k ((hstop k).2 hk)
    refine ⟨record, x, r, record', x', r', hreply, hends, hreply', hends', ?_, ?_⟩
    · rw [hexecuted, hexecuted', hstep, Bindings.executedCount_eq_of_commands_eq _ hcommands]
    · rw [Job.outcome, Job.outcome, hsummary, hsummary', hstep]
      exact Summary.outcome_ofSequence_eq _ hcommands

theorem EndsIn.mayEndWith (h : s.EndsIn record x r) : s.MayEndWith record := by
  refine ⟨record, x, r, r.bindings, h, ?_, h.turn_eq⟩
  rw [defaultStep_of_mem_rounds h.mem_rounds]
  exact Bindings.mayExecuteAll_of_executeAll h.executeAll_eq

/-- Jobs with the same commands that end after the same number of statements with the same outcome
may end with the same outcomes, which agree with each other. -/
theorem mayEndWith_agrees (hends : s.EndsIn record x r) (hends' : s'.EndsIn record' x' r')
    (hcommands : (Script.read text).executable.map Statement.command =
      (Script.read text').executable.map Statement.command)
    (hstep : s.engine.defaultStep = s'.engine.defaultStep) (hexecuted : r.executed = r'.executed)
    (houtcome : record.outcome = record'.outcome) (hj : s.MayEndWith j) :
    (∃ j', s'.MayEndWith j' ∧ j.outcome = j'.outcome) ∧
      ∀ j', s'.MayEndWith j' → j.outcome.Agrees s.engine.defaultStep
        ((Script.read text).executable.map Statement.command) j'.outcome := by
  have hcommands' := map_command_take hcommands r.executed
  obtain ⟨b, rest, hb, hlog, rfl⟩ := hends.mayEndWith_iff.1 hj
  have hlog' : record'.log = r'.bindings.log ++ rest := by
    rw [← hends.bindings_eq hends' hcommands hstep hexecuted, ← hlog]
    exact (congrArg Job.Outcome.log houtcome).symm
  constructor
  · refine ⟨record'.withLog (b.log ++ rest), hends'.mayEndWith_iff.2 ⟨b, rest, ?_, hlog', rfl⟩, ?_⟩
    · rwa [← hexecuted, ← hcommands', ← hstep]
    · rw [Job.outcome_withLog, Job.outcome_withLog, houtcome]
  · intro j' hj'
    obtain ⟨b', rest', hb', hlog'', rfl⟩ := hends'.mayEndWith_iff.1 hj'
    obtain rfl : rest = rest' := List.append_cancel_left (hlog'.symm.trans hlog'')
    rw [← hexecuted, ← hcommands', ← hstep] at hb'
    obtain ⟨l, l', hl, hl', hagree⟩ :=
      Bindings.logsAgree_of_mayExecuteAll (.refl .empty) (.refl .empty) hb hb'
    have hagree' := hagree.append (((Script.read text).executable.drop r.executed).map
      Statement.command)
    rw [← List.map_append, List.take_append_drop] at hagree'
    refine ⟨?_, l, l', rest, ?_, ?_, hagree'⟩
    · rw [Job.outcome_withLog, Job.outcome_withLog, houtcome]
    · exact congrArg (· ++ rest) hl
    · exact congrArg (· ++ rest) hl'

theorem published_agrees {record record' : Job} (hreply : s.reply = .job record)
    (hreply' : s'.reply = .job record') (hpublisher : s.engine.publisher = s'.engine.publisher)
    (houtcome : record.outcome = record'.outcome) (hscript : record.script = record'.script) :
    List.Forall₂ Event.Agrees (s.final.published s.id) (s'.final.published s'.id) := by
  obtain ⟨hchannel, hother⟩ := published_of_reply hreply
  obtain ⟨hchannel', hother'⟩ := published_of_reply hreply'
  by_cases hp : s.engine.publisher = .channel
  · exact (hchannel hp).agrees (hchannel' (hpublisher ▸ hp)) houtcome hscript
  · rw [hother hp, hother' (hpublisher ▸ hp)]
    exact .nil

theorem times_eq {record record' : Job} {x x' : Engine} {r r' : Run}
    (hends : s.EndsIn record x r) (hends' : s'.EndsIn record' x' r')
    (hv : (validate text).isValid) (hv' : (validate text').isValid)
    (hexecuted : r.executed = r'.executed)
    (hclocks : ∀ k now now', s.HasTurn k now → s'.HasTurn k now' → now = now') :
    record.times = record'.times := by
  obtain ⟨started, hfirst, hlast, htimes⟩ := hends.exists_times hv
  obtain ⟨started', hfirst', hlast', htimes'⟩ := hends'.exists_times hv'
  rw [htimes, htimes', hclocks _ _ _ hfirst hfirst', hclocks _ _ _ hlast (hexecuted ▸ hlast')]

end Session

/-- Two texts without refused lines in which the same commands are executed are valid or not
alike, and validation finds the same in them. If they are run for the same user by engines
with the same settings, and their jobs are stopped after the same number of statements or not
at all, then both jobs may end with the same outcomes, and publish the same events. Whatever two
records they end with agree, but for places in the script and for lines of the log that report
tokens which are not settled, and at equal times of the turns also in their times; the outcomes are
equal if every token is settled when it is reported. -/
theorem outcome_eq_of_commands_eq {text text' : String} (h : (Script.read text).isValid)
    (h' : (Script.read text').isValid)
    (hcommands : (Script.read text).executable.map Statement.command =
      (Script.read text').executable.map Statement.command) :
    (validate text).isValid = (validate text').isValid ∧
    (validate text).errors.map Diagnostic.content =
      (validate text').errors.map Diagnostic.content ∧
    (validate text).warnings.map Diagnostic.content =
      (validate text').warnings.map Diagnostic.content ∧
    ((validate text).isValid → ∀ user script (s : Session text user script)
      (s' : Session text' user script), s.engine.defaultStep = s'.engine.defaultStep →
      s.engine.publisher = s'.engine.publisher → (∀ k, s.IsStoppedAt k ↔ s'.IsStoppedAt k) →
      (∃ record record', s.reply = .job record ∧ s.MayEndWith record ∧
        s'.reply = .job record' ∧ s'.MayEndWith record') ∧
      (∀ outcome, (∃ j, s.MayEndWith j ∧ j.outcome = outcome) ↔
        ∃ j', s'.MayEndWith j' ∧ j'.outcome = outcome) ∧
      (∀ j j', s.MayEndWith j → s'.MayEndWith j' →
        j.origin = (s.id, script, user) ∧ j'.origin = (s'.id, script, user) ∧
        j.outcome.Agrees s.engine.defaultStep
          ((Script.read text).executable.map Statement.command) j'.outcome ∧
        (Bindings.empty.Settles s.engine.defaultStep
          ((Script.read text).executable.map Statement.command) → j.outcome = j'.outcome) ∧
        ((∀ k now now', s.HasTurn k now → s'.HasTurn k now' → now = now') →
          j.times = j'.times)) ∧
      List.Forall₂ Event.Agrees (s.final.published s.id) (s'.final.published s'.id)) := by
  obtain ⟨herrors, hwarnings⟩ := content_validate_eq h h' hcommands
  have hvalid := Validation.isValid_eq_of_content herrors
  refine ⟨hvalid, herrors, hwarnings, fun hv user script s s' hstep hpublisher hstop => ?_⟩
  have hv' : (validate text').isValid := hvalid ▸ hv
  obtain ⟨record, x, r, record', x', r', hreply, hends, hreply', hends', hexecuted, houtcome⟩ :=
    Session.exists_outcome_eq hv hv' hcommands hstep hstop
  have horigin := hends.origin_eq hv
  have horigin' := hends'.origin_eq hv'
  have hscript : record.script = record'.script :=
    (congrArg (fun o => o.2.1) horigin).trans (congrArg (fun o => o.2.1) horigin').symm
  have hagrees := fun j (hj : s.MayEndWith j) =>
    Session.mayEndWith_agrees hends hends' hcommands hstep hexecuted houtcome hj
  have hagrees' := fun j (hj : s'.MayEndWith j) =>
    Session.mayEndWith_agrees hends' hends hcommands.symm hstep.symm hexecuted.symm
      houtcome.symm hj
  refine ⟨⟨record, record', hreply, hends.mayEndWith, hreply', hends'.mayEndWith⟩,
    fun outcome => ⟨?_, ?_⟩, fun j j' hj hj' => ?_,
    Session.published_agrees hreply hreply' hpublisher houtcome hscript⟩
  · rintro ⟨j, hj, rfl⟩
    obtain ⟨j', hj', hsame⟩ := (hagrees j hj).1
    exact ⟨j', hj', hsame.symm⟩
  · rintro ⟨j', hj', rfl⟩
    obtain ⟨j, hj, hsame⟩ := (hagrees' j' hj').1
    exact ⟨j, hj, hsame.symm⟩
  · have hboth := (hagrees j hj).2 j' hj'
    obtain ⟨b, rest, -, -, rfl⟩ := hends.mayEndWith_iff.1 hj
    obtain ⟨b', rest', -, -, rfl⟩ := hends'.mayEndWith_iff.1 hj'
    have htimes := Session.times_eq hends hends' hv hv' hexecuted
    exact ⟨horigin, horigin', hboth, hboth.eq_of_settles, htimes⟩

/-- Two jobs that are cancelled after the first of two commands, one of them beside another
job. -/
theorem outcome_eq_of_two_texts :
    ∃ record record',
      (((Engine.create 60 .channel false).after [.submit "n = 1\nm = 2" "ann" none none, .round,
        .cancel (.numbered 0)]).apply (.wait (.numbered 0))).2 = .job record ∧
      (((Engine.create 60 .channel false).after [.submit "k = 3" "bob" none none,
        .submit "% two\r\n  VAR n = 1 ;\r\n\r\nm = 2;" "ann" none none, .round,
        .cancel (.numbered 1)]).apply (.wait (.numbered 1))).2 = .job record' ∧
      record.outcome = record'.outcome ∧ record.times = record'.times := by
  let s : Session "n = 1\nm = 2" "ann" none :=
    { engine := .create 60 .channel false
      reachable := ⟨60, .channel, false, [], rfl⟩
      submission := .submit "n = 1\nm = 2" "ann" none none
      submits := .submit _ _ _ _
      between := [.round, .cancel (.numbered 0)]
      wait_not_mem := by decide }
  let s' : Session "% two\r\n  VAR n = 1 ;\r\n\r\nm = 2;" "ann" none :=
    { engine := (Engine.create 60 .channel false).after [.submit "k = 3" "bob" none none]
      reachable := ⟨60, .channel, false, _, rfl⟩
      submission := .submit "% two\r\n  VAR n = 1 ;\r\n\r\nm = 2;" "ann" none none
      submits := .submit _ _ _ _
      between := [.round, .cancel (.numbered 1)]
      wait_not_mem := by decide +kernel }
  have hstopped : ∀ k, s.IsStoppedAt k ↔ k = 1 :=
    Session.isStoppedAt_iff_eq (by decide +kernel) (by decide +kernel)
  have hstopped' : ∀ k, s'.IsStoppedAt k ↔ k = 1 :=
    Session.isStoppedAt_iff_eq (by decide +kernel) (by decide +kernel)
  have hclock : ∀ x ∈ s.rounds, x.clock = 0 := by decide +kernel
  have hclock' : ∀ x ∈ s'.rounds, x.clock = 0 := by decide +kernel
  have hread : (Script.read "n = 1\nm = 2").isValid := by decide +kernel
  have hread' : (Script.read "% two\r\n  VAR n = 1 ;\r\n\r\nm = 2;").isValid := by decide +kernel
  obtain ⟨-, -, -, hruns⟩ := outcome_eq_of_commands_eq hread hread' (by decide +kernel)
  obtain ⟨⟨record, record', hreply, hrecord, hreply', hrecord'⟩, -, hagrees, -⟩ :=
    hruns (by decide +kernel) "ann" none s s' (by decide +kernel) (by decide +kernel)
      fun k => (hstopped k).trans (hstopped' k).symm
  obtain ⟨-, -, -, hsettled, htimes⟩ := hagrees record record' hrecord hrecord'
  have hsettles : Bindings.empty.Settles s.engine.defaultStep
      ((Script.read "n = 1\nm = 2").executable.map Statement.command) := by
    decide +kernel
  refine ⟨record, record', hreply, hreply', hsettled hsettles, htimes ?_⟩
  rintro k now now' ⟨x, hx, -, -, -, -, rfl⟩ ⟨x', hx', -, -, -, -, rfl⟩
  exact (hclock x hx).trans (hclock' x' hx').symm

/-- A file has two notes that differ in case only. Two runs of one job may report a third spelling
differently. -/
theorem outcomes_of_two_spellings :
    ∃ (s : Session "Create ReportFile F\nF.Note = 1\nF.NOTE = 2\nReport F.note" "ann" none)
      (j j' : Job), s.MayEndWith j ∧ s.MayEndWith j' ∧
      j.log = ["Created ReportFile F", "Set F.Note = 1", "Set F.NOTE = 2", "Report: F.note=1"] ∧
      j'.log =
        ["Created ReportFile F", "Set F.Note = 1", "Set F.NOTE = 2", "Report: F.note=2"] := by
  let text := "Create ReportFile F\nF.Note = 1\nF.NOTE = 2\nReport F.note"
  let s : Session text "ann" none :=
    { engine := .create 60 .channel false
      reachable := ⟨60, .channel, false, [], rfl⟩
      submission := .submit text "ann" none none
      submits := .submit _ _ _ _
      between := []
      wait_not_mem := by decide }
  let noted : Assignment := ⟨"Note", .number 1⟩
  let noted' : Assignment := ⟨"NOTE", .number 2⟩
  let of (assignments : List Assignment) (log : List String) : Bindings :=
    ⟨Table.empty.insert "F" ((Object.create "ReportFile").setAll assignments), .empty, log⟩
  let log := ["Created ReportFile F", "Set F.Note = 1", "Set F.NOTE = 2"]
  let b := of [noted, noted'] (log ++ ["Report: F.note=1"])
  let b' := of [noted', noted] (log ++ ["Report: F.note=2"])
  have hnever : ∀ x ∈ s.rounds, ∀ r ∈ x.active, x.isCancelled r = false := by decide +kernel
  have hnot : ∀ k, ¬ s.IsStoppedAt k := by
    rintro k ⟨x, hx, r, hr, -, -, -, hc⟩
    cases (hnever x hx r hr).symm.trans hc
  obtain ⟨record, x, r, -, hends, hexecuted, hsummary⟩ :=
    Session.endsIn_of_not_isStoppedAt (s := s) (by decide +kernel) hnot
  have hcount : r.executed = 4 := hexecuted.trans (by decide +kernel)
  have hall : Bindings.empty.executeAll 60 ((Script.read text).executable.take 4) = .ok b := by
    decide +kernel
  have hbindings : r.bindings = b := by
    have hdone := hends.executeAll_eq
    rw [hcount] at hdone
    exact Except.ok.inj (hdone.symm.trans hall)
  have hlog : record.log = r.bindings.log ++ [] := by
    have hfinal : (Summary.ofSequence 60 (Script.read text).executable).log = b.log := by
      decide +kernel
    rw [hbindings, List.append_nil, ← hfinal]
    exact congrArg Summary.log hsummary
  have hcommands : ((Script.read text).executable.take 4).map Statement.command =
      [.create "ReportFile" "F", .set "F" "Note" noted.value, .set "F" "NOTE" noted'.value,
        .report ["F.note"]] := by
    decide +kernel
  -- the second note may come before the first one
  have hentries : ((Object.create "ReportFile").setAll [noted', noted]).properties.SameEntries
      ((Object.create "ReportFile").setAll [noted, noted']).properties := List.Perm.swap _ _ _
  have hreordered : ((Object.create "ReportFile").setAll [noted, noted']).Reordered
      ((Object.create "ReportFile").setAll [noted', noted]) := ⟨_, hentries, by decide +kernel⟩
  have halike : (of [noted, noted'] log).Alike (of [noted', noted] log) :=
    (Bindings.Alike.refl ⟨.empty, .empty, log⟩).insert hreordered "F"
  have hnoted : (of [noted] (log.take 2)).MayExecute 60 (.set "F" "NOTE" noted'.value)
      (of [noted', noted] log) none := by
    refine ⟨of [noted, noted'] log, by decide +kernel, halike, rfl, fun name hname => ?_⟩
    have hne : "F" ≠ name := fun heq => hname ⟨"NOTE", noted'.value, heq ▸ rfl⟩
    exact (Table.get?_insert_of_ne _ _ hne).trans (Table.get?_insert_of_ne _ _ hne).symm
  have hmay' : Bindings.empty.MayExecuteAll 60
      (((Script.read text).executable.take 4).map Statement.command) b' := by
    rw [hcommands]
    exact ⟨of [] (log.take 1), .of_execute (by decide +kernel), of [noted] (log.take 2),
      .of_execute (by decide +kernel), _, hnoted, b', .of_execute (by decide +kernel), rfl⟩
  refine ⟨s, record.withLog (b.log ++ []), record.withLog (b'.log ++ []),
    hends.mayEndWith_iff.2 ⟨b, [], ?_, hlog, rfl⟩, hends.mayEndWith_iff.2 ⟨b', [], ?_, hlog, rfl⟩,
    rfl, rfl⟩
  · rw [hcount]
    exact Bindings.mayExecuteAll_of_executeAll hall
  · rw [hcount]
    exact hmay'

end FlightScript
