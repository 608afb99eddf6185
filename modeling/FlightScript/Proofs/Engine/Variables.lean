import FlightScript.Proofs.Engine.Snapshot
import FlightScript.Proofs.Engine.Stopping
import FlightScript.Proofs.Execution.Variables

/-!
# The variables of a job

The final record of a job holds the variables as the statements left them that were executed,
however the job has ended: of every name the value that was last assigned to it, and no other
names.
-/

namespace FlightScript

theorem Job.EndsAfter.exists_executeAll {j : Job} {step : Float} {statements : List Statement}
    {k : Nat} (h : j.EndsAfter step statements k) :
    ∃ b, Bindings.empty.executeAll step (statements.take k) = .ok b ∧ j.values = b.values := by
  cases h with
  | completed hall hsummary =>
      refine ⟨_, ?_, congrArg Summary.values hsummary⟩
      rw [List.take_length]
      exact hall
  | @failed f hlt hall hsummary =>
      obtain ⟨⟨rest, hsplit⟩, hbefore, -⟩ := Bindings.executeAll_eq_error_iff.1 hall
      refine ⟨f.bindings, ?_, congrArg Summary.values hsummary⟩
      rw [hsplit, List.take_left]
      exact hbefore
  | cancelled hlt hdone hsummary => exact ⟨_, hdone, congrArg Summary.values hsummary⟩

namespace Engine

variable {e : Engine}

/-- The variables in the final record of a job are those that the executed statements assign
to, and the properties that they assign to before the object is created, each with the value
that was assigned to it last. The two kinds of names are never equal, and no other command
changes a variable. -/
theorem values_eq_lastAssigned (he : e.Reachable) {submission : Operation} {text : String}
    (hs : e.submitted? submission = some text) (hv : (validate text).isValid) :
    let statements := (Script.read text).executable
    (∀ (b : Bindings) step c, (∀ name v, c ≠ .variable name v) →
      (∀ object property v, c = .set object property v → b.objects.get? object ≠ none) →
        (b.execute step c).1.values = b.values) ∧
    (∀ s ∈ statements, ∀ name v, s.command = .variable name v →
      ∀ s' ∈ statements, ∀ object property v', s'.command = .set object property v' →
        name ≠ Bindings.dotted object property) ∧
    ∃ e' queued, e.apply submission = (e', .job queued) ∧
      ∀ between, Operation.wait queued.id ∉ between →
        ∃ record k, ((e'.after between).apply (.wait queued.id)).2 = .job record ∧
          record.origin = queued.origin ∧ record.EndsAfter e.defaultStep statements k ∧
          ∀ key v, record.values.get? key = some v ↔
            Statement.LastAssigned (statements.take k) key v := by
  intro statements
  have hnames : ∀ s ∈ statements, s.command.HasNames := fun s hs =>
    Script.hasNames_of_mem (List.mem_filter.1 hs).1
  refine ⟨fun b step c => Bindings.values_execute_of_not, ?_, ?_⟩
  · rintro s hs name v hc s' - object property v' - rfl
    exact Bindings.point_notMem_variable (hnames s hs) hc (Bindings.point_mem_dotted _ _)
  · obtain ⟨queued, hreply, hqueued⟩ := exists_queued he.numbered hs hv
    refine ⟨_, queued, Prod.ext rfl hreply, fun between hwait => ?_⟩
    obtain ⟨record, hrecord, horigin, front, r, done, -, hends⟩ := hqueued.exists_record hwait
    obtain ⟨k, hk⟩ := hends.exists_endsAfter
    rw [defaultStep_run, defaultStep_apply] at hk
    obtain ⟨b, hdone, hvalues⟩ := hk.exists_executeAll
    refine ⟨record, k, hrecord, horigin, hk, fun key v => ?_⟩
    rw [hvalues]
    exact Bindings.get?_values_iff (fun s hs => hnames s (List.mem_of_mem_take hs))
      (fun s hs => (List.mem_filter.1 (List.mem_of_mem_take hs)).2) hdone

/-- A property is assigned to before and after its object is created, and the job fails before
it assigns to the variable of that name again. -/
theorem values_eq_lastAssigned_of_failing :
    let text := "n = 1\nn.X = 2\nn = 3\nCreate Spacecraft n\nn.X = 4\nn.Y = far\nn = 5"
    ∃ record k,
      ((((create 60 .channel false).apply (.submit text "ann" none none)).1.after [.round]).apply
          (.wait (.numbered 0))).2 = .job record ∧
        record.EndsAfter 60 (Script.read text).executable k ∧
        Statement.LastAssigned ((Script.read text).executable.take k) "n" (.number 3) ∧
        Statement.LastAssigned ((Script.read text).executable.take k) "n.X" (.number 2) := by
  intro text
  have hreachable : (create 60 .channel false).Reachable := ⟨60, .channel, false, [], rfl⟩
  have hsubmitted : (create 60 .channel false).submitted? (.submit text "ann" none none) =
      some text := rfl
  obtain ⟨-, -, e', queued, hsubmit, hdelivered⟩ :=
    values_eq_lastAssigned hreachable hsubmitted (by decide +kernel)
  obtain rfl : Job.create (.numbered 0) "ann" none = queued :=
    Reply.job.inj ((by decide +kernel : _ = _).symm.trans (congrArg Prod.snd hsubmit))
  obtain rfl := congrArg Prod.fst hsubmit
  obtain ⟨record, k, hrecord, -, hends, hvalues⟩ := hdelivered [.round] (by decide)
  have hheld : (match Reply.job record with | .job j => j.values | _ => .empty) =
      ⟨[("n", .number 3), ("n.X", .number 2)], by decide⟩ :=
    hrecord ▸ (by decide +kernel)
  exact ⟨record, k, hrecord, hends, (hvalues "n" (.number 3)).1 (congrArg (Table.get? · "n") hheld),
    (hvalues "n.X" (.number 2)).1 (congrArg (Table.get? · "n.X") hheld)⟩

end Engine

end FlightScript
