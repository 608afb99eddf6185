import FlightScript.Runtime

/-!
# Operations on a runtime

What is asked of an engine is answered by the runtime. There is no answer to somebody who
waits for a job as long as the job waits for room: the wait has begun, its record is
claimed, and the answer comes when the task returns it. Between operations the receiver of
a channel takes events.
-/

namespace FlightScript

namespace Runtime

/-- The final record of a job, after the rounds that it takes to end; nothing yet, if it
has to wait for room. The record can be claimed once. -/
def wait (rt : Runtime) (id : JobId) : Runtime × Option (Except EngineError Job) :=
  if id ∈ rt.completions then
    let settled := rt.run (rt.claimSteps id)
    (settled.collect id, (settled.results.find? fun job => job.id = id).map .ok)
  else (rt, some (.error (.unknownJob id)))

def submitSaved (rt : Runtime) (id user : String) : Runtime × Except EngineError Job :=
  match rt.engine.savedScript id user with
  | .ok s => rt.submit s.content user (some s.id) none
  | .error error => (rt, .error error)

/-- The effect of an operation, and the answer; what concerns no job is as for an engine. -/
def apply (rt : Runtime) : Operation → Runtime × Option Reply
  | .submit text user script follows =>
    let (rt, answer) := rt.submit text user script (follows.bind rt.signals.find?)
    (rt, some (.ofExcept .job answer))
  | .submitSaved id user =>
    let (rt, answer) := rt.submitSaved id user
    (rt, some (.ofExcept .job answer))
  | .status id => (rt, some (.ofExcept .job (rt.status id)))
  | .wait id =>
    let (rt, answer) := rt.wait id
    (rt, answer.map (.ofExcept .job))
  | .cancel id =>
    let (rt, answer) := rt.cancel id
    (rt, some (.ofExcept (fun _ => .done) answer))
  | .list => (rt, some (.jobs rt.list))
  | .round => (rt.run rt.roundSteps, some .done)
  | operation =>
    let (e, reply) := rt.engine.apply operation
    ({ rt with signals := e.signals, library := e.library, clock := e.clock }, some reply)

inductive Act where
  | call (operation : Operation)
  /-- The receiver takes an event. -/
  | receive
  deriving DecidableEq

def act (rt : Runtime) : Act → Runtime × Option Reply
  | .call operation => rt.apply operation
  | .receive => (rt.receive, none)

def after (rt : Runtime) (history : List Act) : Runtime :=
  history.foldl (fun rt a => (rt.act a).1) rt

def answers (rt : Runtime) : List Act → List (Option Reply)
  | [] => []
  | .call operation :: rest => (rt.apply operation).2 :: answers (rt.apply operation).1 rest
  | .receive :: rest => answers rt.receive rest

@[simp] theorem after_nil (rt : Runtime) : rt.after [] = rt := rfl

@[simp] theorem after_cons (rt : Runtime) (a : Act) (rest : List Act) :
    rt.after (a :: rest) = (rt.act a).1.after rest := rfl

theorem after_append (rt : Runtime) (h k : List Act) :
    rt.after (h ++ k) = (rt.after h).after k := by
  simp [after]

end Runtime

end FlightScript
