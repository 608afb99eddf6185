import FlightScript.Engine

/-!
# Operations on an engine

What can be asked of an engine, as data, with the answers. `Engine.apply` is the
effect of one operation, and a history is a list of them.
-/

namespace FlightScript

inductive Operation where
  /-- Queue a script for a user; the job is named after a saved script, if it is one,
  and follows the signal of a name. -/
  | submit (text user : String) (script follows : Option String)
  /-- Queue a saved script for a user. -/
  | submitSaved (id user : String)
  | status (id : JobId)
  | wait (id : JobId)
  | cancel (id : JobId)
  | list
  | createSignal (name : String)
  | raiseSignal (name : String)
  | isRaised (name : String)
  /-- Add a script to the library. -/
  | save (s : SavedScript)
  /-- Replace a script of the library. -/
  | resave (s : SavedScript)
  /-- Delete a script of the library. -/
  | unsave (id : String)
  | read (text : String)
  | validate (text : String)
  /-- Let every job have a turn. -/
  | round
  /-- Let the clock show a time. -/
  | setClock (now : Int)
  deriving DecidableEq

inductive Reply where
  | done
  | failed (e : EngineError)
  | job (job : Job)
  | jobs (jobs : List Job)
  | raised (isRaised : Bool)
  | saved (s : SavedScript)
  | script (s : Script)
  | validation (v : Validation)
  deriving DecidableEq

namespace Reply

def ofExcept {α : Type} (success : α → Reply) : Except EngineError α → Reply
  | .ok a => success a
  | .error e => .failed e

end Reply

namespace Engine

def isRaised (e : Engine) (name : String) : Bool :=
  (e.signals.find? name).any e.signals.isRaised

def raise (e : Engine) (name : String) : Signals :=
  match e.signals.find? name with
  | some n => e.signals.raise n
  | none => e.signals

def apply (e : Engine) : Operation → Engine × Reply
  | .submit text user script follows =>
    let (e, answer) := e.submit text user script (follows.bind e.signals.find?)
    (e, .ofExcept .job answer)
  | .submitSaved id user =>
    let (e, answer) := e.submitSaved id user
    (e, .ofExcept .job answer)
  | .status id => (e, .ofExcept .job (e.status id))
  | .wait id =>
    let (e, answer) := e.wait id
    (e, .ofExcept .job answer)
  | .cancel id =>
    let (e, answer) := e.cancel id
    (e, .ofExcept (fun _ => .done) answer)
  | .list => (e, .jobs e.jobs)
  | .createSignal name => ({ e with signals := e.signals.create name }, .done)
  | .raiseSignal name => ({ e with signals := e.raise name }, .done)
  | .isRaised name => (e, .raised (e.isRaised name))
  | .save s =>
    match e.library.add s with
    | .ok library => ({ e with library := library }, .saved s)
    | .error error => (e, .failed (.library error))
  | .resave s =>
    match e.library.update s e.clock with
    | .ok library => ({ e with library := library }, .saved { s with updatedAt := e.clock })
    | .error error => (e, .failed (.library error))
  | .unsave id =>
    match e.library.delete id with
    | .ok library => ({ e with library := library }, .done)
    | .error error => (e, .failed (.library error))
  | .read text => (e, .script (Script.read text))
  | .validate text => (e, .validation (FlightScript.validate text))
  | .round => (e.round, .done)
  | .setClock now => ({ e with clock := now }, .done)

def after (e : Engine) (history : List Operation) : Engine :=
  history.foldl (fun e operation => (e.apply operation).1) e

def answers (e : Engine) : List Operation → List Reply
  | [] => []
  | operation :: rest =>
    let (e, reply) := e.apply operation
    reply :: answers e rest

@[simp] theorem after_nil (e : Engine) : e.after [] = e := rfl

@[simp] theorem after_cons (e : Engine) (operation : Operation) (rest : List Operation) :
    e.after (operation :: rest) = (e.apply operation).1.after rest := rfl

theorem after_append (e : Engine) (h k : List Operation) :
    e.after (h ++ k) = (e.after h).after k := by
  simp [after]

end Engine

end FlightScript
