import FlightScript.Job
import FlightScript.Problem

/-!
# Events

What happens to a job is published as events. A publisher passes them on to a
receiver, or fails because the receiver is gone, or takes them without passing them
on.
-/

namespace FlightScript

inductive Event where
  /-- The job began to run. -/
  | started (job : JobId) (script : Option String)
  /-- The job ran to its end, in a number of milliseconds. -/
  | completed (job : JobId) (success : Bool) (elapsed : Int)
  /-- A command of the job failed, on a line of the script. -/
  | failed (job : JobId) (message : String) (line : Nat)
  deriving DecidableEq, Repr

namespace Event

def job : Event → JobId
  | .started job _ => job
  | .completed job _ _ => job
  | .failed job _ _ => job

end Event

inductive Publisher where
  /-- To a receiver. -/
  | channel
  /-- To a receiver that is gone. -/
  | closed
  /-- To nobody. -/
  | discard
  deriving DecidableEq, Repr

inductive PublishError where
  | channelClosed
  deriving DecidableEq, Repr

namespace PublishError

def problem : PublishError → Problem
  | .channelClosed => ⟨.internal, "Event channel closed: channel closed"⟩

end PublishError

namespace Publisher

/-- What the receiver gets of an event. -/
def publish (p : Publisher) (e : Event) : Except PublishError (List Event) :=
  match p with
  | .channel => .ok [e]
  | .closed => .error .channelClosed
  | .discard => .ok []

/-- What the receiver gets of some events, a failure being passed over. -/
def deliver (p : Publisher) (es : List Event) : List Event :=
  es.flatMap fun e =>
    match p.publish e with
    | .ok received => received
    | .error _ => []

/-- A receiver gets the events as they are. -/
@[simp] theorem deliver_channel (es : List Event) : channel.deliver es = es := by
  simp [deliver, publish]

end Publisher

end FlightScript
