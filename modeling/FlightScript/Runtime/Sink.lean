import FlightScript.Event

/-!
# Sinks

A sink is where jobs publish their events while they run. A channel holds a number of
events at a time. A job that finds it full waits in line until the receiver has taken
enough; a place that becomes free belongs to the first one in the line, and nobody else
can take it. A channel without a receiver fails at once, and nobody waits for events
that are discarded.
-/

namespace FlightScript

/-- A channel that holds a number of events at a time. -/
structure Channel where
  capacity : Nat
  /-- The events that were sent and not received, the first one first. -/
  queue : List Event
  /-- The jobs that wait to send an event, the first one first. -/
  waiting : List JobId
  deriving DecidableEq, Repr

namespace Channel

def create (capacity : Nat) : Channel :=
  ⟨capacity, [], []⟩

/-- There is a place for an event of a job, which stands behind those that wait if it is
not among them. -/
def hasRoom (c : Channel) (id : JobId) : Bool :=
  c.queue.length + (c.waiting.takeWhile (· ≠ id)).length < c.capacity

def send (c : Channel) (e : Event) : Channel :=
  { c with queue := c.queue ++ [e], waiting := c.waiting.erase e.job }

def await (c : Channel) (id : JobId) : Channel :=
  { c with waiting := if id ∈ c.waiting then c.waiting else c.waiting ++ [id] }

def receive (c : Channel) : Channel :=
  { c with queue := c.queue.tail }

end Channel

inductive Sink where
  | channel (c : Channel)
  | closed
  | discard
  deriving DecidableEq, Repr

namespace Sink

def publisher : Sink → Publisher
  | .channel _ => .channel
  | .closed => .closed
  | .discard => .discard

def queue : Sink → List Event
  | .channel c => c.queue
  | .closed | .discard => []

def waiting : Sink → List JobId
  | .channel c => c.waiting
  | .closed | .discard => []

/-- The sink after a job tried to publish an event, and what came of it; nothing yet, if
the job has to wait. -/
def publish (s : Sink) (e : Event) : Sink × Option (Except PublishError Unit) :=
  match s with
  | .channel c =>
    if c.hasRoom e.job then (.channel (c.send e), some (.ok ()))
    else (.channel (c.await e.job), none)
  | .closed => (.closed, some (.error .channelClosed))
  | .discard => (.discard, some (.ok ()))

def receive : Sink → Sink
  | .channel c => .channel c.receive
  | .closed => .closed
  | .discard => .discard

end Sink

end FlightScript
