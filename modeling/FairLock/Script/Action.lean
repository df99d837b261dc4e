import FairLock.Json.Value
import FairLock.Mode
import FairLock.Script.Ending

/-!
# The language of tasks

Tasks are written in a small language of actions: they submit further tasks, end grants, pass
capabilities around, start threads, panic, and create, poll and drop futures.  What a task does may
depend on counters and on named procedures, so a finite script can describe long runs.

Everything a caller of the locks can do is an action, so "every run" means: every list of actions.
-/

namespace FairLock

/-- Which capability an action means. -/
inductive CapRef where
  /-- The one that belongs to the entry point running the action. -/
  | own
  /-- The one that is kept under a name. -/
  | named (name : String)
  /-- Among the kept ones whose grant has not ended, in the order of their names, the one at this
      place, counted round and round. -/
  | nth (n : Nat)

mutual

/-- One action. -/
inductive Action where
  | submit (lock : Nat) (mode : Mode) (tag : String) (entry : Body) (ending : Ending) (quiet : Bool)
  /-- End a grant; its capability stays where it is. -/
  | release (cap : CapRef)
  /-- Take a capability from its place and drop it. -/
  | drop (cap : CapRef)
  /-- Take a capability from its place and leak it, so that nothing ever ends its grant. -/
  | forget (cap : CapRef)
  /-- Keep the own capability under a name, by default under the tag. -/
  | park (name : Option String)
  | inspect (cap : CapRef)
  | look (lock : Nat)
  | stats (lock : Nat)
  | config (lock : Nat)
  /-- Do two handles mean one lock? -/
  | same (a b : Nat)
  | clone (lock : Nat)
  | dropHandle (lock : Nat)
  | log (message : Json)
  | count (key : String)
  /-- Run a body if a counter is below a bound. -/
  | when (key : String) (below : Nat) (body : Body) (quiet : Bool)
  /-- Run a body a number of times. -/
  | iterate (times : Nat) (body : Body) (quiet : Bool)
  /-- Run a body and stop a panic that leaves it. -/
  | guard (body : Body)
  /-- Run a body on a new thread and wait for the thread to end. -/
  | thread (body : Body)
  | panic (fault : Fault)
  /-- Request access as a future. -/
  | acquire (lock : Nat) (mode : Mode) (future : String)
  /-- Make a future that does its work while it holds access. -/
  | run (lock : Nat) (mode : Mode) (future : String) (work : Body) (output : Json)
  | poll (future : String)
  | dropFuture (future : String)
  /-- Inside the work of a future: leave the poll as pending. -/
  | pause
  | unknown (word : String)

/-- A list of actions, spelled out or by the name of a procedure. -/
inductive Body where
  | actions (list : List Action)
  | procedure (name : String)

end

namespace Action

/-- The word for an action in the log. -/
def word : Action → String
  | submit .. => "submit"
  | release _ => "release"
  | drop _ => "drop"
  | forget _ => "forget"
  | park _ => "park"
  | inspect _ => "cap"
  | look _ => "look"
  | stats _ => "stats"
  | config _ => "config"
  | same _ _ => "same"
  | clone _ => "clone"
  | dropHandle _ => "drop_handle"
  | log _ => "log"
  | count _ => "count"
  | when .. => "when"
  | iterate .. => "repeat"
  | guard _ => "catch"
  | thread _ => "thread"
  | panic _ => "panic"
  | acquire .. => "acquire"
  | run .. => "run"
  | poll _ => "poll"
  | dropFuture _ => "drop_fut"
  | pause => "pause"
  | unknown word => word

end Action

end FairLock
