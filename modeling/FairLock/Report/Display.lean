import FairLock.Machine.Event
import FairLock.Text.Display

/-!
# Displays of locks and capabilities
-/

namespace FairLock

/-- A state as the value of a field. -/
def State.shown : State → Text.Shown
  | free => .plain "Free"
  | reading n => .wrapped "Reading" (toString n)
  | writing => .plain "Writing"

/-- The text of a truth value. -/
def flagText : Bool → String
  | true => "true"
  | false => "false"

/-- A lock by its name, its state and the length of its queue. -/
def lockDisplay (name : String) (state : State) (pending : Nat) : Text.Display :=
  ⟨"TaskRwLock",
    [("name", .plain (Text.quoted name)), ("state", state.shown),
     ("pending", .plain (toString pending))]⟩

/-- A capability by its grant and whether that has ended. -/
def Grant.display (g : Grant) (released : Bool) : Text.Display :=
  ⟨"ReleaseCapability",
    [("grant", .wrapped "GrantId" (toString g.id)), ("mode", .plain g.mode.name),
     ("released", .plain (flagText released))]⟩

end FairLock
