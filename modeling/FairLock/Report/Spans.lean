import FairLock.Machine.World

/-!
# Spans of grants

Every grant has a span.  It is opened when the grant is issued, inside the span that is current on
the issuing thread, and it stays open as long as somebody has the capability and as long as a span
that was opened inside it is open.
-/

namespace FairLock

/-- The grants that were issued, the latest first, each with the grant inside whose span its own
    was opened. -/
def issuedGrants : List Event → List (Grant × Option Grant)
  | [] => []
  | .issued g parent :: rest => (g, parent) :: issuedGrants rest
  | _ :: rest => issuedGrants rest

/-- A span and those around it, from the inside. -/
def enclosing (issued : List (Grant × Option Grant)) : Nat → Option Grant → List Grant
  | _, none => []
  | 0, some g => [g]
  | fuel + 1, some g => g :: enclosing issued fuel ((issued.lookup g).join)

/-- The spans that are closed: those that nobody needs.  A span is needed by who has its
    capability, and by each open span inside it.  Spans are listed the latest first, so those inside
    come before those around them. -/
def closedSpans (needed : List Grant) : List (Grant × Option Grant) → List Grant
  | [] => []
  | (g, parent) :: rest =>
    if needed.contains g then closedSpans (parent.toList ++ needed) rest
    else g :: closedSpans needed rest

/-- The grant whose capability a channel holds. -/
def Channel.held : Channel → List Grant
  | .sent g => [g]
  | _ => []

/-- The grant whose capability a future holds. -/
def Future.held : Future → List Grant
  | .run _ (.working g _) => [g]
  | _ => []

namespace World

/-- The grants whose capabilities are somewhere. -/
def capabilities (w : World) : List Grant :=
  w.store.map (·.2) ++ w.owned ++ w.leaked ++ w.channels.flatMap Channel.held ++
    w.futures.flatMap fun entry => entry.2.held

end World

end FairLock
