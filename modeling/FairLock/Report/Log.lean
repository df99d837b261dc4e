import FairLock.Report.Filter
import FairLock.Report.Notice
import FairLock.Report.Spans
import FairLock.Text.Quoted

/-!
# Log lines

Reporting is set up once for a process, from two settings of its environment: the format and the
filter.  A later attempt to set it up is refused.  From then on every wanted notice becomes a log
line, with the spans that enclose it if spans are wanted.
-/

namespace FairLock

/-- How reporting is set up. -/
structure Setup where
  /-- Are lines written as records? -/
  structured : Bool
  /-- Which reports are wanted. -/
  filter : Filter

/-- The setup that an environment asks for, unless the filter is miscut. -/
def Setup.ofEnvironment (format filter : Option String) : Except Text.Miscut Setup := do
  let filter ← Filter.ofEnvironment filter
  return ⟨format = some "1" ∨ format = some "true", filter⟩

/-- One log line. -/
structure LogLine where
  level : Level
  target : Target
  message : String
  fields : List (String × FieldValue)
  /-- The spans around the line, from the outside. -/
  spans : List Grant

namespace LogLine

/-- The text of a line without its level: the message, the fields, and the spans. -/
def text (w : World) (line : LogLine) : String :=
  line.message ++
    String.join (line.fields.map fun f => " " ++ f.1 ++ "=" ++ f.2.written) ++
    String.join (line.spans.map fun g =>
      " lock=" ++ Text.quoted (w.lock g.lock).config.name ++ " grant=" ++ toString g.id ++
        " mode=" ++ g.mode.text)

end LogLine

/-! ## Setting up -/

/-- An attempt to set up reporting: one that reports a refusal, or one that panics over it. -/
inductive Installation where
  | attempt
  | insist

/-- What an attempt to set up reporting leads to. -/
inductive Installed where
  | ok
  | refused (text : String)
  | unwound (text : String)

/-- The reason for which a second setup is refused. -/
def alreadyInstalled : String := "a global default trace dispatcher has already been set"

namespace Installation

/-- What an attempt leads to when reporting is set up already. -/
def refusal : Installation → Installed
  | attempt => .refused alreadyInstalled
  | insist => .unwound ("failed to install tracing subscriber: " ++ alreadyInstalled)

/-- What a row of attempts leads to: the first succeeds, the others are refused.  A miscut filter
    makes all of them panic. -/
def outcomes (setup : Except Text.Miscut Setup) (row : List Installation) : List Installed :=
  match setup, row with
  | .error m, row => row.map fun _ => .unwound m.text
  | .ok _, [] => []
  | .ok _, _ :: rest => .ok :: rest.map refusal

end Installation

/-! ## Lines -/

namespace Setup

/-- The line that a successful setup writes. -/
def ownLine (s : Setup) : LogLine :=
  { level := .info
    target := .tracer
    message :=
      if s.structured then "Structured tracing initialized with JSON output"
      else "Structured tracing initialized"
    fields := []
    spans := [] }

/-- The site of that line. -/
def ownSite : Site := ⟨.tracer, .info, some ["message"]⟩

/-- The line for a notice that was made while the given spans were entered. -/
def lineOf (s : Setup) (w : World) (issued : List (Grant × Option Grant)) (n : Notice)
    (entered : List Grant) : LogLine :=
  { level := n.level
    target := n.target
    message := n.message
    fields := n.fields w
    spans :=
      if s.filter.wantsSpans then
        (enclosing issued issued.length (World.currentSpan entered)).reverse
      else [] }

/-- The lines for the wanted notices of a history, the latest first. -/
def linesOf (s : Setup) (w : World) : List LogLine :=
  w.history.filterMap fun e =>
    match e with
    | .notice n entered =>
      if s.filter.wants n.site (entered.map (Grant.spanValues w)) then
        some (s.lineOf w (issuedGrants w.history) n entered)
      else none
    | _ => none

/-- All lines of a process that sets up reporting and then leads to a world. -/
def lines (s : Setup) (w : World) : List LogLine :=
  (if s.filter.wants ownSite [] then [s.ownLine] else []) ++ (s.linesOf w).reverse

/-- The numbers of the grants whose spans were seen to close, in increasing order.  Only records
    tell of spans that close. -/
def closed (s : Setup) (w : World) : List GrantId :=
  if s.structured && s.filter.wantsSpans then
    ((closedSpans w.capabilities (issuedGrants w.history)).map Grant.id).mergeSort
  else []

end Setup

end FairLock
