import FairLock.Report.Directive
import FairLock.Report.Target

/-!
# Filters on reports

A filter is a list of directives.  Of the directives that can judge a report by itself and speak
about it, the most specific one decides; what no directive speaks about is not wanted.  A report is
wanted too if it is made inside a span that a directive has found and that asks for its level.

A directive about spans can find a span only if spans are made, and they are made at one level: a
filter whose finest level is coarser makes none.

## Main definitions

- `Filter.ofText`: a filter from its text.
- `Filter.wants`: is a report wanted?
- `Filter.wantsSpans`: are spans of grants made?
-/

namespace FairLock

/-- What is known of a report or a span before it is made. -/
structure Site where
  /-- The part of the program that makes it. -/
  target : Target
  level : Level
  /-- The names of its fields.  A span is asked for none here. -/
  fields : Option (List String)

/-- Which reports are wanted. -/
abbrev Filter := List Directive

namespace Directive

/-- Does the directive judge what is made at a site? -/
def judges (d : Directive) (site : Site) : Bool :=
  d.isStatic && d.isFor site.target.path &&
    site.fields.all fun names => d.fieldNames.all names.contains

/-- Does the directive look for spans of grants? -/
def watches (d : Directive) : Bool :=
  d.isDynamic && d.isFor Target.tracer.path &&
    d.span.all (fun name => name = SpanValues.spanName) &&
    d.fieldNames.all SpanValues.fieldNames.contains

/-- Has the directive found the span of a grant? -/
def finds (d : Directive) (v : SpanValues) : Bool :=
  d.watches && d.fields.all fun t => t.holdsFor v

end Directive

namespace Filter

/-! ## Reading -/

/-- A filter that wants one level from everywhere. -/
def everywhere (level : Level) : Filter := [{ level := some level }]

/-- A filter from its text.  Directives stand between commas, and the first one that cannot be read
    tells why the text cannot.  A text without directives wants errors. -/
def ofText (text : String) : Except Unreadable Filter := do
  let parts := (Text.splitAt ',' text.toList).filter fun part => !part.isEmpty
  let directives ← parts.mapM Directive.ofText
  if directives.isEmpty then return everywhere .error else return directives

/-- The filter that an environment asks for: reports up to `info`, unless it has a readable text.  A
    text that is miscut is not read to its end. -/
def ofEnvironment : Option String → Except Text.Miscut Filter
  | none => .ok (everywhere .info)
  | some text =>
    match ofText text with
    | .ok filter => .ok filter
    | .error .malformed => .ok (everywhere .info)
    | .error (.miscut m) => .error m

/-! ## Judging -/

/-- The directives without those whose condition comes again later. -/
def latest : Filter → Filter
  | [] => []
  | d :: rest => if rest.any d.sameCondition then latest rest else d :: latest rest

/-- The finest level that is ever wanted.  Values of fields come late, so whoever tests one has to
    be shown everything. -/
def finest (filter : Filter) : Option Level :=
  if filter.any Directive.testsValue then some .trace
  else filter.foldl (fun level d => Level.finer level d.level) none

/-- The directive that decides about a site: of those that judge it the most specific one, and of
    equals the last. -/
def deciding (filter : Filter) (site : Site) : Option Directive :=
  filter.foldl (fun best d =>
    if d.judges site then
      match best with
      | none => some d
      | some b => if d.isAsSpecific b then some d else some b
    else best) none

/-- Is what is made at a site wanted, whatever the spans around it? -/
def wantsAlways (filter : Filter) (site : Site) : Bool :=
  match filter.deciding site with
  | none => false
  | some d => site.level.isAmong d.level

/-- The site at which spans of grants are made. -/
def spanSite : Site := ⟨.tracer, .debug, none⟩

/-- Are spans of grants made? -/
def wantsSpans (filter : Filter) : Bool :=
  spanSite.level.isAmong filter.finest &&
    (filter.any Directive.watches || filter.wantsAlways spanSite)

/-- The finest level that is wanted inside the span of a grant because of this span. -/
def levelInside (filter : Filter) (v : SpanValues) : Option Level :=
  (filter.latest.filter fun d => d.finds v).foldl (fun level d => Level.finer level d.level) none

/-- Is a report wanted that is made inside these spans? -/
def wants (filter : Filter) (site : Site) (around : List SpanValues) : Bool :=
  site.level.isAmong filter.finest &&
    (filter.wantsAlways site ||
      filter.wantsSpans && around.any fun v => site.level.isAmong (filter.levelInside v))

/-- A filter with one level for everything wants just the levels up to it. -/
theorem wants_everywhere (level : Level) (site : Site) (around : List SpanValues) :
    (everywhere level).wants site around = site.level.isWithin level := by
  -- the one directive of the filter is also the finest
  have finest_eq : finest (everywhere level) = some level := by
    cases level <;> rfl
  have always : (everywhere level).wantsAlways site = site.level.isWithin level := by
    cases h : site.fields <;>
      simp [wantsAlways, deciding, everywhere, Directive.judges, Directive.isStatic,
        Directive.testsValue, Directive.isFor, Directive.fieldNames, Level.isAmong, h]
  -- it names no span, so nothing depends on what was entered
  have inside : ∀ v, (everywhere level).levelInside v = none := by
    intro v
    simp [levelInside, latest, everywhere, Directive.finds, Directive.watches,
      Directive.isDynamic]
  simp [wants, finest_eq, always, inside, Level.isAmong]

end Filter

end FairLock
