import FairLock.Text.Pattern

/-!
# Searching for patterns

A pattern is looked for from every place of a text, but what counts is whether a match ends where
the text ends.

Matches are tried in an order of preference: an earlier beginning before a later one, the first
alternative before the second, and one more repetition before none, unless the repetition is
reluctant.  A match that is complete puts an end to all that are less preferred than it.  So
`a` is found at the end of `ba` and not at the end of `aba`, where the match at the beginning wins.

For the search a pattern becomes a network of nodes.  At each place of the text the nodes that can
be reached without reading a character are visited in the order of preference, each one once.  So a
repetition that reads nothing comes to its end without being tried again.

## Main definitions

- `Network.ofPattern`: the network of a pattern.
- `Network.reach`: the nodes that are reached at a place.
- `Pattern.endsIn`: does a match end where the text ends?
-/

namespace FairLock.Text

/-! ## Networks -/

/-- A node of a network. -/
inductive Node where
  | done
  /-- Read one character of a set and go on. -/
  | read (s : CharSet) (next : Nat)
  /-- Go on if a condition holds. -/
  | check (a : Anchor) (next : Nat)
  /-- Go on in two ways, of which the first is preferred. -/
  | fork (first second : Nat)

namespace Node

/-- Go on with a repetition or leave it.  A reluctant one is rather left. -/
def again (reluctant : Bool) (inside outside : Nat) : Node :=
  if reluctant then fork outside inside else fork inside outside

end Node

/-- A network: its nodes and the one at which a match begins.  A match is complete at the node with
    number zero. -/
structure Network where
  nodes : Array Node
  start : Nat

namespace Network

/-- Add a node, and give its number. -/
def add (node : Node) : StateM (Array Node) Nat := fun nodes => (nodes.size, nodes.push node)

/-- Add the nodes of a pattern, from which the search goes on at the node `next`, and give the
    number of the first of them.  A loop is entered at its body and comes back to a node that
    chooses between body and end. -/
def build : Pattern → Nat → StateM (Array Node) Nat
  | .empty, next => pure next
  | .literal cs, next => cs.foldrM (fun c next => add (.read (.single c) next)) next
  | .set _ s, next => add (.read s next)
  | .anchor a, next => add (.check a next)
  | .group _ p, next => build p next
  | .seq a b, next => do
    let second ← build b next
    build a second
  | .either a b, next => do
    let first ← build a next
    let second ← build b next
    add (.fork first second)
  | .repeats .atMostOnce reluctant p, next => do
    let body ← build p next
    add (.again reluctant body next)
  | .repeats .anyTimes reluctant p, next => do
    let back ← add .done
    let body ← build p back
    modify fun nodes => nodes.setIfInBounds back (.again reluctant body next)
    add (.again reluctant body next)
  | .repeats .atLeastOnce reluctant p, next => do
    let back ← add .done
    let body ← build p back
    modify fun nodes => nodes.setIfInBounds back (.again reluctant body next)
    return body

/-- The network of a pattern. -/
def ofPattern (p : Pattern) : Network :=
  let (start, nodes) := build p 0 #[.done]
  ⟨nodes, start⟩

/-! ## Visiting -/

/-- Visit the nodes that wait, the first one first, and what can be reached from them between two
    characters.  It is marked which nodes have been seen, and they are listed with the latest one
    first. -/
def visit (n : Network) (before behind : Option Char) :
    Nat → List Nat → Array Bool → List Nat → List Nat
  | 0, _, _, seen => seen
  | _ + 1, [], _, seen => seen
  | fuel + 1, k :: waiting, marks, seen =>
    if marks.getD k true then n.visit before behind fuel waiting marks seen
    else
      let waiting :=
        match n.nodes[k]? with
        | some (.fork first second) => first :: second :: waiting
        | some (.check a next) => if a.holds before behind then next :: waiting else waiting
        | _ => waiting
      n.visit before behind fuel waiting (marks.setIfInBounds k true) (k :: seen)

/-- The nodes that are reached between two characters, the preferred ones first.  Every node makes
    two others wait at most, so the fuel is enough. -/
def reach (n : Network) (before behind : Option Char) (waiting : List Nat) : List Nat :=
  (n.visit before behind (waiting.length + 2 * n.nodes.size + 1) waiting
    (.replicate n.nodes.size false) []).reverse

/-- The node behind a node that reads the character. -/
def after (n : Network) (c : Char) (k : Nat) : Option Nat :=
  match n.nodes[k]? with
  | some (.read s next) => if s.contains c then some next else none
  | _ => none

/-- The number of the node at which a match is complete. -/
def doneNode : Nat := 0

/-- Is a match complete at once at a place? -/
def matchesNothing (n : Network) (before behind : Option Char) : Bool :=
  (n.reach before behind [n.start]).contains doneNode

/-! ## Searching -/

/-- May a match be found inside a character?  The places between the bytes of a character are
    looked at too, and both neighbours of such a place are that character. -/
def matchesInside (n : Network) (c : Char) : Bool :=
  1 < c.utf8Size && n.matchesNothing (some c) (some c)

/-- Go on with a search: does a match end where the text ends?  The matches that have begun wait at
    nodes, and a new one begins here if one still may. -/
def search (n : Network) (begun : List Nat) (fresh : Bool) (before : Option Char) :
    List Char → Bool
  | [] => (n.reach before none (starts begun)).contains doneNode
  | c :: rest =>
    let reached := n.reach before (some c) (starts begun)
    -- what comes behind a complete match is given up
    let kept := reached.takeWhile (· ≠ doneNode)
    n.search (kept.filterMap (n.after c))
      (fresh && !reached.contains doneNode && !n.matchesInside c) (some c) rest
where
  /-- The nodes to start from. -/
  starts (begun : List Nat) : List Nat := if fresh then begun ++ [n.start] else begun

end Network

/-- Does a match end where the text ends? -/
def Pattern.endsIn (p : Pattern) (text : String) : Bool :=
  (Network.ofPattern p).search [] true none text.toList

end FairLock.Text
