-- SUMMARY: Ordered choice and lookahead.
import Descent.Parser.Basic

/-! # Choice

A choice tries its branches in order, all from the same cursor, and takes the
first that matches. When none matches, the failures of the branches are
combined into one. A branch that is a choice itself contributes the failures of
its own branches, so the combined failure depends only on the branches that are
not choices, in the order in which they were tried. -/

namespace Descent

namespace Failure

/-- The failures that a branch contributes to a failed choice. -/
def spliced (f : Failure) : List Failure :=
  match f.kind with
  | .allAlternativesFailed => f.causes
  | _ => [f]

/-- The furthest among `best` and the failures that follow; of several, the last. -/
def furthest (best : Failure) : List Failure → Failure
  | [] => best
  | f :: fs => furthest (if best.position ≤ f.position then f else best) fs

/-- Appends the texts that are not there yet. -/
def addNew (seen : List String) : List String → List String
  | [] => seen
  | e :: es => addNew (if e ∈ seen then seen else seen ++ [e]) es

/-- What was expected by the failures at a position, each text once. -/
def expectedAt (position : Int) (fs : List Failure) : List String :=
  addNew [] ((fs.filter (·.position = position)).flatMap (·.expected))

/-- The failure of a choice whose branches failed as given: that of the branch
    that reached furthest, with all that was expected there. There is none if
    no branch contributes a failure. -/
def alternatives? (branches : List Failure) : Option Failure :=
  match branches.flatMap spliced with
  | [] => none
  | f :: fs =>
    let reported := furthest f fs
    some {
      kind := .allAlternativesFailed
      position := reported.position
      message := reported.message
      expected := expectedAt reported.position (f :: fs)
      causes := f :: fs }

end Failure

namespace Parser

/-- The outcome of a choice none of whose branches matched. -/
def noneMatched (branches : List Failure) : Eval Outcome :=
  match Failure.alternatives? branches with
  | some f => pure (.failure f)
  | none => Eval.raise .noBranch

/-- The first parser, or else the second from the same cursor. -/
def either (a b : Parser) : Parser where
  name := "(" ++ a.name ++ " | " ++ b.name ++ ")"
  fn := fun c => do
    match ← a.fn c with
    | .success v n => return .success v n
    | .failure f => match ← b.fn c with
      | .success v n => return .success v n
      | .failure g => noneMatched [f, g]

/-- Tries parsers in order from one cursor, after the branches that failed
    already, the last of them first. -/
def tryEach (failed : List Failure) : List Parser → Cursor → Eval Outcome
  | [], _ => noneMatched failed.reverse
  | p :: ps, c => do
    match ← p.fn c with
    | .success v n => return .success v n
    | .failure f => tryEach (f :: failed) ps c

/-- The first of several parsers that matches. -/
def choice (first : Parser) (rest : List Parser) : Parser where
  name := "(" ++ " | ".intercalate ((first :: rest).map (·.name)) ++ ")"
  fn := tryEach [] (first :: rest)

/-! ## Lookahead -/

/-- Both parsers from the same cursor. The outcome is that of the second; the
    first only has to match. -/
def both (a b : Parser) : Parser where
  name := "(" ++ a.name ++ " & " ++ b.name ++ ")"
  fn := fun c => do
    match ← a.fn c with
    | .failure f => return .failure f
    | .success .. => b.fn c

/-- Matches nothing, where the parser does not match. -/
def absent (p : Parser) : Parser where
  name := "!" ++ p.name
  fn := fun c => do
    match ← p.fn c with
    | .success .. => return .failAt c .notExpected (.notExpected p.name)
    | .failure _ => return .success (.atom "") c

end Parser

end Descent
