-- SUMMARY: What an evaluation did, as a list of typed events, and the log records among them.
import Descent.Text.Digits

/-! # The journal

An evaluation writes down what it does. Some of the events are log records for
the author of the grammar, some are the marks that the author asked for, and
some only say in which order things happened. -/

namespace Descent

/-- The key of a rule. -/
abbrev Rule := String

/-- Something that happened during an evaluation. -/
inductive Event
  /-- A run of the named parser started. -/
  | running (parser : String) (size : Nat)
  /-- The parser of the run that was started last is over. -/
  | ended
  /-- A run of the named parser failed. -/
  | failed (parser : String) (position : Int) (message : String)
  /-- The failure of a run that has to succeed, shown against its source. -/
  | report (text : String)
  /-- A repetition ended at a match that consumed nothing. -/
  | zeroWidth (parser : String) (position : Nat)
  /-- The parser of a rule was built. -/
  | built (rule target : String)
  /-- The builder of a rule raised an error. -/
  | builderFailed (rule error : String)
  /-- The builder of a rule handed back something that is not a parser. -/
  | builderInvalid (rule shown : String)
  /-- A delegation to a rule was refused. -/
  | depthReached (limit : Int) (rule : String) (position : Nat)
  /-- A requested limit was lowered. -/
  | clamped (requested stack ceiling : Int)
  /-- The builder of a rule was started. -/
  | building (rule : Rule)
  /-- A marked parser was tried. -/
  | mark (label : String) (position : Nat)
  /-- The builder of a rule went on after a flaw of the grammar. -/
  | caught (rule : Rule)
  /-- The limits of the run were looked at. -/
  | checkpoint (position : Int)
  /-- A predicate cancelled the runs that watch for it. -/
  | cancel
  /-- A delegation to a rule was opened, the given number being open now. -/
  | opened (rule : Rule) (position depth : Nat)
  /-- The delegation that was opened last was closed. -/
  | closed (rule : Rule)
  deriving DecidableEq, Repr

/-- Events, the newest first. -/
abbrev Journal := List Event

/-! ## Log records -/

/-- How important a log record is. -/
inductive Level
  | debug
  | warning
  | error
  deriving DecidableEq, Repr

/-- The part of the library that writes a log record. -/
inductive Channel
  /-- Runs of parsers. -/
  | runs
  /-- Repetitions. -/
  | repetitions
  /-- Rules and their builders. -/
  | rules
  /-- The depth guard. -/
  | nesting
  deriving DecidableEq, Repr

/-- A log record. -/
structure LogRecord where
  channel : Channel
  level : Level
  message : String
  deriving DecidableEq, Repr

/-- The log record of an event, if it is one. -/
def Event.log? : Event → Option LogRecord
  | .running parser size => some ⟨.runs, .debug,
      "Running " ++ parser ++ " over " ++ decimalText size ++ " characters"⟩
  | .failed parser position message => some ⟨.runs, .debug,
      parser ++ " failed at position " ++ decimalText position ++ ": " ++ message⟩
  | .report text => some ⟨.runs, .debug, text⟩
  | .zeroWidth parser position => some ⟨.repetitions, .debug,
      "Zero-width match of " ++ parser ++ " at position " ++ decimalText position
        ++ " ends repetition"⟩
  | .built rule target => some ⟨.rules, .debug, "Built lazy parser " ++ rule ++ " -> " ++ target⟩
  | .builderFailed rule error => some ⟨.rules, .error,
      "Lazy builder for " ++ rule ++ " failed: " ++ error⟩
  | .builderInvalid rule shown => some ⟨.rules, .error,
      "Lazy builder for " ++ rule ++ " returned " ++ shown⟩
  | .depthReached limit rule position => some ⟨.nesting, .warning,
      "Nesting depth " ++ decimalText limit ++ " reached in " ++ rule ++ " at position "
        ++ decimalText position⟩
  | .clamped requested stack ceiling => some ⟨.nesting, .warning,
      "Nesting depth " ++ decimalText requested ++ " needs more stack than recursion limit "
        ++ decimalText stack ++ " allows. Clamping to " ++ decimalText ceiling
        ++ "; raise sys.setrecursionlimit() for deeper input."⟩
  | _ => none

namespace Journal

/-- The log records of a journal, the oldest first. -/
def logs (j : Journal) : List LogRecord := j.reverse.filterMap Event.log?

/-- How often the builder of a rule was started. -/
def builds (j : Journal) (rule : Rule) : Nat := j.count (.building rule)

end Journal

end Descent
