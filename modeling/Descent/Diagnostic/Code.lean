-- SUMMARY: The stable codes of diagnostics, grouped by what produced them.

/-! # Codes

Every way in which a parse can fail, a run can be stopped and a grammar can be
wrong has a name and a number that do not change. The thousands digit of the
number tells the category. -/

namespace Descent

/-- Why a parser did not match. -/
inductive FailureKind
  | endOfInput
  | unexpectedChar
  | unexpectedLiteral
  | insufficientRepetition
  | allAlternativesFailed
  | sequenceElementFailed
  | expectedEndOfInput
  | notExpected
  deriving DecidableEq, Repr, Inhabited

/-- Why a run was stopped. -/
inductive AbortKind
  | deadlineExceeded
  | parseCancelled
  | sourceTooLarge
  | nestingDepthExceeded
  deriving DecidableEq, Repr

/-- What is wrong with a grammar. -/
inductive FlawKind
  | builderFailed
  | builderInvalid
  | reentrantBuild
  | mapResultInvalid
  deriving DecidableEq, Repr

/-- What produced a diagnostic. -/
inductive Category
  | parse
  | abort
  | grammar
  deriving DecidableEq, Repr

/-- The identifier of a diagnostic. -/
inductive Code
  | parse (kind : FailureKind)
  | abort (kind : AbortKind)
  | grammar (kind : FlawKind)
  deriving DecidableEq, Repr

/-! ## Texts and numbers -/

namespace FailureKind

/-- All kinds, in the order of their numbers. -/
def all : List FailureKind :=
  [.endOfInput, .unexpectedChar, .unexpectedLiteral, .insufficientRepetition,
   .allAlternativesFailed, .sequenceElementFailed, .expectedEndOfInput, .notExpected]

/-- The name of a kind in upper case. -/
def name : FailureKind → String
  | .endOfInput => "END_OF_INPUT"
  | .unexpectedChar => "UNEXPECTED_CHAR"
  | .unexpectedLiteral => "UNEXPECTED_LITERAL"
  | .insufficientRepetition => "INSUFFICIENT_REPETITION"
  | .allAlternativesFailed => "ALL_ALTERNATIVES_FAILED"
  | .sequenceElementFailed => "SEQUENCE_ELEMENT_FAILED"
  | .expectedEndOfInput => "EXPECTED_END_OF_INPUT"
  | .notExpected => "NOT_EXPECTED"

/-- The name of a kind in lower case, as logs and tools read it. -/
def label : FailureKind → String
  | .endOfInput => "end_of_input"
  | .unexpectedChar => "unexpected_char"
  | .unexpectedLiteral => "unexpected_literal"
  | .insufficientRepetition => "insufficient_repetition"
  | .allAlternativesFailed => "all_alternatives_failed"
  | .sequenceElementFailed => "sequence_element_failed"
  | .expectedEndOfInput => "expected_end_of_input"
  | .notExpected => "not_expected"

/-- The kind with a given label. -/
def ofLabel? (s : String) : Option FailureKind := all.find? (·.label == s)

/-- The number within the category. -/
def number : FailureKind → Nat
  | .endOfInput => 1
  | .unexpectedChar => 2
  | .unexpectedLiteral => 3
  | .insufficientRepetition => 4
  | .allAlternativesFailed => 5
  | .sequenceElementFailed => 6
  | .expectedEndOfInput => 7
  | .notExpected => 8

end FailureKind

namespace AbortKind

/-- All kinds, in the order of their numbers. -/
def all : List AbortKind :=
  [.deadlineExceeded, .parseCancelled, .sourceTooLarge, .nestingDepthExceeded]

/-- The name of a kind in upper case. -/
def name : AbortKind → String
  | .deadlineExceeded => "DEADLINE_EXCEEDED"
  | .parseCancelled => "PARSE_CANCELLED"
  | .sourceTooLarge => "SOURCE_TOO_LARGE"
  | .nestingDepthExceeded => "NESTING_DEPTH_EXCEEDED"

/-- The number within the category. -/
def number : AbortKind → Nat
  | .deadlineExceeded => 1
  | .parseCancelled => 2
  | .sourceTooLarge => 3
  | .nestingDepthExceeded => 4

end AbortKind

namespace FlawKind

/-- All kinds, in the order of their numbers. -/
def all : List FlawKind := [.builderFailed, .builderInvalid, .reentrantBuild, .mapResultInvalid]

/-- The name of a kind in upper case. -/
def name : FlawKind → String
  | .builderFailed => "LAZY_BUILDER_FAILED"
  | .builderInvalid => "LAZY_BUILDER_INVALID"
  | .reentrantBuild => "LAZY_REENTRANT_BUILD"
  | .mapResultInvalid => "MAP_RESULT_INVALID"

/-- The number within the category. -/
def number : FlawKind → Nat
  | .builderFailed => 1
  | .builderInvalid => 2
  | .reentrantBuild => 3
  | .mapResultInvalid => 4

end FlawKind

namespace Category

/-- The name of a category. -/
def label : Category → String
  | .parse => "parse"
  | .abort => "abort"
  | .grammar => "grammar"

/-- The thousands of the numbers in a category. -/
def base : Category → Nat
  | .parse => 1000
  | .abort => 2000
  | .grammar => 3000

end Category

namespace Code

/-- All codes, in the order of their numbers. -/
def all : List Code :=
  FailureKind.all.map .parse ++ AbortKind.all.map .abort ++ FlawKind.all.map .grammar

/-- The category of a code. -/
def category : Code → Category
  | .parse _ => .parse
  | .abort _ => .abort
  | .grammar _ => .grammar

/-- The name of a code. -/
def name : Code → String
  | .parse k => k.name
  | .abort k => k.name
  | .grammar k => k.name

/-- The number of a code. -/
def number (c : Code) : Nat :=
  c.category.base + match c with
    | .parse k => k.number
    | .abort k => k.number
    | .grammar k => k.number

/-- The code with a given name. -/
def ofName? (s : String) : Option Code := all.find? (·.name == s)

end Code

end Descent
