-- SUMMARY: The texts of all diagnostics.
import Descent.Diagnostic.Basic
import Descent.Number.Seconds
import Descent.Text.Quoted
import Descent.Value

/-! # The catalogue

Every message of the library is written here, once. A diagnostic of the
catalogue has no span: where it happened is added by whoever reports it. -/

namespace Descent.Diagnostic

/-! ## Failures of parsers -/

/-- The input ended where `expected` was required. -/
def endOfInput (expected : String) : Diagnostic where
  code := .parse .endOfInput
  message := "Unexpected end of input, expected " ++ expected
  hint := some "The input ends before the construct is complete"
  expected := [expected]

/-- A cursor was asked for more characters than remain. -/
def cursorExhausted (position requested : Int) : Diagnostic where
  code := .parse .endOfInput
  message := "Unexpected end of input at position " ++ decimalText position
    ++ " (needed " ++ decimalText requested ++ ")"

/-- The character `found` is not the `expected` one. -/
def unexpectedChar (expected found : String) : Diagnostic where
  code := .parse .unexpectedChar
  message := "Expected " ++ expected ++ " but found " ++ quote found
  expected := [expected]

/-- The text `found` is not the `expected` one. -/
def unexpectedLiteral (expected found : String) : Diagnostic where
  code := .parse .unexpectedLiteral
  message := "Expected " ++ quote expected ++ " but found " ++ quote found
  expected := [quote expected]

/-- A repetition that has to match once did not match at all. -/
def insufficientRepetition (rule cause : String) : Diagnostic where
  code := .parse .insufficientRepetition
  message := "Expected at least one " ++ rule ++ ": " ++ cause
  ruleName := some rule

/-- The character `found` stands where the input should have ended. -/
def expectedEndOfInput (found : String) : Diagnostic where
  code := .parse .expectedEndOfInput
  message := "Expected end of input but found " ++ quote found
  hint := some "Pass partial=True to accept a prefix of the input"
  expected := ["end of input"]

/-- A parser matched where it must not. -/
def notExpected (rule : String) : Diagnostic where
  code := .parse .notExpected
  message := "Unexpected " ++ rule
  ruleName := some rule

/-! ## Hints of composite failures -/

/-- Names the element of a sequence that failed. -/
def sequenceElementHint (index : Option Int) : String :=
  "Sequence element " ++ (match index with
    | some i => decimalText i
    | none => "None") ++ " failed"

/-- Counts the alternatives that were tried. -/
def alternativesHint (count : Int) : String :=
  "None of " ++ decimalText count ++ " alternatives matched"

/-! ## Stopped runs -/

/-- Rules were nested deeper than the limit. -/
def nestingDepthExceeded (limit : Int) (rule : String) (position : Int) : Diagnostic where
  code := .abort .nestingDepthExceeded
  message := "Maximum nesting depth (" ++ decimalText limit ++ ") exceeded in " ++ rule
    ++ " at position " ++ decimalText position
  hint := some "Increase max_depth or reduce nesting in the input"
  ruleName := some rule

/-- The time of a run was over. -/
def deadlineExceeded (timeout : Seconds) (position : Int) : Diagnostic where
  code := .abort .deadlineExceeded
  message := "Parse exceeded its " ++ timeout.text ++ "s deadline at position "
    ++ decimalText position
  hint := some "Check for repetition over parsers that match little input"

/-- A run was cancelled. -/
def parseCancelled (position : Int) : Diagnostic where
  code := .abort .parseCancelled
  message := "Parse cancelled at position " ++ decimalText position

/-- The input has more characters than allowed. -/
def sourceTooLarge (size limit : Int) : Diagnostic where
  code := .abort .sourceTooLarge
  message := "Source size (" ++ groupedText size ++ " characters) exceeds maximum ("
    ++ groupedText limit ++ " characters)"
  hint := some "Configure max_source_size to increase the limit"

/-! ## Flaws of grammars -/

/-- The builder of a rule raised an error of the named class. -/
def builderFailed (rule errorClass error : String) : Diagnostic where
  code := .grammar .builderFailed
  message := "Builder for " ++ rule ++ " failed: " ++ errorClass ++ ": " ++ error
  hint := some "Lazy builders run once; fix the grammar definition and rebuild it"
  ruleName := some rule

/-- The builder of a rule handed back something that is not a parser. -/
def builderInvalid (rule : String) (result : Plain) : Diagnostic where
  code := .grammar .builderInvalid
  message := "Builder for " ++ rule ++ " returned " ++ result.typeName ++ ", not a Parser"
  hint := some "Return a Parser built from primitives and combinators"
  ruleName := some rule

/-- The builder of a rule used the rule before it was built. -/
def reentrantBuild (rule : String) : Diagnostic where
  code := .grammar .reentrantBuild
  message := "Builder for " ++ rule ++ " invoked " ++ rule ++ " before it was built"
  hint := some "Builders must only construct parsers, not run them"
  ruleName := some rule

/-- A mapping function handed back something that is not a value. -/
def mapResultInvalid (rule : String) (result : Plain) : Diagnostic where
  code := .grammar .mapResultInvalid
  message := "Mapping function of " ++ rule ++ " returned " ++ result.typeName
    ++ "; expected Atom, ValueList or Node"
  hint := some "Wrap author-defined results in Node(...)"
  ruleName := some rule

end Descent.Diagnostic
