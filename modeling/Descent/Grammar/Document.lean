-- SUMMARY: A small data format: integers, quoted texts, and arrays that nest through a rule.
import Descent.Grammar.Stock

/-! # A data format

A document is an integer, a text in double quotes, or an array of documents in
brackets, with commas between its items:

    value  ::= number | string | array
    number ::= "-"? digit+
    string ::= '"' (any character except '"')* '"'
    array  ::= "[" ws (value ws ("," ws value ws)*)? "]"

A text has no escapes, so it cannot hold a double quote. Arrays nest through a
rule, which refers to the parser of values. -/

namespace Descent

namespace Document

/-- A digit. -/
def digit : Grammar := .satisfy "digit" .digit

/-- An integer in decimal. -/
def number : Grammar :=
  .named "number" (.map (.seq (.optional (.char '-')) [.many1 digit]) Mapping.int)

/-- A text in double quotes. -/
def string : Grammar :=
  .named "string" (.map
    (.between (.char '"') (.many (.satisfy "string character" (.except "\""))) (.char '"'))
    Mapping.joined)

/-- A nested value and the blanks after it. -/
def item : Grammar := .token (.ref "value")

/-- The items of an array. -/
def elements : Grammar := .sepBy item (.token (.char ','))

/-- An array in brackets. -/
def array : Grammar :=
  .named "array" (.between (.token (.char '[')) elements (.char ']'))

/-- An integer, a text or an array. -/
def value : Grammar := .named "value" (.choice number [string, array])

/-- A value with blanks around it. -/
def whole : Grammar := .named "json" (.between .spaces value .spaces)

/-- The rule through which arrays nest. -/
def rules : Rules := .ofList [("value", { name := "value", body := .grammar value })]

end Document

end Descent
