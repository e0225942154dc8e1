-- SUMMARY: Grammars as syntax: primitives, combinators, references to rules, and the bodies of rules.
import Descent.Engine.Deadline
import Descent.Engine.Guard
import Descent.Source.Cursor

/-! # Grammars

A grammar is a parser as it was written down. It refers to rules by their keys;
the body of a rule is looked up when the rule is first used, so rules may refer
to themselves and to one another. What a grammar means is in
`Descent.Grammar.Semantics`. -/

namespace Descent

/-! ## Outcomes -/

/-- The answer of a parser. -/
inductive Outcome
  /-- A value, and the cursor after the text that was matched. -/
  | success (value : Value) (next : Cursor)
  | failure (f : Failure)

namespace Outcome

/-- Whether the parser matched. -/
def isSuccess : Outcome → Bool
  | .success .. => true
  | .failure _ => false

end Outcome

/-! ## What authors write -/

/-- A call of a predicate that cancels the runs that watch for it: the calls of
    the predicate are counted under a key, and the call with the given number
    cancels. -/
structure Trigger where
  counter : Nat
  call : Nat
  deriving DecidableEq, Repr

/-- A test of one character. -/
structure Predicate where
  test : Char → Except Fault Bool
  trigger : Option Trigger := none

/-- The predicate of a plain test. -/
def Predicate.ofTest (test : Char → Bool) : Predicate where
  test := fun c => .ok (test c)

/-- What a mapping function answers. -/
inductive Reply
  | value (v : Value)
  | plain (p : Plain)
  | fault (f : Fault)

/-- The value in a reply of the mapping function of the named parser. -/
def Reply.toValue (name : String) : Reply → Except Fault Value
  | .value v => .ok v
  | .plain p => match p.value? with
    | some v => .ok v
    | none => .error (.mapping name p)
  | .fault f => .error f

/-- The default limit on the number of characters of a source. -/
def defaultMaxSize : Int := 10 * 1024 * 1024

/-- How a parser is run over a whole source. -/
structure RunOptions where
  /-- Whether input may be left over after a match. -/
  allowRest : Bool := false
  /-- The largest source that is accepted; zero or less accepts all. -/
  maxSize : Int := defaultMaxSize
  /-- The requested limit on nested delegations. -/
  maxDepth : Int := defaultMaxDepth
  /-- The time that the run may take. -/
  timeout : Option Timeout := none
  /-- Whether the run stops when it is cancelled. -/
  watched : Bool := false
  deriving DecidableEq, Repr

/-- A parser as it was written down. -/
inductive Grammar
  /-- One given character. -/
  | char (c : Char)
  /-- A given text. -/
  | literal (s : String)
  /-- One character that passes a test. -/
  | satisfy (description : String) (p : Predicate)
  /-- The end of the input. -/
  | eof
  /-- Any number of blanks. -/
  | spaces
  /-- The first parser, or else the second. -/
  | either (a b : Grammar)
  /-- The first of several parsers that matches. -/
  | choice (first : Grammar) (rest : List Grammar)
  /-- Both parsers from the same place; the second one counts. -/
  | both (a b : Grammar)
  /-- Not the parser. -/
  | absent (p : Grammar)
  /-- Several parsers, one after the other. -/
  | seq (first : Grammar) (rest : List Grammar)
  /-- A parser between two others, whose values are dropped. -/
  | between (opening content closing : Grammar)
  /-- A parser any number of times. -/
  | many (p : Grammar)
  /-- A parser at least once. -/
  | many1 (p : Grammar)
  /-- A parser or nothing. -/
  | optional (p : Grammar)
  /-- A parser any number of times, with separators. -/
  | sepBy (p sep : Grammar)
  /-- A parser at least once, with separators. -/
  | sepBy1 (p sep : Grammar)
  /-- A parser and the blanks after it. -/
  | token (p : Grammar)
  /-- A parser, and a function of its value. -/
  | map (p : Grammar) (f : Value → Reply)
  /-- A parser, and a run of another one over the text of its value. -/
  | mapRun (p : Grammar) (options : RunOptions) (inner : Grammar)
  /-- A parser under another name. -/
  | named (name : String) (p : Grammar)
  /-- A rule. -/
  | ref (rule : Rule)
  /-- A parser that leaves a mark whenever it is tried. -/
  | mark (label : String) (p : Grammar)
  /-- A parsing function written by the author. -/
  | author (name : String) (fn : Cursor → Outcome)

instance : Inhabited Grammar := ⟨.eof⟩

namespace Grammar

/-! ## Checked construction -/

/-- The parser of the single character of a text. -/
def char? (s : String) : Except Fault Grammar :=
  match s.toList with
  | [c] => .ok (.char c)
  | _ => .error (.definition (.notSingleChar s))

/-- The parser of a text that is not empty. -/
def literal? (s : String) : Except Fault Grammar :=
  if s.isEmpty then .error (.definition .emptyLiteral) else .ok (.literal s)

/-- The choice among several parsers, at least one. -/
def choice? : List Grammar → Except Fault Grammar
  | [] => .error (.definition .noAlternatives)
  | p :: ps => .ok (.choice p ps)

/-- The sequence of several parsers, at least one. -/
def seq? : List Grammar → Except Fault Grammar
  | [] => .error (.definition .noElements)
  | p :: ps => .ok (.seq p ps)

/-- Any character. -/
def anyChar : Grammar := .satisfy "any character" (.ofTest fun _ => true)

/-- One of the characters of a text. An empty description counts as none. -/
def charIn (chars : String) (description : Option String := none) : Grammar :=
  let label := match description with
    | some d => if d.isEmpty then "one of " ++ quote chars else d
    | none => "one of " ++ quote chars
  .satisfy label (.ofTest chars.toList.contains)

/-- A parser that always fails in the same way. -/
def fail (f : Failure) (name : String := "fail") : Grammar := .author name fun _ => .failure f

/-- A parser that always gives the same value and moves on by `n` characters. -/
def give (v : Value) (n : Int) : Grammar := .author "give" fun c => .success v (c.advance n)

/-! ## Names -/

mutual
/-- The name of a parser, given the names of the rules. -/
def name (rules : Rule → String) : Grammar → String
  | .char c => quoteChar c
  | .literal s => quote s
  | .satisfy description _ => description
  | .eof => "end of input"
  | .spaces => "whitespace"
  | .either a b => "(" ++ a.name rules ++ " | " ++ b.name rules ++ ")"
  | .choice p ps => "(" ++ " | ".intercalate (p.name rules :: names rules ps) ++ ")"
  | .both a b => "(" ++ a.name rules ++ " & " ++ b.name rules ++ ")"
  | .absent p => "!" ++ p.name rules
  | .seq p ps => "seq(" ++ ", ".intercalate (p.name rules :: names rules ps) ++ ")"
  | .between o p c => o.name rules ++ " " ++ p.name rules ++ " " ++ c.name rules
  | .many p => p.name rules ++ "*"
  | .many1 p => p.name rules ++ "+"
  | .optional p => p.name rules ++ "?"
  | .sepBy p sep => "sep_by(" ++ p.name rules ++ ", " ++ sep.name rules ++ ")"
  | .sepBy1 p sep => "sep_by1(" ++ p.name rules ++ ", " ++ sep.name rules ++ ")"
  | .token p => p.name rules
  | .map p _ => p.name rules
  | .mapRun p _ _ => p.name rules
  | .named n _ => n
  | .ref r => rules r
  | .mark _ p => p.name rules
  | .author n _ => n

/-- The names of several parsers. -/
def names (rules : Rule → String) : List Grammar → List String
  | [] => []
  | p :: ps => p.name rules :: names rules ps
end

/-- How a parser is shown: by its name, and whether it is a rule itself. -/
def shown (rules : Rule → String) (g : Grammar) : String :=
  let label := match g with
    | .ref _ => "Lazy"
    | _ => "Parser"
  "<" ++ label ++ " " ++ g.name rules ++ ">"

end Grammar

/-! ## Rules -/

/-- What the builder of a rule does. -/
inductive Body
  /-- It hands back a parser. -/
  | grammar (g : Grammar)
  /-- It hands back something else. -/
  | plain (p : Plain)
  /-- It raises an error. -/
  | raise (f : Fault)
  /-- It runs a rule over a text and goes on. -/
  | run (rule : Rule) (source : String) (next : Body)
  /-- The same, but a flaw of the grammar does not stop it. -/
  | tryRun (rule : Rule) (source : String) (next : Body)

instance : Inhabited Body := ⟨.plain .none⟩

/-- A rule: its name in messages and its builder. -/
structure RuleDef where
  name : String := "lazy"
  body : Body

/-- The rules of a grammar. -/
abbrev Rules := Rule → RuleDef

/-- The rules of a list. A key that is not in the list has a builder that
    raises an error. -/
def Rules.ofList (defs : List (Rule × RuleDef)) : Rules := fun rule =>
  (defs.lookup rule).getD { body := .raise (.authored .missingKey rule) }

end Descent
