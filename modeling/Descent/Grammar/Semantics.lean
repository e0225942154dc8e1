-- SUMMARY: The parser that a grammar stands for, given how rules are reached and how runs are started.
import Descent.Parser.Choice
import Descent.Parser.Repetition
import Descent.Parser.Sequence

/-! # The meaning of grammars

Every constructor of a grammar stands for a combinator. Two things reach beyond
the grammar itself: a reference to a rule, and a mapping function that starts a
run of its own. How these are done is given from outside. -/

namespace Descent

/-- Runs a grammar over a text of its own. -/
abbrev RunGrammar := RunOptions → Grammar → String → Eval Outcome

/-- How a grammar reaches beyond itself. -/
structure Links where
  /-- The names of the rules. -/
  ruleName : Rule → String
  /-- Goes on with a rule at a cursor. -/
  delegate : Rule → Cursor → Eval Outcome
  /-- Starts a run inside a mapping function. -/
  runInner : RunGrammar

namespace Grammar

/-- What a mapping function makes of the outcome of a run that it started. -/
def replyOf : Outcome → Reply
  | .success v _ => .value v
  | .failure _ => .plain .failure

mutual
/-- The parser that a grammar stands for. -/
def denote (links : Links) : Grammar → Parser
  | .char c => .char c
  | .literal s => .literal s
  | .satisfy description p => .satisfy description p
  | .eof => .eof
  | .spaces => .spaces
  | .either a b => .either (a.denote links) (b.denote links)
  | .choice p ps => .choice (p.denote links) (denoteAll links ps)
  | .both a b => .both (a.denote links) (b.denote links)
  | .absent p => .absent (p.denote links)
  | .seq p ps => .seq (p.denote links) (denoteAll links ps)
  | .between o p c => .between (o.denote links) (p.denote links) (c.denote links)
  | .many p => .many (p.denote links)
  | .many1 p => .many1 (p.denote links)
  | .optional p => .optional (p.denote links)
  | .sepBy p sep => .sepBy (p.denote links) (sep.denote links)
  | .sepBy1 p sep => .sepBy1 (p.denote links) (sep.denote links)
  | .token p => .token (p.denote links)
  | .map p f => .map (p.denote links) f
  | .mapRun p options inner => .mapWith (p.denote links) fun v => do
      let outcome ← links.runInner options inner v.text
      return replyOf outcome
  | .named n p => (p.denote links).named n
  | .ref r => { name := links.ruleName r, fn := links.delegate r }
  | .mark label p => (p.denote links).mark label
  | .author n fn => .ofFn n fn

/-- The parsers that several grammars stand for. -/
def denoteAll (links : Links) : List Grammar → List Parser
  | [] => []
  | p :: ps => p.denote links :: denoteAll links ps
end

mutual
/-- The parser of a grammar has the name of the grammar. -/
theorem denote_name (links : Links) (g : Grammar) :
    (g.denote links).name = g.name links.ruleName := by
  cases g with
  | char | literal | satisfy | eof | spaces | ref | author => rfl
  | either a b | both a b | sepBy a b | sepBy1 a b =>
    simp only [denote, name, Parser.either, Parser.both, Parser.sepBy, Parser.sepBy1,
      denote_name links a, denote_name links b]
  | choice p ps | seq p ps =>
    simp only [denote, name, Parser.choice, Parser.seq, List.map_cons, denote_name links p,
      denoteAll_names links ps]
  | between o p c =>
    simp only [denote, name, Parser.between, denote_name links o, denote_name links p,
      denote_name links c]
  | absent p | many p | many1 p | optional p | token p | map p _ | mapRun p _ _ | mark _ p =>
    simp only [denote, name, Parser.absent, Parser.many, Parser.many1, Parser.optional,
      Parser.token, Parser.map, Parser.mapWith, Parser.mark, denote_name links p]
  | named n p => rfl

/-- The parsers of several grammars have their names. -/
theorem denoteAll_names (links : Links) (gs : List Grammar) :
    (denoteAll links gs).map (·.name) = names links.ruleName gs := by
  cases gs with
  | nil => rfl
  | cons g gs =>
    simp only [denoteAll, names, List.map_cons, denote_name links g, denoteAll_names links gs]
end

end Grammar

end Descent
