-- SUMMARY: Messages show nothing of the source but quoted text, so every failure can be reported on one line.
import Descent.Proofs.Expectation
import Descent.Proofs.Numerals
import Descent.Proofs.Reporting

/-! # Legible messages

Failures name what was found in the source and what would have been accepted there. Found
text is quoted, and a quoted text is legible: none of its characters is a line feed or
another character that does not show. So if the names and descriptions that the author gave
are legible, nothing else gets into a message, whatever the source contains:
`Grammar.run_legible`. -/

namespace Descent

/-! ## Legible texts -/

/-- What holds of the characters of several texts and of those between them holds of all. -/
theorem forall_mem_intercalate {P : Char → Prop} {sep : String} {ss : List String}
    (hsep : ∀ c ∈ sep.toList, P c) (h : ∀ s ∈ ss, ∀ c ∈ s.toList, P c) :
    ∀ c ∈ (sep.intercalate ss).toList, P c := by
  induction ss with
  | nil => exact nofun
  | cons s ss ih =>
    have hs := h s List.mem_cons_self
    have hss := ih fun t ht => h t (List.mem_cons_of_mem s ht)
    cases ss with
    | nil =>
      rw [String.intercalate_singleton]
      exact hs
    | cons t ts =>
      intro c hc
      rw [String.intercalate_cons_of_ne_nil (List.cons_ne_nil t ts), String.toList_append,
        String.toList_append, List.mem_append, List.mem_append] at hc
      rcases hc with (hc | hc) | hc
      · exact hs c hc
      · exact hsep c hc
      · exact hss c hc

/-- All characters of the text show as themselves. -/
def Legible (s : String) : Prop := ∀ c ∈ s.toList, isPrintable c = true

instance (s : String) : Decidable (Legible s) :=
  List.decidableBAll (isPrintable · = true) s.toList

namespace Legible

variable {s t : String}

theorem append (hs : Legible s) (ht : Legible t) : Legible (s ++ t) := by
  intro c hc
  rw [String.toList_append, List.mem_append] at hc
  exact hc.elim (hs c) (ht c)

theorem ofList {cs : List Char} (h : ∀ c ∈ cs, isPrintable c = true) :
    Legible (String.ofList cs) := by
  rw [Legible, String.toList_ofList]
  exact h

theorem intercalate {ss : List String} (hsep : Legible s) (h : ∀ t ∈ ss, Legible t) :
    Legible (s.intercalate ss) := forall_mem_intercalate hsep h

/-- A legible text is a single line. -/
theorem newline_not_mem (h : Legible s) : '\n' ∉ s.toList := by
  intro hmem
  have hprintable := h '\n' hmem
  exact absurd hprintable (by decide)

theorem before (h : Legible s) (n : Int) : Legible (Text.before s n) :=
  .ofList fun c hc => h c (List.mem_of_mem_take hc)

/-- Cutting a text off leaves it legible. -/
theorem clean (h : Legible s) (f : Formatter) : Legible (f.clean s) := by
  unfold Formatter.clean
  split
  · exact (h.before _).append (by decide)
  · exact h

end Legible

/-! ## Numbers and quotations -/

theorem Digits.printable_toChar {d : Nat} (h : d < 16) : isPrintable (toChar d) = true := by
  have hall : ∀ d < 16, isPrintable (toChar d) = true := by decide
  exact hall d h

theorem Digits.printable_fixed (width n : Nat) :
    ∀ c ∈ fixed 16 width n, isPrintable c = true := by
  intro c hc
  obtain ⟨d, hd, rfl⟩ := mem_fixed (by decide) hc
  exact printable_toChar hd

theorem Digits.printable_decimal (n : Nat) : ∀ c ∈ decimal n, isPrintable c = true := by
  intro c hc
  obtain ⟨d, hd, rfl⟩ := mem_decimal hc
  exact printable_toChar (by omega)

theorem legible_decimalText (n : Int) : Legible (decimalText n) := by
  have hdigits : Legible (String.ofList (Digits.decimal n.natAbs)) :=
    .ofList (Digits.printable_decimal _)
  unfold decimalText
  split
  · exact .append (by decide) hdigits
  · exact hdigits

namespace Quoted

theorem printable_mark (cs : List Char) : isPrintable (mark cs) = true := by
  unfold mark
  split <;> decide

theorem printable_numeric (n : Nat) : ∀ c ∈ numeric n, isPrintable c = true := by
  have hescape {letter : Char} (hletter : isPrintable letter = true) (width : Nat) :
      ∀ c ∈ '\\' :: letter :: Digits.fixed 16 width n, isPrintable c = true :=
    List.forall_mem_cons.2 ⟨by decide,
      List.forall_mem_cons.2 ⟨hletter, Digits.printable_fixed width n⟩⟩
  unfold numeric
  split
  · exact hescape (by decide) 2
  · split
    · exact hescape (by decide) 4
    · exact hescape (by decide) 8

/-- Whatever the character is, it is written with characters that show. -/
theorem printable_escape {q : Char} (hq : isPrintable q = true) (ch : Char) :
    ∀ c ∈ escape q ch, isPrintable c = true := by
  have hpair {letter : Char} (h : isPrintable letter = true) :
      ∀ c ∈ ['\\', letter], isPrintable c = true :=
    List.forall_mem_cons.2 ⟨by decide, List.forall_mem_singleton.2 h⟩
  unfold escape
  split
  · rename_i hch
    refine hpair ?_
    rcases hch with rfl | rfl
    · exact hq
    · decide
  · split
    · exact hpair (by decide)
    · split
      · exact hpair (by decide)
      · split
        · exact hpair (by decide)
        · split
          · exact List.forall_mem_singleton.2 ‹_›
          · exact printable_numeric _

theorem printable_chars (cs : List Char) : ∀ c ∈ chars cs, isPrintable c = true := by
  have hmark := printable_mark cs
  intro c hc
  rw [chars, List.cons_append, List.mem_cons, List.mem_append, List.mem_flatMap,
    List.mem_singleton] at hc
  rcases hc with rfl | ⟨ch, -, hc⟩ | rfl
  · exact hmark
  · exact printable_escape hmark ch c hc
  · exact hmark

end Quoted

theorem legible_quote (s : String) : Legible (quote s) := .ofList (Quoted.printable_chars _)

theorem legible_quoteChar (c : Char) : Legible (quoteChar c) := .ofList (Quoted.printable_chars _)

/-! ## Names -/

namespace Grammar

mutual
/-- The names and descriptions in a grammar that its author gave have a property, those of
    the rules included. Characters and texts to be matched are not among them, nor are the
    names in runs that mapping functions start. -/
def Labels (P : String → Prop) (rules : Rule → String) : Grammar → Prop
  | .char _ => True
  | .literal _ => True
  | .satisfy description _ => P description
  | .eof => True
  | .spaces => True
  | .either a b => a.Labels P rules ∧ b.Labels P rules
  | .choice p ps => p.Labels P rules ∧ AllLabels P rules ps
  | .both a b => a.Labels P rules ∧ b.Labels P rules
  | .absent p => p.Labels P rules
  | .seq p ps => p.Labels P rules ∧ AllLabels P rules ps
  | .between o p c => o.Labels P rules ∧ p.Labels P rules ∧ c.Labels P rules
  | .many p => p.Labels P rules
  | .many1 p => p.Labels P rules
  | .optional p => p.Labels P rules
  | .sepBy p sep => p.Labels P rules ∧ sep.Labels P rules
  | .sepBy1 p sep => p.Labels P rules ∧ sep.Labels P rules
  | .token p => p.Labels P rules
  | .map p _ => p.Labels P rules
  | .mapRun p _ _ => p.Labels P rules
  | .named n p => P n ∧ p.Labels P rules
  | .ref r => P (rules r)
  | .mark _ p => p.Labels P rules
  | .author n _ => P n

/-- The names and descriptions in several grammars have a property. -/
def AllLabels (P : String → Prop) (rules : Rule → String) : List Grammar → Prop
  | [] => True
  | p :: ps => p.Labels P rules ∧ AllLabels P rules ps
end

/-- The description that is made up for a set of characters is legible, whatever these are. -/
theorem charIn_labels (chars : String) {description : Option String}
    (h : ∀ d, description = some d → Legible d) (rules : Rule → String) :
    (charIn chars description).Labels Legible rules := by
  have hquoted : Legible ("one of " ++ quote chars) := .append (by decide) (legible_quote chars)
  unfold charIn
  cases description with
  | none => exact hquoted
  | some d =>
    dsimp only [Labels]
    split
    · exact hquoted
    · exact h d rfl

variable {rules : Rule → String}

theorem legible_names {ps : List Grammar} (hps : AllLabels Legible rules ps)
    (h : ∀ p ∈ ps, p.Labels Legible rules → Legible (p.name rules)) :
    ∀ t ∈ names rules ps, Legible t := by
  induction ps with
  | nil => exact nofun
  | cons p ps ih =>
    refine List.forall_mem_cons.2 ⟨h p List.mem_cons_self hps.1, ?_⟩
    exact ih hps.2 fun q hq => h q (List.mem_cons_of_mem p hq)

/-- Names are put together from labels, quotations and fixed texts. -/
theorem legible_name {g : Grammar} (hg : g.Labels Legible rules) : Legible (g.name rules) := by
  induction g with
  | char c => exact legible_quoteChar c
  | literal s => exact legible_quote s
  | satisfy | ref | author => exact hg
  | eof | spaces =>
    unfold name
    decide
  | either a b ha hb | both a b ha hb | sepBy a b ha hb | sepBy1 a b ha hb =>
    unfold name
    exact .append (.append (.append (.append (by decide) (ha hg.1)) (by decide)) (hb hg.2))
      (by decide)
  | choice p ps hp hps | seq p ps hp hps =>
    have hnames : ∀ t ∈ p.name rules :: names rules ps, Legible t :=
      List.forall_mem_cons.2 ⟨hp hg.1, legible_names hg.2 hps⟩
    unfold name
    exact .append (.append (by decide) (.intercalate (by decide) hnames)) (by decide)
  | absent p hp => exact .append (by decide) (hp hg)
  | between o p c ho hp hc =>
    unfold name
    exact .append (.append (.append (.append (ho hg.1) (by decide)) (hp hg.2.1)) (by decide))
      (hc hg.2.2)
  | many p hp | many1 p hp | optional p hp => exact .append (hp hg) (by decide)
  | token p hp | map p _ hp | mapRun p _ _ hp | mark _ p hp => exact hp hg
  | named n p hp => exact hg.1

end Grammar

/-! ## Failures -/

/-- A message is legible, and so is everything that is listed as expected. -/
def Readable (message : String) (expected : List String) : Prop :=
  Legible message ∧ ∀ e ∈ expected, Legible e

/-- The failure can be read. -/
def Failure.IsReadable (f : Failure) : Prop := Readable f.message f.expected

/-- The diagnostic can be read. -/
def Diagnostic.IsReadable (d : Diagnostic) : Prop := Readable d.message d.expected

namespace Diagnostic

variable {expected rule : String}

theorem readable_endOfInput (h : Legible expected) : (endOfInput expected).IsReadable :=
  ⟨.append (by decide) h, List.forall_mem_singleton.2 h⟩

theorem readable_unexpectedChar (h : Legible expected) (found : String) :
    (unexpectedChar expected found).IsReadable :=
  ⟨.append (.append (.append (by decide) h) (by decide)) (legible_quote found),
    List.forall_mem_singleton.2 h⟩

theorem readable_unexpectedLiteral (expected found : String) :
    (unexpectedLiteral expected found).IsReadable :=
  ⟨.append (.append (.append (by decide) (legible_quote expected)) (by decide))
    (legible_quote found), List.forall_mem_singleton.2 (legible_quote expected)⟩

theorem readable_expectedEndOfInput (found : String) :
    (expectedEndOfInput found).IsReadable :=
  ⟨.append (by decide) (legible_quote found), List.forall_mem_singleton.2 (by decide)⟩

theorem readable_notExpected (h : Legible rule) : (notExpected rule).IsReadable :=
  ⟨.append (by decide) h, nofun⟩

end Diagnostic

namespace Failure

theorem Throughout.element {f : Failure} (h : f.Throughout IsReadable) (index : Nat) :
    (f.ofElement index).Throughout IsReadable :=
  throughout_iff.2 ⟨h f (.self f), List.forall_mem_singleton.2 h⟩

theorem Throughout.insufficient {f : Failure} (h : f.Throughout IsReadable) {parser : String}
    (hparser : Legible parser) (c : Cursor) :
    (f.insufficient parser c).Throughout IsReadable := by
  obtain ⟨hmessage, hexpected⟩ := h f (.self f)
  refine throughout_iff.2 ⟨⟨?_, hexpected⟩, List.forall_mem_singleton.2 h⟩
  exact .append (.append (.append (by decide) hparser) (by decide)) hmessage

/-- A failed choice repeats what its causes say. -/
theorem readable_of_alternatives {bs : List Failure} {h : Failure}
    (hh : alternatives? bs = some h) (hcauses : ∀ e ∈ h.causes, e.IsReadable) : h.IsReadable := by
  obtain ⟨-, ⟨e, he, -, hmessage⟩, hexpected⟩ := eq_of_alternatives hh
  refine ⟨?_, fun t ht => ?_⟩
  · rw [← hmessage]
    exact (hcauses e he).1
  · rw [hexpected] at ht
    obtain ⟨g, hg, -, ht⟩ := mem_expectedAt.1 ht
    exact (hcauses g hg).2 t ht

end Failure

theorem Outcome.fails_readable {d : Diagnostic} (h : d.IsReadable) (c : Cursor)
    (kind : FailureKind) : (failAt c kind d).Fails Failure.IsReadable :=
  Failure.throughout_iff.2 ⟨h, nofun⟩

/-- The labels of a piece have a property. -/
def Piece.Labels (P : String → Prop) (rules : Rule → String) : Piece → Prop
  | .whole g => g.Labels P rules
  | .rounds p sep => p.Labels P rules ∧ sep.Labels P rules

/-- The names of the rules and the labels in the parsers that their builders hand back have
    a property. -/
def Rules.Label (rules : Rules) (P : String → Prop) : Prop :=
  ∀ r g, (rules r).body.parser? = some g → g.Labels P rules.ruleName

open Outcome Diagnostic in
/-- All failures that a grammar with legible labels yields can be read, whatever the source
    is. -/
theorem Yields.readable {rules : Rules} (hrules : rules.Label Legible) {x : Piece} {c : Cursor}
    {o : Outcome} (h : Yields rules x c o) (hx : x.Labels Legible rules.ruleName) :
    o.Fails Failure.IsReadable := by
  induction h with
  | char | literal | satisfy | eof | spaces => trivial
  | char_end => exact fails_readable (readable_endOfInput (legible_quoteChar _)) _ _
  | literal_end => exact fails_readable (readable_endOfInput (legible_quote _)) _ _
  | satisfy_end => exact fails_readable (readable_endOfInput hx) _ _
  | char_other => exact fails_readable (readable_unexpectedChar (legible_quoteChar _) _) _ _
  | satisfy_other => exact fails_readable (readable_unexpectedChar hx _) _ _
  | literal_other => exact fails_readable (readable_unexpectedLiteral _ _) _ _
  | eof_rest => exact fails_readable (readable_expectedEndOfInput _) _ _
  | @absent_found p _ _ _ _ _ =>
    have hname : Legible (p.name rules.ruleName) := Grammar.legible_name hx
    exact fails_readable (readable_notExpected hname) _ _
  | either_first | either_second | choice_last | absent => trivial
  | either_none _ _ hh ha hb =>
    refine .alternatives ?_ hh (Failure.readable_of_alternatives hh)
    exact List.forall_mem_cons.2 ⟨ha hx.1, List.forall_mem_singleton.2 (hb hx.2)⟩
  | choice_none _ hh hp =>
    exact .alternatives (List.forall_mem_singleton.2 (hp hx.1)) hh
      (Failure.readable_of_alternatives hh)
  | choice_next _ ih => exact ih ⟨hx.1, hx.2⟩
  | both_first _ ha => exact ha hx.1
  | both _ _ _ hb => exact hb hx.2
  | seq_first _ hp => exact (hp hx.1).element 0
  | seq_last | seq_next | between | token => trivial
  | seq_later _ _ _ hps => exact (hps hx.2).of_ofElement.element _
  | between_opening _ ho => exact ho hx.1
  | between_content _ _ _ hp => exact hp hx.2.1
  | between_closing _ _ _ _ _ hc => exact hc hx.2.2
  | token_first _ hp | mark _ hp | map_none _ hp | mapRun_none _ hp => exact hp hx
  | named _ hp => exact hp hx.2
  | many_end | many_still | many_more | many1_still | many1_more => trivial
  | @many1_none p c _ _ hp =>
    have hname : Legible (p.name rules.ruleName) := Grammar.legible_name hx
    exact (hp hx).insufficient hname c
  | optional | optional_none | rounds_end | rounds_back | rounds_still | rounds_more => trivial
  | sepBy_none | sepBy | sepBy1 | map | mapRun => trivial
  | sepBy1_none _ hp => exact hp hx.1
  | ref hg _ ih => exact ih (hrules _ _ hg)

/-! ## Reports on one line -/

namespace Failure

variable {f : Failure} {source : Source}

theorem legible_onOneLine (hf : f.IsReadable) (h : 0 ≤ f.position) :
    ∃ line, f.onOneLine source = .ok line ∧ Legible line := by
  obtain ⟨place, hline⟩ := onOneLine_of_nonneg source h
  have hline' : Legible (decimalText place.1 ++ ":" ++ decimalText place.2) :=
    .append (.append (legible_decimalText _) (by decide)) (legible_decimalText _)
  exact ⟨_, hline, (hline'.append (by decide)).append hf.1⟩

theorem legible_simple (hf : f.IsReadable) (h : 0 ≤ f.position) {formatter : Formatter}
    (hstyle : formatter.style = .simple) (rule : Option String) :
    ∃ line, formatter.renderFailure f source rule = .ok line ∧ Legible line := by
  obtain ⟨s, -, hdiagnostic⟩ := toDiagnostic_of_nonneg source h rule
  have hcode : Legible f.kind.name := by cases f.kind <;> decide
  have hplace : Legible
      (f.kind.name ++ " at " ++ decimalText s.line ++ ":" ++ decimalText s.column ++ ": ") :=
    .append (.append (.append (.append (.append hcode (by decide)) (legible_decimalText _))
      (by decide)) (legible_decimalText _)) (by decide)
  exact ⟨_, renderFailure_simple hdiagnostic hstyle, hplace.append (hf.1.clean formatter)⟩

end Failure

/-- The source cannot get anything that does not show into a report. If the names and the
    descriptions that the author gave are legible, then so are the message and the list of
    what was expected of every failure in the tree of a failed run, and the failure is shown
    on a single line both by itself and in the short style. -/
theorem Grammar.run_legible {parts : Parts} (hauthor : ∀ fn, ¬ parts.author fn) {env : Env}
    (hrules : env.rules.Use parts) (hlabels : env.rules.Label Legible) {g : Grammar}
    (hg : g.Uses parts) (hnames : g.Labels Legible env.rules.ruleName) {s s' : State}
    (hs : s.Faithful env.rules) {o : RunOptions} {source : Source} {f : Failure}
    (h : (g.run o source).run env s = (.ok (.failure f), s')) {b : Failure} (hb : f.Contains b) :
    Legible b.message ∧ (∀ e ∈ b.expected, Legible e) ∧
      (∃ line, b.onOneLine source = .ok line ∧ Legible line ∧ '\n' ∉ line.toList) ∧
      ∀ (formatter : Formatter) (rule : Option String), formatter.style = .simple →
        ∃ line, formatter.renderFailure b source rule = .ok line ∧ Legible line ∧
          '\n' ∉ line.toList := by
  have hposition : 0 ≤ b.position := run_failure_nonneg hauthor hrules hg hs h b hb
  have hreadable : b.IsReadable := by
    obtain ⟨out, hout, hyields⟩ := yields_of_run hauthor hrules hg hs h
    have hfails : (out.whole o).Fails Failure.IsReadable := by
      refine (hyields.readable hlabels hnames).whole (fun _ c found _ => ?_) o
      exact Outcome.fails_readable (Diagnostic.readable_expectedEndOfInput _) c _
    rw [← hout] at hfails
    exact hfails b hb
  refine ⟨hreadable.1, hreadable.2, ?_, fun formatter rule hstyle => ?_⟩
  · obtain ⟨line, hline, hlegible⟩ := Failure.legible_onOneLine hreadable hposition
    exact ⟨line, hline, hlegible, hlegible.newline_not_mem⟩
  · obtain ⟨line, hline, hlegible⟩ := Failure.legible_simple hreadable hposition hstyle rule
    exact ⟨line, hline, hlegible, hlegible.newline_not_mem⟩

theorem Rules.nested_label : Rules.nested.Label Legible := by
  have hname : Legible "nested" := by decide
  rintro r g ⟨⟩
  exact ⟨⟨trivial, hname, trivial⟩, trivial⟩

/-- Neither a line feed among the accepted characters nor an escape in the source reaches a
    message as it is. -/
theorem Grammar.run_legible_escaped :
    let g : Grammar := .choice (.charIn "\n\t") [.literal "\n", .ref "nested"]
    let source : Source := #['\x1b', '\n']
    ∃ f s', (g.run {} source).run { rules := .nested } {} = (.ok (.failure f), s') ∧
      f.message = "Expected 'x' but found '\\x1b'" ∧ ∀ b, f.Contains b → Legible b.message ∧
        ∃ line, b.onOneLine source = .ok line ∧ '\n' ∉ line.toList := by
  intro g source
  have huses : g.Uses { Parts.bare with predicate := fun _ => True } :=
    ⟨trivial, trivial, trivial, trivial⟩
  have hname : Legible (Rules.nested.ruleName "nested") := by decide
  have hcharIn : (charIn "\n\t").Labels Legible Rules.nested.ruleName :=
    charIn_labels _ (fun d hd => absurd hd.symm (Option.some_ne_none d)) _
  have hlabels : g.Labels Legible Rules.nested.ruleName := ⟨hcharIn, trivial, hname, trivial⟩
  have hrun : ∃ f s', (g.run {} source).run { rules := .nested } {} = (.ok (.failure f), s') ∧
      f.message = "Expected 'x' but found '\\x1b'" := ⟨_, _, rfl, by decide⟩
  obtain ⟨f, s', hrun, hfound⟩ := hrun
  refine ⟨f, s', hrun, hfound, fun b hb => ?_⟩
  obtain ⟨hmessage, -, ⟨line, hline, -, hnewline⟩, -⟩ :=
    Grammar.run_legible (fun _ => id) (Rules.nested_use _ fun _ => trivial) Rules.nested_label
      huses hlabels (State.faithful_init _) hrun hb
  exact ⟨hmessage, line, hline, hnewline⟩

end Descent
