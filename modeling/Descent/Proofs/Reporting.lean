-- SUMMARY: Every failure that lies in or after its source can be reported, so a run that must succeed never fails to report.
import Descent.Proofs.Bounds
import Descent.Proofs.Lines

/-! # Reporting

A failure is shown against its source as one line, with the lines around it, as a
diagnostic, and in the three styles of the formatter. All of these refuse a position in
front of the source and take a position after it for its end, so they refuse the same
failures: `Failure.refused_or_shown`. The parts that could go wrong besides agree at all
boundaries, because the table of line starts names lines that the source has and the span
of one character ends inside the source.

No failure of a run lies in front of its source. A run that must succeed therefore ends as
the run does, or with the diagnostic of its failure: `Grammar.runToValue_reports`. -/

namespace Descent

/-! ## Reports about one failure -/

/-- The span marks the character at the position, or the end of the source from there on,
    and names a line of the source. -/
structure Span.Marks (s : Span) (position : Int) (source : Source) : Prop where
  start : (s.start : Int) = min position source.size
  start_le_stop : s.start ≤ s.stop
  stop_le_size : s.stop ≤ source.size
  width : s.stop - s.start = 1 ↔ s.start < source.size
  line : 1 ≤ s.line ∧ s.line ≤ source.lines.length
  column : 1 ≤ s.column

namespace Failure

/-- All reports about the failure are refused, as invalid values. -/
structure Refused (f : Failure) (source : Source) (rule : Option String) : Prop where
  onOneLine : ∃ e, f.onOneLine source = .error e ∧ (Fault.cursor e).errorClass = .invalidValue
  inContext : ∀ context, ∃ e, f.inContext source context = .error e ∧
    (Fault.cursor e).errorClass = .invalidValue
  toDiagnostic : ∃ e, f.toDiagnostic source rule = .error e ∧
    (Fault.span e).errorClass = .invalidValue
  rendered : ∀ formatter : Formatter, ∃ e, formatter.renderFailure f source rule = .error e ∧
    (Fault.span e).errorClass = .invalidValue

/-- All reports about the failure are given, and its diagnostic marks its place. -/
structure Shown (f : Failure) (source : Source) (rule : Option String) : Prop where
  onOneLine : ∃ line, f.onOneLine source = .ok line
  inContext : ∀ context, ∃ text, f.inContext source context = .ok text
  toDiagnostic : ∃ d s, f.toDiagnostic source rule = .ok d ∧ d.span = some s ∧
    s.Marks f.position source
  rendered : ∀ formatter : Formatter, ∃ text, formatter.renderFailure f source rule = .ok text

variable {f : Failure} {source : Source}

theorem clipped_neg (h : f.position < 0) : f.clipped source = f.position := by
  unfold clipped
  omega

theorem clipped_bounds (source : Source) (h : 0 ≤ f.position) :
    0 ≤ f.clipped source ∧ f.clipped source ≤ source.size := by
  unfold clipped
  omega

theorem lineColumn_of_neg (h : f.position < 0) :
    f.lineColumn source = .error (.outside f.position source.size) := by
  have hout : ¬ (0 ≤ f.position ∧ f.position ≤ source.size) := by omega
  rw [lineColumn, clipped_neg h, Cursor.at?, dif_neg hout]
  rfl

theorem lineColumn_of_nonneg (source : Source) (h : 0 ≤ f.position) :
    ∃ place, f.lineColumn source = .ok place := by
  rw [lineColumn, Cursor.at?, dif_pos (clipped_bounds source h)]
  exact ⟨_, rfl⟩

theorem onOneLine_of_nonneg (source : Source) (h : 0 ≤ f.position) :
    ∃ place, f.onOneLine source = .ok (f.headline place) := by
  obtain ⟨place, hplace⟩ := lineColumn_of_nonneg source h
  refine ⟨place, ?_⟩
  rw [onOneLine, hplace]
  rfl

theorem toDiagnostic_of_neg (h : f.position < 0) (rule : Option String) :
    f.toDiagnostic source rule = .error (.negativeStart f.position) := by
  unfold toDiagnostic
  rw [clipped_neg h]
  dsimp only
  rw [Span.of?, dif_pos h]
  rfl

/-- The diagnostic of a failure says what the failure says, at the place that the table of line
    starts gives. -/
theorem toDiagnostic_eq (source : Source) (h : 0 ≤ f.position) (rule : Option String) :
    ∃ s : Span, s.Marks f.position source ∧
      (s.line, s.column) = (LineTable.ofSource source).lineColumn (f.clipped source) ∧
      f.toDiagnostic source rule =
      .ok { code := .parse f.kind, message := f.message, span := some s, hint := f.hint,
            expected := f.expected, ruleName := rule } := by
  obtain ⟨hnonneg, hle⟩ := clipped_bounds source h
  obtain ⟨hline, hlast, hcolumn⟩ :=
    LineTable.lineColumn_ofSource source (f.clipped source)
  have hstart : ¬ f.clipped source < 0 := by omega
  have hstop : ¬ min (f.clipped source + 1) source.size < f.clipped source := by omega
  have hline' : ¬ (((LineTable.ofSource source).lineColumn (f.clipped source)).1 : Int) < 1 := by
    omega
  have hcolumn' : ¬ (((LineTable.ofSource source).lineColumn (f.clipped source)).2 : Int) < 1 := by
    omega
  unfold toDiagnostic Span.of?
  dsimp only
  rw [dif_neg hstart, dif_neg hstop, dif_neg hline', dif_neg hcolumn']
  refine ⟨_, ?_, rfl, rfl⟩
  exact {
    start := Int.toNat_of_nonneg hnonneg
    start_le_stop := by dsimp only; omega
    stop_le_size := by dsimp only; omega
    width := by dsimp only; omega
    line := ⟨hline, hlast⟩
    column := hcolumn }

theorem toDiagnostic_of_nonneg (source : Source) (h : 0 ≤ f.position) (rule : Option String) :
    ∃ s : Span, s.Marks f.position source ∧ f.toDiagnostic source rule =
      .ok { code := .parse f.kind, message := f.message, span := some s, hint := f.hint,
            expected := f.expected, ruleName := rule } := by
  obtain ⟨s, hmarks, -, hdiagnostic⟩ := toDiagnostic_eq source h rule
  exact ⟨s, hmarks, hdiagnostic⟩

section Styles

variable {formatter : Formatter} {rule : Option String} {d : Diagnostic}

theorem renderFailure_compiler (hd : f.toDiagnostic source rule = .ok d)
    (hstyle : formatter.style = .compiler) : formatter.renderFailure f source rule =
      .ok ("\n".intercalate (formatter.compilerLines d (Formatter.excerptOf d source))) := by
  rw [Formatter.renderFailure, hd]
  dsimp only [Bind.bind, Except.bind]
  rw [hstyle]
  rfl

theorem renderFailure_simple (hd : f.toDiagnostic source rule = .ok d)
    (hstyle : formatter.style = .simple) :
    formatter.renderFailure f source rule = .ok (formatter.simpleLine d) := by
  rw [Formatter.renderFailure, hd]
  dsimp only [Bind.bind, Except.bind]
  rw [hstyle]
  rfl

theorem renderFailure_json (hd : f.toDiagnostic source rule = .ok d)
    (hstyle : formatter.style = .json) : formatter.renderFailure f source rule =
      .ok (Json.render (formatter.failureFields f d)) := by
  rw [Formatter.renderFailure, hd]
  dsimp only [Bind.bind, Except.bind]
  rw [hstyle]
  rfl

end Styles

/-- A failure in front of its source is refused by all reports, every other is shown by
    all of them. -/
theorem refused_or_shown (f : Failure) (source : Source) (rule : Option String) :
    (f.position < 0 → f.Refused source rule) ∧ (0 ≤ f.position → f.Shown source rule) := by
  constructor
  · intro h
    refine ⟨⟨.outside f.position source.size, ?_, rfl⟩,
      fun context => ⟨.outside f.position source.size, ?_, rfl⟩,
      ⟨.negativeStart f.position, toDiagnostic_of_neg h rule, rfl⟩,
      fun formatter => ⟨.negativeStart f.position, ?_, rfl⟩⟩
    · rw [onOneLine, lineColumn_of_neg h]
      rfl
    · rw [inContext, lineColumn_of_neg h]
      rfl
    · rw [Formatter.renderFailure, toDiagnostic_of_neg h]
      rfl
  · intro h
    obtain ⟨place, hplace⟩ := lineColumn_of_nonneg source h
    obtain ⟨_, hline⟩ := onOneLine_of_nonneg source h
    obtain ⟨s, hmarks, hdiagnostic⟩ := toDiagnostic_of_nonneg source h rule
    refine ⟨⟨_, hline⟩, fun context => ?_, ⟨_, s, hdiagnostic, rfl, hmarks⟩, fun formatter => ?_⟩
    · rw [inContext, hplace]
      exact ⟨_, rfl⟩
    · rw [Formatter.renderFailure, hdiagnostic]
      exact ⟨_, rfl⟩

end Failure

/-! ## Runs that must succeed -/

/-- What a run that must succeed makes of an outcome that the run answers. -/
theorem Parser.run_runToValue_of_ok {p : Parser} {o : RunOptions} {source : Source} {env : Env}
    {s s' : State} {out : Outcome} (h : (p.run o source).run env s = (.ok out, s')) :
    (∀ v n, out = .success v n → ((p.runToValue o source).run env s).1 = .ok v) ∧
    ∀ f, out = .failure f → 0 ≤ f.position →
      ∃ d, f.toDiagnostic source (some p.name) = .ok d ∧
        ((p.runToValue o source).run env s).1 = .error (.failed d f source.text) := by
  constructor
  · rintro v n rfl
    rw [runToValue, Eval.run_bind_of_ok h]
    rfl
  · rintro f rfl hposition
    have hshown := (f.refused_or_shown source (some p.name)).2 hposition
    obtain ⟨d, -, hd, -⟩ := hshown.toDiagnostic
    obtain ⟨text, htext⟩ := hshown.rendered {}
    refine ⟨d, hd, ?_⟩
    rw [runToValue, Eval.run_bind_of_ok h]
    dsimp only
    rw [hd, htext]
    rfl

/-- No failure of a run lies in front of its source. -/
theorem Grammar.run_failure_nonneg {parts : Parts} (hauthor : ∀ fn, ¬ parts.author fn) {env : Env}
    (hrules : env.rules.Use parts) {g : Grammar} (hg : g.Uses parts) {o : RunOptions}
    {source : Source} {f : Failure} {s s' : State} (hs : s.Faithful env.rules)
    (h : (g.run o source).run env s = (.ok (.failure f), s')) :
    ∀ e, f.Contains e → 0 ≤ e.position := by
  obtain ⟨out, hout, hyields⟩ := Grammar.yields_of_run hauthor hrules hg hs h
  have hfails := hyields.inherits_whole Failure.spans_inherited o
  rw [← hout] at hfails
  intro e he
  exact (Int.natCast_nonneg _).trans (hfails e he).1

end Descent
