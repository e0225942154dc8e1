-- SUMMARY: A report about a failure without causes repeats a diagnostic of the catalogue, but never its hint.
import Descent.Proofs.Accuracy
import Descent.Proofs.Reporting

/-! # Hints

Some diagnostics of the catalogue hint at what could be done. A failure without causes is made
from a diagnostic of the catalogue and takes over what it says was wrong and expected, but a
failure has no place for a hint. The diagnostic that a report makes of the failure gets a hint
by the kind of the failure, and no kind without causes has one. So the report repeats the
diagnostic of the catalogue without its hint: `Grammar.leaves_reported`. It is the sources that
end too early or go on too long for which the catalogue has a hint that no report shows. -/

namespace Descent

/-! ## The diagnostics of leaves -/

/-- The diagnostics of the catalogue that failures of a kind are made from. Failures of the other
    kinds are made of their causes. -/
inductive Diagnostic.Describes : FailureKind → Diagnostic → Prop
  | endOfInput (expected : String) : Describes .endOfInput (.endOfInput expected)
  | unexpectedChar (expected found : String) :
      Describes .unexpectedChar (.unexpectedChar expected found)
  | unexpectedLiteral (expected found : String) :
      Describes .unexpectedLiteral (.unexpectedLiteral expected found)
  | expectedEndOfInput (found : String) :
      Describes .expectedEndOfInput (.expectedEndOfInput found)
  | notExpected (rule : String) : Describes .notExpected (.notExpected rule)

/-- The catalogue has hints for a source that ends too early and for one that goes on. -/
theorem Diagnostic.Describes.hint_eq_none_iff {kind : FailureKind} {d : Diagnostic}
    (h : d.Describes kind) : d.hint = none ↔ kind ≠ .endOfInput ∧ kind ≠ .expectedEndOfInput := by
  cases h with
  | endOfInput => exact iff_of_false nofun fun hkind => hkind.1 rfl
  | expectedEndOfInput => exact iff_of_false nofun fun hkind => hkind.2 rfl
  | unexpectedChar | unexpectedLiteral | notExpected => exact iff_of_true rfl ⟨nofun, nofun⟩

/-- The failure is made from a diagnostic of the catalogue. -/
def Failure.Catalogued (f : Failure) : Prop :=
  ∃ (position : Nat) (d : Diagnostic), d.Describes f.kind ∧ f = ofDiagnostic f.kind position d

/-- What a grammar makes a leaf from is in the catalogue. -/
theorem Yields.leaf_catalogued {rules : Rules} {g : Grammar} {n : Cursor} {e : Failure}
    (hg : g.Makes) (h : Yields rules g n (.failure e)) (hleaf : e.causes = []) :
    e.Catalogued := by
  cases g with
  | char =>
    cases h with
    | char_end => exact ⟨_, _, .endOfInput _, rfl⟩
    | char_other => exact ⟨_, _, .unexpectedChar _ _, rfl⟩
  | satisfy =>
    cases h with
    | satisfy_end => exact ⟨_, _, .endOfInput _, rfl⟩
    | satisfy_other => exact ⟨_, _, .unexpectedChar _ _, rfl⟩
  | literal =>
    cases h with
    | literal_end => exact ⟨_, _, .endOfInput _, rfl⟩
    | literal_other => exact ⟨_, _, .unexpectedLiteral _ _, rfl⟩
  | eof =>
    cases h with
    | eof_rest => exact ⟨_, _, .expectedEndOfInput _, rfl⟩
  | absent =>
    cases h with
    | absent_found => exact ⟨_, _, .notExpected _, rfl⟩
  | seq | many1 => cases h <;> cases hleaf
  | _ => exact hg.elim

theorem Yields.leaves_catalogued {rules : Rules} {g : Grammar} {c : Cursor} {o : Outcome}
    (h : Yields rules g c o) : o.Fails fun e => e.causes = [] → e.Catalogued := by
  cases o with
  | success => trivial
  | failure f =>
    intro e he hleaf
    obtain ⟨_, _, ⟨-, hmakes⟩, -, hyields⟩ := h.leaf_made he hleaf
    exact hyields.leaf_catalogued hmakes hleaf

/-! ## What a report repeats -/

/-- The diagnostic with the place and the rule that a report adds to it. -/
def Diagnostic.placed (d : Diagnostic) (span : Span) (rule : Option String) : Diagnostic :=
  { d with span := some span, ruleName := rule }

/-- The diagnostic of a failure is the one that the failure was made from, at its place, but the
    hint is lost. -/
theorem Diagnostic.Describes.toDiagnostic {kind : FailureKind} {d : Diagnostic}
    (h : d.Describes kind) (position : Nat) (source : Source) (rule : Option String) :
    ∃ span : Span, span.Marks position source ∧
      (Failure.ofDiagnostic kind position d).toDiagnostic source rule =
        .ok { d.placed span rule with hint := none } := by
  obtain ⟨span, hmarks, hdiagnostic⟩ :=
    (Failure.ofDiagnostic kind position d).toDiagnostic_of_nonneg source
      (Int.natCast_nonneg position) rule
  refine ⟨span, hmarks, hdiagnostic.trans ?_⟩
  cases h <;> rfl

/-- The help line of the compiler style comes last. -/
theorem Formatter.compilerLines_hint (f : Formatter) (d : Diagnostic) (excerpt : List String) :
    f.compilerLines d excerpt = f.compilerLines { d with hint := none } excerpt ++
      (filled d.hint).toList.map ("  = help: " ++ f.clean ·) := by
  unfold compilerLines
  cases filled d.hint with
  | none => exact (List.append_nil _).symm
  | some hint =>
    refine congrArg (· ++ ["  = help: " ++ f.clean hint]) ?_
    exact (List.append_nil _).symm

/-- Every leaf of a failure that a grammar answers with, at a cursor or in a run, is made from a
    diagnostic of the catalogue. The diagnostic of the leaf is that one with a place and the name
    of a rule added to it and without its hint. So the hint is kept just where there is none,
    which is unless the source ends too early or goes on, and in the compiler style the help
    line is all that the report lacks. -/
theorem Grammar.leaves_reported {parts : Parts} (hauthor : ∀ fn, ¬ parts.author fn) {env : Env}
    (hrules : env.rules.Use parts) {g : Grammar} (hg : g.Uses parts) {s s' : State}
    (hs : s.Faithful env.rules) {source : Source} {f : Failure}
    (h : (∃ c : Cursor, c.source = source ∧ (g.call c).run env s = (.ok (.failure f), s')) ∨
      ∃ o, (g.run o source).run env s = (.ok (.failure f), s'))
    {e : Failure} (he : e ∈ f.leaves) :
    ∃ (position : Nat) (d : Diagnostic), d.Describes e.kind ∧
      e = .ofDiagnostic e.kind position d ∧
      (d.hint = none ↔ e.kind ≠ .endOfInput ∧ e.kind ≠ .expectedEndOfInput) ∧
      ∀ rule, ∃ span : Span, span.Marks position source ∧
        e.toDiagnostic source rule = .ok { d.placed span rule with hint := none } ∧
        ∀ formatter : Formatter, formatter.style = .compiler → ∃ lines,
          formatter.renderFailure e source rule = .ok ("\n".intercalate lines) ∧
          formatter.compilerLines (d.placed span rule) (Formatter.excerpt span source) =
            lines ++ (Formatter.filled d.hint).toList.map ("  = help: " ++ formatter.clean ·) := by
  have hcatalogued : e.Catalogued := by
    obtain ⟨he, hleaf⟩ := Failure.mem_leaves_iff.1 he
    rcases h with ⟨c, rfl, h⟩ | ⟨o, h⟩
    · exact (yields_of_call hauthor hrules hg hs h).1.leaves_catalogued e he hleaf
    · obtain ⟨out, hout, hyields⟩ := yields_of_run hauthor hrules hg hs h
      have hfails := hyields.leaves_catalogued.whole (fun v n found _ => ?_) o
      · rw [← hout] at hfails
        exact hfails e he hleaf
      · refine Failure.throughout_iff.2 ⟨fun _ => ?_, fun _ h => absurd h List.not_mem_nil⟩
        exact ⟨_, _, .expectedEndOfInput _, rfl⟩
  obtain ⟨position, d, hd, heq⟩ := hcatalogued
  refine ⟨position, d, hd, heq, hd.hint_eq_none_iff, fun rule => ?_⟩
  obtain ⟨span, hmarks, hdiagnostic⟩ := hd.toDiagnostic position source rule
  rw [← heq] at hdiagnostic
  refine ⟨span, hmarks, hdiagnostic, fun formatter hstyle => ?_⟩
  exact ⟨_, Failure.renderFailure_compiler hdiagnostic hstyle,
    formatter.compilerLines_hint (d.placed span rule) _⟩

/-- A parenthesis is open where the source ends. The hint that says so is not in the report. -/
theorem Grammar.leaves_reported_open :
    let source : Source := #['(']
    let env : Env := { rules := .nested }
    ∃ f e s', ((Grammar.ref "nested").run {} source).run env {} = (.ok (.failure f), s') ∧
      e ∈ f.leaves ∧ e.kind = .endOfInput ∧ ∃ (d : Diagnostic) (span : Span),
        d.Describes e.kind ∧ d.hint ≠ none ∧
        e.toDiagnostic source none = .ok { d.placed span none with hint := none } ∧
        ∃ lines, ({} : Formatter).renderFailure e source none = .ok ("\n".intercalate lines) := by
  intro source env
  have hrules : env.rules.Use .bare := Rules.nested_use _ fun _ => trivial
  have hg : Grammar.Uses .bare (.ref "nested") := trivial
  refine ⟨_, _, _, rfl, List.mem_cons_of_mem _ List.mem_cons_self, rfl, ?_⟩
  have hreported {f e s'}
      (h : ((Grammar.ref "nested").run {} source).run env {} = (.ok (.failure f), s'))
      (he : e ∈ f.leaves) :=
    leaves_reported (fun _ => id) hrules hg (State.faithful_init _) (.inr ⟨{}, h⟩) he
  obtain ⟨_, d, hd, -, hhint, hreport⟩ :=
    hreported rfl (List.mem_cons_of_mem _ List.mem_cons_self)
  obtain ⟨span, -, hdiagnostic, hrendered⟩ := hreport none
  obtain ⟨lines, hlines, -⟩ := hrendered {} rfl
  exact ⟨d, span, hd, fun h => (hhint.1 h).1 rfl, hdiagnostic, lines, hlines⟩

/-- A source that goes on after the match of a run. The catalogue has a hint for it, and the
    diagnostic of the failure has none. -/
theorem Grammar.leaves_reported_unhinted :
    let source : Source := #['a', 'b']
    let d : Diagnostic := .expectedEndOfInput "b"
    let f : Failure := .ofDiagnostic .expectedEndOfInput 1 d
    (((Grammar.char 'a').run {} source).run { rules := .nested } {}).1 = .ok (.failure f) ∧
      d.hint = some "Pass partial=True to accept a prefix of the input" ∧
      ∃ d', f.toDiagnostic source none = .ok d' ∧ d'.hint = none ∧ d'.hint ≠ d.hint := by
  intro source d f
  obtain ⟨_, -, hdiagnostic⟩ := f.toDiagnostic_of_nonneg source (by decide) none
  exact ⟨rfl, rfl, _, hdiagnostic, rfl, nofun⟩

end Descent
