-- SUMMARY: Reports in the JSON style decode to what the diagnostic says, each part under a key of its own.
import Descent.Proofs.JsonTexts

/-! # Reports as JSON

Tools read reports in the JSON style. Such a report decodes to an object that has a field for
each part of the diagnostic and no other, whatever characters the texts have and wherever they
are cut: `Formatter.json_decodes`. No key stands twice because the keys are some of a fixed list,
in order. -/

namespace Descent

/-! ## What reports say -/

/-- What a report in the JSON style says about a diagnostic, and under which key. -/
inductive Formatter.Tells (f : Formatter) (d : Diagnostic) : String → Data → Prop
  | code : Tells f d "code" (.text d.code.name)
  | codeValue : Tells f d "code_value" (.int d.code.number)
  | message : Tells f d "message" (.text (f.clean d.message))
  | severity : Tells f d "severity" (.text d.severity)
  | line {s : Span} : d.span = some s → Tells f d "line" (.int s.line)
  | column {s : Span} : d.span = some s → Tells f d "column" (.int s.column)
  | start {s : Span} : d.span = some s → Tells f d "start" (.int s.start)
  | stop {s : Span} : d.span = some s → Tells f d "end" (.int s.stop)
  | ruleName {rule : String} : d.ruleName = some rule → rule ≠ "" →
      Tells f d "rule_name" (.text rule)
  | expected : d.expected ≠ [] → Tells f d "expected" (.array (d.expected.map .text))
  | hint {hint : String} : d.hint = some hint → hint ≠ "" → Tells f d "hint" (.text (f.clean hint))

/-- The text is one line that decodes to one object, which has no key twice and says what the
    relation says, and nothing else. -/
def Json.Says (text : String) (tells : String → Data → Prop) : Prop :=
  OneLine text ∧ ∃ fields : List (String × Data),
    (∀ d, Decodes text d ↔ d = .object fields) ∧ (fields.map Prod.fst).Nodup ∧
    ∀ key d, (key, d) ∈ fields ↔ tells key d

theorem Json.says_render {o : Object} {tells : String → Data → Prop}
    (hkeys : (o.map Prod.fst).Nodup) (hmem : ∀ key d, (key, d) ∈ o.data ↔ tells key d) :
    Says (render o) tells := by
  have heq : o.data.map Prod.fst = o.map Prod.fst := by
    rw [Object.data, List.map_map]
    rfl
  exact ⟨.render o, o.data, decodes_render o, heq ▸ hkeys, hmem⟩

/-! ## Fields -/

namespace Formatter

/-- All keys of reports, in order. -/
def keys : List String :=
  ["code", "code_value", "message", "severity", "line", "column", "start", "end", "rule_name",
   "expected", "hint"]

theorem filled_eq_some_iff {s : Option String} {t : String} :
    filled s = some t ↔ s = some t ∧ t ≠ "" := by
  cases s with
  | none => exact ⟨nofun, fun h => nomatch h.1⟩
  | some s =>
    unfold filled
    dsimp only
    split
    · rename_i hempty
      rw [String.isEmpty_iff] at hempty
      refine ⟨nofun, ?_⟩
      rintro ⟨⟨⟩, hne⟩
      exact absurd hempty hne
    · rename_i hfilled
      rw [String.isEmpty_iff] at hfilled
      refine ⟨?_, And.left⟩
      rintro ⟨⟩
      exact ⟨rfl, hfilled⟩

variable (f : Formatter) (d : Diagnostic)

/-- The keys of a report are some of all keys, in order. -/
theorem keys_fields_sublist : ((f.fields d).map Prod.fst).Sublist keys := by
  have hkeys : keys = ["code", "code_value", "message", "severity"] ++
    ["line", "column", "start", "end"] ++ ["rule_name"] ++ ["expected"] ++ ["hint"] := rfl
  rw [hkeys, fields]
  simp only [List.map_append]
  refine ((((List.Sublist.refl _).append ?_).append ?_).append ?_).append ?_
  · cases d.span with
    | none => exact List.nil_sublist _
    | some => exact List.Sublist.refl _
  · cases filled d.ruleName with
    | none => exact List.nil_sublist _
    | some => exact List.Sublist.refl _
  · cases d.expected.isEmpty with
    | true => exact List.nil_sublist _
    | false => exact List.Sublist.refl _
  · cases filled d.hint with
    | none => exact List.nil_sublist _
    | some => exact List.Sublist.refl _

variable {f d} {key : String} {v : Data}

theorem tells_of_mem_fields (h : (key, v) ∈ (f.fields d).data) : f.Tells d key v := by
  simp only [fields, Json.Object.data, List.map_append, List.mem_append] at h
  rcases h with (((h | h) | h) | h) | h
  · simp only [List.map_cons, List.map_nil, List.mem_cons, Prod.mk.injEq, List.not_mem_nil,
      or_false] at h
    rcases h with ⟨rfl, rfl⟩ | ⟨rfl, rfl⟩ | ⟨rfl, rfl⟩ | ⟨rfl, rfl⟩
    exacts [.code, .codeValue, .message, .severity]
  · cases hspan : d.span with
    | none =>
      rw [hspan] at h
      cases h
    | some s =>
      simp only [hspan, List.map_cons, List.map_nil, List.mem_cons, Prod.mk.injEq,
        List.not_mem_nil, or_false] at h
      rcases h with ⟨rfl, rfl⟩ | ⟨rfl, rfl⟩ | ⟨rfl, rfl⟩ | ⟨rfl, rfl⟩
      exacts [.line hspan, .column hspan, .start hspan, .stop hspan]
  · cases hrule : filled d.ruleName with
    | none =>
      rw [hrule] at h
      cases h
    | some rule =>
      rw [hrule] at h
      cases List.mem_singleton.1 h
      obtain ⟨hname, hne⟩ := filled_eq_some_iff.1 hrule
      exact .ruleName hname hne
  · split at h
    · cases h
    · rename_i hexpected
      cases List.mem_singleton.1 h
      exact .expected (mt List.isEmpty_iff.2 hexpected)
  · cases hhint : filled d.hint with
    | none =>
      rw [hhint] at h
      cases h
    | some hint =>
      rw [hhint] at h
      cases List.mem_singleton.1 h
      obtain ⟨hpresent, hne⟩ := filled_eq_some_iff.1 hhint
      exact .hint hpresent hne

theorem Tells.mem_fields (h : f.Tells d key v) : (key, v) ∈ (f.fields d).data := by
  simp only [fields, Json.Object.data, List.map_append, List.mem_append]
  cases h with
  | code | codeValue | message | severity =>
    refine .inl (.inl (.inl (.inl ?_)))
    simp [Json.Field.data]
  | line hspan | column hspan | start hspan | stop hspan =>
    refine .inl (.inl (.inl (.inr ?_)))
    simp [hspan, Json.Field.data]
  | ruleName hname hne =>
    refine .inl (.inl (.inr ?_))
    rw [filled_eq_some_iff.2 ⟨hname, hne⟩]
    exact List.mem_singleton_self _
  | expected hne =>
    refine .inl (.inr ?_)
    rw [if_neg (mt List.isEmpty_iff.1 hne)]
    exact List.mem_singleton_self _
  | hint hpresent hne =>
    refine .inr ?_
    rw [filled_eq_some_iff.2 ⟨hpresent, hne⟩]
    exact List.mem_singleton_self _

/-! ## Reports about failures -/

variable {failure : Failure}

theorem keys_failureFields_sublist (f : Formatter) (failure : Failure) (d : Diagnostic) :
    ((f.failureFields failure d).map Prod.fst).Sublist (keys ++ ["causes"]) := by
  rw [failureFields, List.map_append]
  refine (f.keys_fields_sublist d).append ?_
  cases failure.causes.isEmpty with
  | true => exact List.nil_sublist _
  | false => exact List.Sublist.refl _

theorem mem_failureFields_iff : (key, v) ∈ (f.failureFields failure d).data ↔
    f.Tells d key v ∨
      (failure.causes ≠ [] ∧ key = "causes" ∧ v = .int failure.causes.length) := by
  have hcauses : (key, v) ∈ Json.Object.data
      (if failure.causes.isEmpty then [] else [("causes", .number failure.causes.length)]) ↔
      failure.causes ≠ [] ∧ key = "causes" ∧ v = .int failure.causes.length := by
    cases failure.causes with
    | nil => exact ⟨nofun, fun h => absurd rfl h.1⟩
    | cons => simp [Json.Object.data, Json.Field.data]
  rw [failureFields, Json.Object.data, List.map_append, List.mem_append]
  exact or_congr ⟨tells_of_mem_fields, Tells.mem_fields⟩ hcauses

end Formatter

end Descent
