-- SUMMARY: Grammars without names, descriptions and mapping functions, and failures without texts.
import Descent.Grammar.Stock
import Descent.Proofs.Parts

/-! # Outlines

The outline of a grammar has the same parsers at the same places, without names and
descriptions. The outline of a failure has the same causes at the same positions, without
texts. How failures are combined depends on their outlines only:
`Failure.alternatives?_outline`.

What becomes of mapping functions, and of the values that are compared, is left open. They
are kept or they are dropped together. -/

namespace Descent

/-! ## Failures -/

namespace Failure

mutual
/-- The failure without its texts. -/
def outline : Failure → Failure
  | ⟨kind, position, _, _, index, causes⟩ => ⟨kind, position, "", [], index, outlineAll causes⟩

/-- Several failures without their texts. -/
def outlineAll : List Failure → List Failure
  | [] => []
  | f :: fs => f.outline :: outlineAll fs
end

theorem outlineAll_eq_map (fs : List Failure) : outlineAll fs = fs.map outline := by
  induction fs with
  | nil => rfl
  | cons f fs ih => rw [outlineAll, ih, List.map_cons]

@[simp] theorem outline_kind (f : Failure) : f.outline.kind = f.kind := by cases f; rfl

@[simp] theorem outline_position (f : Failure) : f.outline.position = f.position := by
  cases f; rfl

@[simp] theorem outline_causes (f : Failure) : f.outline.causes = f.causes.map outline := by
  cases f
  exact outlineAll_eq_map _

theorem outline_mk (kind : FailureKind) (position : Int) (message : String)
    (expected : List String) (index : Option Int) (causes : List Failure) :
    (Failure.mk kind position message expected index causes).outline =
      ⟨kind, position, "", [], index, causes.map outline⟩ := by
  rw [outline, outlineAll_eq_map]

/-- Failures with the same outline are at the same position. -/
theorem position_of_outline {f f' : Failure} (h : f.outline = f'.outline) :
    f.position = f'.position := by
  rw [← f.outline_position, h, outline_position]

theorem ofElement_outline {f f' : Failure} (h : f.outline = f'.outline) (index : Nat) :
    (f.ofElement index).outline = (f'.ofElement index).outline := by
  simp only [ofElement, outline_mk, List.map_cons, List.map_nil, h, position_of_outline h]

theorem insufficient_outline {f f' : Failure} (h : f.outline = f'.outline)
    (parser parser' : String) (c : Cursor) :
    (f.insufficient parser c).outline = (f'.insufficient parser' c).outline := by
  simp only [insufficient, outline_mk, List.map_cons, List.map_nil, h]

theorem spliced_outline (f : Failure) : f.outline.spliced = f.spliced.map outline := by
  unfold spliced
  rw [outline_kind, outline_causes]
  split <;> rfl

theorem furthest_outline (f : Failure) (fs : List Failure) :
    furthest f.outline (fs.map outline) = (furthest f fs).outline := by
  induction fs generalizing f with
  | nil => rfl
  | cons g fs ih =>
    rw [List.map_cons, furthest, furthest, ← ih]
    congr 1
    simp only [outline_position]
    split <;> rfl

mutual
@[simp] theorem outline_outline (f : Failure) : f.outline.outline = f.outline := by
  cases f with
  | mk kind position message expected index causes =>
    rw [outline, outline, outlineAll_outlineAll causes]

theorem outlineAll_outlineAll (fs : List Failure) :
    outlineAll (outlineAll fs) = outlineAll fs := by
  cases fs with
  | nil => rfl
  | cons f fs => rw [outlineAll, outlineAll, outline_outline f, outlineAll_outlineAll fs]
end

theorem alternatives?_map_outline (bs : List Failure) :
    (alternatives? (bs.map outline)).map outline = (alternatives? bs).map outline := by
  have hspliced : (bs.map outline).flatMap spliced = (bs.flatMap spliced).map outline := by
    rw [List.flatMap_map, List.map_flatMap]
    simp only [spliced_outline]
  have hcauses (fs : List Failure) : (fs.map outline).map outline = fs.map outline := by
    rw [List.map_map]
    exact List.map_congr_left fun f _ => f.outline_outline
  unfold alternatives?
  rw [hspliced]
  cases bs.flatMap spliced with
  | nil => rfl
  | cons f fs =>
    simp only [List.map_cons, furthest_outline, outline_position, Option.map_some, outline_mk,
      outline_outline, hcauses]

/-- The outline of the failure of a choice depends on the outlines of its branches only. -/
theorem alternatives?_outline {bs bs' : List Failure} (h : bs.map outline = bs'.map outline) :
    (alternatives? bs).map outline = (alternatives? bs').map outline := by
  rw [← alternatives?_map_outline bs, h, alternatives?_map_outline]

end Failure

/-- What is compared of a fault: its class, and the position that it reports. -/
def Fault.outline (f : Fault) : ErrorClass × Option Int := (f.errorClass, f.report.position)

/-- All flaws of grammars are of one class and have no position. -/
theorem Fault.outline_grammar (d : Diagnostic) (cause : Option Fault) :
    (Fault.grammar d cause).outline = (.grammarDefinition, none) := by
  cases cause <;> rfl

/-! ## Grammars -/

/-- What becomes of values and of mapping functions in an outline. -/
structure Blur where
  value : Value → Value
  mapping : (Value → Reply) → Value → Reply

namespace Blur

/-- Values and mapping functions stay as they are. -/
def labels : Blur where
  value := id
  mapping := id

/-- Nothing is said about values, and mapping functions are dropped. -/
def all : Blur where
  value := fun _ => .list []
  mapping := fun _ => Mapping.same

end Blur

variable (k : Blur)

namespace Grammar

mutual
/-- The grammar without names and descriptions. -/
def outline : Grammar → Grammar
  | .char c => .char c
  | .literal s => .literal s
  | .satisfy _ p => .satisfy "" p
  | .eof => .eof
  | .spaces => .spaces
  | .either a b => .either a.outline b.outline
  | .choice p ps => .choice p.outline (outlineAll ps)
  | .both a b => .both a.outline b.outline
  | .absent p => .absent p.outline
  | .seq p ps => .seq p.outline (outlineAll ps)
  | .between o p c => .between o.outline p.outline c.outline
  | .many p => .many p.outline
  | .many1 p => .many1 p.outline
  | .optional p => .optional p.outline
  | .sepBy p sep => .sepBy p.outline sep.outline
  | .sepBy1 p sep => .sepBy1 p.outline sep.outline
  | .token p => .token p.outline
  | .map p f => .map p.outline (k.mapping f)
  | .mapRun p options inner => .mapRun p.outline options inner.outline
  | .named _ p => p.outline
  | .ref r => .ref r
  | .mark label p => .mark label p.outline
  | .author _ fn => .author "" fn

/-- Several grammars without names and descriptions. -/
def outlineAll : List Grammar → List Grammar
  | [] => []
  | p :: ps => p.outline :: outlineAll ps
end

theorem outlineAll_eq_map (gs : List Grammar) : outlineAll k gs = gs.map (outline k) := by
  induction gs with
  | nil => rfl
  | cons g gs ih => rw [outlineAll, ih, List.map_cons]

end Grammar

/-- The builder of the outline. -/
def Body.outline : Body → Body
  | .grammar g => .grammar (g.outline k)
  | .plain p => .plain p
  | .raise f => .raise f
  | .run used source next => .run used source next.outline
  | .tryRun used source next => .tryRun used source next.outline

/-- The rules without their names, and with the outlines of their builders. -/
def Rules.outline (rules : Rules) : Rules := fun r => { name := "", body := (rules r).body.outline k }

end Descent
