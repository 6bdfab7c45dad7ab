import Dalston.Model.Json

/-!
# Artifact bindings

A binding says which artifact of an earlier stage fills an input slot of a
task. Bindings travel as JSON: a builder dumps them, the database keeps them
in a configuration column, and the scheduler validates them again.

## Implementation notes

Validation accepts the JSON type of each field. The coercions pydantic makes
from other types are left out: no writer of a binding produces them.
-/

namespace Dalston.Model

open Foundation

/-- Describes which upstream artifact should fill an input slot. -/
structure ArtifactSelector where
  producerStage : String
  kind : String
  channel : Option Nat
  role : Option String
  required : Bool
  producerStage_ne : producerStage ≠ ""
  kind_ne : kind ≠ ""
  deriving DecidableEq

/-- Binds an input slot to a selector. -/
structure RequestBinding where
  slot : String
  selector : ArtifactSelector
  slot_ne : slot ≠ ""
  deriving DecidableEq

structure ArtifactReference where
  artifactId : String
  kind : String
  storageLocator : String
  channel : Option Nat
  role : Option String
  producerStage : Option String

namespace ArtifactSelector

/-- `model_dump(exclude_none=True)`. -/
def modelDump (selector : ArtifactSelector) : Config :=
  [("producer_stage", .str selector.producerStage), ("kind", .str selector.kind)] ++
    (selector.channel.map fun channel => ("channel", Json.num channel)).toList ++
    (selector.role.map fun role => ("role", Json.str role)).toList ++
    [("required", .bool selector.required)]

/-- A string of at least one character. -/
def nonempty : Option Json → Option {s : String // s ≠ ""}
  | some (.str s) => if h : s ≠ "" then some ⟨s, h⟩ else none
  | _ => none

/-- An optional integer that is not negative. -/
def optNat : Option Json → Option (Option Nat)
  | none | some .null => some none
  | some (.num q) => if q.den = 1 ∧ 0 ≤ q.num then some (some q.num.toNat) else none
  | _ => none

def optStr : Option Json → Option (Option String)
  | none | some .null => some none
  | some (.str s) => some (some s)
  | _ => none

/-- A truth value, with its default when the field is missing. -/
def boolOr (default : Bool) : Option Json → Option Bool
  | none => some default
  | some (.bool b) => some b
  | _ => none

def fields : List String := ["producer_stage", "kind", "channel", "role", "required"]

/-- `model_validate` with `extra="forbid"`. -/
def modelValidate (value : Json) : Option ArtifactSelector :=
  match value with
  | .obj config =>
      if config.all fun kv => kv.1 ∈ fields then do
        let producerStage ← nonempty (Dict.get? config "producer_stage")
        let kind ← nonempty (Dict.get? config "kind")
        let channel ← optNat (Dict.get? config "channel")
        let role ← optStr (Dict.get? config "role")
        let required ← boolOr true (Dict.get? config "required")
        return {
          producerStage := producerStage.1, kind := kind.1, channel, role, required
          producerStage_ne := producerStage.2, kind_ne := kind.2 }
      else none
  | _ => none

@[simp] theorem optNat_natCast (n : Nat) : optNat (some (.num n)) = some (some n) := by
  simp [optNat]

theorem modelValidate_modelDump (selector : ArtifactSelector) :
    modelValidate (.obj selector.modelDump) = some selector := by
  obtain ⟨producerStage, kind, channel, role, required, hproducer, hkind⟩ := selector
  cases channel <;> cases role <;>
    simp [modelValidate, modelDump, fields, Dict.get?_cons, nonempty, optStr, boolOr,
      hproducer, hkind] <;> simp [optNat]

end ArtifactSelector

namespace RequestBinding

def modelDump (binding : RequestBinding) : Json :=
  .obj [("slot", .str binding.slot), ("selector", .obj binding.selector.modelDump)]

def modelValidate (value : Json) : Option RequestBinding :=
  match value with
  | .obj config =>
      if config.all fun kv => kv.1 ∈ ["slot", "selector"] then do
        let slot ← ArtifactSelector.nonempty (Dict.get? config "slot")
        let selector ← ArtifactSelector.modelValidate (Dict.getD config "selector" .null)
        return { slot := slot.1, selector, slot_ne := slot.2 }
      else none
  | _ => none

/-- Validating a dumped binding gives the binding back. -/
@[simp] theorem modelValidate_modelDump (binding : RequestBinding) :
    modelValidate binding.modelDump = some binding := by
  obtain ⟨slot, selector, hslot⟩ := binding
  simp [modelValidate, modelDump, Dict.get?_cons, Dict.getD, ArtifactSelector.nonempty,
    ArtifactSelector.modelValidate_modelDump, hslot]

theorem mapM_modelValidate_modelDump (bindings : List RequestBinding) :
    (bindings.map modelDump).mapM modelValidate = some bindings := by
  induction bindings with
  | nil => rfl
  | cons binding rest ih => simp [List.mapM_cons, ih]

end RequestBinding

end Dalston.Model
