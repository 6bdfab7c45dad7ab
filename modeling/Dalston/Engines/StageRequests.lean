import Dalston.Model.Json

/-!
# The request types of the stages

An engine reads its parameters from the configuration of a task: each field of the request type of
its stage is the value that the configuration has for it, if that is of the type of the field, or
else the default of the field. Other keys are ignored.

## Implementation notes

A value is accepted if it is of the declared type of its field and within its bounds.
-/

namespace Dalston.Engines.Requests

open Foundation Model

/-- The types of the fields of the request types. -/
inductive FieldType
  | str
  | optStr
  | bool
  | optBool
  | optInt (least : Option Int)
  | optFloat (least greatest : Option Rat)
  | optTexts
  | temperature
  | granularity
  | optObject

def isText : Json → Bool
  | .str _ => true
  | _ => false

def isNumber : Json → Bool
  | .num _ => true
  | _ => false

/-- The values of `TimestampGranularity`. -/
def granularities : List String := ["none", "segment", "word", "character", "phoneme"]

def FieldType.accepts : FieldType → Json → Bool
  | .str, .str _ => true
  | .optStr, .null => true
  | .optStr, .str _ => true
  | .bool, .bool _ => true
  | .optBool, .null => true
  | .optBool, .bool _ => true
  | .optInt _, .null => true
  | .optInt least, .num q => decide (q.den = 1) && least.all fun n => decide ((n : Rat) ≤ q)
  | .optFloat _ _, .null => true
  | .optFloat least greatest, .num q =>
    (least.all fun a => decide (a ≤ q)) && greatest.all fun b => decide (q ≤ b)
  | .optTexts, .null => true
  | .optTexts, .arr items => items.all isText
  | .temperature, .num _ => true
  | .temperature, .arr items => items.all isNumber
  | .granularity, .str s => decide (s ∈ granularities)
  | .optObject, .null => true
  | .optObject, .obj _ => true
  | _, _ => false

structure Field where
  name : String
  type : FieldType
  default : Json := .null

/-- The value of a field for what the configuration has under its name. -/
def Field.value (f : Field) (given : Option Json) : Json := given.getD f.default

def Field.read (f : Field) (given : Option Json) : Option (String × Json) :=
  if given.all f.type.accepts then some (f.name, f.value given) else none

/-- `model_validate`, for what a configuration has under each name. -/
def validate (fields : List Field) (lookup : String → Option Json) : Option (Dict Json) :=
  fields.mapM fun f => f.read (lookup f.name)

/-- `TranscriptionRequest`. -/
def transcriptionRequest : List Field :=
  [{ name := "loaded_model_id", type := .optStr },
   { name := "channel", type := .optInt (some 0) },
   { name := "language", type := .optStr },
   { name := "task", type := .str, default := .str "transcribe" },
   { name := "prompt", type := .optStr },
   { name := "timestamp_granularity", type := .granularity, default := .str "word" },
   { name := "word_timestamps", type := .optBool },
   { name := "vocabulary", type := .optTexts },
   { name := "chunking_strategy", type := .optObject },
   { name := "include_transcription_logprobs", type := .bool, default := .bool false },
   { name := "suppress_tokens", type := .optTexts },
   { name := "suppress_blank", type := .bool, default := .bool true },
   { name := "vad_filter", type := .bool, default := .bool true },
   { name := "temperature", type := .temperature, default := .num 0 },
   { name := "beam_size", type := .optInt none },
   { name := "vad_batch_size", type := .optInt (some 1) },
   { name := "best_of", type := .optInt none }]

/-- `AlignmentRequest`. -/
def alignmentRequest : List Field :=
  [{ name := "loaded_model_id", type := .optStr },
   { name := "target_granularity", type := .granularity, default := .str "word" },
   { name := "realign_if_quality_below", type := .optFloat (some 0) (some 1) },
   { name := "return_char_alignments", type := .bool, default := .bool false },
   { name := "return_phoneme_alignments", type := .bool, default := .bool false }]

/-- `DiarizationRequest`. -/
def diarizationRequest : List Field :=
  [{ name := "loaded_model_id", type := .optStr },
   { name := "num_speakers", type := .optInt (some 1) },
   { name := "min_speakers", type := .optInt (some 1) },
   { name := "max_speakers", type := .optInt (some 1) },
   { name := "detect_overlap", type := .bool, default := .bool true },
   { name := "exclusive", type := .bool, default := .bool false },
   { name := "max_chunk_s", type := .optFloat (some 30) none }]

/-- Every default passes the check of its own field. -/
theorem accepts_default :
    ∀ f ∈ transcriptionRequest ++ alignmentRequest ++ diarizationRequest,
      f.type.accepts f.default = true := by
  decide

/-- A configuration whose values are accepted is read field by field. -/
theorem validate_eq {fields : List Field} {lookup : String → Option Json}
    (h : ∀ f ∈ fields, (lookup f.name).all f.type.accepts = true) :
    validate fields lookup = some (fields.map fun f => (f.name, f.value (lookup f.name))) := by
  induction fields with
  | nil => rfl
  | cons f rest ih =>
      obtain ⟨hf, hrest⟩ := List.forall_mem_cons.mp h
      have htail := ih hrest
      rw [validate] at htail ⊢
      rw [List.mapM_cons, htail, Field.read, if_pos hf]
      rfl

/-- A configuration that is read has only accepted values. -/
theorem accepts_of_validate {fields : List Field} {lookup : String → Option Json}
    (h : (validate fields lookup).isSome = true) :
    ∀ f ∈ fields, (lookup f.name).all f.type.accepts = true := by
  induction fields with
  | nil => simp
  | cons f rest ih =>
      rw [validate, List.mapM_cons, Field.read] at h
      split at h
      · rename_i hf
        refine List.forall_mem_cons.mpr ⟨hf, ih ?_⟩
        rw [validate]
        cases htail : rest.mapM (fun f => f.read (lookup f.name)) with
        | none => simp [htail] at h
        | some values => rfl
      · cases h

/-- Two configurations are read alike exactly if each field is. -/
theorem validate_eq_iff {fields : List Field} {lookup lookup' : String → Option Json}
    (h : ∀ f ∈ fields, (lookup f.name).all f.type.accepts = true)
    (h' : ∀ f ∈ fields, (lookup' f.name).all f.type.accepts = true) :
    validate fields lookup' = validate fields lookup ↔
      ∀ f ∈ fields, f.value (lookup' f.name) = f.value (lookup f.name) := by
  rw [validate_eq h, validate_eq h', Option.some.injEq, List.map_inj_left]
  simp

end Dalston.Engines.Requests
