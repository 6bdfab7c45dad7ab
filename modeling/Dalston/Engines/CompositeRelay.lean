import Dalston.Engines.StageRequests
import Dalston.Model.TextWrap

/-!
# The requests of a composite engine to its children

A composite engine sends a child the configuration of a task as a form. For a task of one stage
that is all of the configuration; in a run of all stages it is what an allow-list picks for the
stage. The endpoint of the child reads the fields of the form that it declares and makes a
configuration of them, from which the child reads its parameters.

## Implementation notes

The form carries its texts unchanged, and the framework takes an empty text of a form for a missing
one. The texts of numbers, of containers and of the transcript are those of the library. Only
stages that have an endpoint are modelled.
-/

namespace Dalston.Engines.Relay

open Foundation Model Requests
open Model.TextWrap (isSpace strip)

/-- How the library writes values as texts and reads numbers. -/
structure Texts where
  number : Rat → String
  container : Json → String
  dumps : Json → String
  int : String → Option Int
  float : String → Option Rat
  number_ne_empty : ∀ q, number q ≠ ""
  dumps_ne_empty : ∀ v, dumps v ≠ ""
  int_number : ∀ n : Int, int (number n) = some n
  float_number : ∀ q, float (number q) = some q

inductive Stage
  | transcribe
  | align
  | diarize
  deriving DecidableEq

/-- Whether the task is of one stage or of all of them. -/
inductive Route
  | single
  | all

section Sender

variable (py : Texts)

/-- `str(value)`. -/
def str : Json → String
  | .null => "None"
  | .bool b => if b then "True" else "False"
  | .num q => py.number q
  | .str s => s
  | v => py.container v

/-- `",".join(...)`. -/
def joinTerms (terms : List String) : String :=
  String.ofList (joinWith ',' (terms.map String.toList))

/-- The text that a value of the configuration has in a form, if it is sent. -/
def formValue : Json → Option String
  | .bool b => some (if b then "true" else "false")
  | .arr items => some (joinTerms (items.map (str py)))
  | .null => none
  | v => some (str py v)

/-- `_KEY_REMAP`. -/
def formKey (key : String) : String := if key = "loaded_model_id" then "model" else key

/-- `key.startswith("_")`. -/
def isInternal (key : String) : Bool := ['_'].isPrefixOf key.toList

def formEntry (form : Dict String) (entry : String × Json) : Dict String :=
  if isInternal entry.1 then form
  else
    match formValue py entry.2 with
    | none => form
    | some text => form.set (formKey entry.1) text

/-- The form of a request, with the transcript for the alignment. -/
def formData (stage : Stage) (config : Config) (transcript : Option Json) : Dict String :=
  let form := config.foldl (formEntry py) []
  match stage, transcript with
  | .align, some v => form.set "transcript" (py.dumps v)
  | _, _ => form

end Sender

/-! ## The allow-lists -/

def transcribeKeys : List String :=
  ["loaded_model_id", "language", "word_timestamps", "vocabulary", "channel", "beam_size",
    "vad_filter", "temperature", "task", "prompt"]

def diarizeKeys : List String :=
  ["num_speakers", "min_speakers", "max_speakers", "exclusive", "diarize_model_id"]

def alignKeys : List String := ["return_char_alignments", "align_model_id"]

def Stage.keys : Stage → List String
  | .transcribe => transcribeKeys
  | .align => alignKeys
  | .diarize => diarizeKeys

/-- The key that holds the model of the stage in a configuration for all stages, if that is not
the key of the request type. -/
def Stage.modelKey : Stage → Option String
  | .transcribe => none
  | .align => some "align_model_id"
  | .diarize => some "diarize_model_id"

/-- The entries of the configuration under some keys. -/
def pick (keys : List String) (config : Config) : Config :=
  keys.foldl (fun out key =>
    match config.get? key with
    | some v => out.set key v
    | none => out) []

/-- The entry of a key moves to the key of the model. -/
def moveModel (modelKey : String) (out : Config) : Config :=
  match out.get? modelKey with
  | some v => (out.erase modelKey).set "loaded_model_id" v
  | none => out

def extractStageConfig (stage : Stage) (config : Config) : Config :=
  match stage.modelKey with
  | none => pick stage.keys config
  | some modelKey => moveModel modelKey (pick stage.keys config)

/-- The configuration that is sent for a stage. -/
def sentConfig (route : Route) (stage : Stage) (config : Config) : Config :=
  match route with
  | .single => config.filter fun entry => entry.1 ≠ "_stage"
  | .all => extractStageConfig stage config

/-! ## The endpoints -/

inductive ParamType
  | string
  | flag (default : Bool)
  | int
  | float
  | terms

/-- A field of an endpoint's form, and the key of the configuration that it is put under. -/
structure Param where
  name : String
  key : String
  type : ParamType

def transcribeParams : List Param :=
  [⟨"model", "loaded_model_id", .string⟩, ⟨"language", "language", .string⟩,
    ⟨"word_timestamps", "word_timestamps", .flag true⟩, ⟨"vocabulary", "vocabulary", .terms⟩,
    ⟨"channel", "channel", .int⟩, ⟨"vad_batch_size", "vad_batch_size", .int⟩,
    ⟨"beam_size", "beam_size", .int⟩]

def diarizeParams : List Param :=
  [⟨"model", "loaded_model_id", .string⟩, ⟨"num_speakers", "num_speakers", .int⟩,
    ⟨"min_speakers", "min_speakers", .int⟩, ⟨"max_speakers", "max_speakers", .int⟩,
    ⟨"max_chunk_s", "max_chunk_s", .float⟩]

def alignParams : List Param :=
  [⟨"model", "loaded_model_id", .string⟩,
    ⟨"return_char_alignments", "return_char_alignments", .flag false⟩]

def Stage.params : Stage → List Param
  | .transcribe => transcribeParams
  | .align => alignParams
  | .diarize => diarizeParams

/-- The request type of the stage. -/
def Stage.fields : Stage → List Field
  | .transcribe => transcriptionRequest
  | .align => alignmentRequest
  | .diarize => diarizationRequest

/-- The text of a boolean in a form. -/
def readFlag (text : String) : Option Bool :=
  let lower := text.toList.map Char.toLower
  if (["1", "on", "t", "true", "y", "yes"].map String.toList).contains lower then some true
  else if (["0", "off", "f", "false", "n", "no"].map String.toList).contains lower then some false
  else none

/-- `[v.strip() for v in vocabulary.split(",")]`. -/
def splitTerms (text : String) : List String :=
  (text.toList.splitOn ',').map fun term => String.ofList (strip term)

section Receiver

variable (py : Texts)

/-- What an endpoint puts into the configuration for a field of its form, unless it refuses the
text. -/
def ParamType.read : ParamType → Option String → Option (Option Json)
  | .string, given => some (given.map .str)
  | .flag default, none => some (some (.bool default))
  | .flag _, some text => (readFlag text).map fun b => some (.bool b)
  | .int, none => some none
  | .int, some text => (py.int text).map fun n : Int => some (.num (n : Rat))
  | .float, none => some none
  | .float, some text => (py.float text).map fun q => some (.num q)
  | .terms, given => some (given.map fun text => .arr ((splitTerms text).map .str))

/-- The text that the form has under a name. -/
def givenText (form : Dict String) (name : String) : Option String :=
  (form.get? name).filter (· ≠ "")

/-- The configuration that an endpoint makes of its form. -/
def endpointConfig (params : List Param) (form : Dict String) : Option Config :=
  match params with
  | [] => some []
  | p :: rest =>
    match p.type.read py (givenText form p.name), endpointConfig rest form with
    | some (some v), some config => some ((p.key, v) :: config)
    | some none, some config => some config
    | _, _ => none

/-- The endpoint of a stage; that of the alignment refuses a form without a transcript. -/
def endpoint (stage : Stage) (form : Dict String) : Option Config :=
  if stage = .align ∧ givenText form "transcript" = none then none
  else endpointConfig py stage.params form

/-- The parameters that a child reads from the request for a stage. -/
def relayed (route : Route) (stage : Stage) (config : Config) (transcript : Option Json) :
    Option (Dict Json) :=
  let form := formData py stage (sentConfig route stage config) transcript
  (endpoint py stage form).bind fun made => validate stage.fields made.get?

end Receiver

/-! ## What a form holds -/

section Form

variable (py : Texts)

theorem formKey_inj {key other : String} (hkey : key ≠ "model") (hother : other ≠ "model")
    (h : formKey key = formKey other) : key = other := by
  rw [formKey, formKey] at h
  split_ifs at h with hk ho ho
  · rw [hk, ho]
  · exact absurd h.symm hother
  · exact absurd h hkey
  · exact h

/-- A form holds the texts of the values of a configuration under the names of its keys. -/
theorem get?_foldl_formEntry {config : Config} (hdistinct : config.Distinct)
    (hmodel : ∀ entry ∈ config, entry.1 ≠ "model") {key : String} (hkey : key ≠ "model")
    (hinternal : isInternal key = false) (form : Dict String) :
    (config.foldl (formEntry py) form).get? (formKey key) =
      ((config.get? key).bind (formValue py)).or (form.get? (formKey key)) := by
  induction config generalizing form with
  | nil => rfl
  | cons entry rest ih =>
      obtain ⟨k, v⟩ := entry
      obtain ⟨hnew, hrest⟩ := List.nodup_cons.mp hdistinct
      have hk : k ≠ "model" := hmodel (k, v) List.mem_cons_self
      have hnext : ∀ form' : Dict String, (rest.foldl (formEntry py) form').get? (formKey key) =
          ((Dict.get? rest key).bind (formValue py)).or (form'.get? (formKey key)) :=
        ih hrest fun entry hentry => hmodel entry (List.mem_cons_of_mem _ hentry)
      rw [List.foldl_cons, hnext, Dict.get?_cons]
      by_cases heq : k = key
      · subst heq
        rw [if_pos rfl, Dict.get?_eq_none hnew, Option.bind_none, Option.none_or, Option.bind_some, formEntry,
          if_neg (by simp [hinternal])]
        cases htext : formValue py v with
        | none => rfl
        | some text => simp
      · rw [if_neg heq]
        congr 1
        rw [formEntry]
        split
        · rfl
        · cases htext : formValue py v with
          | none => rfl
          | some text =>
              exact Dict.get?_set_ne _ _ fun h => heq (formKey_inj hk hkey h)

theorem get?_formData {stage : Stage} {config : Config} (hdistinct : config.Distinct)
    (hmodel : ∀ entry ∈ config, entry.1 ≠ "model") {key : String} (hkey : key ≠ "model")
    (hinternal : isInternal key = false) (hname : formKey key ≠ "transcript")
    (transcript : Option Json) :
    (formData py stage config transcript).get? (formKey key) =
      (config.get? key).bind (formValue py) := by
  have hform := get?_foldl_formEntry py hdistinct hmodel hkey hinternal []
  rw [Dict.get?_nil, Option.or_none] at hform
  cases stage with
  | transcribe => exact hform
  | diarize => exact hform
  | align =>
      cases transcript with
      | none => exact hform
      | some v => exact (Dict.get?_set_ne _ _ hname.symm).trans hform

end Form

/-! ## What is sent -/

section Sent

theorem get?_pick (keys : List String) (config : Config) (key : String) :
    (pick keys config).get? key = if key ∈ keys then config.get? key else none := by
  have hfold : ∀ (todo : List String) (out : Config),
      (todo.foldl (fun out key => match config.get? key with
        | some v => out.set key v
        | none => out) out).get? key =
      if key ∈ todo ∧ (config.get? key).isSome then config.get? key else out.get? key := by
    intro todo
    induction todo with
    | nil => simp
    | cons first rest ih =>
        intro out
        rw [List.foldl_cons, ih]
        by_cases hrest : key ∈ rest ∧ (config.get? key).isSome = true
        · rw [if_pos hrest, if_pos ⟨List.mem_cons_of_mem _ hrest.1, hrest.2⟩]
        · rw [if_neg hrest]
          cases hfirst : config.get? first with
          | none =>
              rw [if_neg]
              rintro ⟨hmem, hsome⟩
              rcases List.mem_cons.mp hmem with rfl | hmem
              · simp [hfirst] at hsome
              · exact hrest ⟨hmem, hsome⟩
          | some v =>
              by_cases heq : first = key
              · subst heq
                simp [hfirst]
              · rw [Dict.get?_set_ne _ _ heq, if_neg]
                rintro ⟨hmem, hsome⟩
                rcases List.mem_cons.mp hmem with rfl | hmem
                · exact heq rfl
                · exact hrest ⟨hmem, hsome⟩
  rw [pick, hfold]
  by_cases hmem : key ∈ keys
  · cases hget : config.get? key <;> simp [hmem]
  · simp [hmem]

theorem distinct_pick (keys : List String) (config : Config) : (pick keys config).Distinct := by
  have hfold : ∀ (todo : List String) (out : Config), out.Distinct →
      (todo.foldl (fun out key => match config.get? key with
        | some v => out.set key v
        | none => out) out).Distinct := by
    intro todo
    induction todo with
    | nil => exact fun _ hout => hout
    | cons first rest ih =>
        intro out hout
        refine ih _ ?_
        dsimp only
        split
        · exact hout.set _ _
        · exact hout
  exact hfold keys [] List.nodup_nil

theorem get?_moveModel (modelKey : String) (out : Config) (key : String) :
    (moveModel modelKey out).get? key =
      if key = "loaded_model_id" then (out.get? modelKey).or (out.get? key)
      else if key = modelKey then none else out.get? key := by
  rw [moveModel]
  cases hget : out.get? modelKey with
  | none =>
      split_ifs with hloaded hmodel
      · rfl
      · rw [hmodel, hget]
      · rfl
  | some v =>
      simp only [Dict.get?_set, Dict.get?_erase]
      by_cases hloaded : key = "loaded_model_id"
      · simp [hloaded]
      · simp [hloaded, Ne.symm hloaded, eq_comm]

theorem distinct_moveModel {modelKey : String} {out : Config} (h : out.Distinct) :
    (moveModel modelKey out).Distinct := by
  rw [moveModel]
  split
  · rw [Dict.erase_eq_eraseAll]
    exact (h.eraseAll _).set _ _
  · exact h

/-- What the configuration has for a stage under the name of a field: in a configuration for all
stages the model of the stage has a key of its own. -/
def ownValue (route : Route) (stage : Stage) (config : Config) (key : String) : Option Json :=
  match route, stage.modelKey with
  | .all, some modelKey =>
    if key = "loaded_model_id" then config.get? modelKey else config.get? key
  | _, _ => config.get? key

/-- The value of a field is sent if the configuration has one. -/
def sends (route : Route) (stage : Stage) (key : String) : Bool :=
  match route with
  | .single => true
  | .all => decide (key ∈ stage.keys) || (stage.modelKey.isSome && key = "loaded_model_id")

theorem distinct_sentConfig (route : Route) (stage : Stage) {config : Config}
    (h : config.Distinct) : (sentConfig route stage config).Distinct := by
  cases route with
  | single => exact h.sublist (List.filter_sublist.map Prod.fst)
  | all =>
      cases stage with
      | transcribe => exact distinct_pick _ _
      | align => exact distinct_moveModel (distinct_pick _ _)
      | diarize => exact distinct_moveModel (distinct_pick _ _)

theorem get?_filter_ne (config : Config) {key other : String} (h : key ≠ other) :
    Dict.get? (config.filter fun entry => entry.1 ≠ other) key = config.get? key := by
  have herase := Dict.get?_erase config other key
  rwa [if_neg h.symm] at herase

/-- Which key of a configuration for all stages is read, and whether it is sent. -/
theorem get?_extractStageConfig (stage : Stage) (config : Config) {key : String}
    (hkey : stage.modelKey ≠ some key) :
    (extractStageConfig stage config).get? key =
      if sends .all stage key then ownValue .all stage config key else none := by
  cases stage with
  | transcribe => simp [extractStageConfig, Stage.modelKey, sends, ownValue, get?_pick]
  | align =>
      have hne : key ≠ "align_model_id" := fun h => hkey (congrArg some h.symm)
      rw [extractStageConfig, Stage.modelKey, get?_moveModel, get?_pick, get?_pick]
      by_cases hloaded : key = "loaded_model_id"
      · subst hloaded
        simp [sends, ownValue, Stage.modelKey, Stage.keys, alignKeys]
      · simp [sends, ownValue, Stage.modelKey, hloaded, hne]
  | diarize =>
      have hne : key ≠ "diarize_model_id" := fun h => hkey (congrArg some h.symm)
      rw [extractStageConfig, Stage.modelKey, get?_moveModel, get?_pick, get?_pick]
      by_cases hloaded : key = "loaded_model_id"
      · subst hloaded
        simp [sends, ownValue, Stage.modelKey, Stage.keys, diarizeKeys]
      · simp [sends, ownValue, Stage.modelKey, hloaded, hne]

end Sent

/-! ## What an endpoint reads -/

section Received

variable (py : Texts)

/-- What an endpoint reads of a value that is sent. -/
def received (type : ParamType) (given : Option Json) : Option (Option Json) :=
  type.read py ((given.bind (formValue py)).filter (· ≠ ""))

/-- The field of the form is for values of the field of the request type. -/
def ParamType.fits : ParamType → FieldType → Json → Bool
  | .string, .optStr, .null => true
  | .flag _, .optBool, .null => true
  | .flag d, .bool, .bool d' => d == d'
  | .int, .optInt _, .null => true
  | .float, .optFloat _ _, .null => true
  | .terms, .optTexts, .null => true
  | _, _, _ => false

/-- The terms that are found again between commas. -/
structure Separable (terms : List String) : Prop where
  ne_nil : terms ≠ []
  ne_empty : terms ≠ [""]
  plain : ∀ term ∈ terms, ',' ∉ term.toList ∧ strip term.toList = term.toList

/-- The values that come through a field of a form. -/
def Carries : ParamType → Json → Prop
  | .string, v => v ≠ .str ""
  | .flag _, v => v ≠ .null
  | .int, _ => True
  | .float, _ => True
  | .terms, v => ∀ terms : List String, v = .arr (terms.map .str) → Separable terms

theorem mem_of_mem_trim {c : Char} {s : List Char} (h : c ∈ strip s) : c ∈ s := by
  have hback := (List.dropWhile_sublist isSpace).subset (List.mem_reverse.mp h)
  exact (List.dropWhile_sublist isSpace).subset (List.mem_reverse.mp hback)

theorem strip_strip (s : List Char) : strip (strip s) = strip s :=
  trim_eq_self (trimmed_trim s)

/-- Terms are found again exactly if there are any, and none has a comma or white space at an
end. -/
theorem splitTerms_joinTerms_iff (terms : List String) :
    splitTerms (joinTerms terms) = terms ↔
      terms ≠ [] ∧ ∀ term ∈ terms, ',' ∉ term.toList ∧ strip term.toList = term.toList := by
  constructor
  · intro h
    refine ⟨?_, fun term hterm => ?_⟩
    · rintro rfl
      simp [splitTerms, joinTerms] at h
    · rw [← h, splitTerms, joinTerms, String.toList_ofList] at hterm
      obtain ⟨piece, hpiece, rfl⟩ := List.mem_map.mp hterm
      rw [String.toList_ofList, strip_strip]
      refine ⟨fun hcomma => ?_, rfl⟩
      have hsep := not_sep_of_mem_splitOnP hpiece ',' (mem_of_mem_trim hcomma)
      simp at hsep
  · rintro ⟨hne, hplain⟩
    have hcomma : ∀ piece ∈ terms.map String.toList, ',' ∉ piece := by
      intro piece hpiece
      obtain ⟨term, hterm, rfl⟩ := List.mem_map.mp hpiece
      exact (hplain term hterm).1
    rw [splitTerms, joinTerms, String.toList_ofList, joinWith,
      List.splitOn_intercalate ',' hcomma (by simpa using hne), List.map_map]
    calc terms.map ((fun term => String.ofList (strip term)) ∘ String.toList)
        = terms.map id := List.map_congr_left fun term hterm => by
          simp [(hplain term hterm).2]
      _ = terms := List.map_id terms

theorem joinTerms_eq_empty_iff (terms : List String) :
    joinTerms terms = "" ↔ terms = [] ∨ terms = [""] := by
  rw [joinTerms, ← String.toList_inj, String.toList_ofList, String.toList_empty]
  match terms with
  | [] => simp
  | [term] => simp
  | term :: term' :: rest => simp [joinWith_cons]

theorem exists_texts {items : List Json} (h : items.all isText = true) :
    ∃ terms : List String, items = terms.map .str := by
  induction items with
  | nil => exact ⟨[], rfl⟩
  | cons v rest ih =>
      rw [List.all_cons, Bool.and_eq_true] at h
      obtain ⟨terms, rfl⟩ := ih h.2
      cases v with
      | str s => exact ⟨s :: terms, rfl⟩
      | _ => cases h.1

theorem all_isText_map (terms : List String) : (terms.map Json.str).all isText = true := by
  simp [isText]

theorem map_str_inj {terms terms' : List String} :
    terms.map Json.str = terms'.map Json.str ↔ terms = terms' :=
  List.map_inj_right fun _ _ h => Json.str.inj h

theorem carries_terms_iff (terms : List String) :
    Carries .terms (.arr (terms.map .str)) ↔ Separable terms := by
  constructor
  · exact fun h => h terms rfl
  · intro h terms' heq
    rwa [← map_str_inj.mp (Json.arr.inj heq)]

/-- The text that an endpoint finds for a value whose text is not empty. -/
theorem received_text {type : ParamType} {v : Json} {text : String}
    (h : formValue py v = some text) (hne : text ≠ "") :
    received py type (some v) = type.read py (some text) := by
  rw [received, Option.bind_some, h, Option.filter_some, if_pos (by simpa using hne)]

theorem received_empty {type : ParamType} {v : Json} (h : formValue py v = some "") :
    received py type (some v) = type.read py none := by
  rw [received, Option.bind_some, h, Option.filter_some, if_neg (by simp)]

/-- A list of terms comes through exactly if its terms are separable. -/
theorem received_terms (terms : List String) :
    ∃ got, received py .terms (some (.arr (terms.map .str))) = some got ∧
      got.all FieldType.optTexts.accepts = true ∧
      (got.getD .null = .arr (terms.map .str) ↔ Separable terms) := by
  have htexts : (terms.map Json.str).map (str py) = terms := by
    rw [List.map_map]
    exact List.map_id terms
  have hform : formValue py (.arr (terms.map .str)) = some (joinTerms terms) :=
    congrArg (fun texts => some (joinTerms texts)) htexts
  by_cases hempty : joinTerms terms = ""
  · refine ⟨none, ?_, rfl, iff_of_false (by simp) fun hsep => ?_⟩
    · rw [received_empty py (hempty ▸ hform)]
      rfl
    · rcases (joinTerms_eq_empty_iff terms).mp hempty with rfl | rfl
      · exact hsep.ne_nil rfl
      · exact hsep.ne_empty rfl
  · refine ⟨some (.arr ((splitTerms (joinTerms terms)).map .str)), ?_, all_isText_map _, ?_⟩
    · rw [received_text py hform hempty]
      rfl
    · rw [Option.getD_some, Json.arr.injEq, map_str_inj, splitTerms_joinTerms_iff]
      constructor
      · exact fun ⟨hne, hplain⟩ =>
          ⟨hne, fun h => hempty ((joinTerms_eq_empty_iff terms).mpr (.inr h)), hplain⟩
      · exact fun hsep => ⟨hsep.ne_nil, hsep.plain⟩

/-- What comes through a field of a form: a value that the request type accepts, and the one that
was sent exactly if the field carries it. -/
theorem received_fits {type : ParamType} {f : Field} (hfits : type.fits f.type f.default = true)
    {given : Option Json} (hgiven : given.all f.type.accepts = true) :
    ∃ got, received py type given = some got ∧ got.all f.type.accepts = true ∧
      (f.value got = f.value given ↔ Carries type (f.value given)) := by
  obtain ⟨name, ftype, fdefault⟩ := f
  match type, ftype, fdefault, given with
  | .string, .optStr, .null, none
  | .string, .optStr, .null, some .null
  | .int, .optInt _, .null, none
  | .int, .optInt _, .null, some .null
  | .float, .optFloat _ _, .null, none
  | .float, .optFloat _ _, .null, some .null
  | .terms, .optTexts, .null, none
  | .terms, .optTexts, .null, some .null =>
      exact ⟨none, rfl, rfl, by simp [Field.value, Carries]⟩
  | .string, .optStr, .null, some (.str s) =>
      by_cases hs : s = ""
      · subst hs
        exact ⟨none, received_empty py rfl, rfl, by simp [Field.value, Carries]⟩
      · exact ⟨some (.str s), received_text py rfl hs, rfl, by simp [Field.value, Carries, hs]⟩
  | .flag d, .optBool, .null, none
  | .flag d, .optBool, .null, some .null =>
      exact ⟨some (.bool d), rfl, rfl, by simp [Field.value, Carries]⟩
  | .flag d, .bool, .bool d', none =>
      obtain rfl : d = d' := by simpa [ParamType.fits] using hfits
      exact ⟨some (.bool d), rfl, rfl, by simp [Field.value, Carries]⟩
  | .flag d, .optBool, .null, some (.bool b)
  | .flag d, .bool, .bool _, some (.bool b) =>
      refine ⟨some (.bool b), ?_, rfl, by simp [Field.value, Carries]⟩
      cases b <;> rfl
  | .int, .optInt least, .null, some (.num q) =>
      have hwhole : q.den = 1 := by
        simp only [Option.all_some, FieldType.accepts, Bool.and_eq_true, decide_eq_true_eq]
          at hgiven
        exact hgiven.1
      have hq : ((q.num : Int) : Rat) = q := (Rat.den_eq_one_iff q).mp hwhole
      have hread : py.int (py.number q) = some q.num := by rw [← hq, py.int_number, hq]
      refine ⟨some (.num q), ?_, hgiven, by simp [Field.value, Carries]⟩
      rw [received_text py rfl (py.number_ne_empty q), ParamType.read, hread, Option.map_some, hq]
  | .float, .optFloat least greatest, .null, some (.num q) =>
      refine ⟨some (.num q), ?_, hgiven, by simp [Field.value, Carries]⟩
      rw [received_text py rfl (py.number_ne_empty q), ParamType.read, py.float_number,
        Option.map_some]
  | .terms, .optTexts, .null, some (.arr items) =>
      obtain ⟨terms, rfl⟩ := exists_texts hgiven
      obtain ⟨got, hgot, haccepted, hiff⟩ := received_terms py terms
      exact ⟨got, hgot, haccepted, hiff.trans (carries_terms_iff terms).symm⟩

end Received

/-! ## Requests that keep the parameters -/

section Requests

variable (py : Texts)

/-- The field of the stage's form that is put under a key. -/
def Stage.param? (stage : Stage) (key : String) : Option Param :=
  stage.params.find? fun p => p.key = key

/-- What the endpoint makes of its form, if it can read every field. -/
theorem endpointConfig_eq {params : List Param} (hnodup : (params.map (·.key)).Nodup)
    {form : Dict String}
    (hread : ∀ p ∈ params, ∃ got, p.type.read py (givenText form p.name) = some got) :
    ∃ made, endpointConfig py params form = some made ∧ ∀ key, made.get? key =
      (params.find? fun p => p.key = key).bind fun p =>
        (p.type.read py (givenText form p.name)).join := by
  induction params with
  | nil => exact ⟨[], rfl, fun _ => rfl⟩
  | cons p rest ih =>
      obtain ⟨hnew, hrest⟩ := List.nodup_cons.mp hnodup
      obtain ⟨got, hgot⟩ := hread p List.mem_cons_self
      obtain ⟨made, hmade, hget⟩ := ih hrest fun q hq => hread q (List.mem_cons_of_mem _ hq)
      have hnone : (rest.find? fun q => q.key = p.key) = none :=
        List.find?_eq_none.mpr fun q hq => by
          simpa using fun h : q.key = p.key => hnew (List.mem_map.mpr ⟨q, hq, h⟩)
      cases got with
      | none =>
          refine ⟨made, by simp [endpointConfig, hgot, hmade], fun key => ?_⟩
          rw [hget, List.find?_cons]
          by_cases hkey : p.key = key
          · subst hkey
            simp [hnone, hgot]
          · simp [hkey]
      | some v =>
          refine ⟨(p.key, v) :: made, by simp [endpointConfig, hgot, hmade], fun key => ?_⟩
          rw [Dict.get?_cons, hget, List.find?_cons]
          by_cases hkey : p.key = key
          · simp [hkey, hgot]
          · simp [hkey]

/-- The tables of a stage: no field has a name that a form uses for something else, a field of the
form is named after its key and fits the field of the request type, and a flag is always sent. -/
structure Stage.Sound (stage : Stage) : Prop where
  keys_nodup : (stage.params.map (·.key)).Nodup
  named : ∀ p ∈ stage.params, p.name = formKey p.key
  field : ∀ p ∈ stage.params, ∃ f ∈ stage.fields, f.name = p.key
  plain : ∀ f ∈ stage.fields, f.name ≠ "model" ∧ isInternal f.name = false ∧
    formKey f.name ≠ "transcript" ∧ stage.modelKey ≠ some f.name
  fits : ∀ f ∈ stage.fields, ∀ p ∈ stage.params, p.key = f.name →
    p.type.fits f.type f.default = true
  flags : ∀ p ∈ stage.params, ∀ d, p.type = .flag d → p.key ∈ stage.keys

theorem Stage.sound (stage : Stage) : stage.Sound := by
  cases stage <;>
  refine ⟨by decide +kernel, by decide +kernel, by decide +kernel, by decide +kernel,
    by decide +kernel, ?_⟩ <;>
  simp [Stage.params, transcribeParams, alignParams, diarizeParams, Stage.keys, transcribeKeys,
    alignKeys]

/-- A configuration that is valid for a stage. A task of one stage has no keys but those of its
request type and internal ones. -/
structure StageTask (route : Route) (stage : Stage) where
  config : Config
  distinct : config.Distinct
  known : route = .single → ∀ entry ∈ config,
    isInternal entry.1 = true ∨ ∃ f ∈ stage.fields, f.name = entry.1
  valid : (validate stage.fields (ownValue route stage config)).isSome = true

/-- The value of a field that the configuration has for the stage. -/
def StageTask.own {route : Route} {stage : Stage} (task : StageTask route stage) (f : Field) :
    Json :=
  f.value (ownValue route stage task.config f.name)

/-- The field is sent under a name that the endpoint declares, and as a text that gives the value
back, or else the value is the default. -/
def Survives (route : Route) (stage : Stage) (f : Field) (v : Json) : Prop :=
  match stage.param? f.name with
  | some p => if sends route stage f.name then Carries p.type v else v = f.default
  | none => v = f.default

theorem get?_sentConfig {route : Route} {stage : Stage} {f : Field} (hf : f ∈ stage.fields)
    (config : Config) : (sentConfig route stage config).get? f.name =
      if sends route stage f.name then ownValue route stage config f.name else none := by
  obtain ⟨-, hinternal, -, hkey⟩ := stage.sound.plain f hf
  cases route with
  | all => exact get?_extractStageConfig stage config hkey
  | single =>
      have hne : f.name ≠ "_stage" := by
        rintro h
        rw [h] at hinternal
        exact absurd hinternal (by decide)
      simpa [sentConfig, sends, ownValue] using get?_filter_ne config hne

/-- Only keys that a form uses for themselves are sent. -/
theorem model_not_sent {route : Route} {stage : Stage} (task : StageTask route stage) {key : String}
    (hkey : key = "model" ∨ key = "transcript") :
    (sentConfig route stage task.config).get? key = none := by
  cases route with
  | single =>
      cases hget : (sentConfig .single stage task.config).get? key with
      | none => rfl
      | some v =>
          have hmem := (List.mem_filter.mp (Dict.mem_of_get? hget)).1
          have hplain : isInternal "model" = false ∧ isInternal "transcript" = false := by decide
          rcases task.known rfl _ hmem with hinternal | ⟨f, hf, hname⟩
          · rcases hkey with rfl | rfl
            · exact absurd (hplain.1.symm.trans hinternal) Bool.false_ne_true
            · exact absurd (hplain.2.symm.trans hinternal) Bool.false_ne_true
          · obtain ⟨hmodel, -, htranscript, -⟩ := stage.sound.plain f hf
            rcases hkey with rfl | rfl
            · exact absurd hname hmodel
            · exact absurd (by rw [hname]; rfl) htranscript
  | all =>
      have hsends : sends .all stage key = false := by
        rcases hkey with rfl | rfl <;> cases stage <;> decide
      have hown : stage.modelKey ≠ some key := by
        rcases hkey with rfl | rfl <;> cases stage <;> decide
      rw [sentConfig, get?_extractStageConfig stage task.config hown, hsends]
      rfl

theorem ne_model_of_mem_sent {route : Route} {stage : Stage} (task : StageTask route stage) :
    ∀ entry ∈ sentConfig route stage task.config, entry.1 ≠ "model" := by
  rintro ⟨key, v⟩ hmem rfl
  have hget := (distinct_sentConfig route stage task.distinct).get?_of_mem hmem
  rw [model_not_sent task (.inl rfl)] at hget
  cases hget

/-- What an endpoint finds in the form for a field of the request type. -/
theorem read_of_field {route : Route} {stage : Stage} (task : StageTask route stage)
    (transcript : Option Json) {f : Field} (hf : f ∈ stage.fields) {p : Param}
    (hp : p ∈ stage.params) (hkey : p.key = f.name) :
    p.type.read py (givenText
        (formData py stage (sentConfig route stage task.config) transcript) p.name) =
      received py p.type (if sends route stage f.name then
        ownValue route stage task.config f.name else none) := by
  obtain ⟨hmodel, hinternal, hname, -⟩ := stage.sound.plain f hf
  rw [received, givenText, stage.sound.named p hp, hkey, get?_formData py
    (distinct_sentConfig route stage task.distinct) (ne_model_of_mem_sent task) hmodel hinternal
    hname, get?_sentConfig hf]

/-- The alignment has its transcript exactly if there is one. -/
theorem givenText_transcript {route : Route} {stage : Stage} (task : StageTask route stage)
    (transcript : Option Json) (hstage : stage = .align) :
    givenText (formData py stage (sentConfig route stage task.config) transcript) "transcript" =
      none ↔ transcript = none := by
  subst hstage
  cases transcript with
  | some v => simp [givenText, formData, py.dumps_ne_empty]
  | none =>
      have hplain : "transcript" ≠ "model" ∧ isInternal "transcript" = false := by decide
      have hform := get?_foldl_formEntry py (distinct_sentConfig route .align task.distinct)
        (ne_model_of_mem_sent task) hplain.1 hplain.2 []
      have hkey : formKey "transcript" = "transcript" := rfl
      rw [model_not_sent task (.inr rfl), hkey] at hform
      refine iff_of_true ?_ rfl
      simp [givenText, formData, hform]

variable {route : Route} {stage : Stage} (task : StageTask route stage)

theorem accepts_own {f : Field} (hf : f ∈ stage.fields) :
    (ownValue route stage task.config f.name).all f.type.accepts = true :=
  accepts_of_validate task.valid f hf

/-- A field of the form gives the child a value that it accepts, and the one of the configuration
exactly if that survives. -/
theorem exists_read {f : Field} (hf : f ∈ stage.fields) {p : Param} (hp : p ∈ stage.params)
    (hkey : p.key = f.name) (transcript : Option Json) :
    ∃ got, p.type.read py (givenText
        (formData py stage (sentConfig route stage task.config) transcript) p.name) = some got ∧
      got.all f.type.accepts = true ∧ (f.value got = task.own f ↔
        if sends route stage f.name then Carries p.type (task.own f)
        else task.own f = f.default) := by
  have hfits := stage.sound.fits f hf p hp hkey
  rw [read_of_field py task transcript hf hp hkey]
  cases hsends : sends route stage f.name with
  | true => exact received_fits py hfits (accepts_own task hf)
  | false =>
      have hread : received py p.type none = some none := by
        cases htype : p.type with
        | flag d =>
            have hsent : sends route stage f.name = true := by
              cases route with
              | single => rfl
              | all => simp [sends, hkey ▸ stage.sound.flags p hp d htype]
            simp [hsent] at hsends
        | _ => rfl
      exact ⟨none, hread, rfl, eq_comm⟩

/-- The configuration that the endpoint makes, field by field. -/
theorem exists_endpointConfig (transcript : Option Json) :
    ∃ made, endpointConfig py stage.params
        (formData py stage (sentConfig route stage task.config) transcript) = some made ∧
      ∀ f ∈ stage.fields, (made.get? f.name).all f.type.accepts = true ∧
        (f.value (made.get? f.name) = task.own f ↔ Survives route stage f (task.own f)) := by
  obtain ⟨made, hmade, hget⟩ := endpointConfig_eq py stage.sound.keys_nodup
    fun p hp => by
      obtain ⟨f, hf, hname⟩ := stage.sound.field p hp
      obtain ⟨got, hgot, -⟩ := exists_read py task hf hp hname.symm transcript
      exact ⟨got, hgot⟩
  refine ⟨made, hmade, fun f hf => ?_⟩
  rw [hget, Survives, Stage.param?]
  cases hparam : stage.params.find? fun p => p.key = f.name with
  | none => exact ⟨rfl, eq_comm⟩
  | some p =>
      have hkey : p.key = f.name := by simpa using List.find?_some hparam
      obtain ⟨got, hgot, haccepted, hiff⟩ :=
        exists_read py task hf (List.mem_of_find?_eq_some hparam) hkey transcript
      rw [Option.bind_some, hgot]
      exact ⟨haccepted, hiff⟩

/-- For every stage and every valid configuration, the child reads from the request the parameters
of the configuration exactly if the value of each field survives, and the alignment has its
transcript. -/
theorem relayed_iff (transcript : Option Json) :
    relayed py route stage task.config transcript =
        validate stage.fields (ownValue route stage task.config) ↔
      (∀ f ∈ stage.fields, Survives route stage f (task.own f)) ∧
        (stage = .align → transcript.isSome = true) := by
  obtain ⟨made, hmade, hfields⟩ := exists_endpointConfig py task transcript
  have hvalid := validate_eq fun f hf => accepts_own task hf
  by_cases hmissing : stage = .align ∧ transcript = none
  · have hgiven := (givenText_transcript py task transcript hmissing.1).mpr hmissing.2
    refine iff_of_false ?_ fun h => ?_
    · rw [relayed, endpoint, if_pos ⟨hmissing.1, hgiven⟩, Option.bind_none, hvalid]
      simp
    · have hsome := h.2 hmissing.1
      rw [hmissing.2] at hsome
      cases hsome
  · have hgiven : ¬ (stage = .align ∧ givenText (formData py stage
        (sentConfig route stage task.config) transcript) "transcript" = none) := fun h =>
      hmissing ⟨h.1, (givenText_transcript py task transcript h.1).mp h.2⟩
    rw [relayed, endpoint, if_neg hgiven, hmade, Option.bind_some,
      validate_eq_iff (fun f hf => accepts_own task hf) fun f hf => (hfields f hf).1]
    constructor
    · intro h
      refine ⟨fun f hf => (hfields f hf).2.mp (h f hf), fun halign => ?_⟩
      exact Option.isSome_iff_ne_none.mpr fun hnone => hmissing ⟨halign, hnone⟩
    · exact fun h f hf => (hfields f hf).2.mpr (h.1 f hf)

end Requests

/-! ## A vocabulary with a comma -/

theorem slash_not_mem_repr (n : Int) : '/' ∉ n.repr.toList := by
  have hdigits : ∀ m : Nat, '/' ∉ m.repr.toList := by
    intro m hmem
    rw [Nat.toList_repr] at hmem
    exact absurd (Nat.isDigit_of_mem_toDigits (by norm_num) (by norm_num) hmem) (by decide)
  rw [Int.repr_eq_if]
  split
  · exact hdigits _
  · rw [String.toList_append, List.mem_append, not_or]
    exact ⟨by decide, hdigits _⟩

/-- Texts of numbers that are read back, those of whole numbers in decimals. -/
def numberText (q : Rat) : String :=
  if q.den = 1 then q.num.repr else "/" ++ (Encodable.encode q).repr

def readNumber (text : String) : Option Rat :=
  match text.toList with
  | '/' :: rest => ((String.ofList rest).toNat?).bind Encodable.decode
  | _ => text.toInt?.map fun n : Int => (n : Rat)

theorem readNumber_numberText (q : Rat) : readNumber (numberText q) = some q := by
  rw [numberText]
  split
  · rename_i hwhole
    have hq : ((q.num : Int) : Rat) = q := (Rat.den_eq_one_iff q).mp hwhole
    rw [readNumber]
    split
    · rename_i rest htext
      exact absurd (htext ▸ List.mem_cons_self) (slash_not_mem_repr q.num)
    · rw [Int.toInt?_repr, Option.map_some, hq]
  · have htext : ("/" ++ (Encodable.encode q).repr).toList =
        '/' :: (Encodable.encode q).repr.toList := String.toList_append
    rw [readNumber, htext]
    show ((String.ofList _).toNat?).bind Encodable.decode = some q
    rw [String.ofList_toList, Nat.toNat?_repr, Option.bind_some, Encodable.encodek]

theorem numberText_ne_empty (q : Rat) : numberText q ≠ "" := by
  rw [numberText, Int.repr_eq_if]
  split_ifs
  · exact Nat.repr_ne_empty
  · simp
  · simp

def plainTexts : Texts where
  number := numberText
  container _ := "{}"
  dumps _ := "{}"
  int text := text.toInt?
  float := readNumber
  number_ne_empty := numberText_ne_empty
  dumps_ne_empty _ := by decide
  int_number n := by simp [numberText]
  float_number := readNumber_numberText

/-- A task whose vocabulary has a term with a comma. -/
def placeTask : StageTask .all .transcribe where
  config := [("vocabulary", .arr [.str "New York, NY"]), ("word_timestamps", .bool true)]
  distinct := by simp [Dict.Distinct]
  known h := by cases h
  valid := rfl

theorem term_split :
    (relayed plainTexts .all .transcribe placeTask.config none).bind (·.get? "vocabulary") =
      some (.arr [.str "New York", .str "NY"]) ∧
    relayed plainTexts .all .transcribe placeTask.config none ≠
      validate (Stage.fields .transcribe) (ownValue .all .transcribe placeTask.config) := by
  have hrelayed : (relayed plainTexts .all .transcribe placeTask.config none).bind
      (·.get? "vocabulary") = some (.arr [.str "New York", .str "NY"]) := rfl
  have hown : (validate (Stage.fields .transcribe)
      (ownValue .all .transcribe placeTask.config)).bind (·.get? "vocabulary") =
      some (.arr [.str "New York, NY"]) := rfl
  refine ⟨hrelayed, fun h => ?_⟩
  rw [h, hown] at hrelayed
  simp at hrelayed

end Dalston.Engines.Relay
