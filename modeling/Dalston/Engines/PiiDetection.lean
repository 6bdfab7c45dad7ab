import Dalston.Foundation.Splices
import Dalston.Model.TextWrap

/-!
# Detected entities and the redacted text

The detector maps the characters of a transcript to the times of its words, asks two
recognisers for entities, sorts what they find by position and removes overlapping
duplicates. The redacted text has a placeholder for each entity that is left.

## Implementation notes

The recognisers are parameters that answer with spans that are not empty. An offset is a
natural number and a time a rational. The category, the speaker and the masked value of an
entity do not bear on its position and are left out.
-/

namespace Dalston.Engines.PiiDetection

open Foundation Model.TextWrap

section Words

structure Word where
  text : Text
  start : Rat
  stop : Rat

structure Segment where
  start : Rat
  stop : Rat
  text : Text
  words : Option (List Word)

/-- The entries of a dictionary from character offsets to times. -/
abbrev WordTimes := List (Nat × (Rat × Rat))

/-- Each character of the text has the same times. -/
def charTimes (offset : Nat) (text : Text) (times : Rat × Rat) : WordTimes :=
  (List.range text.length).map fun i => (offset + i, times)

/-- One entry of the map, and where the next one begins. -/
def addTimed (s : Nat × WordTimes) (text : Text) (times : Rat × Rat) : Nat × WordTimes :=
  (s.1 + (text.length + 1), s.2 ++ charTimes s.1 text times)

def addSegment (s : Nat × WordTimes) (seg : Segment) : Nat × WordTimes :=
  match seg.words with
  | some (w :: ws) => (w :: ws).foldl (fun s w => addTimed s w.text (w.start, w.stop)) s
  | _ => addTimed s seg.text (seg.start, seg.stop)

def buildWordTimeMap (segments : List Segment) : WordTimes :=
  (segments.foldl addSegment (0, [])).2

def findEntityTiming (startOffset endOffset : Nat) (wordTimes : WordTimes) : Rat × Rat :=
  let known := (List.range' startOffset (endOffset - startOffset)).filterMap
    (List.lookup · wordTimes)
  ((known.head?.map Prod.fst).getD 0, (known.getLast?.map Prod.snd).getD 0)

end Words

/-- An entity with its place in the text and in the audio. -/
structure PIIEntity where
  entityType : String
  startOffset : Nat
  endOffset : Nat
  startTime : Rat
  endTime : Rat
  confidence : Rat
  proper : startOffset < endOffset
  deriving DecidableEq

section Recognisers

/-- What the pattern recogniser answers. -/
structure RecognizerResult where
  entityType : String
  start : Nat
  stop : Nat
  score : Rat
  proper : start < stop

/-- What the zero-shot model answers. -/
structure Prediction where
  label : String
  text : Text
  start : Nat
  stop : Nat
  score : Option Rat
  proper : start < stop

def presidioTypeMap : List (String × String) :=
  [("credit_card_number", "CREDIT_CARD"), ("iban", "IBAN_CODE")]

def customEntities : List String := ["CREDIT_CARD_CVV", "CREDIT_CARD_EXPIRY", "JMBG", "OIB"]

def presidioSupportedLanguages : List String := ["en", "de", "es", "fr", "it", "pt", "nl", "he"]

def nameFalsePositiveTokens : List String :=
  ["i", "you", "we", "he", "she", "they", "it", "me", "him", "her", "them", "us", "my", "your",
    "our", "their", "mine", "yours", "ours", "theirs", "this", "that", "these", "those"]

def glinerLabelMap : List (String × String) :=
  [("name", "person"), ("organization", "organization"), ("location", "location"),
    ("medical_condition", "medical condition"), ("medication", "medication"),
    ("email_address", "email address"), ("phone_number", "phone number"),
    ("date_of_birth", "date of birth"), ("ssn", "social security number"),
    ("ip_address", "IP address"), ("driver_license", "driver license number"),
    ("passport_number", "passport number"), ("bank_account", "bank account number"),
    ("medical_record_number", "medical record number"), ("health_plan_id", "health plan ID"),
    ("age", "age")]

/-- The two recognisers, where they could be loaded. -/
structure Recognisers where
  analyze : Option (Text → List String → List RecognizerResult)
  predictEntities : Option (Text → List String → Rat → List Prediction)

def presidioToDalstonType (presidioType : String) : String :=
  match presidioTypeMap.find? fun p => p.2 == presidioType with
  | some p => p.1
  | none => presidioType.map Char.toLower

def presidioEntities (entityTypes : List String) : List String :=
  entityTypes.filterMap (List.lookup · presidioTypeMap) ++
    customEntities.filter fun ce => entityTypes.contains (ce.map Char.toLower)

/-- The labels to ask the model for, with the types they stand for. -/
def glinerToDalston (entityTypes : List String) : List (String × String) :=
  (glinerLabelMap.filter fun p => entityTypes.contains p.1).map fun p => (p.2, p.1)

def isNameChar (c : Char) : Bool :=
  decide ('a' ≤ c ∧ c ≤ 'z') || decide ('A' ≤ c ∧ c ≤ 'Z') || c == '\''

def shouldFilterGlinerEntity (entityType : String) (text : Text) : Bool :=
  if entityType != "name" then false
  else
    let normalized := (text.filter isNameChar).map Char.toLower
    normalized.length ≤ 1 || nameFalsePositiveTokens.contains (String.ofList normalized)

def RecognizerResult.toEntity (r : RecognizerResult) (wordTimes : WordTimes) : PIIEntity where
  entityType := presidioToDalstonType r.entityType
  startOffset := r.start
  endOffset := r.stop
  startTime := (findEntityTiming r.start r.stop wordTimes).1
  endTime := (findEntityTiming r.start r.stop wordTimes).2
  confidence := r.score
  proper := r.proper

def Prediction.toEntity (p : Prediction) (dalstonType : String) (wordTimes : WordTimes) :
    PIIEntity where
  entityType := dalstonType
  startOffset := p.start
  endOffset := p.stop
  startTime := (findEntityTiming p.start p.stop wordTimes).1
  endTime := (findEntityTiming p.start p.stop wordTimes).2
  confidence := p.score.getD (4 / 5)
  proper := p.proper

variable (rs : Recognisers) (text : Text) (entityTypes : List String) (threshold : Rat)
  (wordTimes : WordTimes)

def detectWithPresidio (language : String) : List PIIEntity :=
  match rs.analyze with
  | none => []
  | some analyze =>
    if presidioEntities entityTypes = [] ∨ ¬ presidioSupportedLanguages.contains language then
      []
    else
      ((analyze text (presidioEntities entityTypes)).filter fun r => threshold ≤ r.score).map
        fun r => r.toEntity wordTimes

def detectWithGliner : List PIIEntity :=
  match rs.predictEntities with
  | none => []
  | some predict =>
    let labels := glinerToDalston entityTypes
    if labels = [] then []
    else
      (predict text (labels.map Prod.fst) threshold).filterMap fun p =>
        match List.lookup p.label labels with
        | none => none
        | some dalstonType =>
          if shouldFilterGlinerEntity dalstonType p.text then none
          else some (p.toEntity dalstonType wordTimes)

/-- Everything that the recognisers find at or above the threshold. -/
def foundEntities (language : String) : List PIIEntity :=
  detectWithPresidio rs text entityTypes threshold wordTimes language ++
    detectWithGliner rs text entityTypes threshold wordTimes

end Recognisers

section Redaction

/-- Two entities have a character in common. -/
def overlaps (entity existing : PIIEntity) : Bool :=
  decide (entity.startOffset < existing.endOffset) &&
    decide (existing.startOffset < entity.endOffset)

/-- The entity takes the place of the first one it overlaps, is dropped, or comes last. -/
def placeEntity : List PIIEntity → PIIEntity → List PIIEntity
  | [], entity => [entity]
  | existing :: rest, entity =>
    if overlaps entity existing then
      if existing.confidence < entity.confidence then entity :: rest else existing :: rest
    else
      existing :: placeEntity rest entity

def deduplicateEntities (entities : List PIIEntity) : List PIIEntity :=
  entities.foldl placeEntity []

/-- `entities.sort(key=lambda e: e.start_offset)`. -/
def sortByOffset (entities : List PIIEntity) : List PIIEntity :=
  entities.insertionSort fun a b => a.startOffset ≤ b.startOffset

def detectEntities (rs : Recognisers) (text : Text) (segments : List Segment)
    (entityTypes : List String) (threshold : Rat) (language : String) : List PIIEntity :=
  deduplicateEntities
    (sortByOffset
      (foundEntities rs text entityTypes threshold (buildWordTimeMap segments) language))

def placeholder (entity : PIIEntity) : Text :=
  ['['] ++ (entity.entityType.toList.map Char.toUpper) ++ [']']

/-- Each entity is cut out of the text, from the last one on. -/
def replaceEntities {A : Type} (filler : PIIEntity → List A) (text : List A)
    (entities : List PIIEntity) : List A :=
  (entities.insertionSort fun a b => b.startOffset ≤ a.startOffset).foldl
    (splice PIIEntity.startOffset PIIEntity.endOffset filler) text

def generateRedactedText (text : Text) (entities : List PIIEntity) : Text :=
  replaceEntities placeholder text entities

end Redaction

section Deduplication

/-- The entities kept so far stand beside each other, and none starts after the next one. -/
structure KeptBefore (kept : List PIIEntity) (offset : Nat) : Prop where
  beside : Beside PIIEntity.startOffset PIIEntity.endOffset kept
  before : ∀ k ∈ kept, k.startOffset ≤ offset

theorem mem_placeEntity {kept : List PIIEntity} {entity k : PIIEntity}
    (h : k ∈ placeEntity kept entity) : k ∈ kept ∨ k = entity := by
  induction kept with
  | nil => exact Or.inr (List.mem_singleton.mp h)
  | cons existing rest ih =>
      rw [placeEntity] at h
      split_ifs at h
      · rcases List.mem_cons.mp h with rfl | h
        · exact Or.inr rfl
        · exact Or.inl (List.mem_cons_of_mem _ h)
      · exact Or.inl h
      · rcases List.mem_cons.mp h with rfl | h
        · exact Or.inl List.mem_cons_self
        · exact (ih h).imp_left (List.mem_cons_of_mem _)

theorem KeptBefore.place {kept : List PIIEntity} {entity : PIIEntity}
    (h : KeptBefore kept entity.startOffset) :
    KeptBefore (placeEntity kept entity) entity.startOffset := by
  obtain ⟨hbeside, hbefore⟩ := h
  refine ⟨?_, fun k hk => (mem_placeEntity hk).elim (hbefore k) fun heq => heq ▸ le_rfl⟩
  induction kept with
  | nil => exact List.pairwise_singleton _ _
  | cons existing rest ih =>
      obtain ⟨hnext, hrest⟩ := List.pairwise_cons.mp hbeside
      have hbeforeRest : ∀ k ∈ rest, k.startOffset ≤ entity.startOffset :=
        fun k hk => hbefore k (List.mem_cons_of_mem _ hk)
      rw [placeEntity]
      by_cases hover : overlaps entity existing = true
      · -- an entity that overlaps a kept one overlaps the last
        obtain ⟨hlt, -⟩ := (Bool.and_eq_true _ _).mp hover
        have hlast : rest = [] := by
          rw [List.eq_nil_iff_forall_not_mem]
          intro k hk
          have hstart := hnext k hk
          have hle := hbeforeRest k hk
          have hend := of_decide_eq_true hlt
          omega
        subst hlast
        rw [if_pos hover]
        split_ifs <;> exact List.pairwise_singleton _ _
      · rw [if_neg hover]
        refine List.pairwise_cons.mpr ⟨fun k hk => ?_, ih hrest hbeforeRest⟩
        rcases mem_placeEntity hk with hk | rfl
        · exact hnext k hk
        · have hle := hbefore existing List.mem_cons_self
          have hproper := k.proper
          simp only [overlaps, Bool.and_eq_true, decide_eq_true_eq, not_and_or] at hover
          omega

/-- What a run over sorted entities keeps. -/
theorem KeptBefore.foldl {kept entities : List PIIEntity}
    (hsorted : entities.Pairwise fun a b => a.startOffset ≤ b.startOffset)
    (hbeside : Beside PIIEntity.startOffset PIIEntity.endOffset kept)
    (hbefore : ∀ e ∈ entities, ∀ k ∈ kept, k.startOffset ≤ e.startOffset) :
    Beside PIIEntity.startOffset PIIEntity.endOffset (entities.foldl placeEntity kept) := by
  induction entities generalizing kept with
  | nil => exact hbeside
  | cons entity entities ih =>
      obtain ⟨hnext, hsorted⟩ := List.pairwise_cons.mp hsorted
      have hplaced := KeptBefore.place ⟨hbeside, hbefore entity List.mem_cons_self⟩
      exact ih hsorted hplaced.beside
        fun e he k hk => (hplaced.before k hk).trans (hnext e he)

theorem sortByOffset_sorted (entities : List PIIEntity) :
    (sortByOffset entities).Pairwise fun a b => a.startOffset ≤ b.startOffset := by
  have : Std.Total fun a b : PIIEntity => a.startOffset ≤ b.startOffset := ⟨fun a b => le_total _ _⟩
  have : IsTrans PIIEntity fun a b => a.startOffset ≤ b.startOffset := ⟨fun _ _ _ => le_trans⟩
  exact List.pairwise_insertionSort _ entities

theorem mem_sortByOffset {entities : List PIIEntity} {e : PIIEntity} :
    e ∈ sortByOffset entities ↔ e ∈ entities :=
  List.mem_insertionSort _

/-- The entities that are left after duplicates stand beside each other. -/
theorem beside_deduplicateEntities (entities : List PIIEntity) :
    Beside PIIEntity.startOffset PIIEntity.endOffset
      (deduplicateEntities (sortByOffset entities)) :=
  KeptBefore.foldl (sortByOffset_sorted entities) List.Pairwise.nil fun _ _ _ hk => by simp at hk

theorem mem_foldl_placeEntity {kept entities : List PIIEntity} {k : PIIEntity}
    (h : k ∈ entities.foldl placeEntity kept) : k ∈ kept ∨ k ∈ entities := by
  induction entities generalizing kept with
  | nil => exact Or.inl h
  | cons entity entities ih =>
      rcases ih h with h | h
      · rcases mem_placeEntity h with h | rfl
        · exact Or.inl h
        · exact Or.inr List.mem_cons_self
      · exact Or.inr (List.mem_cons_of_mem _ h)

theorem mem_of_mem_deduplicateEntities {entities : List PIIEntity} {k : PIIEntity}
    (h : k ∈ deduplicateEntities (sortByOffset entities)) : k ∈ entities :=
  mem_sortByOffset.mp ((mem_foldl_placeEntity h).resolve_left List.not_mem_nil)

/-- The span of the entity lies in that of the other one. -/
def Inside (a b : PIIEntity) : Prop := b.startOffset ≤ a.startOffset ∧ a.endOffset ≤ b.endOffset

instance (a b : PIIEntity) : Decidable (Inside a b) := inferInstanceAs (Decidable (_ ∧ _))

/-- Of two entities that overlap, the surer one contains the other; where they are equally sure,
the first one does. -/
def Contains (a b : PIIEntity) : Prop :=
  overlaps b a = true → if a.confidence < b.confidence then Inside a b else Inside b a

instance (a b : PIIEntity) : Decidable (Contains a b) := by
  unfold Contains
  infer_instance

/-- Any two entities, in the order in which they are taken. -/
def AllContain (entities : List PIIEntity) : Prop := (sortByOffset entities).Pairwise Contains

instance (entities : List PIIEntity) : Decidable (AllContain entities) :=
  inferInstanceAs (Decidable (List.Pairwise Contains _))

/-- An entity stays, or one that contains it does. -/
theorem inside_placeEntity {kept : List PIIEntity} {entity x : PIIEntity}
    (hcontains : ∀ k ∈ kept, Contains k entity) (hx : x ∈ kept ∨ x = entity) :
    ∃ k ∈ placeEntity kept entity, Inside x k := by
  induction kept with
  | nil => exact ⟨x, List.mem_singleton.mpr (hx.resolve_left List.not_mem_nil), le_rfl, le_rfl⟩
  | cons existing rest ih =>
      have hfirst := hcontains existing List.mem_cons_self
      rw [placeEntity]
      split_ifs with hover hconf
      · -- the entity takes the place of the one it overlaps
        have hinside : Inside existing entity := by simpa [Contains, hover, hconf] using hfirst
        rcases hx with hx | rfl
        · rcases List.mem_cons.mp hx with rfl | hx
          · exact ⟨entity, List.mem_cons_self, hinside⟩
          · exact ⟨x, List.mem_cons_of_mem _ hx, le_rfl, le_rfl⟩
        · exact ⟨x, List.mem_cons_self, le_rfl, le_rfl⟩
      · -- the entity is dropped
        have hinside : Inside entity existing := by simpa [Contains, hover, hconf] using hfirst
        rcases hx with hx | rfl
        · exact ⟨x, hx, le_rfl, le_rfl⟩
        · exact ⟨existing, List.mem_cons_self, hinside⟩
      · rcases hx with hx | rfl
        · rcases List.mem_cons.mp hx with rfl | hx
          · exact ⟨x, List.mem_cons_self, le_rfl, le_rfl⟩
          · obtain ⟨k, hk, hinside⟩ :=
              ih (fun k hk => hcontains k (List.mem_cons_of_mem _ hk)) (Or.inl hx)
            exact ⟨k, List.mem_cons_of_mem _ hk, hinside⟩
        · obtain ⟨k, hk, hinside⟩ :=
            ih (fun k hk => hcontains k (List.mem_cons_of_mem _ hk)) (Or.inr rfl)
          exact ⟨k, List.mem_cons_of_mem _ hk, hinside⟩

/-- What a run over entities that contain each other keeps contains each of them. -/
theorem inside_foldl {kept entities : List PIIEntity} {x : PIIEntity}
    (hpairs : entities.Pairwise Contains) (hkept : ∀ k ∈ kept, ∀ e ∈ entities, Contains k e)
    (hx : x ∈ kept ∨ x ∈ entities) : ∃ k ∈ entities.foldl placeEntity kept, Inside x k := by
  induction entities generalizing kept x with
  | nil => exact ⟨x, hx.resolve_right List.not_mem_nil, le_rfl, le_rfl⟩
  | cons entity entities ih =>
      obtain ⟨hnext, hrest⟩ := List.pairwise_cons.mp hpairs
      have hplaced : ∀ k ∈ placeEntity kept entity, ∀ e ∈ entities, Contains k e := by
        intro k hk e he
        rcases mem_placeEntity hk with hk | rfl
        · exact hkept k hk e (List.mem_cons_of_mem _ he)
        · exact hnext e he
      rw [List.mem_cons, ← or_assoc] at hx
      rcases hx with hx | hx
      · obtain ⟨d, hd, hin⟩ :=
          inside_placeEntity (fun k hk => hkept k hk entity List.mem_cons_self) hx
        obtain ⟨k, hk, hin'⟩ := ih hrest hplaced (Or.inl hd)
        exact ⟨k, hk, hin'.1.trans hin.1, hin.2.trans hin'.2⟩
      · exact ih hrest hplaced (Or.inr hx)

/-- Where entities contain each other, every position found is kept. -/
theorem free_kept_iff {entities : List PIIEntity} (hcontain : AllContain entities) (p : Nat) :
    Free PIIEntity.startOffset PIIEntity.endOffset
        (deduplicateEntities (sortByOffset entities)) p ↔
      Free PIIEntity.startOffset PIIEntity.endOffset entities p := by
  constructor
  · intro hfree e he hcovered
    have hnone : ∀ k ∈ ([] : List PIIEntity), ∀ e ∈ sortByOffset entities, Contains k e :=
      fun _ hk => absurd hk List.not_mem_nil
    obtain ⟨k, hk, hstart, hstop⟩ :=
      inside_foldl hcontain hnone (Or.inr (mem_sortByOffset.mpr he))
    exact hfree k hk ⟨hstart.trans hcovered.1, hcovered.2.trans_le hstop⟩
  · exact fun hfree k hk => hfree k (mem_of_mem_deduplicateEntities hk)

end Deduplication

section Replacement

/-- Entities that stand beside each other are cut out from the last to the first. -/
theorem insertionSort_beside {kept : List PIIEntity}
    (h : Beside PIIEntity.startOffset PIIEntity.endOffset kept) :
    (kept.insertionSort fun a b => b.startOffset ≤ a.startOffset) = kept.reverse := by
  induction kept with
  | nil => rfl
  | cons k kept ih =>
      obtain ⟨hnext, hrest⟩ := List.pairwise_cons.mp h
      have hlast : ∀ l : List PIIEntity, (∀ b ∈ l, k.startOffset < b.startOffset) →
          l.orderedInsert (fun a b => b.startOffset ≤ a.startOffset) k = l ++ [k] := by
        intro l hl
        induction l with
        | nil => rfl
        | cons b l ihl =>
            have hb := hl b List.mem_cons_self
            rw [List.orderedInsert_cons, if_neg (by omega),
              ihl fun c hc => hl c (List.mem_cons_of_mem _ hc), List.cons_append]
      rw [List.insertionSort_cons, ih hrest, List.reverse_cons]
      refine hlast _ fun b hb => ?_
      exact lt_of_lt_of_le k.proper (hnext b (List.mem_reverse.mp hb))

theorem replaceEntities_eq {A : Type} (filler : PIIEntity → List A) (text : List A)
    {kept : List PIIEntity} (h : Beside PIIEntity.startOffset PIIEntity.endOffset kept) :
    replaceEntities filler text kept =
      spliceAll PIIEntity.startOffset PIIEntity.endOffset filler text kept := by
  rw [replaceEntities, insertionSort_beside h, List.foldl_reverse]
  rfl

/-- The redacted text leaves out what was found and keeps the rest in order. `traced` has each
character of it with the position of the text it comes from. -/
structure Redaction (text : Text) (found : List PIIEntity) (redacted : Text)
    (traced : List (Char × Option Nat)) : Prop where
  characters : traced.map Prod.fst = redacted
  origins : traced.filterMap Prod.snd = (List.range text.length).filter fun p =>
    decide (Free PIIEntity.startOffset PIIEntity.endOffset found p)

end Replacement

/-- A model that finds a name, less surely a part of it, and a street right behind. -/
def nameModel : Recognisers where
  analyze := none
  predictEntities := some fun _ _ _ =>
    [⟨"person", "Smith".toList, 5, 10, some (7 / 10), by decide⟩,
      ⟨"person", "John Smith".toList, 0, 10, some (9 / 10), by decide⟩,
      ⟨"location", " Street".toList, 10, 17, none, by decide⟩]

/-- A model that finds a name and, more surely, a street that shares a word with it. -/
def streetModel : Recognisers where
  analyze := none
  predictEntities := some fun _ _ _ =>
    [⟨"person", "John Smith".toList, 0, 10, some (7 / 10), by decide⟩,
      ⟨"location", "Smith Street".toList, 5, 17, some (9 / 10), by decide⟩]

end Dalston.Engines.PiiDetection
