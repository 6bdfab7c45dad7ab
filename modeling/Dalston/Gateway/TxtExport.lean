import Dalston.Model.TextWrap

/-!
# Plain text export

A transcript is exported as plain text from its words, or from its segments when it
has no words. Both loops carry the speaker that was named last, and print it before
each paragraph; words are gathered into a paragraph until another speaker is named.
The export reads the field `speaker_id`, the merge stage writes the field `speaker`.
-/

namespace Dalston.Gateway.TxtExport

open Foundation Model.TextWrap

/-- The fields of a segment or a word that the export or the merge stage uses. -/
structure Item where
  text : Text
  speaker : Option Text
  speakerId : Option Text
  type : Option String

structure Transcript where
  words : List Item
  segments : List Item

section Code

variable (k : Classes) (includeSpeakers : Bool) (maxLineLength : Int)

/-- Wrap the text of a paragraph behind the current speaker, as both loops do. -/
def wrapParagraph (currentSpeaker : Option Text) (text : Text) : Except WrapError Text :=
  match currentSpeaker with
  | some speaker =>
      if includeSpeakers ∧ speaker ≠ [] then
        let lead := speaker ++ [':', ' ']
        fill k ⟨maxLineLength, lead, List.replicate lead.length ' '⟩ text
      else fill k ⟨maxLineLength, [], []⟩ text
  | none => fill k ⟨maxLineLength, [], []⟩ text

/-- The variables of `_export_txt_from_words`. -/
structure WordState where
  lines : List Text
  currentSpeaker : Option Text
  currentTextParts : List Text

def flushParagraph (st : WordState) : Except WrapError WordState :=
  let text := strip st.currentTextParts.flatten
  if text = [] then .ok { st with currentTextParts := [] }
  else
    (wrapParagraph k includeSpeakers maxLineLength st.currentSpeaker text).map fun wrapped =>
      { st with lines := st.lines ++ [wrapped, []], currentTextParts := [] }

def addPart (word : Item) (st : WordState) : WordState :=
  { st with currentTextParts := st.currentTextParts ++ [word.text] }

def stepWord (st : WordState) (word : Item) : Except WrapError WordState :=
  if word.type = some "audio_event" then .ok st
  else if word.speakerId ≠ st.currentSpeaker ∧ word.speakerId ≠ none then
    (flushParagraph k includeSpeakers maxLineLength st).map fun st =>
      addPart word { st with currentSpeaker := word.speakerId }
  else .ok (addPart word st)

/-- `lines.pop()` when the last line is blank. -/
def dropBlankEnd (lines : List Text) : List Text :=
  if lines.getLast? = some [] then lines.dropLast else lines

def exportTxtFromWords (words : List Item) : Except WrapError Text := do
  let st ← words.foldlM (stepWord k includeSpeakers maxLineLength) ⟨[], none, []⟩
  let st ← flushParagraph k includeSpeakers maxLineLength st
  return joinWith '\n' (dropBlankEnd st.lines)

/-- The variables of `_export_txt_from_segments`. -/
structure SegmentState where
  lines : List Text
  currentSpeaker : Option Text

def changeSpeaker (speaker : Option Text) (st : SegmentState) : SegmentState :=
  if includeSpeakers ∧ speaker ≠ st.currentSpeaker ∧ speaker ≠ none then
    ⟨if st.lines = [] then [] else st.lines ++ [[]], speaker⟩
  else st

def stepSegment (st : SegmentState) (segment : Item) : Except WrapError SegmentState :=
  let text := strip segment.text
  if text = [] then .ok st
  else
    let st := changeSpeaker includeSpeakers segment.speakerId st
    (wrapParagraph k includeSpeakers maxLineLength st.currentSpeaker text).map fun wrapped =>
      { st with lines := st.lines ++ [wrapped] }

def exportTxtFromSegments (segments : List Item) : Except WrapError Text := do
  let st ← segments.foldlM (stepSegment k includeSpeakers maxLineLength) ⟨[], none⟩
  return joinWith '\n' st.lines

def exportTxt (transcript : Transcript) : Except WrapError Text :=
  if transcript.words ≠ [] then
    exportTxtFromWords k includeSpeakers maxLineLength transcript.words
  else exportTxtFromSegments k includeSpeakers maxLineLength transcript.segments

end Code

/-- The line length that `export` passes on for plain text. -/
def txtLineLength (maxLineLength : Int) : Int := if 42 < maxLineLength then maxLineLength else 80

theorem txtLineLength_pos (maxLineLength : Int) : 0 < txtLineLength maxLineLength := by
  rw [txtLineLength]
  split_ifs <;> omega

section Attribution

/-- The item has text to be printed. -/
def Item.hasText (i : Item) : Bool := !isBlank i.text

/-- The speaker that an item is attributed to: the one that is named on it. -/
def Item.own (i : Item) : Option Text := i.speakerId <|> i.speaker

/-- The items that the export goes through. -/
def Transcript.items (t : Transcript) : List Item :=
  if t.words ≠ [] then t.words.filter fun w => w.type ≠ some "audio_event"
  else t.segments.filter Item.hasText

/-- The label that stands for the speaker named last; an empty name is not printed. -/
def label (current : Option Text) : Option Text := current.filter (· ≠ [])

@[simp] theorem label_empty : label (some []) = none := rfl

theorem label_of_ne {speaker : Text} (h : speaker ≠ []) : label (some speaker) = some speaker :=
  Option.filter_some_pos (by simpa using h)

/-- A paragraph of the exported text: its label and the items that it is made of. -/
structure Paragraph where
  label : Option Text
  items : List Item

/-- The texts of items in a row, as the export puts them together. -/
def itemsText (items : List Item) : Text := (items.map Item.text).flatten

def Paragraph.text (p : Paragraph) : Text := itemsText p.items

def Paragraph.lead (p : Paragraph) : Text :=
  match p.label with
  | some speaker => speaker ++ [':', ' ']
  | none => []

/-- The words gathered under one speaker are a paragraph unless they are blank. -/
def closeParagraph (current : Option Text) (gathered : List Item) : List Paragraph :=
  if (gathered.map Item.text).flatten |> isBlank then [] else [⟨label current, gathered⟩]

def wordParagraphs : Option Text → List Item → List Item → List Paragraph
  | current, gathered, [] => closeParagraph current gathered
  | current, gathered, word :: rest =>
      if word.speakerId ≠ current ∧ word.speakerId ≠ none then
        closeParagraph current gathered ++ wordParagraphs word.speakerId [word] rest
      else wordParagraphs current (gathered ++ [word]) rest

def segmentParagraphs : Option Text → List Item → List Paragraph
  | _, [] => []
  | current, segment :: rest =>
      ⟨label (segment.speakerId <|> current), [segment]⟩ ::
        segmentParagraphs (segment.speakerId <|> current) rest

/-- The paragraphs of a transcript, in the order they are printed in. -/
def Transcript.paragraphs (t : Transcript) : List Paragraph :=
  if t.words ≠ [] then wordParagraphs none [] t.items else segmentParagraphs none t.items

/-- The printed paragraph stands behind its label, the words of its text on its lines. -/
def Paragraph.Shown (p : Paragraph) (printed : Text) : Prop :=
  printed ≠ [] ∧ ∃ lines, Wraps p.text lines ∧
    printed = p.lead ++ ('\n' :: List.replicate p.lead.length ' ').intercalate lines

/-- What is printed besides blank lines are the paragraphs, in order. -/
def Shows (paragraphs : List Paragraph) (out : Text) : Prop :=
  ∃ lines, out = joinWith '\n' lines ∧
    List.Forall₂ Paragraph.Shown paragraphs (lines.filter (· ≠ []))

/-- No item with text stands under the label of another speaker. -/
def Paragraph.OwnLabel (p : Paragraph) : Prop :=
  ∀ i ∈ p.items, i.hasText = true → ∀ speaker, p.label = some speaker → i.own = some speaker

/-- The words of every item are printed once, in order, and under no label but its own. -/
structure Attributes (t : Transcript) (out : Text) : Prop where
  shows : Shows t.paragraphs out
  words : ∀ p ∈ t.paragraphs, words p.text = p.items.flatMap fun i => words i.text
  keeps : (t.paragraphs.flatMap Paragraph.items).filter Item.hasText =
    t.items.filter Item.hasText
  own : ∀ p ∈ t.paragraphs, p.OwnLabel

/-- The speaker named last. -/
def latestSpeaker (items : List Item) : Option Text := (items.filterMap Item.speakerId).getLast?

/-- Where an item with text names no speaker, no other speaker than its own was named last. -/
def Transcript.NoneCarried (t : Transcript) : Prop :=
  ∀ before item after, t.items = before ++ item :: after → item.hasText = true →
    item.speakerId = none → ∀ speaker, label (latestSpeaker before) = some speaker →
      item.speaker = some speaker

/-- Wherever the items of a paragraph are parted, white space stands on one side or the other. -/
def Transcript.Spaced (t : Transcript) : Prop :=
  ∀ p ∈ t.paragraphs, ∀ before after, p.items = before ++ after →
    ¬ CutsToken isSpace (itemsText before) (itemsText after)

end Attribution

section Printing

variable (k : Classes) {width : Int}

theorem wrapParagraph_eq (p : Paragraph) {current : Option Text} (hp : p.label = label current)
    (text : Text) : wrapParagraph k true width current text =
      fill k ⟨width, p.lead, List.replicate p.lead.length ' '⟩ text := by
  cases current with
  | none =>
      rw [Paragraph.lead, hp]
      rfl
  | some speaker =>
      rw [Paragraph.lead, hp, wrapParagraph]
      by_cases hs : speaker = []
      · rw [if_neg (by simp [hs]), hs, label_empty]
        rfl
      · rw [if_pos ⟨rfl, hs⟩, label_of_ne hs]

theorem wrapParagraph_shown (p : Paragraph) (current : Option Text) (hp : p.label = label current)
    (htext : isBlank p.text = false) (hwidth : 0 < width) :
    ∃ printed, wrapParagraph k true width current (strip p.text) = .ok printed ∧
      p.Shown printed := by
  obtain ⟨c, rest, hstrip, hc⟩ := exists_strip_eq_cons htext
  obtain ⟨lines, hfill, ⟨spaced, hwords, hlines⟩, hne, hnil⟩ :=
    fill_spec k ⟨width, p.lead, List.replicate p.lead.length ' '⟩ c rest hc hwidth
  rw [← hstrip, words_strip] at hwords
  refine ⟨_, ?_, ?_, lines, ⟨spaced, hwords, hlines⟩, rfl⟩
  · rw [wrapParagraph_eq k p hp, hstrip, hfill]
  · obtain ⟨line, more, rfl⟩ := List.exists_cons_of_ne_nil hne
    have hline : line ≠ [] := by
      rintro rfl
      exact hnil List.mem_cons_self
    cases more <;> simp [List.intercalate, hline]

/-- Printed paragraphs of words, each before a blank line. -/
def spaced (texts : List Text) : List Text := texts.flatMap fun text => [text, []]

theorem spaced_append (texts more : List Text) :
    spaced (texts ++ more) = spaced texts ++ spaced more := List.flatMap_append

theorem flushParagraph_spec (hwidth : 0 < width) (st : WordState) (gathered : List Item)
    (hparts : st.currentTextParts = gathered.map Item.text) :
    ∃ texts, flushParagraph k true width st =
        .ok ⟨st.lines ++ spaced texts, st.currentSpeaker, []⟩ ∧
      List.Forall₂ Paragraph.Shown (closeParagraph st.currentSpeaker gathered) texts := by
  cases hblank : isBlank (gathered.map Item.text).flatten with
  | true =>
      refine ⟨[], ?_, by simp [closeParagraph, hblank]⟩
      rw [flushParagraph, hparts, if_pos (strip_eq_nil_iff.mpr hblank)]
      simp [spaced]
  | false =>
      let p : Paragraph := ⟨label st.currentSpeaker, gathered⟩
      obtain ⟨printed, hwrap, hshown⟩ := wrapParagraph_shown k p _ rfl hblank hwidth
      refine ⟨[printed], ?_, by simpa [closeParagraph, hblank] using hshown⟩
      have hne : strip (gathered.map Item.text).flatten ≠ [] := by
        rw [Ne, strip_eq_nil_iff, hblank]
        exact Bool.false_ne_true
      rw [flushParagraph, hparts, if_neg hne]
      exact congrArg (Except.map _) hwrap

/-- The words that are left are printed behind what stands, from the current speaker on. -/
theorem exportWords_spec (hwidth : 0 < width) (words : List Item) (st : WordState)
    (gathered : List Item) (hparts : st.currentTextParts = gathered.map Item.text) :
    ∃ final texts,
      (words.foldlM (stepWord k true width) st >>= flushParagraph k true width) = .ok final ∧
        final.lines = st.lines ++ spaced texts ∧
        List.Forall₂ Paragraph.Shown (wordParagraphs st.currentSpeaker gathered
          (words.filter fun w => w.type ≠ some "audio_event")) texts := by
  induction words generalizing st gathered with
  | nil =>
      obtain ⟨texts, hflush, hshown⟩ := flushParagraph_spec k hwidth st gathered hparts
      exact ⟨_, texts, hflush, rfl, hshown⟩
  | cons word rest ih =>
      by_cases haudio : word.type = some "audio_event"
      · have hstep : stepWord k true width st word = .ok st := if_pos haudio
        obtain ⟨final, texts, hrun, hlines, hshown⟩ := ih st gathered hparts
        refine ⟨final, texts, ?_, hlines, ?_⟩
        · rw [List.foldlM_cons, hstep]
          exact hrun
        · rw [List.filter_cons_of_neg (by simp [haudio])]
          exact hshown
      · rw [List.filter_cons_of_pos (by simp [haudio])]
        by_cases hchange : word.speakerId ≠ st.currentSpeaker ∧ word.speakerId ≠ none
        · obtain ⟨flushed, hflush, hflushed⟩ := flushParagraph_spec k hwidth st gathered hparts
          have hstep : stepWord k true width st word =
              .ok ⟨st.lines ++ spaced flushed, word.speakerId, [word.text]⟩ := by
            rw [stepWord, if_neg haudio, if_pos hchange, hflush]
            rfl
          obtain ⟨final, texts, hrun, hlines, hshown⟩ :=
            ih ⟨st.lines ++ spaced flushed, word.speakerId, [word.text]⟩ [word] rfl
          refine ⟨final, flushed ++ texts, ?_, ?_, ?_⟩
          · rw [List.foldlM_cons, hstep]
            exact hrun
          · rw [hlines, spaced_append, List.append_assoc]
          · rw [wordParagraphs, if_pos hchange]
            exact List.rel_append hflushed hshown
        · have hstep : stepWord k true width st word = .ok (addPart word st) := by
            rw [stepWord, if_neg haudio, if_neg hchange]
          obtain ⟨final, texts, hrun, hlines, hshown⟩ :=
            ih (addPart word st) (gathered ++ [word]) (by simp [addPart, hparts])
          refine ⟨final, texts, ?_, hlines, ?_⟩
          · rw [List.foldlM_cons, hstep]
            exact hrun
          · rw [wordParagraphs, if_neg hchange]
            exact hshown

theorem changeSpeaker_currentSpeaker (speaker : Option Text) (st : SegmentState) :
    (changeSpeaker true speaker st).currentSpeaker = (speaker <|> st.currentSpeaker) := by
  cases speaker with
  | none => simp [changeSpeaker]
  | some speaker =>
      rw [changeSpeaker]
      split
      · rfl
      · rename_i h
        have hsame : some speaker = st.currentSpeaker := by simpa using h
        rw [← hsame]
        rfl

theorem changeSpeaker_lines (speaker : Option Text) (st : SegmentState) :
    ∃ blank, (changeSpeaker true speaker st).lines = st.lines ++ blank ∧
      blank.filter (· ≠ []) = [] := by
  rw [changeSpeaker]
  split
  · by_cases h : st.lines = []
    · exact ⟨[], by simp [h], rfl⟩
    · exact ⟨[[]], by simp [h], rfl⟩
  · exact ⟨[], by simp, rfl⟩

theorem exportSegments_spec (hwidth : 0 < width) (segments : List Item) (st : SegmentState) :
    ∃ final more, segments.foldlM (stepSegment k true width) st = .ok final ∧
      final.lines = st.lines ++ more ∧
      List.Forall₂ Paragraph.Shown
        (segmentParagraphs st.currentSpeaker (segments.filter Item.hasText))
        (more.filter (· ≠ [])) := by
  induction segments generalizing st with
  | nil => exact ⟨st, [], rfl, by simp, .nil⟩
  | cons segment rest ih =>
      cases hblank : isBlank segment.text with
      | true =>
          have hstep : stepSegment k true width st segment = .ok st :=
            if_pos (strip_eq_nil_iff.mpr hblank)
          obtain ⟨final, more, hrun, hlines, hshown⟩ := ih st
          refine ⟨final, more, ?_, hlines, ?_⟩
          · rw [List.foldlM_cons, hstep]
            exact hrun
          · rw [List.filter_cons_of_neg (by simp [Item.hasText, hblank])]
            exact hshown
      | false =>
          have hne : strip segment.text ≠ [] := by
            rw [Ne, strip_eq_nil_iff, hblank]
            exact Bool.false_ne_true
          let changed := changeSpeaker true segment.speakerId st
          let p : Paragraph := ⟨label (segment.speakerId <|> st.currentSpeaker), [segment]⟩
          have hcurrent : changed.currentSpeaker = (segment.speakerId <|> st.currentSpeaker) :=
            changeSpeaker_currentSpeaker segment.speakerId st
          have htext : p.text = segment.text := by simp [p, Paragraph.text, itemsText]
          obtain ⟨printed, hwrap, hshown⟩ := wrapParagraph_shown k p changed.currentSpeaker
            (by rw [hcurrent]) (by rw [htext, hblank]) hwidth
          have hstep : stepSegment k true width st segment =
              .ok ⟨changed.lines ++ [printed], changed.currentSpeaker⟩ := by
            rw [htext] at hwrap
            rw [stepSegment, if_neg hne]
            exact congrArg (Except.map _) hwrap
          obtain ⟨blank, hblanks, hnone⟩ := changeSpeaker_lines segment.speakerId st
          obtain ⟨final, more, hrun, hlines, hrest⟩ :=
            ih ⟨changed.lines ++ [printed], changed.currentSpeaker⟩
          refine ⟨final, blank ++ printed :: more, ?_, ?_, ?_⟩
          · rw [List.foldlM_cons, hstep]
            exact hrun
          · rw [hlines]
            simp [changed, hblanks]
          · rw [List.filter_cons_of_pos (by simp [Item.hasText, hblank]), List.filter_append, hnone,
              List.nil_append, List.filter_cons_of_pos (by simpa using hshown.1), segmentParagraphs,
              ← hcurrent]
            exact .cons (by rw [hcurrent]; exact hshown) hrest

theorem filter_dropBlankEnd (lines : List Text) :
    (dropBlankEnd lines).filter (· ≠ []) = lines.filter (· ≠ []) := by
  rw [dropBlankEnd]
  split
  · rename_i hlast
    conv_rhs => rw [← List.dropLast_append_getLast? [] hlast]
    simp
  · rfl

theorem filter_spaced {paragraphs : List Paragraph} {texts : List Text}
    (h : List.Forall₂ Paragraph.Shown paragraphs texts) :
    (spaced texts).filter (· ≠ []) = texts := by
  induction h with
  | nil => rfl
  | cons hshown _ ih =>
      rw [spaced, List.flatMap_cons, List.filter_append, List.filter_cons_of_pos
        (by simpa using hshown.1), List.filter_cons_of_neg (by simp)]
      exact congrArg (_ :: ·) ih

/-- The export returns, and shows the paragraphs of the transcript. -/
theorem exportTxt_shows (hwidth : 0 < width) (t : Transcript) :
    ∃ out, exportTxt k true width t = .ok out ∧ Shows t.paragraphs out := by
  by_cases hwords : t.words ≠ []
  · obtain ⟨final, texts, hrun, hlines, hshown⟩ :=
      exportWords_spec k hwidth t.words ⟨[], none, []⟩ [] rfl
    rw [List.nil_append] at hlines
    refine ⟨joinWith '\n' (dropBlankEnd final.lines), ?_, dropBlankEnd final.lines, rfl, ?_⟩
    · rw [exportTxt, if_pos hwords, exportTxtFromWords, ← bind_assoc, hrun]
      rfl
    · rw [filter_dropBlankEnd, hlines, filter_spaced hshown, Transcript.paragraphs, if_pos hwords,
        Transcript.items, if_pos hwords]
      exact hshown
  · obtain ⟨final, more, hrun, hlines, hshown⟩ :=
      exportSegments_spec k hwidth t.segments ⟨[], none⟩
    rw [List.nil_append] at hlines
    refine ⟨joinWith '\n' final.lines, ?_, final.lines, rfl, ?_⟩
    · rw [exportTxt, if_neg hwords, exportTxtFromSegments, hrun]
      rfl
    · rw [hlines, Transcript.paragraphs, if_neg hwords, Transcript.items, if_neg hwords]
      exact hshown

/-- Plain text is exported for whatever line length a request asks for. -/
theorem exportTxt_returns (maxLineLength : Int) (t : Transcript) :
    ∃ out, exportTxt k true (txtLineLength maxLineLength) t = .ok out ∧ Shows t.paragraphs out :=
  exportTxt_shows k (txtLineLength_pos maxLineLength) t

end Printing

section Attributed

theorem not_hasText_of_blank {gathered : List Item}
    (h : isBlank (gathered.map Item.text).flatten = true) {i : Item} (hi : i ∈ gathered) :
    i.hasText = false := by
  rw [isBlank, List.all_flatten, List.all_map, List.all_eq_true] at h
  rw [Item.hasText, isBlank]
  simpa using h i hi

theorem closeParagraph_keeps (current : Option Text) (gathered : List Item) :
    ((closeParagraph current gathered).flatMap Paragraph.items).filter Item.hasText =
      gathered.filter Item.hasText := by
  cases hblank : isBlank (gathered.map Item.text).flatten with
  | true =>
      have hnone : gathered.filter Item.hasText = [] :=
        List.filter_eq_nil_iff.mpr fun i hi => by simp [not_hasText_of_blank hblank hi]
      simp [closeParagraph, hblank, hnone]
  | false => simp [closeParagraph, hblank]

theorem wordParagraphs_keeps (current : Option Text) (gathered words : List Item) :
    ((wordParagraphs current gathered words).flatMap Paragraph.items).filter Item.hasText =
      (gathered ++ words).filter Item.hasText := by
  induction words generalizing current gathered with
  | nil => rw [wordParagraphs, closeParagraph_keeps, List.append_nil]
  | cons word rest ih =>
      rw [wordParagraphs]
      split
      · rw [List.flatMap_append, List.filter_append, closeParagraph_keeps, ih,
          List.filter_append gathered]
        rfl
      · rw [ih, List.append_assoc]
        rfl

theorem segmentParagraphs_keeps (current : Option Text) (segments : List Item) :
    (segmentParagraphs current segments).flatMap Paragraph.items = segments := by
  induction segments generalizing current with
  | nil => rfl
  | cons segment rest ih =>
      rw [segmentParagraphs, List.flatMap_cons, ih]
      rfl

theorem Transcript.paragraphs_keep (t : Transcript) :
    (t.paragraphs.flatMap Paragraph.items).filter Item.hasText =
      t.items.filter Item.hasText := by
  rw [Transcript.paragraphs]
  split
  · exact wordParagraphs_keeps none [] t.items
  · rw [segmentParagraphs_keeps]

/-- The item may stand under the label of the speaker named last. -/
def OwnAt (current : Option Text) (i : Item) : Prop :=
  i.hasText = true → ∀ speaker, label current = some speaker → i.own = some speaker

/-- Each item may stand under the label that the loops carry to it. -/
def OwnFrom : Option Text → List Item → Prop
  | _, [] => True
  | current, i :: rest =>
      OwnAt (i.speakerId <|> current) i ∧ OwnFrom (i.speakerId <|> current) rest

theorem closeParagraph_own_iff (current : Option Text) (gathered : List Item) :
    (∀ p ∈ closeParagraph current gathered, p.OwnLabel) ↔ ∀ i ∈ gathered, OwnAt current i := by
  cases hblank : isBlank (gathered.map Item.text).flatten with
  | true =>
      have hvacuous : ∀ i ∈ gathered, OwnAt current i := by
        intro i hi htext
        rw [not_hasText_of_blank hblank hi] at htext
        exact Bool.noConfusion htext
      exact iff_of_true (by simp [closeParagraph, hblank]) hvacuous
  | false =>
      simp only [closeParagraph, hblank, Bool.false_eq_true, if_false, List.mem_singleton,
        forall_eq]
      rfl

theorem wordParagraphs_own_iff (current : Option Text) (gathered words : List Item) :
    (∀ p ∈ wordParagraphs current gathered words, p.OwnLabel) ↔
      (∀ i ∈ gathered, OwnAt current i) ∧ OwnFrom current words := by
  induction words generalizing current gathered with
  | nil =>
      rw [wordParagraphs, closeParagraph_own_iff, OwnFrom, and_true]
  | cons word rest ih =>
      rw [wordParagraphs, OwnFrom]
      split
      · rename_i hchange
        have hcarry : (word.speakerId <|> current) = word.speakerId := by
          obtain ⟨speaker, hs⟩ := Option.ne_none_iff_exists'.mp hchange.2
          rw [hs]
          rfl
        simp only [List.mem_append, or_imp, forall_and, closeParagraph_own_iff, ih, hcarry,
          List.mem_singleton, forall_eq]
      · rename_i hsame
        have hcarry : (word.speakerId <|> current) = current := by
          cases hs : word.speakerId with
          | none => rfl
          | some speaker =>
              have heq : word.speakerId = current := by
                by_contra hne
                exact hsame ⟨hne, by simp [hs]⟩
              rw [← heq, hs]
              rfl
        simp only [ih, hcarry, List.mem_append, List.mem_singleton, or_imp, forall_and, forall_eq,
          and_assoc]

theorem segmentParagraphs_own_iff (current : Option Text) (segments : List Item) :
    (∀ p ∈ segmentParagraphs current segments, p.OwnLabel) ↔ OwnFrom current segments := by
  induction segments generalizing current with
  | nil => simp [segmentParagraphs, OwnFrom]
  | cons segment rest ih =>
      rw [segmentParagraphs, List.forall_mem_cons, ih, OwnFrom]
      apply and_congr_left'
      simp [Paragraph.OwnLabel, OwnAt]

theorem latestSpeaker_concat (before : List Item) (i : Item) :
    latestSpeaker (before ++ [i]) = (i.speakerId <|> latestSpeaker before) := by
  rw [latestSpeaker, List.filterMap_append]
  cases hs : i.speakerId with
  | none => simp [hs, latestSpeaker]
  | some speaker => simp [hs]

/-- An item that names a speaker stands under its own name. -/
theorem ownAt_iff (current : Option Text) (i : Item) :
    OwnAt (i.speakerId <|> current) i ↔
      (i.hasText = true → i.speakerId = none → ∀ speaker, label current = some speaker →
        i.speaker = some speaker) := by
  rw [OwnAt, Item.own]
  cases hs : i.speakerId with
  | none => simp
  | some name =>
      by_cases hname : name = []
      · simp [hname]
      · simp [label_of_ne hname]

theorem ownFrom_iff (before items : List Item) :
    OwnFrom (latestSpeaker before) items ↔
      ∀ earlier i later, items = earlier ++ i :: later → i.hasText = true → i.speakerId = none →
        ∀ speaker, label (latestSpeaker (before ++ earlier)) = some speaker →
          i.speaker = some speaker := by
  induction items generalizing before with
  | nil => simp [OwnFrom]
  | cons item rest ih =>
      rw [OwnFrom, ownAt_iff, ← latestSpeaker_concat, ih]
      constructor
      · rintro ⟨hitem, hrest⟩ earlier i later heq
        cases earlier with
        | nil =>
            obtain ⟨rfl, -⟩ := List.cons.inj heq
            rw [List.append_nil]
            exact hitem
        | cons first earlier =>
            obtain ⟨rfl, htail⟩ := List.cons.inj heq
            have hown := hrest earlier i later htail
            rwa [List.append_assoc] at hown
      · intro h
        constructor
        · have hown := h [] item rest rfl
          rwa [List.append_nil] at hown
        · intro earlier i later heq
          have hown := h (item :: earlier) i later (by rw [heq]; rfl)
          rwa [← List.singleton_append, ← List.append_assoc] at hown

theorem Transcript.own_iff (t : Transcript) :
    (∀ p ∈ t.paragraphs, p.OwnLabel) ↔ t.NoneCarried := by
  have hfrom := ownFrom_iff [] t.items
  simp only [List.nil_append] at hfrom
  rw [Transcript.NoneCarried, ← hfrom, Transcript.paragraphs]
  split
  · rw [wordParagraphs_own_iff]
    simp [latestSpeaker]
  · rw [segmentParagraphs_own_iff]
    rfl

theorem words_kept_iff (t : Transcript) :
    (∀ p ∈ t.paragraphs, words p.text = p.items.flatMap fun i => words i.text) ↔ t.Spaced := by
  refine forall₂_congr fun p _ => ?_
  have hparts : words p.text = (p.items.map Item.text).flatMap words ↔ _ := tokens_flatten_iff
  rw [List.flatMap_map] at hparts
  refine hparts.trans ⟨fun h before after heq => ?_, fun h before after heq => ?_⟩
  · exact h _ _ (by rw [heq, List.map_append])
  · obtain ⟨first, last, hitems, rfl, rfl⟩ := List.map_eq_append_iff.mp heq
    exact h first last hitems

/-- With speakers included, the export returns with the words of every text under no label but
its own exactly when no label is carried over to an item that names no speaker and no two words
of a paragraph meet without white space. -/
theorem exportTxt_attributes_iff (k : Classes) (t : Transcript) (maxLineLength : Int)
    (hwidth : 0 < maxLineLength) :
    (∃ out, exportTxt k true maxLineLength t = .ok out ∧ Attributes t out) ↔
      t.NoneCarried ∧ t.Spaced := by
  obtain ⟨out, hrun, hshows⟩ := exportTxt_shows k hwidth t
  constructor
  · rintro ⟨out', -, hattributes⟩
    exact ⟨t.own_iff.mp hattributes.own, (words_kept_iff t).mp hattributes.words⟩
  · rintro ⟨hnone, hspaced⟩
    exact ⟨out, hrun, hshows, (words_kept_iff t).mpr hspaced, t.paragraphs_keep,
      t.own_iff.mpr hnone⟩

/-- A segment of another speaker, and one that no speaker is known of. -/
def unnamedAfterNamed : Transcript where
  words := []
  segments := [⟨"Hello.".toList, none, some "A".toList, none⟩,
    ⟨"Who is it?".toList, none, none, none⟩]

def asciiClasses : Classes := ⟨fun c => c.isAlphanum || c = '_', Char.isDigit⟩

/-- Words as the merge stage writes them, without white space. -/
def bareWords : Transcript where
  words := ["Welcome", "to", "the", "show."].map fun word =>
    ⟨word.toList, some "A".toList, none, none⟩
  segments := []

/-- Text without a speaker is printed under the previous speaker, and words run together. -/
theorem unnamed_under_previous :
    (exportTxt asciiClasses true 80 unnamedAfterNamed =
        .ok "A: Hello.\nA: Who is it?".toList ∧
      ¬∃ out, exportTxt asciiClasses true 80 unnamedAfterNamed = .ok out ∧
        Attributes unnamedAfterNamed out) ∧
    exportTxt asciiClasses true 80 bareWords = .ok "Welcometotheshow.".toList ∧
      ¬∃ out, exportTxt asciiClasses true 80 bareWords = .ok out ∧ Attributes bareWords out := by
  have hlast : ¬(⟨some "A".toList, [⟨"Who is it?".toList, none, none, none⟩]⟩ :
      Paragraph).OwnLabel := by
    intro hown
    have hname := hown _ List.mem_cons_self rfl "A".toList rfl
    exact absurd hname (by decide)
  refine ⟨⟨by decide +kernel, ?_⟩, by decide +kernel, ?_⟩
  · rintro ⟨out, -, hattributes⟩
    refine hlast (hattributes.own _ ?_)
    exact List.mem_cons_of_mem _ List.mem_cons_self
  · rintro ⟨out, -, hattributes⟩
    have hwords := hattributes.words _ List.mem_cons_self
    exact absurd hwords (by decide +kernel)

/-- A transcript as the merge stage writes it names no `speaker_id`. -/
def merged : Transcript where
  words := []
  segments := [⟨"Hello.".toList, some "A".toList, none, none⟩]

theorem merged_attributes :
    0 < (80 : Int) ∧ ((∃ out, exportTxt asciiClasses true 80 merged = .ok out ∧
      Attributes merged out) ↔ merged.NoneCarried ∧ merged.Spaced) :=
  ⟨by decide, exportTxt_attributes_iff asciiClasses merged 80 (by decide)⟩

end Attributed

end Dalston.Gateway.TxtExport
