import Dalston.Model.CueFiles
import Dalston.Model.Rounding

/-!
# Subtitle export

A transcript is exported as SubRip or WebVTT: a cue for each segment that is not blank, with
its times, its text wrapped to a few lines, and its speaker before the text. The export reads
the field `speaker_id`, the merge stage writes the field `speaker`. SubRip cues are numbered
by the place of their segment among all segments, blank ones included.
-/

namespace Dalston.Gateway.SubtitleExport

open Foundation Model Model.TextWrap Model.CueFiles

section Times

/-- A time in seconds: a float that is not negative. -/
structure Seconds where
  mantissa : Nat
  exponent : Int
  mantissa_lt : mantissa < 2 ^ 53

def Seconds.value (t : Seconds) : Rat := t.mantissa * (2 : Rat) ^ t.exponent

/-- `x % y` on numbers that are not negative. -/
def pyMod (x y : Rat) : Rat := x - y * ⌊x / y⌋

/-- A number in at least so many digits. -/
def padded (width n : Nat) : Text :=
  List.replicate (width - (Nat.toDigits 10 n).length) '0' ++ Nat.toDigits 10 n

/-- `format_timestamp_srt` and `format_timestamp_vtt`, which differ in the mark. -/
def formatTimestamp (mark : Char) (t : Seconds) : Text :=
  let seconds := t.value
  let hours := ⌊seconds / 3600⌋₊
  let minutes := ⌊pyMod seconds 3600 / 60⌋₊
  let secs := ⌊pyMod seconds 60⌋₊
  let millis := ⌊roundDouble (pyMod seconds 1 * 1000)⌋₊
  timeText mark (padded 2 hours) (padded 2 minutes) (padded 2 secs) (padded 3 millis)

def formatTimestampSrt (t : Seconds) : Text := formatTimestamp ',' t

def formatTimestampVtt (t : Seconds) : Text := formatTimestamp '.' t

theorem Seconds.value_nonneg (t : Seconds) : 0 ≤ t.value := by
  rw [Seconds.value]
  positivity

/-- The part of a float behind the point is not within a rounding error of one. -/
theorem Seconds.fract_le (t : Seconds) : Int.fract t.value ≤ 1 - unitRoundoff := by
  obtain ⟨m, e, hm⟩ := t
  rcases le_or_gt 0 e with he | he
  · obtain ⟨n, rfl⟩ := Int.eq_ofNat_of_zero_le he
    have hwhole : (Seconds.mk m n hm).value = ((m * 2 ^ n : Nat) : Rat) := by
      simp [Seconds.value]
    rw [hwhole, Int.fract_natCast]
    norm_num [unitRoundoff]
  · obtain ⟨n, hn⟩ := Int.eq_ofNat_of_zero_le (by omega : 0 ≤ -e)
    have hvalue : (Seconds.mk m e hm).value = (m : Rat) / ((2 ^ n : Nat) : Rat) := by
      rw [Seconds.value, show e = -(n : Int) by omega, zpow_neg, zpow_natCast, div_eq_mul_inv]
      push_cast
      rfl
    have hpow : (0 : Rat) < ((2 ^ n : Nat) : Rat) := by positivity
    rw [hvalue]
    rcases le_or_gt n 53 with hle | hlt
    · -- a multiple of `2 ^ -n` below one
      have hmod : Int.fract ((m : Rat) / ((2 ^ n : Nat) : Rat)) =
          ((m % 2 ^ n : Nat) : Rat) / ((2 ^ n : Nat) : Rat) := by
        exact_mod_cast Int.fract_div_natCast_eq_div_natCast_mod (k := Rat) (m := m) (n := 2 ^ n)
      have hless : ((m % 2 ^ n : Nat) : Rat) + 1 ≤ ((2 ^ n : Nat) : Rat) := by
        exact_mod_cast Nat.mod_lt m (by positivity)
      have hbig : ((2 ^ n : Nat) : Rat) ≤ 2 ^ 53 := by
        exact_mod_cast Nat.pow_le_pow_right (by norm_num) hle
      rw [hmod, div_le_iff₀ hpow, unitRoundoff]
      have hsmall : (1 / 2 ^ 53 : Rat) * ((2 ^ n : Nat) : Rat) ≤ 1 := by
        rw [div_mul_eq_mul_div, one_mul]
        exact (div_le_one (by norm_num)).mpr hbig
      linarith
    · -- below one half
      have hbig : (2 ^ 53 : Rat) * 2 ≤ ((2 ^ n : Nat) : Rat) := by
        have hpow' : 2 ^ 54 ≤ 2 ^ n := Nat.pow_le_pow_right (by norm_num) hlt
        exact_mod_cast hpow'
      have hm' : (m : Rat) < 2 ^ 53 := by exact_mod_cast hm
      have hhalf : (m : Rat) / ((2 ^ n : Nat) : Rat) ≤ 1 / 2 := by
        rw [div_le_iff₀ hpow]
        linarith
      have hself : Int.fract ((m : Rat) / ((2 ^ n : Nat) : Rat)) =
          (m : Rat) / ((2 ^ n : Nat) : Rat) :=
        Int.fract_eq_self.mpr ⟨by positivity, by linarith⟩
      rw [hself]
      exact hhalf.trans (by norm_num [unitRoundoff])

theorem writes_padded (width n : Nat) : Writes (padded width n) n where
  ne_nil h := Nat.toDigits_ne_nil (List.append_eq_nil_iff.mp h).2
  isDigit c hc := by
    rcases List.mem_append.mp hc with hc | hc
    · rw [List.eq_of_mem_replicate hc]
      rfl
    · exact Nat.isDigit_of_mem_toDigits (by norm_num) (by norm_num) hc
  value := by
    rw [padded, Nat.ofDigitChars_append, Nat.ofDigitChars_replicate_zero, Nat.mul_zero,
      Nat.ofDigitChars_ten_toDigits]

theorem le_length_padded (width n : Nat) : width ≤ (padded width n).length := by
  rw [padded, List.length_append, List.length_replicate]
  omega

theorem length_padded {width n : Nat} (hwidth : 0 < width) (h : n < 10 ^ width) :
    (padded width n).length = width := by
  have hlen := (Nat.length_toDigits_le_iff (by norm_num) hwidth).mpr h
  rw [padded, List.length_append, List.length_replicate]
  omega

/-- The milliseconds are those of the time, cut off or rounded, and stay below a second. -/
theorem millis_spec (t : Seconds) :
    (⌊roundDouble (Int.fract t.value * 1000)⌋₊ = ⌊Int.fract t.value * 1000⌋₊ ∨
      |(⌊roundDouble (Int.fract t.value * 1000)⌋₊ : Rat) - Int.fract t.value * 1000| ≤ 1 / 2) ∧
      ⌊roundDouble (Int.fract t.value * 1000)⌋₊ < 1000 := by
  have hfract := Int.fract_nonneg t.value
  have hle := t.fract_le
  have hnonneg : 0 ≤ Int.fract t.value * 1000 := by positivity
  have hsmall : Int.fract t.value * 1000 < 1000 := by linarith [Int.fract_lt_one t.value]
  have hbound : Int.fract t.value * 1000 < 2 ^ 53 := hsmall.trans (by norm_num)
  have hhigh := roundDouble_le hnonneg
  have hless : roundDouble (Int.fract t.value * 1000) < 1000 := by
    have hmul : (1 + unitRoundoff) * (Int.fract t.value * 1000) ≤
        (1 + unitRoundoff) * ((1 - unitRoundoff) * 1000) := by
      refine mul_le_mul_of_nonneg_left ?_ (by norm_num [unitRoundoff])
      linarith
    have hsquare : (1 + unitRoundoff) * ((1 - unitRoundoff) * 1000) < 1000 := by
      norm_num [unitRoundoff]
    linarith
  generalize Int.fract t.value * 1000 = x at *
  have hlow : (⌊x⌋₊ : Rat) ≤ x := Nat.floor_le hnonneg
  have hnext : x < (⌊x⌋₊ : Rat) + 1 := Nat.lt_floor_add_one x
  have hround : (⌊x⌋₊ : Rat) ≤ roundDouble x := (roundDouble_between ⌊x⌋₊ hnonneg hbound).1 hlow
  have hround' : roundDouble x ≤ ((⌊x⌋₊ + 1 : Nat) : Rat) :=
    (roundDouble_between (⌊x⌋₊ + 1) hnonneg hbound).2 (by push_cast; exact hnext.le)
  have hfloor : ⌊x⌋₊ ≤ ⌊roundDouble x⌋₊ := Nat.le_floor hround
  have hfloor' : ⌊roundDouble x⌋₊ ≤ ⌊x⌋₊ + 1 := Nat.floor_le_of_le hround'
  have hnonneg' := le_trans (Nat.cast_nonneg _) hround
  refine ⟨?_, (Nat.floor_lt hnonneg').mpr (by exact_mod_cast hless)⟩
  rcases Nat.le_succ_iff.mp hfloor' with hsame | hup
  · exact Or.inl (le_antisymm hsame hfloor)
  · -- a value that is rounded up is off by the error of the rounding
    right
    have hreach := (Nat.floor_le hnonneg').trans hhigh
    have herror : unitRoundoff * x ≤ 1 / 2 := by
      rw [unitRoundoff]
      linarith
    rw [abs_le]
    constructor
    · rw [hup]
      push_cast
      linarith
    · linarith

theorem writes_toDigits (n : Nat) : Writes (Nat.toDigits 10 n) n := by
  have h := writes_padded 0 n
  rwa [padded, Nat.zero_sub, List.replicate_zero, List.nil_append] at h

theorem mem_formatTimestamp {mark c : Char} {t : Seconds} (h : c ∈ formatTimestamp mark t) :
    c.isDigit = true ∨ c = ':' ∨ c = mark := by
  have hdigit := fun width n => (writes_padded width n).isDigit c
  simp only [formatTimestamp, timeText, List.mem_append, List.mem_cons] at h
  rcases h with h | h | h | h | h | h | h
  · exact Or.inl (hdigit _ _ h)
  · exact Or.inr (Or.inl h)
  · exact Or.inl (hdigit _ _ h)
  · exact Or.inr (Or.inl h)
  · exact Or.inl (hdigit _ _ h)
  · exact Or.inr (Or.inr h)
  · exact Or.inl (hdigit _ _ h)

theorem head_formatTimestamp (mark : Char) (t : Seconds) :
    ∃ d rest, formatTimestamp mark t = d :: rest ∧ d.isDigit = true := by
  have hhours := writes_padded 2 ⌊t.value / 3600⌋₊
  obtain ⟨d, rest, hpadded⟩ := List.exists_cons_of_ne_nil hhours.ne_nil
  rw [formatTimestamp, timeText, hpadded]
  exact ⟨d, _, rfl, hhours.isDigit d (by simp [hpadded])⟩

theorem not_break_of_isDigit {c : Char} (h : c.isDigit = true) : c ≠ '\n' ∧ c ≠ '\r' := by
  constructor <;>
  · rintro rfl
    exact Bool.noConfusion h

/-- The line with the times has no break in it. -/
theorem timing_no_break {mark : Char} (hmark : mark ≠ '\n' ∧ mark ≠ '\r') (a b : Seconds) :
    ∀ c ∈ formatTimestamp mark a ++ " --> ".toList ++ formatTimestamp mark b,
      c ≠ '\n' ∧ c ≠ '\r' := by
  have htime : ∀ t : Seconds, ∀ c ∈ formatTimestamp mark t, c ≠ '\n' ∧ c ≠ '\r' := by
    intro t c hc
    rcases mem_formatTimestamp hc with hc | rfl | rfl
    · exact not_break_of_isDigit hc
    · decide
    · exact hmark
  intro c hc
  rcases List.mem_append.mp hc with hc | hc
  · rcases List.mem_append.mp hc with hc | hc
    · exact htime a c hc
    · have hmem : c ∈ [' ', '-', '-', '>', ' '] := hc
      simp only [List.mem_cons, List.not_mem_nil, or_false] at hmem
      rcases hmem with rfl | rfl | rfl | rfl | rfl <;> decide
  · exact htime b c hc

/-- A time read from a file is the time of the segment, cut off or rounded to milliseconds. -/
def Near (millis : Nat) (t : Seconds) : Prop :=
  millis = ⌊1000 * t.value⌋₊ ∨ |(millis : Rat) - 1000 * t.value| ≤ 1 / 2

theorem readTime_formatTimestamp {mark : Char} (hmark : mark ≠ ':')
    (hmark' : mark.isDigit = false) (t : Seconds) :
    ∃ ms, readTime mark (formatTimestamp mark t) = some ms ∧ Near ms t := by
  have hvalue := t.value_nonneg
  obtain ⟨hnear, hmillis⟩ := millis_spec t
  have hfract : pyMod t.value 1 = Int.fract t.value := by
    rw [pyMod, div_one, one_mul, Int.self_sub_floor]
  -- the whole parts are those of the whole seconds
  have hmod : ∀ n : Nat, ⌊pyMod t.value n⌋₊ = ⌊t.value⌋₊ % n := by
    intro n
    have hquot : (⌊t.value / n⌋ : Rat) = ((⌊t.value⌋₊ / n : Nat) : Rat) := by
      rw [← natCast_floor_eq_intCast_floor (div_nonneg hvalue (Nat.cast_nonneg n)),
        Nat.floor_div_natCast]
    have hpart : pyMod t.value n = t.value - ((n * (⌊t.value⌋₊ / n) : Nat) : Rat) := by
      rw [pyMod, hquot]
      push_cast
      rfl
    have hmoddiv := Nat.mod_add_div ⌊t.value⌋₊ n
    rw [hpart, Nat.floor_sub_natCast]
    omega
  have hdiv : ∀ (x : Rat) (n : Nat), ⌊x / n⌋₊ = ⌊x⌋₊ / n := Nat.floor_div_natCast
  have hhours : ⌊t.value / 3600⌋₊ = ⌊t.value⌋₊ / 3600 := by exact_mod_cast hdiv t.value 3600
  have hminutes : ⌊pyMod t.value 3600 / 60⌋₊ = ⌊t.value⌋₊ % 3600 / 60 := by
    have h := hmod 3600
    have h' := hdiv (pyMod t.value 3600) 60
    push_cast at h h'
    rw [h', h]
  have hsecs : ⌊pyMod t.value 60⌋₊ = ⌊t.value⌋₊ % 60 := by
    have h := hmod 60
    push_cast at h
    exact h
  have hread := readTime_timeText hmark hmark' (writes_padded 2 (⌊t.value⌋₊ / 3600))
    (writes_padded 2 (⌊t.value⌋₊ % 3600 / 60)) (writes_padded 2 (⌊t.value⌋₊ % 60))
    (writes_padded 3 ⌊roundDouble (Int.fract t.value * 1000)⌋₊)
    ⟨le_length_padded _ _, length_padded (by norm_num) (by omega),
      length_padded (by norm_num) (by omega), length_padded (by norm_num) (by omega)⟩
    ⟨by omega, by omega⟩
  have htext : formatTimestamp mark t = timeText mark (padded 2 (⌊t.value⌋₊ / 3600))
      (padded 2 (⌊t.value⌋₊ % 3600 / 60)) (padded 2 (⌊t.value⌋₊ % 60))
      (padded 3 ⌊roundDouble (Int.fract t.value * 1000)⌋₊) := by
    rw [formatTimestamp, hhours, hminutes, hsecs, hfract]
  rw [← htext] at hread
  refine ⟨_, hread, ?_⟩
  have hclock : ((⌊t.value⌋₊ / 3600 * 60 + ⌊t.value⌋₊ % 3600 / 60) * 60 + ⌊t.value⌋₊ % 60) =
      ⌊t.value⌋₊ := by omega
  have hsum : 1000 * t.value = ((⌊t.value⌋₊ * 1000 : Nat) : Rat) + Int.fract t.value * 1000 := by
    have hparts : t.value = ⌊t.value⌋₊ + Int.fract t.value := by
      rw [natCast_floor_eq_intCast_floor hvalue, Int.floor_add_fract]
    push_cast
    linarith
  rw [hclock, Near, hsum]
  refine hnear.imp (fun hcut => ?_) fun hround => ?_
  · rw [hcut, add_comm (_ : Rat), Nat.floor_add_natCast (by positivity), add_comm]
  · rw [Nat.cast_add, add_sub_add_left_eq_sub]
    exact hround

theorem readTiming_format {mark : Char} (hmark : mark ≠ ':' ∧ mark ≠ ' ')
    (hmark' : mark.isDigit = false) (a b : Seconds) :
    ∃ start finish,
      readTiming mark (formatTimestamp mark a ++ " --> ".toList ++ formatTimestamp mark b) =
          some (start, finish) ∧ Near start a ∧ Near finish b := by
  have hblank : ∀ t : Seconds, ' ' ∉ formatTimestamp mark t := by
    intro t hmem
    rcases mem_formatTimestamp hmem with h | h | h
    · exact Bool.noConfusion h
    · exact absurd h (by decide)
    · exact hmark.2 h.symm
  obtain ⟨start, hstart, hnear⟩ := readTime_formatTimestamp hmark.1 hmark' a
  obtain ⟨finish, hfinish, hnear'⟩ := readTime_formatTimestamp hmark.1 hmark' b
  exact ⟨start, finish, readTiming_append hstart hfinish (hblank a) (hblank b), hnear, hnear'⟩

end Times

section Code

/-- The fields of a segment that the export or the merge stage uses. -/
structure Segment where
  start : Seconds
  finish : Seconds
  text : Text
  speaker : Option Text
  speakerId : Option Text

/-- The limits of a subtitle, as the endpoints check them. -/
structure Limits where
  maxLineLength : Nat
  maxLines : Nat
  maxLineLength_ge : 10 ≤ maxLineLength
  maxLines_ge : 1 ≤ maxLines

variable (k : Classes) (lim : Limits) (includeSpeakers : Bool)

/-- Keep the first lines, with an ellipsis at their end when some are left out. -/
def limitLines (lines : List Text) : List Text :=
  if lim.maxLines < lines.length then
    let kept := lines.take lim.maxLines
    match kept.getLast? with
    | some last =>
        kept.dropLast ++ [if lim.maxLineLength - 3 < last.length then
          last.take (lim.maxLineLength - 3) ++ "...".toList else last ++ "...".toList]
    | none => kept
  else lines

def wrapText (text : Text) : Except WrapError Text :=
  if text.length ≤ lim.maxLineLength then .ok text
  else (wrap k ⟨lim.maxLineLength, [], []⟩ text).map fun lines =>
    joinWith '\n' (limitLines lim lines)

/-- A speaker that is printed before the text. -/
def printedSpeaker (speaker : Option Text) : Option Text :=
  if includeSpeakers then speaker.filter (· ≠ []) else none

def srtCaption (speaker : Option Text) (text : Text) : Text :=
  match printedSpeaker includeSpeakers speaker with
  | some name => '[' :: name ++ "] ".toList ++ text
  | none => text

def vttCaption (speaker : Option Text) (text : Text) : Text :=
  match printedSpeaker includeSpeakers speaker with
  | some name => "<v ".toList ++ name ++ '>' :: text
  | none => text

/-- The lines that the loop of `export_srt` adds for a segment. -/
def srtLines (idx : Nat) (segment : Segment) : Except WrapError (List Text) :=
  let text := strip segment.text
  if text = [] then .ok []
  else
    (wrapText k lim (srtCaption includeSpeakers segment.speakerId text)).map fun wrapped =>
      [Nat.toDigits 10 idx,
        formatTimestampSrt segment.start ++ " --> ".toList ++ formatTimestampSrt segment.finish,
        wrapped, []]

def exportSrtFrom : Nat → List Segment → Except WrapError (List Text)
  | _, [] => .ok []
  | idx, segment :: rest => do
      let lines ← srtLines k lim includeSpeakers idx segment
      let more ← exportSrtFrom (idx + 1) rest
      return lines ++ more

def exportSrt (segments : List Segment) : Except WrapError Text :=
  (exportSrtFrom k lim includeSpeakers 1 segments).map (joinWith '\n')

/-- The lines that the loop of `export_vtt` adds for a segment. -/
def vttLines (segment : Segment) : Except WrapError (List Text) :=
  let text := strip segment.text
  if text = [] then .ok []
  else
    (wrapText k lim (vttCaption includeSpeakers segment.speakerId text)).map fun wrapped =>
      [formatTimestampVtt segment.start ++ " --> ".toList ++ formatTimestampVtt segment.finish,
        wrapped, []]

def exportVttFrom : List Segment → Except WrapError (List Text)
  | [] => .ok []
  | segment :: rest => do
      let lines ← vttLines k lim includeSpeakers segment
      let more ← exportVttFrom rest
      return lines ++ more

def exportVtt (segments : List Segment) : Except WrapError Text :=
  (exportVttFrom k lim includeSpeakers segments).map fun lines =>
    joinWith '\n' ("WEBVTT".toList :: [] :: lines)

end Code

section Wrapping

variable (k : Classes) (lim : Limits)

/-- A text with ink at both ends. -/
structure Inked (s : Text) : Prop where
  head : ∃ c rest, s = c :: rest ∧ isSpace c = false
  last : ∃ d, s.getLast? = some d ∧ isSpace d = false

/-- What is left of a text after wrapping: its words on lines, or the first of these lines and
an ellipsis on the last line that there may be. -/
inductive Shortened (text payload : Text) : Prop
  | whole (lines : List Text) (h : Wraps text lines) (hpayload : payload = joinWith '\n' lines)
  | cut (hlines : (readLines payload).length = lim.maxLines) (before after : List Text)
      (kept rest : Text) (h : Wraps text (before ++ (kept ++ rest) :: after))
      (hpayload : payload = joinWith '\n' (before ++ [kept ++ "...".toList]))

/-- A payload that stands in a file as its own lines. -/
structure Payload (p : Text) : Prop where
  last : p.getLast? ≠ some '\r'
  head_ne : ∃ line, (readLines p).head? = some line ∧ line ≠ []
  last_ne : ∃ line, (readLines p).getLast? = some line ∧ line ≠ []

/-- The text that is printed for a caption. -/
def wrapped (caption : Text) : Text :=
  match wrapText k lim caption with
  | .ok payload => payload
  | .error _ => []

theorem inked_strip {s : Text} (h : isBlank s = false) : Inked (strip s) := by
  obtain ⟨c, rest, hstrip, hc⟩ := exists_strip_eq_cons h
  have htrimmed : Trimmed isSpace (strip s) := trimmed_trim s
  refine ⟨⟨c, rest, hstrip, hc⟩, ?_⟩
  obtain ⟨d, hd⟩ := Option.ne_none_iff_exists'.mp
    (fun hnone => by simp [hstrip] at hnone : (strip s).getLast? ≠ none)
  exact ⟨d, hd, htrimmed.2 d hd⟩

theorem Inked.behind {text : Text} (h : Inked text) {c : Char} (hc : isSpace c = false)
    (label : Text) : Inked (c :: label ++ text) := by
  obtain ⟨d, hd, hspace⟩ := h.last
  refine ⟨⟨c, label ++ text, rfl, hc⟩, d, ?_, hspace⟩
  rw [List.getLast?_append, hd]
  rfl

theorem ne_break_of_ink {c : Char} (h : isSpace c = false) : c ≠ '\n' ∧ c ≠ '\r' := by
  constructor <;>
  · rintro rfl
    exact Bool.noConfusion h

theorem Inked.payload {s : Text} (h : Inked s) : Payload s := by
  obtain ⟨c, rest, rfl, hc⟩ := h.head
  obtain ⟨d, hd, hspace⟩ := h.last
  have hbreak := ne_break_of_ink hspace
  obtain ⟨line, more, hlines⟩ := head?_readLines rest hc
  refine ⟨?_, ⟨c :: line, by rw [hlines]; rfl, List.cons_ne_nil _ _⟩,
    getLast?_readLines hd hbreak⟩
  rw [hd]
  exact fun heq => hbreak.2 (Option.some.inj heq)

/-- Lines that have no break in them and are not empty. -/
structure Clean (lines : List Text) : Prop where
  ne_nil : lines ≠ []
  nil_notMem : [] ∉ lines
  no_break : ∀ line ∈ lines, ∀ c ∈ line, c ≠ '\n' ∧ c ≠ '\r'

theorem Clean.readLines_joinWith {lines : List Text} (h : Clean lines) :
    readLines (joinWith '\n' lines) = lines := by
  have hlast : ∀ line ∈ lines, line.getLast? ≠ some '\r' := by
    intro line hline heq
    exact (h.no_break line hline '\r' (List.mem_of_getLast? heq)).2 rfl
  have hone : lines.flatMap readLines = lines.flatMap fun line => [line] :=
    List.flatMap_congr fun line hline => readLines_of_no_break (h.no_break line hline)
  rw [CueFiles.readLines_joinWith h.ne_nil hlast, hone, List.flatMap_singleton']

theorem Clean.payload {lines : List Text} (h : Clean lines) : Payload (joinWith '\n' lines) := by
  have hread := h.readLines_joinWith
  have hne : ∀ line ∈ lines, line ≠ [] := by
    rintro line hline rfl
    exact h.nil_notMem hline
  refine ⟨fun hlast => ?_, ?_, ?_⟩
  · rcases mem_joinWith (List.mem_of_getLast? hlast) with hsep | ⟨line, hline, hmem⟩
    · exact absurd hsep (by decide)
    · exact (h.no_break line hline '\r' hmem).2 rfl
  · rw [hread]
    obtain ⟨first, rest, rfl⟩ := List.exists_cons_of_ne_nil h.ne_nil
    exact ⟨first, rfl, hne first List.mem_cons_self⟩
  · rw [hread]
    obtain ⟨last, hlast⟩ := Option.ne_none_iff_exists'.mp
      (fun hnone => h.ne_nil (List.getLast?_eq_none_iff.mp hnone))
    exact ⟨last, hlast, hne last (List.mem_of_getLast? hlast)⟩

/-- When lines are left out, the last line that is kept is cut short. -/
theorem limitLines_cut {lines : List Text} (h : lim.maxLines < lines.length) :
    ∃ before cut more after, lines = before ++ (cut ++ more) :: after ∧
      limitLines lim lines = before ++ [cut ++ "...".toList] ∧
      before.length + 1 = lim.maxLines := by
  have hpos := lim.maxLines_ge
  have hlen : (lines.take lim.maxLines).length = lim.maxLines := by
    rw [List.length_take]
    omega
  obtain ⟨last, hlast⟩ := Option.ne_none_iff_exists'.mp
    (fun hnone => by
      rw [List.getLast?_eq_none_iff.mp hnone, List.length_nil] at hlen
      omega : (lines.take lim.maxLines).getLast? ≠ none)
  have hkept := List.dropLast_append_getLast? last hlast
  have hlines : lines = (lines.take lim.maxLines).dropLast ++ last :: lines.drop lim.maxLines := by
    conv_lhs => rw [← List.take_append_drop lim.maxLines lines, ← hkept]
    rw [List.append_assoc, List.singleton_append]
  have hcount : (lines.take lim.maxLines).dropLast.length + 1 = lim.maxLines := by
    rw [List.length_dropLast, hlen]
    omega
  have hlimit : limitLines lim lines = (lines.take lim.maxLines).dropLast ++
      [if lim.maxLineLength - 3 < last.length then
        last.take (lim.maxLineLength - 3) ++ "...".toList else last ++ "...".toList] := by
    rw [limitLines, if_pos h]
    simp only [hlast]
  by_cases hwide : lim.maxLineLength - 3 < last.length
  · refine ⟨(lines.take lim.maxLines).dropLast, last.take (lim.maxLineLength - 3),
      last.drop (lim.maxLineLength - 3), lines.drop lim.maxLines, ?_, ?_, hcount⟩
    · rw [List.take_append_drop]
      exact hlines
    · rw [hlimit, if_pos hwide]
  · refine ⟨(lines.take lim.maxLines).dropLast, last, [], lines.drop lim.maxLines, ?_, ?_, hcount⟩
    · rw [List.append_nil]
      exact hlines
    · rw [hlimit, if_neg hwide]

theorem Clean.limitLines {lines : List Text} (h : Clean lines) : Clean (limitLines lim lines) := by
  by_cases hcut : lim.maxLines < lines.length
  · obtain ⟨before, cut, more, after, rfl, hlimit, -⟩ := limitLines_cut lim hcut
    rw [hlimit]
    refine ⟨by simp, ?_, ?_⟩
    · intro hmem
      rcases List.mem_append.mp hmem with hmem | hmem
      · exact h.nil_notMem (List.mem_append_left _ hmem)
      · simp at hmem
    · intro line hline
      rcases List.mem_append.mp hline with hline | hline
      · exact h.no_break line (List.mem_append_left _ hline)
      · rw [List.mem_singleton.mp hline]
        intro c hc
        rcases List.mem_append.mp hc with hc | hc
        · exact h.no_break (cut ++ more) (by simp) c (List.mem_append_left _ hc)
        · obtain rfl : c = '.' := by simpa using hc
          decide
  · rw [SubtitleExport.limitLines, if_neg hcut]
    exact h

theorem shortened_limitLines {lines : List Text} (h : Clean lines) {text : Text}
    (hwraps : Wraps text lines) :
    Shortened lim text (joinWith '\n' (limitLines lim lines)) := by
  by_cases hcut : lim.maxLines < lines.length
  · have hread := (h.limitLines lim).readLines_joinWith
    obtain ⟨before, cut, more, after, rfl, hlimit, hcount⟩ := limitLines_cut lim hcut
    refine .cut ?_ before after cut more hwraps (by rw [hlimit])
    rw [hread, hlimit, List.length_append, List.length_singleton, hcount]
  · exact .whole lines hwraps (by rw [limitLines, if_neg hcut])

/-- A caption is printed, as lines of the file, with no empty one when it is wrapped. -/
theorem wrapText_spec {caption : Text} (h : Inked caption) :
    wrapText k lim caption = .ok (wrapped k lim caption) ∧ Payload (wrapped k lim caption) ∧
      Shortened lim caption (wrapped k lim caption) ∧
      (lim.maxLineLength < caption.length → [] ∉ readLines (wrapped k lim caption)) := by
  by_cases hshort : caption.length ≤ lim.maxLineLength
  · have hwrap : wrapText k lim caption = .ok caption := if_pos hshort
    have hwrapped : wrapped k lim caption = caption := by rw [wrapped, hwrap]
    rw [hwrapped]
    exact ⟨hwrap, h.payload, .whole [caption] (wraps_self caption) (joinWith_singleton _ _).symm,
      fun hlong => absurd hlong (by omega)⟩
  · obtain ⟨c, rest, rfl, hc⟩ := h.head
    have hpos := lim.maxLineLength_ge
    obtain ⟨bodies, hlines, hlays⟩ :=
      wrap_spec k ⟨lim.maxLineLength, [], []⟩ c rest hc (by simp only; omega)
    rw [Layout.indented_empty] at hlines
    have hclean : Clean bodies := by
      refine ⟨hlays.ne_nil hc, hlays.nil_notMem, fun body hbody d hd => ?_⟩
      have hmunged := not_newline_of_mem_munge (hlays.unwraps.subset body hbody hd)
      constructor <;>
      · rintro rfl
        exact absurd (hmunged rfl) (by decide)
    have hwrap : wrapText k lim (c :: rest) = .ok (joinWith '\n' (limitLines lim bodies)) := by
      rw [wrapText, if_neg hshort, hlines]
      rfl
    have hwrapped : wrapped k lim (c :: rest) = joinWith '\n' (limitLines lim bodies) := by
      rw [wrapped, hwrap]
    have hlimit := hclean.limitLines lim
    rw [hwrapped]
    refine ⟨hwrap, hlimit.payload, shortened_limitLines lim hclean hlays.wraps, fun _ => ?_⟩
    rw [hlimit.readLines_joinWith]
    exact hlimit.nil_notMem

end Wrapping

section Entries

/-- The segment has text to be printed. -/
def Segment.hasText (s : Segment) : Bool := !isBlank s.text

/-- The speaker of a segment: the one the export reads, else the one the merge stage wrote. -/
def Segment.own (s : Segment) : Option Text := s.speakerId <|> s.speaker

/-- The segments that are printed, with their places among all segments. -/
def printed (segments : List Segment) : List (Segment × Nat) :=
  (segments.zipIdx 1).filter fun e => e.1.hasText

theorem hasText_of_mem_printed {segments : List Segment} {e : Segment × Nat}
    (h : e ∈ printed segments) : isBlank e.1.text = false := by
  have htext := (List.mem_filter.mp h).2
  simpa [Segment.hasText] using htext

/-- The place among the printed segments is the place among all of them only without a blank
one before. -/
def Numbered (segments : List Segment) : Prop :=
  ∀ before s after, segments = before ++ s :: after → s.hasText = true →
    ∀ b ∈ before, b.hasText = true

theorem numbered_cons (s : Segment) (rest : List Segment) :
    Numbered (s :: rest) ↔
      if s.hasText = true then Numbered rest else ∀ b ∈ rest, b.hasText = false := by
  split
  · rename_i hs
    constructor
    · intro h before t after heq ht b hb
      exact h (s :: before) t after (by rw [heq]; rfl) ht b (List.mem_cons_of_mem _ hb)
    · intro h before t after heq ht b hb
      cases before with
      | nil => exact absurd hb List.not_mem_nil
      | cons first before =>
          obtain ⟨rfl, htail⟩ := List.cons.inj heq
          rcases List.mem_cons.mp hb with rfl | hb
          · exact hs
          · exact h before t after htail ht b hb
  · rename_i hs
    constructor
    · intro h b hb
      by_contra hb'
      rw [Bool.not_eq_false] at hb'
      obtain ⟨before, after, rfl⟩ := List.append_of_mem hb
      exact hs (h (s :: before) b after rfl hb' s List.mem_cons_self)
    · intro h before t after heq ht b hb
      cases before with
      | nil => exact absurd hb List.not_mem_nil
      | cons first before =>
          obtain ⟨rfl, htail⟩ := List.cons.inj heq
          rw [h t (by rw [htail]; simp)] at ht
          exact Bool.noConfusion ht

/-- The places that the loop counts from `idx` on are those of the printed segments from `n` on
when it begins with both the same, and no blank segment comes first. -/
theorem numbered_from (segments : List Segment) (idx n : Nat) (hle : n ≤ idx) :
    (∀ e ∈ ((segments.zipIdx idx).filter fun e => e.1.hasText).zipIdx n, e.1.2 = e.2) ↔
      (∀ s ∈ segments, s.hasText = false) ∨ idx = n ∧ Numbered segments := by
  induction segments generalizing idx n with
  | nil => simp
  | cons s rest ih =>
      have hblank : (∀ b ∈ rest, b.hasText = false) → Numbered rest := by
        intro h before t after heq ht
        rw [h t (by rw [heq]; simp)] at ht
        exact Bool.noConfusion ht
      rw [List.zipIdx_cons, numbered_cons]
      cases hs : s.hasText with
      | true =>
          have hrest := ih (idx + 1) (n + 1) (by omega)
          rw [List.filter_cons_of_pos (by simpa using hs), List.zipIdx_cons, List.forall_mem_cons,
            hrest]
          simp only [List.mem_cons, forall_eq_or_imp, hs, Bool.true_eq_false, false_and, false_or,
            if_true]
          constructor
          · rintro ⟨heq, h | ⟨-, h⟩⟩
            · exact ⟨heq, hblank h⟩
            · exact ⟨heq, h⟩
          · rintro ⟨heq, h⟩
            exact ⟨heq, Or.inr ⟨by omega, h⟩⟩
      | false =>
          have hrest := ih (idx + 1) n (by omega)
          rw [List.filter_cons_of_neg (by simp [hs]), hrest]
          simp only [List.mem_cons, forall_eq_or_imp, hs, true_and, Bool.false_eq_true, if_false]
          constructor
          · rintro (h | ⟨heq, -⟩)
            · exact Or.inl h
            · omega
          · rintro (h | ⟨-, h⟩)
            · exact Or.inl h
            · exact Or.inl h

theorem numbered_iff (segments : List Segment) :
    (∀ e ∈ (printed segments).zipIdx 1, e.1.2 = e.2) ↔ Numbered segments := by
  rw [printed, numbered_from segments 1 1 le_rfl]
  constructor
  · rintro (h | ⟨-, h⟩)
    · intro before t after heq ht
      rw [h t (by rw [heq]; simp)] at ht
      exact Bool.noConfusion ht
    · exact h
  · exact fun h => Or.inr ⟨rfl, h⟩

theorem forall_printed_iff (P : Segment → Prop) (segments : List Segment) :
    (∀ e ∈ (printed segments).zipIdx 1, P e.1.1) ↔ ∀ s ∈ segments, s.hasText = true → P s := by
  have hmap : ((printed segments).zipIdx 1).map (fun e => e.1.1) =
      segments.filter Segment.hasText := by
    calc
      ((printed segments).zipIdx 1).map (fun e => e.1.1) =
          (((printed segments).zipIdx 1).map Prod.fst).map Prod.fst := by rw [List.map_map]; rfl
      _ = (printed segments).map Prod.fst := by rw [List.zipIdx_map_fst]
      _ = ((segments.zipIdx 1).map Prod.fst).filter Segment.hasText := by
        rw [List.filter_map]
        rfl
      _ = segments.filter Segment.hasText := by rw [List.zipIdx_map_fst]
  constructor
  · intro h s hs htext
    have hmem : s ∈ ((printed segments).zipIdx 1).map fun e => e.1.1 := by
      rw [hmap]
      exact List.mem_filter.mpr ⟨hs, htext⟩
    obtain ⟨e, he, rfl⟩ := List.mem_map.mp hmem
    exact h e he
  · intro h e he
    have hmem : e.1.1 ∈ segments.filter Segment.hasText := by
      rw [← hmap]
      exact List.mem_map_of_mem he
    exact h _ (List.mem_filter.mp hmem).1 (List.mem_filter.mp hmem).2

end Entries

section Srt

variable (k : Classes) (lim : Limits) (includeSpeakers : Bool)

/-- A cue that is read is that of a segment: its number, its times, its speaker and its text. -/
structure SrtReads (cue : Nat × Cue) (s : Segment) (n : Nat) : Prop where
  number : cue.1 = n
  start : Near cue.2.start s.start
  finish : Near cue.2.finish s.finish
  payload : cue.2.payload =
    readLines (wrapped k lim (srtCaption includeSpeakers s.own (strip s.text)))
  text : Shortened lim (srtCaption includeSpeakers s.own (strip s.text))
    (wrapped k lim (srtCaption includeSpeakers s.own (strip s.text)))

/-- The exported file is read back as the segments that are not blank, numbered from one. -/
def SrtRoundTrips (segments : List Segment) : Prop :=
  ∃ out cues, exportSrt k lim includeSpeakers segments = .ok out ∧ readSrt out = some cues ∧
    List.Forall₂ (fun cue e => SrtReads k lim includeSpeakers cue e.1.1 e.2) cues
      ((printed segments).zipIdx 1)

/-- What is printed of a segment is its caption, without an empty line. -/
structure SrtReadable (s : Segment) : Prop where
  speaker : readLines (wrapped k lim (srtCaption includeSpeakers s.speakerId (strip s.text))) =
    readLines (wrapped k lim (srtCaption includeSpeakers s.own (strip s.text)))
  no_gap : [] ∉ readLines (wrapped k lim (srtCaption includeSpeakers s.speakerId (strip s.text)))

theorem inked_srtCaption (speaker : Option Text) {s : Text} (h : isBlank s = false) :
    Inked (srtCaption includeSpeakers speaker (strip s)) := by
  rw [srtCaption]
  cases printedSpeaker includeSpeakers speaker with
  | none => exact inked_strip h
  | some name =>
      have hink := (inked_strip h).behind (c := '[') rfl (name ++ "] ".toList)
      rwa [← List.cons_append] at hink

/-- The lines before the text of a cue. -/
def srtHead (e : Segment × Nat) : List Text :=
  [Nat.toDigits 10 e.2,
    formatTimestampSrt e.1.start ++ " --> ".toList ++ formatTimestampSrt e.1.finish]

def srtBlock (e : Segment × Nat) : List Text :=
  srtHead e ++ readLines (wrapped k lim (srtCaption includeSpeakers e.1.speakerId (strip e.1.text)))

theorem srtHead_no_break (e : Segment × Nat) :
    ∀ line ∈ srtHead e, ∀ c ∈ line, c ≠ '\n' ∧ c ≠ '\r' := by
  intro line hline
  rcases List.mem_cons.mp hline with rfl | hline
  · exact fun c hc => not_break_of_isDigit ((writes_toDigits e.2).isDigit c hc)
  · rw [List.mem_singleton.mp hline]
    exact timing_no_break (by decide) e.1.start e.1.finish

theorem nil_notMem_srtHead (e : Segment × Nat) : [] ∉ srtHead e := by
  intro hmem
  rcases List.mem_cons.mp hmem with hnil | hmem
  · exact Nat.toDigits_ne_nil hnil.symm
  · have hnil := List.mem_singleton.mp hmem
    simp at hnil

theorem readBlocks_srtBlock_ne (e : Segment × Nat) :
    readBlocks (srtBlock k lim includeSpeakers e) ≠ [] := by
  have hmem : Nat.toDigits 10 e.2 ∈ srtBlock k lim includeSpeakers e := List.mem_cons_self
  exact List.length_pos_iff.mp (readBlocks_pos hmem Nat.toDigits_ne_nil)

/-- The loop writes the entries of the printed segments. -/
theorem exportSrtFrom_eq (idx : Nat) (segments : List Segment) :
    exportSrtFrom k lim includeSpeakers idx segments =
      .ok (((segments.zipIdx idx).filter fun e => e.1.hasText).flatMap fun e =>
        srtHead e ++ [wrapped k lim (srtCaption includeSpeakers e.1.speakerId (strip e.1.text)),
          []]) := by
  induction segments generalizing idx with
  | nil => rfl
  | cons s rest ih =>
      rw [exportSrtFrom, ih, List.zipIdx_cons]
      cases hblank : isBlank s.text with
      | true =>
          have hlines : srtLines k lim includeSpeakers idx s = .ok [] :=
            if_pos (strip_eq_nil_iff.mpr hblank)
          rw [hlines, List.filter_cons_of_neg (by simp [Segment.hasText, hblank])]
          rfl
      | false =>
          have hne : strip s.text ≠ [] := by
            rw [Ne, strip_eq_nil_iff, hblank]
            exact Bool.false_ne_true
          have hwrap := (wrapText_spec k lim
            (inked_srtCaption includeSpeakers s.speakerId hblank)).1
          rw [srtLines, if_neg hne, hwrap,
            List.filter_cons_of_pos (by simp [Segment.hasText, hblank])]
          rfl

theorem exportSrt_readBlocks (segments : List Segment) :
    ∃ out, exportSrt k lim includeSpeakers segments = .ok out ∧
      readBlocks (readLines out) =
        (printed segments).flatMap fun e => readBlocks (srtBlock k lim includeSpeakers e) := by
  refine ⟨_, congrArg (Except.map _) (exportSrtFrom_eq k lim includeSpeakers 1 segments), ?_⟩
  by_cases hnone : printed segments = []
  · rw [printed] at hnone
    rw [printed, hnone]
    rfl
  · have hlines := readLines_entries [] srtHead
      (fun e => wrapped k lim (srtCaption includeSpeakers e.1.speakerId (strip e.1.text)))
      (printed segments) (Or.inr hnone) (by simp) (fun e _ => srtHead_no_break e)
      (fun e he => (wrapText_spec k lim (inked_srtCaption includeSpeakers e.1.speakerId
        (hasText_of_mem_printed he))).2.1.last)
    rw [List.nil_append, List.nil_append] at hlines
    exact (congrArg readBlocks hlines).trans
      (readBlocks_flatMap (srtBlock k lim includeSpeakers) (printed segments))

theorem srtBlock_reads_iff (e : Segment × Nat) (he : isBlank e.1.text = false) (n : Nat) :
    (∃ b c, readBlocks (srtBlock k lim includeSpeakers e) = [b] ∧ readSrtCue b = some c ∧
      SrtReads k lim includeSpeakers c e.1 n) ↔
      e.2 = n ∧ SrtReadable k lim includeSpeakers e.1 := by
  have hspec := wrapText_spec k lim (inked_srtCaption includeSpeakers e.1.speakerId he)
  have hown := wrapText_spec k lim (inked_srtCaption includeSpeakers e.1.own he)
  obtain ⟨first, hfirst, hfirst'⟩ := hspec.2.1.head_ne
  obtain ⟨last, hlast, hlast'⟩ := hspec.2.1.last_ne
  have hnumber : Nat.toDigits 10 e.2 ≠ [] := Nat.toDigits_ne_nil
  by_cases hgap : [] ∈ readLines
      (wrapped k lim (srtCaption includeSpeakers e.1.speakerId (strip e.1.text)))
  · constructor
    · rintro ⟨b, -, hone, -⟩
      have hmore : 1 < (readBlocks (srtBlock k lim includeSpeakers e)).length := by
        refine one_lt_length_readBlocks (rfl : _ = some (Nat.toDigits 10 e.2)) hnumber
          (?_ : _ = some last) hlast' (List.mem_append_right _ hgap)
        rw [srtBlock, List.getLast?_append, hlast]
        rfl
      rw [hone] at hmore
      exact absurd hmore (lt_irrefl 1)
    · rintro ⟨-, hreadable⟩
      exact absurd hgap hreadable.no_gap
  · have hmark : (',' : Char) ≠ ':' ∧ (',' : Char) ≠ ' ' := by decide
    obtain ⟨start, finish, htiming, hnear, hnear'⟩ :=
      readTiming_format hmark rfl e.1.start e.1.finish
    have hone : readBlocks (srtBlock k lim includeSpeakers e) =
        [srtBlock k lim includeSpeakers e] := by
      refine readBlocks_of_no_gap (List.cons_ne_nil _ _) fun hmem => ?_
      rcases List.mem_append.mp hmem with hmem | hmem
      · exact nil_notMem_srtHead e hmem
      · exact hgap hmem
    have hread : readSrtCue (srtBlock k lim includeSpeakers e) = some (e.2, ⟨start, finish,
        readLines (wrapped k lim
          (srtCaption includeSpeakers e.1.speakerId (strip e.1.text)))⟩) := by
      change readSrtCue (Nat.toDigits 10 e.2 ::
        (formatTimestamp ',' e.1.start ++ " --> ".toList ++ formatTimestamp ',' e.1.finish) ::
          readLines (wrapped k lim
            (srtCaption includeSpeakers e.1.speakerId (strip e.1.text)))) = _
      rw [readSrtCue, (writes_toDigits e.2).readNat_eq, htiming]
      simp [readLines_ne_nil]
    constructor
    · rintro ⟨b, c, hb, hc, hreads⟩
      obtain rfl : srtBlock k lim includeSpeakers e = b := by
        rw [hone] at hb
        exact List.head_eq_of_cons_eq hb
      rw [hread] at hc
      obtain rfl := Option.some.inj hc
      exact ⟨hreads.number, hreads.payload, hgap⟩
    · rintro ⟨hplace, hreadable⟩
      exact ⟨_, _, hone, hread, hplace, hnear, hnear', hreadable.speaker, hown.2.2.1⟩

/-- The SubRip file is read back exactly when no blank segment stands before a printed one and
every printed segment is readable. -/
theorem srtRoundTrips_iff (segments : List Segment) :
    SrtRoundTrips k lim includeSpeakers segments ↔
      Numbered segments ∧ ∀ s ∈ segments, s.hasText = true →
        SrtReadable k lim includeSpeakers s := by
  obtain ⟨out, hout, hblocks⟩ := exportSrt_readBlocks k lim includeSpeakers segments
  have hfst : (printed segments).flatMap (fun e => readBlocks (srtBlock k lim includeSpeakers e)) =
      ((printed segments).zipIdx 1).flatMap
        fun e => readBlocks (srtBlock k lim includeSpeakers e.1) := by
    conv_lhs => rw [← List.zipIdx_map_fst 1 (printed segments), List.flatMap_map]
  have hall := mapM_flatMap_iff (fun e => readBlocks (srtBlock k lim includeSpeakers e.1))
    readSrtCue (fun c e => SrtReads k lim includeSpeakers c e.1.1 e.2)
    ((printed segments).zipIdx 1) fun e _ => readBlocks_srtBlock_ne k lim includeSpeakers e.1
  have hentries : (∀ e ∈ (printed segments).zipIdx 1, ∃ b c,
      readBlocks (srtBlock k lim includeSpeakers e.1) = [b] ∧ readSrtCue b = some c ∧
        SrtReads k lim includeSpeakers c e.1.1 e.2) ↔
      ∀ e ∈ (printed segments).zipIdx 1,
        e.1.2 = e.2 ∧ SrtReadable k lim includeSpeakers e.1.1 := by
    refine forall₂_congr fun e he => ?_
    have hmem : e.1 ∈ printed segments := List.fst_mem_of_mem_zipIdx he
    exact srtBlock_reads_iff k lim includeSpeakers e.1 (hasText_of_mem_printed hmem) e.2
  rw [hentries] at hall
  rw [← numbered_iff, ← forall_printed_iff, ← forall₂_and, ← hall]
  constructor
  · rintro ⟨out', cues, hout', hread, hmatch⟩
    obtain rfl : out = out' := Except.ok.inj (hout.symm.trans hout')
    refine ⟨cues, ?_, hmatch⟩
    rw [← hfst, ← hblocks]
    exact hread
  · rintro ⟨cues, hread, hmatch⟩
    refine ⟨out, cues, hout, ?_, hmatch⟩
    rw [readSrt, hblocks, hfst]
    exact hread

end Srt

section Vtt

variable (k : Classes) (lim : Limits) (includeSpeakers : Bool)

/-- The voice tag that names a speaker. -/
def voiceTokens (speaker : Option Text) : List PayloadToken :=
  match printedSpeaker includeSpeakers speaker with
  | some name => [.tag ("v ".toList ++ name)]
  | none => []

/-- A payload is a voice tag, if a speaker is named, and plain text. -/
def PlainBehind (voice : List PayloadToken) (payload : List Text) : Prop :=
  ∃ body : Text, payloadTokens payload = some (voice ++ body.map .char)

/-- A cue that is read is that of a segment: its times, its speaker and its text. -/
structure VttReads (block : VttBlock) (s : Segment) : Prop where
  cue : ∃ start finish, Near start s.start ∧ Near finish s.finish ∧
    block = .cue none ⟨start, finish,
      readLines (wrapped k lim (vttCaption includeSpeakers s.own (strip s.text)))⟩
  plain : PlainBehind (voiceTokens includeSpeakers s.own)
    (readLines (wrapped k lim (vttCaption includeSpeakers s.own (strip s.text))))
  text : Shortened lim (vttCaption includeSpeakers s.own (strip s.text))
    (wrapped k lim (vttCaption includeSpeakers s.own (strip s.text)))

/-- The exported file is read back as the segments that are not blank. -/
def VttRoundTrips (segments : List Segment) : Prop :=
  ∃ out blocks, exportVtt k lim includeSpeakers segments = .ok out ∧ readVtt out = some blocks ∧
    List.Forall₂ (VttReads k lim includeSpeakers) blocks (segments.filter Segment.hasText)

/-- What is printed of a segment is its caption, without an empty line, an arrow, or a tag or
reference besides its voice tag. -/
structure VttReadable (s : Segment) : Prop where
  speaker : readLines (wrapped k lim (vttCaption includeSpeakers s.speakerId (strip s.text))) =
    readLines (wrapped k lim (vttCaption includeSpeakers s.own (strip s.text)))
  no_gap : [] ∉ readLines (wrapped k lim (vttCaption includeSpeakers s.speakerId (strip s.text)))
  no_arrow : ∀ line ∈ readLines
    (wrapped k lim (vttCaption includeSpeakers s.speakerId (strip s.text))), ¬arrow <:+: line
  plain : PlainBehind (voiceTokens includeSpeakers s.own)
    (readLines (wrapped k lim (vttCaption includeSpeakers s.speakerId (strip s.text))))

theorem inked_vttCaption (speaker : Option Text) {s : Text} (h : isBlank s = false) :
    Inked (vttCaption includeSpeakers speaker (strip s)) := by
  rw [vttCaption]
  cases printedSpeaker includeSpeakers speaker with
  | none => exact inked_strip h
  | some name =>
      have hink := (inked_strip h).behind (c := '<') rfl ("v ".toList ++ name ++ ['>'])
      simpa using hink

/-- The line before the text of a cue. -/
def vttHead (s : Segment) : List Text :=
  [formatTimestampVtt s.start ++ " --> ".toList ++ formatTimestampVtt s.finish]

def vttBlock (s : Segment) : List Text :=
  vttHead s ++ readLines (wrapped k lim (vttCaption includeSpeakers s.speakerId (strip s.text)))

theorem vttHead_no_break (s : Segment) :
    ∀ line ∈ vttHead s, ∀ c ∈ line, c ≠ '\n' ∧ c ≠ '\r' := by
  intro line hline
  rw [List.mem_singleton.mp hline]
  exact timing_no_break (by decide) s.start s.finish

theorem vttHead_ne (s : Segment) :
    formatTimestampVtt s.start ++ " --> ".toList ++ formatTimestampVtt s.finish ≠ [] := by
  simp

theorem readBlocks_vttBlock_ne (s : Segment) :
    readBlocks (vttBlock k lim includeSpeakers s) ≠ [] := by
  have hmem : formatTimestampVtt s.start ++ " --> ".toList ++ formatTimestampVtt s.finish ∈
      vttBlock k lim includeSpeakers s := List.mem_cons_self
  exact List.length_pos_iff.mp (readBlocks_pos hmem (vttHead_ne s))

/-- The loop writes the entries of the segments that are not blank. -/
theorem exportVttFrom_eq (segments : List Segment) :
    exportVttFrom k lim includeSpeakers segments =
      .ok ((segments.filter Segment.hasText).flatMap fun s =>
        vttHead s ++
          [wrapped k lim (vttCaption includeSpeakers s.speakerId (strip s.text)), []]) := by
  induction segments with
  | nil => rfl
  | cons s rest ih =>
      rw [exportVttFrom, ih]
      cases hblank : isBlank s.text with
      | true =>
          have hlines : vttLines k lim includeSpeakers s = .ok [] :=
            if_pos (strip_eq_nil_iff.mpr hblank)
          rw [hlines, List.filter_cons_of_neg (by simp [Segment.hasText, hblank])]
          rfl
      | false =>
          have hne : strip s.text ≠ [] := by
            rw [Ne, strip_eq_nil_iff, hblank]
            exact Bool.false_ne_true
          have hwrap := (wrapText_spec k lim
            (inked_vttCaption includeSpeakers s.speakerId hblank)).1
          rw [vttLines, if_neg hne, hwrap,
            List.filter_cons_of_pos (by simp [Segment.hasText, hblank])]
          rfl

theorem isBlank_of_mem_filter {segments : List Segment} {s : Segment}
    (h : s ∈ segments.filter Segment.hasText) : isBlank s.text = false := by
  have htext := (List.mem_filter.mp h).2
  simpa [Segment.hasText] using htext

theorem header_no_break :
    ∀ line ∈ ["WEBVTT".toList, []], ∀ c ∈ line, c ≠ '\n' ∧ c ≠ '\r' := by
  have hheader : ∀ c ∈ ['W', 'E', 'B', 'V', 'T', 'T'], c ≠ '\n' ∧ c ≠ '\r' := by
    intro c hc
    simp only [List.mem_cons, List.not_mem_nil, or_false] at hc
    rcases hc with rfl | rfl | rfl | rfl | rfl | rfl <;> decide
  intro line hline
  rcases List.mem_cons.mp hline with rfl | hline
  · exact hheader
  · rw [List.mem_singleton.mp hline]
    simp

theorem exportVtt_readVtt (segments : List Segment) :
    ∃ out, exportVtt k lim includeSpeakers segments = .ok out ∧
      readVtt out = ((segments.filter Segment.hasText).flatMap
        fun s => readBlocks (vttBlock k lim includeSpeakers s)).mapM readVttBlock := by
  refine ⟨_, congrArg (Except.map _) (exportVttFrom_eq k lim includeSpeakers segments), ?_⟩
  have hlines := readLines_entries ["WEBVTT".toList, []] vttHead
    (fun s => wrapped k lim (vttCaption includeSpeakers s.speakerId (strip s.text)))
    (segments.filter Segment.hasText) (Or.inl (List.cons_ne_nil _ _))
    header_no_break (fun s _ => vttHead_no_break s)
    (fun s hs => (wrapText_spec k lim (inked_vttCaption includeSpeakers s.speakerId
      (isBlank_of_mem_filter hs))).2.1.last)
  have hblocks := readBlocks_flatMap (vttBlock k lim includeSpeakers)
    (segments.filter Segment.hasText)
  rw [← hblocks, readVtt]
  simp only [List.cons_append, List.nil_append] at hlines
  rw [hlines]
  rfl

/-- A line that begins with a time is no comment. -/
theorem not_note {timing : Text} (h : ∃ d rest, timing = d :: rest ∧ d.isDigit = true) :
    ¬(timing = "NOTE".toList ∨ "NOTE ".toList <+: timing ∨ "NOTE\t".toList <+: timing) := by
  obtain ⟨d, rest, rfl, hd⟩ := h
  have hN : d ≠ 'N' := by
    rintro rfl
    exact Bool.noConfusion hd
  rintro (heq | hnote | hnote)
  · exact hN (List.cons.inj heq).1
  · exact hN (List.cons_prefix_cons.mp hnote).1.symm
  · exact hN (List.cons_prefix_cons.mp hnote).1.symm

theorem readVttBlock_vttBlock (s : Segment) :
    ∃ start finish, Near start s.start ∧ Near finish s.finish ∧ ∀ payload,
      readVttBlock (vttHead s ++ payload) =
        if ∀ line ∈ payload, ¬arrow <:+: line then some (.cue none ⟨start, finish, payload⟩)
        else none := by
  have hmark : ('.' : Char) ≠ ':' ∧ ('.' : Char) ≠ ' ' := by decide
  obtain ⟨start, finish, htiming, hnear, hnear'⟩ := readTiming_format hmark rfl s.start s.finish
  refine ⟨start, finish, hnear, hnear', fun payload => ?_⟩
  have harrow : arrow <:+: formatTimestamp '.' s.start ++ " --> ".toList ++
      formatTimestamp '.' s.finish :=
    ⟨formatTimestamp '.' s.start ++ [' '], ' ' :: formatTimestamp '.' s.finish, by simp [arrow]⟩
  change readVttBlock ((formatTimestamp '.' s.start ++ " --> ".toList ++
    formatTimestamp '.' s.finish) :: payload) = _
  rw [readVttBlock_timing (not_note ?_) harrow, readVttCue, htiming]
  · by_cases hpayload : ∀ line ∈ payload, ¬arrow <:+: line
    · simp only [guard, if_pos hpayload]
      rfl
    · simp only [guard, if_neg hpayload]
      rfl
  · obtain ⟨d, rest, hhead, hd⟩ := head_formatTimestamp '.' s.start
    exact ⟨d, rest ++ " --> ".toList ++ formatTimestamp '.' s.finish, by rw [hhead]; rfl, hd⟩

theorem vttBlock_reads_iff (s : Segment) (hs : isBlank s.text = false) :
    (∃ b c, readBlocks (vttBlock k lim includeSpeakers s) = [b] ∧ readVttBlock b = some c ∧
      VttReads k lim includeSpeakers c s) ↔ VttReadable k lim includeSpeakers s := by
  have hspec := wrapText_spec k lim (inked_vttCaption includeSpeakers s.speakerId hs)
  have hown := wrapText_spec k lim (inked_vttCaption includeSpeakers s.own hs)
  obtain ⟨last, hlast, hlast'⟩ := hspec.2.1.last_ne
  obtain ⟨start, finish, hnear, hnear', hread⟩ := readVttBlock_vttBlock s
  by_cases hgap : [] ∈ readLines
      (wrapped k lim (vttCaption includeSpeakers s.speakerId (strip s.text)))
  · constructor
    · rintro ⟨b, -, hone, -⟩
      have hmore : 1 < (readBlocks (vttBlock k lim includeSpeakers s)).length := by
        refine one_lt_length_readBlocks (rfl : _ = some _) (vttHead_ne s) (?_ : _ = some last)
          hlast' (List.mem_append_right _ hgap)
        rw [vttBlock, List.getLast?_append, hlast]
        rfl
      rw [hone] at hmore
      exact absurd hmore (lt_irrefl 1)
    · exact fun hreadable => absurd hgap hreadable.no_gap
  · have hone : readBlocks (vttBlock k lim includeSpeakers s) =
        [vttBlock k lim includeSpeakers s] := by
      refine readBlocks_of_no_gap (List.cons_ne_nil _ _) fun hmem => ?_
      rcases List.mem_append.mp hmem with hmem | hmem
      · exact vttHead_ne s (List.mem_singleton.mp hmem).symm
      · exact hgap hmem
    constructor
    · rintro ⟨b, c, hb, hc, hreads⟩
      obtain rfl : vttBlock k lim includeSpeakers s = b := by
        rw [hone] at hb
        exact List.head_eq_of_cons_eq hb
      obtain ⟨a, b, -, -, hcue⟩ := hreads.cue
      rw [vttBlock, hread] at hc
      split at hc
      · rename_i harrow
        have hsame := (Option.some.inj hc).trans hcue
        simp only [VttBlock.cue.injEq, Cue.mk.injEq, true_and] at hsame
        exact ⟨hsame.2.2, hgap, harrow, hsame.2.2 ▸ hreads.plain⟩
      · exact absurd hc (by simp)
    · intro hreadable
      refine ⟨_, _, hone, ?_, ⟨start, finish, hnear, hnear', rfl⟩, ?_, hown.2.2.1⟩
      · rw [vttBlock, hread, if_pos hreadable.no_arrow, hreadable.speaker]
      · rw [← hreadable.speaker]
        exact hreadable.plain

/-- The WebVTT file is read back exactly when every printed segment is readable. -/
theorem vttRoundTrips_iff (segments : List Segment) :
    VttRoundTrips k lim includeSpeakers segments ↔
      ∀ s ∈ segments, s.hasText = true → VttReadable k lim includeSpeakers s := by
  obtain ⟨out, hout, hblocks⟩ := exportVtt_readVtt k lim includeSpeakers segments
  have hall := mapM_flatMap_iff (fun s => readBlocks (vttBlock k lim includeSpeakers s))
    readVttBlock (VttReads k lim includeSpeakers) (segments.filter Segment.hasText)
    fun s _ => readBlocks_vttBlock_ne k lim includeSpeakers s
  have hentries : (∀ s ∈ segments.filter Segment.hasText, ∃ b c,
      readBlocks (vttBlock k lim includeSpeakers s) = [b] ∧ readVttBlock b = some c ∧
        VttReads k lim includeSpeakers c s) ↔
      ∀ s ∈ segments, s.hasText = true → VttReadable k lim includeSpeakers s := by
    simp only [List.mem_filter, and_imp]
    refine forall₃_congr fun s hs htext => ?_
    exact vttBlock_reads_iff k lim includeSpeakers s (by simpa [Segment.hasText] using htext)
  rw [← hentries, ← hall]
  constructor
  · rintro ⟨out', blocks, hout', hread, hmatch⟩
    obtain rfl : out = out' := Except.ok.inj (hout.symm.trans hout')
    exact ⟨blocks, hblocks ▸ hread, hmatch⟩
  · rintro ⟨blocks, hread, hmatch⟩
    exact ⟨out, blocks, hout, hblocks.trans hread, hmatch⟩

end Vtt

section RoundTrip

variable (k : Classes) (lim : Limits) (includeSpeakers : Bool)

/-- Both files are read back as the segments that are not blank. -/
def RoundTrips (segments : List Segment) : Prop :=
  SrtRoundTrips k lim includeSpeakers segments ∧ VttRoundTrips k lim includeSpeakers segments

/-- Both files are read back exactly when no blank segment stands before a printed one and what
is printed of every segment is its caption, readable as such. -/
theorem roundTrips_iff (segments : List Segment) :
    RoundTrips k lim includeSpeakers segments ↔
      Numbered segments ∧ ∀ s ∈ segments, s.hasText = true →
        SrtReadable k lim includeSpeakers s ∧ VttReadable k lim includeSpeakers s := by
  rw [RoundTrips, srtRoundTrips_iff, vttRoundTrips_iff, and_assoc]
  refine and_congr_right fun _ => ?_
  constructor
  · rintro ⟨hsrt, hvtt⟩ s hs htext
    exact ⟨hsrt s hs htext, hvtt s hs htext⟩
  · intro h
    exact ⟨fun s hs htext => (h s hs htext).1, fun s hs htext => (h s hs htext).2⟩

/-- A blank segment, and one with a speaker as the merge stage writes it. -/
def blankThenNamed : List Segment :=
  [⟨⟨0, 0, by norm_num⟩, ⟨1, 0, by norm_num⟩, " ".toList, none, none⟩,
    ⟨⟨1, 0, by norm_num⟩, ⟨5, -1, by norm_num⟩, "Hi.".toList, some "A".toList, none⟩]

def asciiClasses : Classes := ⟨fun c => c.isAlphanum || c = '_', Char.isDigit⟩

def defaultLimits : Limits := ⟨42, 2, by norm_num, by norm_num⟩

/-- The first cue has the number two and no speaker. -/
theorem first_cue_is_two :
    exportSrt asciiClasses defaultLimits true blankThenNamed =
        .ok "2\n00:00:01,000 --> 00:00:02,500\nHi.\n".toList ∧
      ¬RoundTrips asciiClasses defaultLimits true blankThenNamed := by
  refine ⟨by decide +kernel, ?_⟩
  rintro ⟨hsrt, -⟩
  have hnumbered := ((srtRoundTrips_iff _ _ _ _).mp hsrt).1
  have hblank := hnumbered [blankThenNamed.head (by decide)] (blankThenNamed.getLast (by decide)) []
    rfl (by decide) _ List.mem_cons_self
  exact absurd hblank (by decide)

end RoundTrip

end Dalston.Gateway.SubtitleExport
