import Dalston.Model.TextWrap

/-!
# Subtitle files

The cue grammars of SubRip and WebVTT. A file is read as lines, the lines are cut into
blocks at empty lines, and each block is a cue: a line with the times and the lines of its
payload. In SubRip a number stands first. In WebVTT the payload holds tags and character
references, and a comment may stand between cues; style and region blocks, which only stand
before the first cue, are not read, and times are read in the form with hours.
-/

namespace Dalston.Model.CueFiles

open Foundation TextWrap

section Lines

/-- A line ends with a carriage return, a line feed, or one before the other. -/
def readLines : Text → List Text
  | [] => [[]]
  | '\r' :: '\n' :: rest => [] :: readLines rest
  | c :: rest =>
      if c = '\n' ∨ c = '\r' then [] :: readLines rest else (readLines rest).modifyHead (c :: ·)

/-- Lines in a row without an empty line are a block. -/
def readBlocks (lines : List Text) : List (List Text) := tokens List.isEmpty lines

/-- Every character but a carriage return before a line feed stands for itself. -/
theorem readLines_cons {c : Char} {rest : Text}
    (hpair : ∀ more, c = '\r' → rest = '\n' :: more → False) :
    readLines (c :: rest) =
      if c = '\n' ∨ c = '\r' then [] :: readLines rest
      else (readLines rest).modifyHead (c :: ·) := by
  rw [readLines]
  exact hpair

theorem readLines_ne_nil (s : Text) : readLines s ≠ [] := by
  fun_induction readLines s with
  | case1 => simp
  | case2 rest ih => simp
  | case3 c rest _ h => simp
  | case4 c rest _ h ih => simpa using ih

theorem getLast?_of_cons_ne {c : Char} {s : Text} (h : (c :: s).getLast? ≠ some '\r') :
    s.getLast? ≠ some '\r' := by
  intro hlast
  apply h
  rw [List.getLast?_cons, hlast]
  rfl

/-- A line feed ends a line, unless a carriage return stands before it. -/
theorem readLines_append {s : Text} (hs : s.getLast? ≠ some '\r') (rest : Text) :
    readLines (s ++ '\n' :: rest) = readLines s ++ readLines rest := by
  have hkeep : ∀ c more, (∀ tail, c = '\r' → more = '\n' :: tail → False) →
      (c :: more).getLast? ≠ some '\r' →
      ∀ tail, c = '\r' → more ++ '\n' :: rest = '\n' :: tail → False := by
    intro c more hpair hlast tail hc heq
    cases more with
    | nil => exact hlast (by simp [hc])
    | cons d more =>
        rw [List.cons_append, List.cons.injEq] at heq
        exact hpair more hc (by rw [heq.1])
  fun_induction readLines s with
  | case1 => rfl
  | case2 more ih =>
      have htail := getLast?_of_cons_ne (getLast?_of_cons_ne hs)
      rw [List.cons_append, List.cons_append, readLines, ih htail, List.cons_append]
  | case3 c more hpair h ih =>
      rw [List.cons_append, readLines_cons (hkeep c more hpair hs), if_pos h,
        ih (getLast?_of_cons_ne hs), List.cons_append]
  | case4 c more hpair h ih =>
      obtain ⟨line, lines, hlines⟩ := List.exists_cons_of_ne_nil (readLines_ne_nil more)
      rw [List.cons_append, readLines_cons (hkeep c more hpair hs), if_neg h,
        ih (getLast?_of_cons_ne hs), hlines]
      rfl

/-- A text without line breaks is one line. -/
theorem readLines_of_no_break {s : Text} (h : ∀ c ∈ s, c ≠ '\n' ∧ c ≠ '\r') :
    readLines s = [s] := by
  induction s with
  | nil => rfl
  | cons c rest ih =>
      have hc := h c List.mem_cons_self
      rw [readLines_cons fun _ hr => absurd hr hc.2, if_neg (by simp [hc]),
        ih fun d hd => h d (List.mem_cons_of_mem _ hd)]
      rfl

theorem readLines_joinWith {texts : List Text} (hne : texts ≠ [])
    (h : ∀ t ∈ texts, t.getLast? ≠ some '\r') :
    readLines (joinWith '\n' texts) = texts.flatMap readLines := by
  induction texts with
  | nil => exact absurd rfl hne
  | cons t rest ih =>
      cases rest with
      | nil => simp
      | cons u rest =>
          rw [joinWith_cons, readLines_append (h t List.mem_cons_self),
            ih (by simp) fun v hv => h v (List.mem_cons_of_mem _ hv)]
          rfl

/-- Entries that are written as lines with a payload and an empty line behind them are read
as such. -/
theorem readLines_entries {E : Type} (first : List Text) (head : E → List Text) (payload : E → Text)
    (es : List E) (hne : first ≠ [] ∨ es ≠ [])
    (hfirst : ∀ line ∈ first, ∀ c ∈ line, c ≠ '\n' ∧ c ≠ '\r')
    (hhead : ∀ e ∈ es, ∀ line ∈ head e, ∀ c ∈ line, c ≠ '\n' ∧ c ≠ '\r')
    (hpayload : ∀ e ∈ es, (payload e).getLast? ≠ some '\r') :
    readLines (joinWith '\n' (first ++ es.flatMap fun e => head e ++ [payload e, []])) =
      first ++ es.flatMap fun e => head e ++ readLines (payload e) ++ [[]] := by
  have hclean : ∀ lines : List Text, (∀ line ∈ lines, ∀ c ∈ line, c ≠ '\n' ∧ c ≠ '\r') →
      lines.flatMap readLines = lines := by
    intro lines h
    have hone : lines.flatMap readLines = lines.flatMap fun line => [line] :=
      List.flatMap_congr fun line hline => readLines_of_no_break (h line hline)
    rw [hone, List.flatMap_singleton']
  have hlast : ∀ line : Text, (∀ c ∈ line, c ≠ '\n' ∧ c ≠ '\r') → line.getLast? ≠ some '\r' :=
    fun line h heq => (h '\r' (List.mem_of_getLast? heq)).2 rfl
  rw [readLines_joinWith, List.flatMap_append, hclean first hfirst, List.flatMap_assoc]
  · congr 1
    refine List.flatMap_congr fun e he => ?_
    rw [List.flatMap_append, hclean _ (hhead e he), List.append_assoc]
    rfl
  · rcases hne with hne | hne
    · simp [hne]
    · obtain ⟨e, rest, rfl⟩ := List.exists_cons_of_ne_nil hne
      simp
  · intro line hline
    rcases List.mem_append.mp hline with hline | hline
    · exact hlast line (hfirst line hline)
    · obtain ⟨e, he, hline⟩ := List.mem_flatMap.mp hline
      rcases List.mem_append.mp hline with hline | hline
      · exact hlast line (hhead e he line hline)
      · rcases List.mem_cons.mp hline with rfl | hline
        · exact hpayload e he
        · rw [List.mem_singleton.mp hline]
          simp

/-- A text that begins with ink does not begin with an empty line. -/
theorem head?_readLines {c : Char} (rest : Text) (hc : isSpace c = false) :
    ∃ line more, readLines (c :: rest) = (c :: line) :: more := by
  have hbreak : c ≠ '\n' ∧ c ≠ '\r' := by
    constructor <;>
    · rintro rfl
      exact Bool.noConfusion hc
  obtain ⟨line, more, hlines⟩ := List.exists_cons_of_ne_nil (readLines_ne_nil rest)
  rw [readLines_cons fun _ hr => absurd hr hbreak.2, if_neg (by simp [hbreak]), hlines]
  exact ⟨line, more, rfl⟩

theorem getLast?_readLines {s : Text} {d : Char} (h : s.getLast? = some d)
    (hd : d ≠ '\n' ∧ d ≠ '\r') : ∃ line, (readLines s).getLast? = some line ∧ line ≠ [] := by
  have hafter : ∀ (first : Text) (rest : Text), rest.getLast? = some d →
      (rest.getLast? = some d → ∃ line, (readLines rest).getLast? = some line ∧ line ≠ []) →
      ∃ line, (first :: readLines rest).getLast? = some line ∧ line ≠ [] := by
    intro first rest hrest ih
    obtain ⟨line, hline, hne⟩ := ih hrest
    exact ⟨line, by rw [List.getLast?_cons, hline]; rfl, hne⟩
  fun_induction readLines s with
  | case1 => simp at h
  | case2 rest ih =>
      cases rest with
      | nil => exact absurd (Option.some.inj h).symm hd.1
      | cons e rest => exact hafter [] (e :: rest) (by simpa using h) ih
  | case3 c rest _ hc ih =>
      cases rest with
      | nil =>
          obtain rfl : c = d := by simpa using h
          rcases hc with hc | hc
          · exact absurd hc hd.1
          · exact absurd hc hd.2
      | cons e rest => exact hafter [] (e :: rest) (by simpa using h) ih
  | case4 c rest _ hc ih =>
      cases rest with
      | nil => exact ⟨[c], rfl, List.cons_ne_nil _ _⟩
      | cons e rest =>
          obtain ⟨line, hline, hne⟩ := ih (by simpa using h)
          cases hrest : readLines (e :: rest) with
          | nil => exact absurd hrest (readLines_ne_nil _)
          | cons first more =>
              cases more with
              | nil => exact ⟨c :: first, rfl, List.cons_ne_nil _ _⟩
              | cons second more =>
                  rw [hrest, List.getLast?_cons_cons] at hline
                  exact ⟨line, by rw [List.modifyHead_cons, List.getLast?_cons_cons, hline], hne⟩

section Blocks

theorem readBlocks_append (lines rest : List Text) :
    readBlocks (lines ++ [] :: rest) = readBlocks lines ++ readBlocks rest :=
  tokens_append_cons lines rest rfl

/-- Blocks that are written with an empty line behind each are read one by one. -/
theorem readBlocks_flatMap {E : Type} (f : E → List Text) (es : List E) :
    readBlocks (es.flatMap fun e => f e ++ [[]]) = es.flatMap fun e => readBlocks (f e) := by
  induction es with
  | nil => exact tokens_nil
  | cons e rest ih =>
      rw [List.flatMap_cons, List.append_assoc, List.singleton_append, readBlocks_append, ih,
        List.flatMap_cons]

theorem readBlocks_of_no_gap {lines : List Text} (hne : lines ≠ []) (h : [] ∉ lines) :
    readBlocks lines = [lines] := by
  refine tokens_token ⟨hne, fun line hline => ?_⟩
  rw [List.isEmpty_eq_false_iff]
  rintro rfl
  exact h hline

theorem readBlocks_pos {lines : List Text} {line : Text} (hline : line ∈ lines)
    (hne : line ≠ []) : 0 < (readBlocks lines).length := by
  induction lines with
  | nil => exact absurd hline List.not_mem_nil
  | cons l rest ih =>
      by_cases hl : l = []
      · have hrest : line ∈ rest := (List.mem_cons.mp hline).resolve_left fun h => hne (h.trans hl)
        have hskip : readBlocks (l :: rest) = readBlocks [] ++ readBlocks rest := by
          rw [hl]
          exact readBlocks_append [] rest
        rw [hskip, List.length_append]
        exact Nat.add_pos_right _ (ih hrest)
      · by_cases hgap : [] ∈ rest
        · obtain ⟨before, after, hrest, hbefore⟩ := List.eq_append_cons_of_mem hgap
          have hfirst : [] ∉ l :: before := by
            rw [List.mem_cons, not_or]
            exact ⟨fun h => hl h.symm, hbefore⟩
          rw [hrest, ← List.cons_append, readBlocks_append,
            readBlocks_of_no_gap (List.cons_ne_nil _ _) hfirst]
          exact Nat.succ_pos _
        · have hall : [] ∉ l :: rest := by
            rw [List.mem_cons, not_or]
            exact ⟨fun h => hl h.symm, hgap⟩
          rw [readBlocks_of_no_gap (List.cons_ne_nil _ _) hall]
          exact Nat.one_pos

/-- Lines with an empty one between them are more than one block. -/
theorem one_lt_length_readBlocks {lines : List Text} {first last : Text}
    (hhead : lines.head? = some first) (hfirst : first ≠ []) (hend : lines.getLast? = some last)
    (hlast : last ≠ []) (hgap : [] ∈ lines) : 1 < (readBlocks lines).length := by
  obtain ⟨before, after, rfl⟩ := List.append_of_mem hgap
  have hbefore : first ∈ before := by
    cases before with
    | nil => exact absurd (Option.some.inj hhead).symm hfirst
    | cons l rest =>
        obtain rfl : l = first := by simpa using hhead
        exact List.mem_cons_self
  have hafter : last ∈ after := by
    rw [List.getLast?_append_cons] at hend
    cases after with
    | nil => exact absurd (Option.some.inj hend).symm hlast
    | cons l rest =>
        rw [List.getLast?_cons_cons] at hend
        exact List.mem_of_getLast? hend
  have h₁ := readBlocks_pos hbefore hfirst
  have h₂ := readBlocks_pos hafter hlast
  rw [readBlocks_append, List.length_append]
  omega

theorem length_of_mapM {A C : Type} {f : A → Option C} {as : List A} {cs : List C}
    (h : as.mapM f = some cs) : cs.length = as.length := by
  induction as generalizing cs with
  | nil =>
      obtain rfl : [] = cs := Option.some.inj h
      rfl
  | cons a rest ih =>
      rw [List.mapM_cons] at h
      obtain ⟨c, -, h⟩ := Option.bind_eq_some_iff.mp h
      obtain ⟨cs', hcs', h⟩ := Option.bind_eq_some_iff.mp h
      obtain rfl : c :: cs' = cs := Option.some.inj h
      rw [List.length_cons, List.length_cons, ih hcs']

theorem length_le_flatMap {E A : Type} {B : E → List A} {es : List E} (h : ∀ e ∈ es, B e ≠ []) :
    es.length ≤ (es.flatMap B).length := by
  induction es with
  | nil => exact Nat.zero_le _
  | cons e rest ih =>
      have hfirst := List.length_pos_of_ne_nil (h e List.mem_cons_self)
      have hrest := ih fun f hf => h f (List.mem_cons_of_mem _ hf)
      rw [List.flatMap_cons, List.length_append, List.length_cons]
      omega

/-- Blocks that are read one by one are as many as what they were written for exactly when
each is one block. -/
theorem mapM_flatMap_iff {E C : Type} (B : E → List (List Text)) (read : List Text → Option C)
    (M : C → E → Prop) (es : List E) (hB : ∀ e ∈ es, B e ≠ []) :
    (∃ cs, (es.flatMap B).mapM read = some cs ∧ List.Forall₂ M cs es) ↔
      ∀ e ∈ es, ∃ b c, B e = [b] ∧ read b = some c ∧ M c e := by
  induction es with
  | nil => exact iff_of_true ⟨[], rfl, .nil⟩ (by simp)
  | cons e rest ih =>
      have hrest := ih fun f hf => hB f (List.mem_cons_of_mem _ hf)
      obtain ⟨b, bs, hb⟩ := List.exists_cons_of_ne_nil (hB e List.mem_cons_self)
      constructor
      · rintro ⟨cs, hread, hmatch⟩
        have hlen := length_of_mapM hread
        have hcount := hmatch.length_eq
        have hleast := length_le_flatMap fun f hf => hB f (List.mem_cons_of_mem e hf)
        rw [List.flatMap_cons, hb, List.length_append, List.length_cons] at hlen
        rw [List.length_cons] at hcount
        obtain rfl : bs = [] := List.length_eq_zero_iff.mp (by omega)
        rw [List.flatMap_cons, hb, List.singleton_append, List.mapM_cons] at hread
        obtain ⟨c, hc, hread⟩ := Option.bind_eq_some_iff.mp hread
        obtain ⟨cs', hcs', hread⟩ := Option.bind_eq_some_iff.mp hread
        obtain rfl : c :: cs' = cs := Option.some.inj hread
        obtain ⟨hM, hmatch⟩ := List.forall₂_cons.mp hmatch
        rw [List.forall_mem_cons]
        exact ⟨⟨b, c, hb, hc, hM⟩, hrest.mp ⟨cs', hcs', hmatch⟩⟩
      · intro h
        obtain ⟨b', c, hone, hc, hM⟩ := h e List.mem_cons_self
        obtain ⟨cs, hread, hmatch⟩ := hrest.mpr fun f hf => h f (List.mem_cons_of_mem _ hf)
        refine ⟨c :: cs, ?_, .cons hM hmatch⟩
        rw [List.flatMap_cons, hone, List.singleton_append, List.mapM_cons, hc, hread]
        rfl

end Blocks

end Lines

section Times

def readNat (digits : Text) : Option Nat :=
  if digits ≠ [] ∧ digits.all Char.isDigit then some (Nat.ofDigitChars 10 digits 0) else none

/-- Read a time as milliseconds; one mark stands before them. -/
def readTime (mark : Char) (text : Text) : Option Nat :=
  match text.splitOn ':' with
  | [hours, minutes, rest] =>
      match rest.splitOn mark with
      | [seconds, millis] => do
          guard (2 ≤ hours.length ∧ minutes.length = 2 ∧ seconds.length = 2 ∧ millis.length = 3)
          let h ← readNat hours
          let m ← readNat minutes
          let s ← readNat seconds
          let ms ← readNat millis
          guard (m < 60 ∧ s < 60)
          return ((h * 60 + m) * 60 + s) * 1000 + ms
      | _ => none
  | _ => none

def arrow : Text := ['-', '-', '>']

/-- Read the line with the times of a cue; settings behind them are passed over. -/
def readTiming (mark : Char) (line : Text) : Option (Nat × Nat) :=
  match line.dropWhile (· ≠ ' ') with
  | ' ' :: '-' :: '-' :: '>' :: ' ' :: rest => do
      let start ← readTime mark (line.takeWhile (· ≠ ' '))
      let finish ← readTime mark (rest.takeWhile (· ≠ ' '))
      return (start, finish)
  | _ => none

/-- A text of digits with the value `n`. -/
structure Writes (digits : Text) (n : Nat) : Prop where
  ne_nil : digits ≠ []
  isDigit : ∀ c ∈ digits, c.isDigit = true
  value : Nat.ofDigitChars 10 digits 0 = n

theorem Writes.readNat_eq {digits : Text} {n : Nat} (h : Writes digits n) :
    readNat digits = some n := by
  rw [readNat, if_pos ⟨h.ne_nil, List.all_eq_true.mpr h.isDigit⟩, h.value]

theorem Writes.notMem {digits : Text} {n : Nat} (h : Writes digits n) {c : Char}
    (hc : c.isDigit = false) : c ∉ digits := by
  intro hmem
  rw [h.isDigit c hmem] at hc
  exact Bool.noConfusion hc

/-- The text of a time, from its parts. -/
def timeText (mark : Char) (hours minutes seconds millis : Text) : Text :=
  hours ++ ':' :: (minutes ++ ':' :: (seconds ++ mark :: millis))

section

variable {mark : Char} {hours minutes seconds millis : Text} {h m s ms : Nat}

theorem readTime_timeText (hmark : mark ≠ ':') (hmark' : mark.isDigit = false)
    (hh : Writes hours h) (hm : Writes minutes m) (hs : Writes seconds s) (hms : Writes millis ms)
    (hlen : 2 ≤ hours.length ∧ minutes.length = 2 ∧ seconds.length = 2 ∧ millis.length = 3)
    (hrange : m < 60 ∧ s < 60) :
    readTime mark (timeText mark hours minutes seconds millis) =
      some (((h * 60 + m) * 60 + s) * 1000 + ms) := by
  have hrest : ':' ∉ seconds ++ mark :: millis := by
    rw [List.mem_append, List.mem_cons, not_or, not_or]
    exact ⟨hs.notMem rfl, hmark.symm, hms.notMem rfl⟩
  have hcolon : (timeText mark hours minutes seconds millis).splitOn ':' =
      [hours, minutes, seconds ++ mark :: millis] := by
    rw [timeText, List.splitOn_append_cons_self_of_not_mem (hh.notMem rfl),
      List.splitOn_append_cons_self_of_not_mem (hm.notMem rfl), List.splitOn_eq_singleton hrest]
  have hsplit : (seconds ++ mark :: millis).splitOn mark = [seconds, millis] := by
    rw [List.splitOn_append_cons_self_of_not_mem (hs.notMem hmark'),
      List.splitOn_eq_singleton (hms.notMem hmark')]
  simp only [readTime, hcolon, hsplit, hh.readNat_eq, hm.readNat_eq, hs.readNat_eq, hms.readNat_eq,
    hlen, guard, and_self, if_true]
  change (do
    (if m < 60 ∧ s < 60 then pure () else failure : Option Unit)
    pure (((h * 60 + m) * 60 + s) * 1000 + ms)) = _
  rw [if_pos hrange]
  rfl

end

theorem readTiming_append {mark : Char} {start finish : Text} {a b : Nat}
    (hstart : readTime mark start = some a) (hfinish : readTime mark finish = some b)
    (hblank : ' ' ∉ start) (hblank' : ' ' ∉ finish) :
    readTiming mark (start ++ " --> ".toList ++ finish) = some (a, b) := by
  have hall : ∀ word : Text, ' ' ∉ word → ∀ c ∈ word, decide (c ≠ ' ') = true := by
    intro word hword c hc
    exact decide_eq_true fun heq => hword (heq ▸ hc)
  have hline : start ++ " --> ".toList ++ finish =
      start ++ ' ' :: '-' :: '-' :: '>' :: ' ' :: finish := by simp
  have htake : finish.takeWhile (· ≠ ' ') = finish :=
    List.takeWhile_eq_self_iff.mpr (hall finish hblank')
  rw [hline, readTiming, List.dropWhile_append_of_pos (hall start hblank),
    List.takeWhile_append_of_pos (hall start hblank), List.takeWhile_cons_of_neg (by simp),
    List.append_nil, List.dropWhile_cons_of_neg (by simp)]
  simp only [hstart, htake, hfinish]
  rfl

end Times

section Cues

structure Cue where
  start : Nat
  finish : Nat
  payload : List Text

/-- A block of a SubRip file. -/
def readSrtCue : List Text → Option (Nat × Cue)
  | number :: timing :: payload => do
      let n ← readNat number
      let (start, finish) ← readTiming ',' timing
      guard (payload ≠ [])
      return (n, ⟨start, finish, payload⟩)
  | _ => none

def readSrt (file : Text) : Option (List (Nat × Cue)) :=
  (readBlocks (readLines file)).mapM readSrtCue

inductive VttBlock
  | comment (lines : List Text)
  | cue (identifier : Option Text) (cue : Cue)

/-- The times and the payload of a WebVTT cue. No line of the payload has an arrow. -/
def readVttCue (identifier : Option Text) (timing : Text) (payload : List Text) :
    Option VttBlock := do
  let (start, finish) ← readTiming '.' timing
  guard (∀ line ∈ payload, ¬arrow <:+: line)
  return .cue identifier ⟨start, finish, payload⟩

def readVttBlock : List Text → Option VttBlock
  | [] => none
  | first :: rest =>
      if first = "NOTE".toList ∨ "NOTE ".toList <+: first ∨ "NOTE\t".toList <+: first then
        some (.comment (first :: rest))
      else if arrow <:+: first then readVttCue none first rest
      else
        match rest with
        | timing :: payload => readVttCue (some first) timing payload
        | [] => none

theorem readVttBlock_timing {timing : Text} (hnote : ¬(timing = "NOTE".toList ∨
    "NOTE ".toList <+: timing ∨ "NOTE\t".toList <+: timing)) (harrow : arrow <:+: timing)
    (payload : List Text) :
    readVttBlock (timing :: payload) = readVttCue none timing payload := by
  rw [readVttBlock.eq_def]
  exact (if_neg hnote).trans (if_pos harrow)

def readVtt (file : Text) : Option (List VttBlock) :=
  match readLines file with
  | header :: [] :: lines =>
      if header = "WEBVTT".toList ∨ "WEBVTT ".toList <+: header ∨ "WEBVTT\t".toList <+: header then
        (readBlocks lines).mapM readVttBlock
      else none
  | _ => none

/-- What a payload is made of. -/
inductive PayloadToken
  | char (c : Char)
  | tag (text : Text)
  | reference (name : Text)

/-- What the characters read last belong to. -/
inductive PayloadMode
  | text
  | tag (before : Text)
  | reference (before : Text)

def scanPayload : PayloadMode → Text → Option (List PayloadToken)
  | .text, [] => some []
  | .text, c :: rest =>
      if c = '<' then scanPayload (.tag []) rest
      else if c = '&' then scanPayload (.reference []) rest
      else (scanPayload .text rest).map (.char c :: ·)
  | .tag _, [] => none
  | .tag before, c :: rest =>
      if c = '>' then (scanPayload .text rest).map (.tag before.reverse :: ·)
      else scanPayload (.tag (c :: before)) rest
  | .reference _, [] => none
  | .reference before, c :: rest =>
      if c = ';' then (scanPayload .text rest).map (.reference before.reverse :: ·)
      else scanPayload (.reference (c :: before)) rest

/-- The tags, references and characters of a payload. -/
def payloadTokens (payload : List Text) : Option (List PayloadToken) :=
  scanPayload .text (joinWith '\n' payload)

end Cues

end Dalston.Model.CueFiles
