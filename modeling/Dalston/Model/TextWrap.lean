import Dalston.Foundation.Tokens

/-!
# Wrapped text

Exported transcripts are wrapped by Python's `textwrap`: white space becomes
blanks, the text is cut into chunks that a line break may stand between, and the
lines are filled with chunks from the left. White space at the ends of a line is
dropped and a chunk wider than a line is broken, so a wrapped text keeps its
other characters in order.
-/

namespace Dalston.Model.TextWrap

open Foundation

/-- A Python text, by its code points. -/
abbrev Text := List Char

/-- The characters that `str.strip` removes. -/
def isSpace (c : Char) : Bool :=
  c ∈ [' ', '\u0085', '\u00a0', '\u1680', '\u2028', '\u2029', '\u202f', '\u205f', '\u3000'] ||
    decide ('\t' ≤ c ∧ c ≤ '\r') || decide ('\u001c' ≤ c ∧ c ≤ '\u001f') ||
    decide ('\u2000' ≤ c ∧ c ≤ '\u200a')

def strip (s : Text) : Text := trim isSpace s

/-- `s.strip() == ''`. -/
def isBlank (s : Text) : Bool := s.all isSpace

/-- The characters of a text that are not white space, in order. -/
def ink (s : Text) : Text := s.filter fun c => !isSpace c

@[simp] theorem ink_nil : ink [] = [] := rfl

@[simp] theorem ink_append (s t : Text) : ink (s ++ t) = ink s ++ ink t := List.filter_append s t

theorem ink_cons (c : Char) (s : Text) :
    ink (c :: s) = (if isSpace c then [] else [c]) ++ ink s := by
  rw [ink, List.filter_cons]
  cases h : isSpace c <;> simp [ink]

theorem ink_eq_nil_iff {s : Text} : ink s = [] ↔ isBlank s = true := by
  simp [ink, isBlank, List.filter_eq_nil_iff]

theorem ink_dropWhile (s : Text) : ink (s.dropWhile isSpace) = ink s := by
  induction s with
  | nil => rfl
  | cons c s ih =>
      cases hc : isSpace c with
      | true => rw [List.dropWhile_cons_of_pos hc, ih, ink_cons, if_pos hc, List.nil_append]
      | false => rw [List.dropWhile_cons_of_neg (by simp [hc])]

theorem ink_reverse (s : Text) : ink s.reverse = (ink s).reverse := List.filter_reverse

@[simp] theorem ink_strip (s : Text) : ink (strip s) = ink s := by
  rw [strip, trim, ink_reverse, ink_dropWhile, ink_reverse, ink_dropWhile, List.reverse_reverse]

theorem strip_eq_nil_iff {s : Text} : strip s = [] ↔ isBlank s = true := by
  constructor
  · intro h
    rw [← ink_eq_nil_iff, ← ink_strip, h, ink_nil]
  · intro h
    have hdrop : s.dropWhile isSpace = [] :=
      List.dropWhile_eq_nil_iff.mpr (List.all_eq_true.mp h)
    rw [strip, trim, hdrop]
    rfl

theorem exists_strip_eq_cons {s : Text} (h : isBlank s = false) :
    ∃ c rest, strip s = c :: rest ∧ isSpace c = false := by
  have hne : strip s ≠ [] := by
    rw [Ne, strip_eq_nil_iff, h]
    exact Bool.false_ne_true
  obtain ⟨c, rest, hs⟩ := List.exists_cons_of_ne_nil hne
  have htrimmed : Trimmed isSpace (strip s) := trimmed_trim s
  exact ⟨c, rest, hs, htrimmed.1 c (by simp [hs])⟩

/-- The words of a text. -/
def words (s : Text) : List Text := tokens isSpace s

theorem words_strip (s : Text) : words (strip s) = words s := tokens_trim s

/-- The classes of characters in regular expressions. -/
structure Classes where
  word : Char → Bool
  digit : Char → Bool

section Munge

/-- The white space that `textwrap` knows. -/
def isBreak (c : Char) : Bool := c = ' ' || decide ('\t' ≤ c ∧ c ≤ '\r')

/-- `str.expandtabs(8)` from a column on. -/
def expandTabs : Nat → Text → Text
  | _, [] => []
  | column, c :: rest =>
      if c = '\t' then
        List.replicate (8 - column % 8) ' ' ++ expandTabs (column + (8 - column % 8)) rest
      else c :: expandTabs (if c = '\n' ∨ c = '\r' then 0 else column + 1) rest

/-- `_munge_whitespace`. -/
def mungeWhitespace (text : Text) : Text :=
  (expandTabs 0 text).map fun c => if isBreak c then ' ' else c

theorem isSpace_of_isBreak {c : Char} (h : isBreak c = true) : isSpace c = true := by
  rw [isBreak, Bool.or_eq_true] at h
  rcases h with h | h
  · rw [of_decide_eq_true h]
    rfl
  · simp only [isSpace, h, Bool.or_true, Bool.true_or]

/-- White space stays white space, and the words stay as they are. -/
theorem words_expandTabs (column : Nat) (text : Text) :
    words ((expandTabs column text).map fun c => if isBreak c then ' ' else c) = words text ∧
      ((∀ c ∈ ((expandTabs column text).map fun c => if isBreak c then ' ' else c).head?,
          isSpace c = true) ↔ ∀ c ∈ text.head?, isSpace c = true) := by
  induction text generalizing column with
  | nil => exact ⟨rfl, Iff.rfl⟩
  | cons c rest ih =>
      rw [expandTabs]
      by_cases htab : c = '\t'
      · obtain ⟨n, hn⟩ := Nat.exists_eq_add_of_lt (Nat.mod_lt column (by norm_num : 0 < 8))
        subst htab
        have hsep : ∀ (n : Nat) (s : Text), words (List.replicate n ' ' ++ s) = words s := by
          intro n s
          induction n with
          | zero => rfl
          | succ n ih => exact (tokens_cons_sep rfl _).trans ih
        have hpos : 8 - column % 8 = n + 1 := by omega
        rw [if_pos rfl, hpos, List.map_append, List.map_replicate, words, words,
          tokens_cons_sep (by rfl : isSpace '\t' = true)]
        exact ⟨(hsep _ _).trans (ih _).1, iff_of_true (by simp [List.replicate_succ]; rfl)
          (by simp; rfl)⟩
      · obtain ⟨hwords, hhead⟩ := ih (if c = '\n' ∨ c = '\r' then 0 else column + 1)
        rw [if_neg htab, List.map_cons]
        cases hc : isBreak c with
        | true =>
            have hspace := isSpace_of_isBreak hc
            rw [if_pos rfl, words, words, tokens_cons_sep hspace, tokens_cons_sep rfl]
            exact ⟨hwords, iff_of_true (by simp; rfl) (by simpa using hspace)⟩
        | false =>
            rw [if_neg Bool.false_ne_true]
            exact ⟨tokens_cons_congr c hwords hhead, Iff.rfl⟩

theorem words_mungeWhitespace (text : Text) : words (mungeWhitespace text) = words text :=
  (words_expandTabs 0 text).1

/-- No line break is left in a munged text. -/
theorem not_newline_of_mem_munge {text : Text} {c : Char} (h : c ∈ mungeWhitespace text) :
    isBreak c = true → c = ' ' := by
  obtain ⟨d, -, rfl⟩ := List.mem_map.mp h
  intro hbreak
  by_cases hd : isBreak d = true
  · rw [if_pos hd]
  · rw [if_neg hd] at hbreak
    exact absurd hbreak hd

/-- A text that begins with ink does so after munging. -/
theorem head?_mungeWhitespace {c : Char} (rest : Text) (hc : isSpace c = false) :
    (mungeWhitespace (c :: rest)).head? = some c := by
  have hbreak : isBreak c = false := by
    by_contra h
    rw [Bool.not_eq_false] at h
    rw [isSpace_of_isBreak h] at hc
    exact Bool.noConfusion hc
  have htab : c ≠ '\t' := by
    rintro rfl
    exact Bool.noConfusion hbreak
  rw [mungeWhitespace, expandTabs, if_neg htab, List.map_cons, List.head?_cons, hbreak]
  rfl

end Munge

section Split

variable (k : Classes)

/-- `[^\d\W]`. -/
def Classes.letter (c : Char) : Bool := k.word c && !k.digit c

/-- A word character or one of the marks that may end a word before a dash. -/
def Classes.wordPunct (c : Char) : Bool := k.word c || "!\"'&.,?".toList.contains c

/-- A dash between words begins here; `before` is the text before, last character first. -/
def emDash (before rest : Text) : Bool :=
  before.head?.any k.wordPunct && decide (2 ≤ (rest.takeWhile (· = '-')).length) &&
    (rest.dropWhile (· = '-')).head?.any k.word

/-- The hyphen that comes next stands inside a hyphenated word. -/
def hyphenated : Text → Text → Bool
  | before, '-' :: after =>
      (match before with
        | b :: '-' :: a :: _ => k.letter a && k.letter b
        | b :: a :: _ => k.letter a && k.letter b
        | _ => false) &&
      (match after with
        | a :: '-' :: b :: _ => k.letter a && k.letter b
        | a :: b :: _ => k.letter a && k.letter b
        | _ => false)
  | _, _ => false

/-- The length of the shortest part of a word that a line may break after. -/
def wordLength : Text → Text → Nat
  | _, [] => 0
  | before, c :: rest =>
      if hyphenated k (c :: before) rest then 2
      else if rest.head?.all isBreak then 1
      else if emDash k (c :: before) rest then 1
      else wordLength (c :: before) rest + 1

/-- The length of what `wordsep_re` matches here. -/
def chunkLength (before rest : Text) : Nat :=
  if rest.head?.any isBreak then (rest.takeWhile isBreak).length
  else if emDash k before rest then (rest.takeWhile (· = '-')).length
  else wordLength k before rest

def splitFrom : Nat → Text → Text → List Text
  | 0, _, _ => []
  | _ + 1, _, [] => []
  | fuel + 1, before, c :: rest =>
      let n := chunkLength k before (c :: rest)
      (c :: rest).take n ::
        splitFrom fuel (((c :: rest).take n).reverse ++ before) ((c :: rest).drop n)

/-- `_split`: the matches of `wordsep_re` lie side by side, so nothing stands between them. -/
def split (text : Text) : List Text := splitFrom k text.length [] text

theorem wordLength_pos (before rest : Text) (h : rest ≠ []) : 0 < wordLength k before rest := by
  obtain ⟨c, rest, rfl⟩ := List.exists_cons_of_ne_nil h
  rw [wordLength]
  split_ifs <;> omega

theorem chunkLength_pos (before rest : Text) (h : rest ≠ []) : 0 < chunkLength k before rest := by
  rw [chunkLength]
  split_ifs with hbreak hdash
  · obtain ⟨c, rest, rfl⟩ := List.exists_cons_of_ne_nil h
    rw [List.takeWhile_cons_of_pos (by simpa using hbreak)]
    simp
  · simp only [emDash, Bool.and_eq_true, decide_eq_true_eq] at hdash
    omega
  · exact wordLength_pos k before rest h

/-- The matches cover the text and none of them is empty. -/
theorem splitFrom_spec (fuel : Nat) (before rest : Text) (h : rest.length ≤ fuel) :
    (splitFrom k fuel before rest).flatten = rest ∧ [] ∉ splitFrom k fuel before rest := by
  induction fuel generalizing before rest with
  | zero =>
      obtain rfl : rest = [] := List.length_eq_zero_iff.mp (by omega)
      simp [splitFrom]
  | succ fuel ih =>
      cases rest with
      | nil => simp [splitFrom]
      | cons c rest =>
          have hpos := chunkLength_pos k before (c :: rest) (by simp)
          have hleft : ((c :: rest).drop (chunkLength k before (c :: rest))).length ≤ fuel := by
            rw [List.length_drop]
            simp only [List.length_cons] at h ⊢
            omega
          have htail := ih
            (((c :: rest).take (chunkLength k before (c :: rest))).reverse ++ before) _ hleft
          rw [splitFrom]
          constructor
          · rw [List.flatten_cons, htail.1, List.take_append_drop]
          · rw [List.mem_cons, not_or]
            refine ⟨fun hnil => ?_, htail.2⟩
            have hlen := congrArg List.length hnil
            simp only [List.length_nil, List.length_take, List.length_cons] at hlen
            omega

@[simp] theorem flatten_split (text : Text) : (split k text).flatten = text :=
  (splitFrom_spec k text.length [] text le_rfl).1

theorem nil_notMem_split (text : Text) : [] ∉ split k text :=
  (splitFrom_spec k text.length [] text le_rfl).2

end Split

section Wrap

/-- The chunks that fit on a line after `used` characters, and the chunks after them. -/
def takeFitting (width : Int) : Nat → List Text → List Text × List Text
  | _, [] => ([], [])
  | used, chunk :: rest =>
      if (used + chunk.length : Int) ≤ width then
        let more := takeFitting width (used + chunk.length) rest
        (chunk :: more.1, more.2)
      else ([], chunk :: rest)

/-- `str.rfind` of one character. -/
def rfind (c : Char) : Text → Option Nat
  | [] => none
  | x :: rest =>
      match rfind c rest with
      | some i => some (i + 1)
      | none => if x = c then some 0 else none

/-- Where `_handle_long_word` breaks a chunk. -/
def breakAt (chunk : Text) (spaceLeft : Nat) : Nat :=
  if spaceLeft < chunk.length then
    match rfind '-' (chunk.take spaceLeft) with
    | some hyphen =>
        if 0 < hyphen ∧ (chunk.take hyphen).any (· ≠ '-') then hyphen + 1 else spaceLeft
    | none => spaceLeft
  else spaceLeft

/-- Break the next chunk when it is wider than a line. -/
def breakLong (width : Int) : List Text × List Text → List Text × List Text
  | (taken, []) => (taken, [])
  | (taken, chunk :: rest) =>
      if width < chunk.length then
        let spaceLeft := if width < 1 then 1 else (width - taken.flatten.length).toNat
        let n := breakAt chunk spaceLeft
        (taken ++ [chunk.take n], chunk.drop n :: rest)
      else (taken, chunk :: rest)

/-- Drop the last chunk of a line when it is white space. -/
def dropTrailing (line : List Text) : List Text :=
  if line.getLast?.any isBlank then line.dropLast else line

/-- Drop the first chunk of a line other than the first when it is white space. -/
def dropLeading (first : Bool) (chunks : List Text) : List Text :=
  if chunks.head?.any isBlank && !first then chunks.tail else chunks

/-- The chunks of the next line and those that are left. -/
def nextLine (first : Bool) (width : Int) (chunks : List Text) : List Text × List Text :=
  let line := breakLong width (takeFitting width 0 (dropLeading first chunks))
  (dropTrailing line.1, line.2)

/-- How much is left to be put on lines. -/
def chunksSize (chunks : List Text) : Nat := chunks.flatten.length + chunks.length

theorem takeFitting_append (width : Int) (used : Nat) (chunks : List Text) :
    (takeFitting width used chunks).1 ++ (takeFitting width used chunks).2 = chunks := by
  induction chunks generalizing used with
  | nil => rfl
  | cons chunk rest ih =>
      rw [takeFitting]
      split
      · exact congrArg (chunk :: ·) (ih _)
      · rfl

theorem takeFitting_flatten (width : Int) (used : Nat) (chunks : List Text) :
    (takeFitting width used chunks).1.flatten ++ (takeFitting width used chunks).2.flatten =
      chunks.flatten := by
  rw [← List.flatten_append, takeFitting_append]

/-- When no chunk fits, the first one is wider than the line. -/
theorem takeFitting_eq_nil {width : Int} {chunk : Text} {rest : List Text}
    (h : (takeFitting width 0 (chunk :: rest)).1 = []) :
    width < chunk.length ∧ takeFitting width 0 (chunk :: rest) = ([], chunk :: rest) := by
  rw [takeFitting] at h ⊢
  split at h
  · exact absurd h (by simp)
  · rename_i hwide
    exact ⟨by omega, if_neg hwide⟩

theorem breakAt_pos (chunk : Text) {spaceLeft : Nat} (h : 0 < spaceLeft) :
    0 < breakAt chunk spaceLeft := by
  rw [breakAt]
  split_ifs with hlt
  · split
    · split_ifs <;> omega
    · exact h
  · exact h

theorem breakLong_flatten (width : Int) (line : List Text × List Text) :
    (breakLong width line).1.flatten ++ (breakLong width line).2.flatten =
      line.1.flatten ++ line.2.flatten := by
  obtain ⟨taken, left⟩ := line
  cases left with
  | nil => rfl
  | cons chunk rest =>
      rw [breakLong]
      split
      · simp [← List.append_assoc (List.take _ chunk)]
      · rfl

theorem breakLong_length (width : Int) (line : List Text × List Text) :
    (breakLong width line).2.length = line.2.length := by
  obtain ⟨taken, left⟩ := line
  cases left with
  | nil => rfl
  | cons chunk rest =>
      rw [breakLong]
      split <;> rfl

theorem breakLong_tail (width : Int) (line : List Text × List Text) :
    (breakLong width line).2.tail = line.2.tail := by
  obtain ⟨taken, left⟩ := line
  cases left with
  | nil => rfl
  | cons chunk rest =>
      rw [breakLong]
      split <;> rfl

/-- What stands on the line before a break stays there, and what is added is last. -/
theorem breakLong_taken (width : Int) (line : List Text × List Text) :
    ∃ last, (breakLong width line).1 = line.1 ++ last ∧ last.length ≤ 1 := by
  obtain ⟨taken, left⟩ := line
  cases left with
  | nil => exact ⟨[], by simp [breakLong]⟩
  | cons chunk rest =>
      rw [breakLong]
      split
      · exact ⟨[_], rfl, le_rfl⟩
      · exact ⟨[], by simp⟩

/-- A chunk that is wider than an empty line loses at least its first character to it. -/
theorem breakLong_wide {width : Int} {c : Char} {chunk : Text} (rest : List Text)
    (h : width < (c :: chunk).length) :
    ∃ t, (breakLong width ([], (c :: chunk) :: rest)).1 = [c :: t] := by
  rw [breakLong, if_pos h]
  have hspace : 0 < (if width < 1 then 1 else (width - ([] : List Text).flatten.length).toNat) := by
    split_ifs
    · exact Nat.one_pos
    · simp only [List.flatten_nil, List.length_nil]
      omega
  obtain ⟨n, hn⟩ := Nat.exists_eq_add_of_lt (breakAt_pos (c :: chunk) hspace)
  rw [Nat.zero_add] at hn
  exact ⟨chunk.take n, by simp only [hn, List.nil_append, List.take_succ_cons]⟩

theorem dropTrailing_spec (line : List Text) :
    ∃ last, line = dropTrailing line ++ last ∧ last.length ≤ 1 ∧ ∀ t ∈ last, isBlank t = true := by
  rw [dropTrailing]
  cases hlast : line.getLast? with
  | none => exact ⟨[], by simp⟩
  | some t =>
      cases hblank : isBlank t with
      | true =>
          refine ⟨[t], ?_, le_rfl, by simpa using hblank⟩
          simp [hblank, List.dropLast_append_getLast? t hlast]
      | false => exact ⟨[], by simp [hblank]⟩

/-- Only the last chunk of a line can be empty, and then it is dropped. -/
theorem nil_notMem_dropTrailing {taken last : List Text} (htaken : [] ∉ taken)
    (hlast : last.length ≤ 1) : [] ∉ dropTrailing (taken ++ last) := by
  match last, hlast with
  | [], _ =>
      rw [List.append_nil, dropTrailing]
      split
      · exact fun hmem => htaken (List.dropLast_subset _ hmem)
      · exact htaken
  | [t], _ =>
      rw [dropTrailing, List.getLast?_concat, Option.any_some, List.dropLast_concat]
      cases hblank : isBlank t with
      | true => exact htaken
      | false =>
          rw [if_neg Bool.false_ne_true, List.mem_append, List.mem_singleton, not_or]
          refine ⟨htaken, ?_⟩
          rintro rfl
          exact Bool.noConfusion hblank

theorem dropTrailing_ne_nil {t : Text} {rest : List Text} (ht : isBlank t = false) :
    dropTrailing (t :: rest) ≠ [] := by
  rw [dropTrailing]
  cases rest with
  | nil => simp [ht]
  | cons u rest => split <;> simp

theorem dropLeading_spec (first : Bool) (chunks : List Text) :
    ∃ dropped, chunks = dropped ++ dropLeading first chunks ∧ ∀ t ∈ dropped, isBlank t = true := by
  cases chunks with
  | nil => exact ⟨[], by simp [dropLeading]⟩
  | cons chunk rest =>
      rw [dropLeading, List.head?_cons, Option.any_some]
      split
      · rename_i h
        rw [Bool.and_eq_true] at h
        exact ⟨[chunk], rfl, by simpa using h.1⟩
      · exact ⟨[], rfl, by simp⟩

/-- What holds of the chunks when a line is begun: only a chunk that a break has used up is
empty, and the text begins with ink. -/
structure Ready (first : Bool) (chunks : List Text) : Prop where
  nil_notMem : [] ∉ chunks.tail
  head : first = true → ∃ c t rest, isSpace c = false ∧ chunks = (c :: t) :: rest

theorem Ready.nil_notMem_dropLeading {first : Bool} {chunks : List Text} (h : Ready first chunks) :
    [] ∉ dropLeading first chunks := by
  cases first with
  | true =>
      obtain ⟨c, t, rest, -, rfl⟩ := h.head rfl
      have htail := h.nil_notMem
      simpa [dropLeading] using htail
  | false =>
      rw [dropLeading]
      cases chunks with
      | nil => simp
      | cons chunk rest =>
          cases hblank : isBlank chunk with
          | true => simpa [hblank] using h.nil_notMem
          | false =>
              have hchunk : chunk ≠ [] := by
                rintro rfl
                exact Bool.noConfusion hblank
              have htail : [] ∉ rest := h.nil_notMem
              simp [hblank, hchunk.symm, htail]

/-- A line takes the text up to some white space before and after it. -/
theorem nextLine_flatten (first : Bool) (width : Int) (chunks : List Text) :
    ∃ lead trail, isBlank lead = true ∧ isBlank trail = true ∧
      chunks.flatten = lead ++ (nextLine first width chunks).1.flatten ++ trail ++
        (nextLine first width chunks).2.flatten := by
  obtain ⟨dropped, hchunks, hdropped⟩ := dropLeading_spec first chunks
  let line := breakLong width (takeFitting width 0 (dropLeading first chunks))
  obtain ⟨last, hline, -, hlast⟩ := dropTrailing_spec line.1
  have hblank : ∀ texts : List Text, (∀ t ∈ texts, isBlank t = true) →
      isBlank texts.flatten = true := by
    intro texts h
    rw [isBlank, List.all_flatten]
    exact List.all_eq_true.mpr h
  refine ⟨dropped.flatten, last.flatten, hblank _ hdropped, hblank _ hlast, ?_⟩
  have hsplit := breakLong_flatten width (takeFitting width 0 (dropLeading first chunks))
  rw [takeFitting_flatten] at hsplit
  calc
    chunks.flatten = dropped.flatten ++ (dropLeading first chunks).flatten := by
      rw [← List.flatten_append, ← hchunks]
    _ = dropped.flatten ++ (line.1.flatten ++ line.2.flatten) := by rw [hsplit]
    _ = dropped.flatten ++ ((dropTrailing line.1 ++ last).flatten ++ line.2.flatten) := by
      rw [← hline]
    _ = _ := by
      simp only [nextLine, List.flatten_append, List.append_assoc]
      rfl

section Step

variable {first : Bool} (width : Int) {chunks : List Text}

theorem Ready.nil_notMem_line (h : Ready first chunks) : [] ∉ (nextLine first width chunks).1 := by
  have hall := h.nil_notMem_dropLeading
  rw [← takeFitting_append width 0 (dropLeading first chunks), List.mem_append, not_or] at hall
  obtain ⟨last, htaken, hlast⟩ :=
    breakLong_taken width (takeFitting width 0 (dropLeading first chunks))
  rw [nextLine, htaken]
  exact nil_notMem_dropTrailing hall.1 hlast

theorem Ready.next (h : Ready first chunks) : Ready false (nextLine first width chunks).2 where
  nil_notMem := by
    have hall := h.nil_notMem_dropLeading
    rw [← takeFitting_append width 0 (dropLeading first chunks), List.mem_append, not_or] at hall
    rw [nextLine, breakLong_tail]
    exact fun hmem => hall.2 (List.mem_of_mem_tail hmem)
  head := by simp

/-- What the first chunk of a line leaves on it begins with the first character of the chunk. -/
theorem breakLong_takeFitting (c : Char) (t : Text) (rest : List Text) :
    ∃ t' more,
      (breakLong width (takeFitting width 0 ((c :: t) :: rest))).1 = (c :: t') :: more := by
  cases htaken : (takeFitting width 0 ((c :: t) :: rest)).1 with
  | nil =>
      obtain ⟨hwide, heq⟩ := takeFitting_eq_nil htaken
      obtain ⟨t', ht'⟩ := breakLong_wide rest hwide
      exact ⟨t', [], by rw [heq, ht']⟩
  | cons chunk more =>
      have hall := takeFitting_append width 0 ((c :: t) :: rest)
      rw [htaken, List.cons_append, List.cons.injEq] at hall
      obtain ⟨last, hline, -⟩ := breakLong_taken width (takeFitting width 0 ((c :: t) :: rest))
      exact ⟨t, more ++ last, by rw [hline, htaken, hall.1, List.cons_append]⟩

theorem Ready.line_ne_nil (h : Ready true chunks) : (nextLine true width chunks).1 ≠ [] := by
  obtain ⟨c, t, rest, hc, rfl⟩ := h.head rfl
  have hkeep : dropLeading true ((c :: t) :: rest) = (c :: t) :: rest := by simp [dropLeading]
  obtain ⟨t', more, hline⟩ := breakLong_takeFitting width c t rest
  rw [nextLine, hkeep, hline]
  exact dropTrailing_ne_nil (by simp [isBlank, hc])

/-- Each line uses up a chunk or a character. -/
theorem Ready.chunksSize_lt (h : Ready first chunks) (hne : chunks ≠ []) :
    chunksSize (nextLine first width chunks).2 < chunksSize chunks := by
  obtain ⟨dropped, hchunks, -⟩ := dropLeading_spec first chunks
  have hcount := congrArg List.length hchunks
  have hflat := congrArg (fun texts => (List.flatten texts).length) hchunks
  have htake := congrArg List.length (takeFitting_append width 0 (dropLeading first chunks))
  have htexts := congrArg List.length (takeFitting_flatten width 0 (dropLeading first chunks))
  have hbreak := congrArg List.length
    (breakLong_flatten width (takeFitting width 0 (dropLeading first chunks)))
  have hleft := breakLong_length width (takeFitting width 0 (dropLeading first chunks))
  simp only [List.length_append, List.flatten_append] at hcount hflat htake htexts hbreak
  simp only [chunksSize, nextLine]
  cases hrest : dropLeading first chunks with
  | nil =>
      have hpos : 0 < chunks.length := List.length_pos_of_ne_nil hne
      rw [hrest] at hcount hflat htake htexts hbreak hleft
      simp only [List.length_nil, List.flatten_nil] at hcount hflat htake htexts
      omega
  | cons chunk rest =>
      have hchunk : chunk ≠ [] := by
        rintro rfl
        exact h.nil_notMem_dropLeading (by rw [hrest]; exact List.mem_cons_self)
      obtain ⟨c, t, rfl⟩ := List.exists_cons_of_ne_nil hchunk
      obtain ⟨t', more, hline⟩ := breakLong_takeFitting width c t rest
      have hpos :
          0 < (breakLong width (takeFitting width 0 ((c :: t) :: rest))).1.flatten.length := by
        rw [hline]
        simp
      rw [hrest] at hcount hflat htake htexts hbreak hleft
      omega

end Step

inductive WrapError
  | invalidWidth
  | outOfFuel
  deriving DecidableEq

/-- The settings that a caller gives. -/
structure Layout where
  width : Int
  initialIndent : Text
  subsequentIndent : Text

def Layout.indent (o : Layout) (first : Bool) : Text :=
  if first then o.initialIndent else o.subsequentIndent

/-- `_wrap_chunks`; `first` says that no line stands yet. -/
def wrapChunks (o : Layout) : Nat → Bool → List Text → Except WrapError (List Text)
  | _, _, [] => .ok []
  | 0, _, _ :: _ => .error .outOfFuel
  | fuel + 1, first, chunk :: chunks =>
      let line := nextLine first (o.width - (o.indent first).length) (chunk :: chunks)
      if line.1 = [] then wrapChunks o fuel first line.2
      else (wrapChunks o fuel false line.2).map ((o.indent first ++ line.1.flatten) :: ·)

/-- `textwrap.wrap`. -/
def wrap (k : Classes) (o : Layout) (text : Text) : Except WrapError (List Text) :=
  let chunks := split k (mungeWhitespace text)
  if o.width ≤ 0 then .error .invalidWidth else wrapChunks o (chunksSize chunks) true chunks

/-- `textwrap.fill`. -/
def fill (k : Classes) (o : Layout) (text : Text) : Except WrapError Text :=
  (wrap k o text).map (joinWith '\n')

/-- Lines behind their indents. -/
def Layout.indented (o : Layout) : Bool → List Text → List Text
  | _, [] => []
  | first, body :: rest => (o.indent first ++ body) :: o.indented false rest

/-- The text is its lines, with some white space left out before and after them. -/
def Unwraps : Text → List Text → Prop
  | text, [] => isBlank text = true
  | text, line :: rest =>
      ∃ lead tail, isBlank lead = true ∧ text = lead ++ line ++ tail ∧ Unwraps tail rest

theorem isBlank_append {s t : Text} (hs : isBlank s = true) (ht : isBlank t = true) :
    isBlank (s ++ t) = true := by
  rw [isBlank, List.all_append, Bool.and_eq_true]
  exact ⟨hs, ht⟩

theorem Unwraps.blank_append {blank text : Text} {lines : List Text} (h : Unwraps text lines)
    (hblank : isBlank blank = true) : Unwraps (blank ++ text) lines := by
  cases lines with
  | nil => exact isBlank_append hblank h
  | cons line rest =>
      obtain ⟨lead, tail, hlead, rfl, hrest⟩ := h
      exact ⟨blank ++ lead, tail, isBlank_append hblank hlead, by simp only [List.append_assoc],
        hrest⟩

theorem Unwraps.subset {text : Text} {lines : List Text} (h : Unwraps text lines) :
    ∀ line ∈ lines, line ⊆ text := by
  induction lines generalizing text with
  | nil => exact fun line hline => absurd hline List.not_mem_nil
  | cons line rest ih =>
      obtain ⟨lead, tail, -, rfl, hrest⟩ := h
      intro line' hline' c hc
      rcases List.mem_cons.mp hline' with rfl | hline'
      · simp [hc]
      · exact List.mem_append_right _ (ih hrest line' hline' hc)

/-- The lines hold the words of the text: only where a line ends may a word be broken. -/
def Wraps (text : Text) (lines : List Text) : Prop :=
  ∃ spaced, words spaced = words text ∧ Unwraps spaced lines

theorem wraps_self (text : Text) : Wraps text [text] :=
  ⟨text, rfl, [], [], rfl, by simp, rfl⟩

/-- The lines of a text, none of them empty. -/
structure Lays (text : Text) (bodies : List Text) : Prop where
  unwraps : Unwraps text bodies
  nil_notMem : [] ∉ bodies

theorem wrapChunks_spec (o : Layout) (fuel : Nat) (first : Bool) (chunks : List Text)
    (hfuel : chunksSize chunks ≤ fuel) (h : Ready first chunks) :
    ∃ bodies, wrapChunks o fuel first chunks = .ok (o.indented first bodies) ∧
      Lays chunks.flatten bodies := by
  induction fuel generalizing first chunks with
  | zero =>
      obtain rfl : chunks = [] := by
        rw [chunksSize] at hfuel
        exact List.length_eq_zero_iff.mp (by omega)
      exact ⟨[], rfl, rfl, by simp⟩
  | succ fuel ih =>
      cases hchunks : chunks with
      | nil => exact ⟨[], rfl, rfl, by simp⟩
      | cons chunk more =>
          rw [← hchunks]
          let width := o.width - (o.indent first).length
          have hless := h.chunksSize_lt width (by simp [hchunks])
          obtain ⟨lead, trail, hlead, htrail, hflat⟩ := nextLine_flatten first width chunks
          have hstep : wrapChunks o (fuel + 1) first chunks =
              if (nextLine first width chunks).1 = [] then
                wrapChunks o fuel first (nextLine first width chunks).2
              else (wrapChunks o fuel false (nextLine first width chunks).2).map
                ((o.indent first ++ (nextLine first width chunks).1.flatten) :: ·) := by
            rw [hchunks, wrapChunks]
          obtain ⟨bodies, hrest, hlays⟩ := ih false _ (by omega) (h.next width)
          rw [hstep]
          by_cases hline : (nextLine first width chunks).1 = []
          · -- only a line after the first can be empty
            have hfirst : first = false := by
              by_contra hne
              rw [Bool.not_eq_false] at hne
              subst hne
              exact h.line_ne_nil width hline
            subst hfirst
            rw [if_pos hline, hrest]
            refine ⟨bodies, rfl, ?_, hlays.nil_notMem⟩
            rw [hflat, hline, List.flatten_nil, List.append_nil]
            exact hlays.unwraps.blank_append (isBlank_append hlead htrail)
          · rw [if_neg hline, hrest]
            refine ⟨(nextLine first width chunks).1.flatten :: bodies, rfl, ?_, ?_⟩
            · refine ⟨lead, trail ++ (nextLine first width chunks).2.flatten, hlead, ?_,
                hlays.unwraps.blank_append htrail⟩
              rw [hflat, List.append_assoc _ trail]
            · rw [List.mem_cons, not_or]
              refine ⟨fun hnil => ?_, hlays.nil_notMem⟩
              obtain ⟨t, rest, ht⟩ := List.exists_cons_of_ne_nil hline
              have hempty : t = [] := List.flatten_eq_nil_iff.mp hnil.symm t (by simp [ht])
              have hnone := h.nil_notMem_line width
              rw [ht, hempty] at hnone
              exact hnone List.mem_cons_self

/-- A text that begins with ink is laid out whole. -/
theorem wrap_spec (k : Classes) (o : Layout) (c : Char) (rest : Text) (hc : isSpace c = false)
    (hwidth : 0 < o.width) :
    ∃ bodies, wrap k o (c :: rest) = .ok (o.indented true bodies) ∧
      Lays (mungeWhitespace (c :: rest)) bodies := by
  have hready : Ready true (split k (mungeWhitespace (c :: rest))) := by
    have hhead := head?_mungeWhitespace rest hc
    have hnil := nil_notMem_split k (mungeWhitespace (c :: rest))
    have hflat := flatten_split k (mungeWhitespace (c :: rest))
    refine ⟨fun hmem => hnil (List.mem_of_mem_tail hmem), fun _ => ?_⟩
    cases hsplit : split k (mungeWhitespace (c :: rest)) with
    | nil =>
        rw [hsplit, List.flatten_nil] at hflat
        simp [← hflat] at hhead
    | cons chunk more =>
        obtain ⟨d, t, rfl⟩ : ∃ d t, chunk = d :: t :=
          List.exists_cons_of_ne_nil fun hempty => hnil (by simp [hsplit, hempty])
        rw [← hflat, hsplit] at hhead
        obtain rfl : d = c := by simpa using hhead
        exact ⟨d, t, more, hc, rfl⟩
  obtain ⟨bodies, hwrap, hlays⟩ := wrapChunks_spec o _ true _ le_rfl hready
  rw [flatten_split] at hlays
  refine ⟨bodies, ?_, hlays⟩
  rw [wrap, if_neg (by omega)]
  exact hwrap

theorem Lays.ne_nil {c : Char} {rest : Text} {bodies : List Text} (hc : isSpace c = false)
    (h : Lays (mungeWhitespace (c :: rest)) bodies) : bodies ≠ [] := by
  rintro rfl
  have hmem := List.mem_of_mem_head? (head?_mungeWhitespace rest hc)
  rw [List.all_eq_true.mp h.unwraps c hmem] at hc
  exact Bool.noConfusion hc

theorem Layout.indented_empty (width : Int) (first : Bool) (bodies : List Text) :
    Layout.indented ⟨width, [], []⟩ first bodies = bodies := by
  induction bodies generalizing first with
  | nil => rfl
  | cons body rest ih =>
      rw [Layout.indented, ih]
      cases first <;> rfl

theorem Lays.wraps {text : Text} {bodies : List Text} (h : Lays (mungeWhitespace text) bodies) :
    Wraps text bodies :=
  ⟨mungeWhitespace text, words_mungeWhitespace text, h.unwraps⟩

/-- Lines with a hanging indent, joined. -/
theorem Layout.joinWith_indented (o : Layout) (first : Bool) {bodies : List Text}
    (hne : bodies ≠ []) : joinWith '\n' (o.indented first bodies) =
      o.indent first ++ ('\n' :: o.subsequentIndent).intercalate bodies := by
  induction bodies generalizing first with
  | nil => exact absurd rfl hne
  | cons body rest ih =>
      cases rest with
      | nil => simp [Layout.indented, List.intercalate]
      | cons next rest =>
          have hrest := ih false (by simp)
          rw [Layout.indented] at hrest ⊢
          rw [Layout.indented, joinWith_cons, hrest]
          simp [List.intercalate, Layout.indent]

/-- A filled text begins with its indent and has the words of the text on its lines. -/
theorem fill_spec (k : Classes) (o : Layout) (c : Char) (rest : Text) (hc : isSpace c = false)
    (hwidth : 0 < o.width) :
    ∃ lines, fill k o (c :: rest) =
        .ok (o.initialIndent ++ ('\n' :: o.subsequentIndent).intercalate lines) ∧
      Wraps (c :: rest) lines ∧ lines ≠ [] ∧ [] ∉ lines := by
  obtain ⟨lines, hwrap, hlays⟩ := wrap_spec k o c rest hc hwidth
  have hne := hlays.ne_nil hc
  refine ⟨lines, ?_, hlays.wraps, hne, hlays.nil_notMem⟩
  rw [fill, hwrap]
  exact congrArg Except.ok (o.joinWith_indented true hne)

end Wrap

end Dalston.Model.TextWrap
