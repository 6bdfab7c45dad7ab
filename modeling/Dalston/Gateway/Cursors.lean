import Dalston.Orchestrator.Cleanup

/-!
# Pagination cursors

The cursor of a listing is the creation time and the identifier of a row as one text. Decoding
splits the text at its last colon, which no identifier contains.

## Implementation notes

Databases return their timestamps in UTC or without a zone. Of the texts that
`datetime.fromisoformat` reads, those that `isoformat` writes for such timestamps are modelled;
other texts fail. Identifiers are the UUIDs of the rows.
-/

namespace Dalston.Gateway.Cursors

open Orchestrator.Cleanup

section Digits

/-- The last decimal digits of a number, as many as are asked for. -/
def decimals : Nat → Nat → List Char
  | 0, _ => []
  | width + 1, n => decimals width (n / 10) ++ [Nat.digitChar (n % 10)]

def decimalValue? (c : Char) : Option Nat :=
  if '0' ≤ c ∧ c ≤ '9' then some (c.toNat - 48) else none

/-- The value of digits, from the left. -/
def digitsValue? (base : Nat) (value? : Char → Option Nat) (digits : List Char) : Option Nat :=
  digits.foldl (fun value c => value.bind fun v => (value? c).map fun d => base * v + d) (some 0)

/-- Read a number of so many digits. -/
def readNumber (width : Nat) (text : List Char) : Option (Nat × List Char) :=
  if width ≤ text.length then
    (digitsValue? 10 decimalValue? (text.take width)).map fun n => (n, text.drop width)
  else none

/-- Digits that are written from the right have the value of what they write. -/
theorem digitsValue?_digits {base : Nat} {value? : Char → Option Nat}
    {digits : Nat → Nat → List Char} (hzero : ∀ n, digits 0 n = [])
    (hsucc : ∀ width n,
      digits (width + 1) n = digits width (n / base) ++ [Nat.digitChar (n % base)])
    (hvalue : ∀ n, value? (Nat.digitChar (n % base)) = some (n % base)) (width n : Nat) :
    digitsValue? base value? (digits width n) = some (n % base ^ width) := by
  induction width generalizing n with
  | zero => simp [hzero, digitsValue?, Nat.mod_one]
  | succ width ih =>
      have hdigits := ih (n / base)
      rw [digitsValue?] at hdigits ⊢
      rw [hsucc, List.foldl_append, hdigits, List.foldl_cons, List.foldl_nil, Option.bind_some,
        hvalue, Option.map_some, Nat.pow_succ', Nat.mod_mul, Nat.add_comm]

theorem decimalValue?_digitChar (n : Nat) :
    decimalValue? (Nat.digitChar (n % 10)) = some (n % 10) := by
  have hdigit : ∀ d < 10, decimalValue? (Nat.digitChar d) = some d := by decide
  exact hdigit _ (Nat.mod_lt _ (by norm_num))

theorem hexValue?_digitChar (n : Nat) : hexValue? (Nat.digitChar (n % 16)) = some (n % 16) := by
  have hdigit : ∀ d < 16, hexValue? (Nat.digitChar d) = some d := by decide
  exact hdigit _ (Nat.mod_lt _ (by norm_num))

@[simp] theorem length_decimals (width n : Nat) : (decimals width n).length = width := by
  induction width generalizing n with
  | zero => rfl
  | succ width ih => rw [decimals, List.length_append, ih, List.length_singleton]

@[simp] theorem length_hexDigits (width n : Nat) : (hexDigits width n).length = width := by
  induction width generalizing n with
  | zero => rfl
  | succ width ih => rw [hexDigits, List.length_append, ih, List.length_singleton]

theorem readNumber_decimals {width n : Nat} (h : n < 10 ^ width) (rest : List Char) :
    readNumber width (decimals width n ++ rest) = some (n, rest) := by
  have hvalue : digitsValue? 10 decimalValue? (decimals width n) = some (n % 10 ^ width) :=
    digitsValue?_digits (fun _ => rfl) (fun _ _ => rfl) decimalValue?_digitChar width n
  have htake : (decimals width n ++ rest).take width = decimals width n := by
    rw [List.take_append_of_le_length (length_decimals width n).ge]
    exact List.take_of_length_le (length_decimals width n).le
  have hdrop : (decimals width n ++ rest).drop width = rest := by
    rw [List.drop_append_of_le_length (length_decimals width n).ge,
      List.drop_of_length_le (length_decimals width n).le, List.nil_append]
  rw [readNumber, if_pos (by simp), htake, hdrop, hvalue, Nat.mod_eq_of_lt h, Option.map_some]

end Digits

section Timestamps

def isLeapYear (year : Nat) : Bool :=
  year % 4 = 0 && (year % 100 ≠ 0 || year % 400 = 0)

def daysInMonth (year month : Nat) : Nat :=
  if month = 2 then if isLeapYear year then 29 else 28
  else if month = 4 ∨ month = 6 ∨ month = 9 ∨ month = 11 then 30
  else 31

/-- The fields of a `datetime`. -/
structure TimestampFields where
  year : Nat
  month : Nat
  day : Nat
  hour : Nat
  minute : Nat
  second : Nat
  microsecond : Nat

namespace TimestampFields

/-- What `datetime` checks of its fields. -/
structure Valid (t : TimestampFields) : Prop where
  year : 1 ≤ t.year ∧ t.year ≤ 9999
  month : 1 ≤ t.month ∧ t.month ≤ 12
  day : 1 ≤ t.day ∧ t.day ≤ daysInMonth t.year t.month
  hour : t.hour < 24
  minute : t.minute < 60
  second : t.second < 60
  microsecond : t.microsecond < 1000000

instance : DecidablePred Valid := fun t =>
  decidable_of_iff ((1 ≤ t.year ∧ t.year ≤ 9999) ∧ (1 ≤ t.month ∧ t.month ≤ 12) ∧
      (1 ≤ t.day ∧ t.day ≤ daysInMonth t.year t.month) ∧ t.hour < 24 ∧ t.minute < 60 ∧
      t.second < 60 ∧ t.microsecond < 1000000)
    ⟨fun ⟨hy, hm, hd, hh, hmin, hs, hmicro⟩ => ⟨hy, hm, hd, hh, hmin, hs, hmicro⟩,
      fun h => ⟨h.year, h.month, h.day, h.hour, h.minute, h.second, h.microsecond⟩⟩

/-- The fields from the year down, which are compared one after another. -/
def tuple (t : TimestampFields) : Nat ×ₗ Nat ×ₗ Nat ×ₗ Nat ×ₗ Nat ×ₗ Nat ×ₗ Nat :=
  toLex (t.year, toLex (t.month, toLex (t.day, toLex (t.hour, toLex (t.minute,
    toLex (t.second, t.microsecond))))))

theorem tuple_injective : Function.Injective tuple := by
  rintro ⟨year, month, day, hour, minute, second, microsecond⟩ t h
  simp only [tuple, EmbeddingLike.apply_eq_iff_eq, Prod.mk.injEq] at h
  obtain ⟨rfl, rfl, rfl, rfl, rfl, rfl, rfl⟩ := h
  rfl

instance : LinearOrder TimestampFields := LinearOrder.lift' tuple tuple_injective

end TimestampFields

/-- A timestamp of a row. -/
abbrev Timestamp := {t : TimestampFields // t.Valid}

/-- The zone of the timestamps that a database returns. -/
inductive Zone
  | naive | utc
  deriving DecidableEq

def Zone.text : Zone → List Char
  | .naive => []
  | .utc => "+00:00".toList

def Zone.read? (text : List Char) : Option Zone :=
  if text = [] then some .naive else if text = "+00:00".toList then some .utc else none

/-- `YYYY-MM-DD`. -/
def dateText (t : TimestampFields) : List Char :=
  decimals 4 t.year ++ '-' :: (decimals 2 t.month ++ '-' :: decimals 2 t.day)

def fractionText (microsecond : Nat) : List Char :=
  if microsecond = 0 then [] else '.' :: decimals 6 microsecond

/-- `HH:MM:SS` and what follows it. -/
def clockText (t : TimestampFields) (fraction : List Char) : List Char :=
  decimals 2 t.hour ++ ':' :: (decimals 2 t.minute ++ ':' :: (decimals 2 t.second ++ fraction))

/-- `HH:MM:SS`, with the microseconds when there are some. -/
def timeText (t : TimestampFields) : List Char := clockText t (fractionText t.microsecond)

/-- `t.isoformat()`. -/
def isoformat (zone : Zone) (t : Timestamp) : List Char :=
  dateText t.1 ++ 'T' :: (timeText t.1 ++ zone.text)

/-- Read one character. -/
def expect (c : Char) : List Char → Option (List Char)
  | [] => none
  | d :: text => if d = c then some text else none

/-- Read the fraction of a second, if there is one. -/
def readFraction : List Char → Option (Nat × List Char)
  | '.' :: text => readNumber 6 text
  | text => some (0, text)

def readDate (text : List Char) : Option ((Nat × Nat × Nat) × List Char) := do
  let (year, text) ← readNumber 4 text
  let text ← expect '-' text
  let (month, text) ← readNumber 2 text
  let text ← expect '-' text
  let (day, text) ← readNumber 2 text
  return ((year, month, day), text)

def readTime (text : List Char) : Option ((Nat × Nat × Nat × Nat) × List Char) := do
  let (hour, text) ← readNumber 2 text
  let text ← expect ':' text
  let (minute, text) ← readNumber 2 text
  let text ← expect ':' text
  let (second, text) ← readNumber 2 text
  let (microsecond, text) ← readFraction text
  return ((hour, minute, second, microsecond), text)

/-- `datetime(…)`. -/
def datetime? (t : TimestampFields) : Option Timestamp := if h : t.Valid then some ⟨t, h⟩ else none

/-- `datetime.fromisoformat(text)`. -/
def fromisoformat (text : List Char) : Option (Timestamp × Zone) := do
  let ((year, month, day), text) ← readDate text
  let text ← expect 'T' text
  let ((hour, minute, second, microsecond), text) ← readTime text
  let zone ← Zone.read? text
  let t ← datetime? ⟨year, month, day, hour, minute, second, microsecond⟩
  return (t, zone)

@[simp] theorem expect_cons (c : Char) (text : List Char) : expect c (c :: text) = some text :=
  if_pos rfl

@[simp] theorem read?_text (zone : Zone) : Zone.read? zone.text = some zone := by
  cases zone <;> decide

theorem daysInMonth_le (year month : Nat) : daysInMonth year month ≤ 31 := by
  rw [daysInMonth]
  split_ifs <;> norm_num

theorem readDate_dateText {t : TimestampFields} (h : t.Valid) (rest : List Char) :
    readDate (dateText t ++ rest) = some ((t.year, t.month, t.day), rest) := by
  have hyear : t.year < 10 ^ 4 := h.year.2.trans_lt (by norm_num)
  have hmonth : t.month < 10 ^ 2 := h.month.2.trans_lt (by norm_num)
  have hday : t.day < 10 ^ 2 :=
    (h.day.2.trans (daysInMonth_le t.year t.month)).trans_lt (by norm_num)
  rw [readDate, dateText]
  simp only [List.append_assoc, List.cons_append, readNumber_decimals hyear,
    readNumber_decimals hmonth, readNumber_decimals hday, Option.bind_eq_bind, expect_cons,
    Option.bind_some, Option.pure_def]

theorem readFraction_fractionText (zone : Zone) {microsecond : Nat} (h : microsecond < 1000000) :
    readFraction (fractionText microsecond ++ zone.text) = some (microsecond, zone.text) := by
  rw [fractionText]
  split_ifs with hzero
  · subst hzero
    cases zone <;> rfl
  · exact readNumber_decimals h zone.text

theorem readTime_timeText {t : TimestampFields} (h : t.Valid) (zone : Zone) :
    readTime (timeText t ++ zone.text) =
      some ((t.hour, t.minute, t.second, t.microsecond), zone.text) := by
  have hhour : t.hour < 10 ^ 2 := h.hour.trans (by norm_num)
  have hminute : t.minute < 10 ^ 2 := h.minute.trans (by norm_num)
  have hsecond : t.second < 10 ^ 2 := h.second.trans (by norm_num)
  rw [readTime, timeText, clockText]
  simp only [List.append_assoc, List.cons_append, readNumber_decimals hhour,
    readNumber_decimals hminute, readNumber_decimals hsecond, Option.bind_eq_bind, expect_cons,
    Option.bind_some, readFraction_fractionText zone h.microsecond, Option.pure_def]

/-- Reading a timestamp back gives the timestamp. -/
theorem fromisoformat_isoformat (zone : Zone) (t : Timestamp) :
    fromisoformat (isoformat zone t) = some (t, zone) := by
  rw [fromisoformat, isoformat]
  simp only [readDate_dateText t.2, readTime_timeText t.2, Option.bind_eq_bind, expect_cons,
    Option.bind_some, read?_text, datetime?, dif_pos t.2, Option.pure_def]

end Timestamps

section StoredTexts

/-- The text of a timestamp in SQLite: SQLAlchemy writes the fraction of a second always,
`CURRENT_TIMESTAMP` never. -/
def sqliteText (fraction : Bool) (t : Timestamp) : List Char :=
  dateText t.1 ++ ' ' :: clockText t.1 (if fraction then '.' :: decimals 6 t.1.microsecond else [])

theorem append_lt_append_iff {a b x y : List Char} (h : a.length = b.length) :
    a ++ x < b ++ y ↔ a < b ∨ a = b ∧ x < y := by
  induction a generalizing b with
  | nil =>
      obtain rfl := List.length_eq_zero_iff.mp h.symm
      simp
  | cons c a ih =>
      cases b with
      | nil => cases h
      | cons d b =>
          rw [List.cons_append, List.cons_append, List.cons_lt_cons_iff, List.cons_lt_cons_iff,
            ih (Nat.succ.inj h), List.cons.injEq]
          tauto

theorem digitChar_lt_iff (m n : Nat) :
    Nat.digitChar (m % 10) < Nat.digitChar (n % 10) ↔ m % 10 < n % 10 := by
  have hdigits : ∀ d < 10, ∀ e < 10, (Nat.digitChar d < Nat.digitChar e ↔ d < e) := by decide
  exact hdigits _ (Nat.mod_lt _ (by norm_num)) _ (Nat.mod_lt _ (by norm_num))

theorem decimals_inj {width m n : Nat} (hm : m < 10 ^ width) (hn : n < 10 ^ width)
    (h : decimals width m = decimals width n) : m = n := by
  have hread := readNumber_decimals hm []
  rw [h, readNumber_decimals hn] at hread
  exact (Prod.mk.inj (Option.some.inj hread)).1.symm

/-- Numbers of one width are ordered as their texts. -/
theorem decimals_lt_iff {width m n : Nat} (hm : m < 10 ^ width) (hn : n < 10 ^ width) :
    decimals width m < decimals width n ↔ m < n := by
  induction width generalizing m n with
  | zero =>
      rw [Nat.pow_zero, Nat.lt_one_iff] at hm hn
      simp [decimals, hm, hn]
  | succ width ih =>
      have hm' : m / 10 < 10 ^ width := by
        rw [Nat.pow_succ] at hm
        omega
      have hn' : n / 10 < 10 ^ width := by
        rw [Nat.pow_succ] at hn
        omega
      have hsame : decimals width (m / 10) = decimals width (n / 10) ↔ m / 10 = n / 10 :=
        ⟨decimals_inj hm' hn', fun heq => by rw [heq]⟩
      rw [decimals, decimals, append_lt_append_iff (by simp), ih hm' hn', hsame,
        List.cons_lt_cons_iff, digitChar_lt_iff]
      simp only [List.not_lt_nil, and_false, or_false]
      omega

/-- A text that begins with a number. -/
theorem decimals_append_lt_iff {width m n : Nat} (hm : m < 10 ^ width) (hn : n < 10 ^ width)
    (x y : List Char) :
    decimals width m ++ x < decimals width n ++ y ↔ m < n ∨ m = n ∧ x < y := by
  rw [append_lt_append_iff (by simp), decimals_lt_iff hm hn]
  exact or_congr_right (and_congr_left' ⟨decimals_inj hm hn, fun heq => by rw [heq]⟩)

/-- The fields down to the second come before, or they are the same and the rest does. -/
def TimestampFields.Before (t t' : TimestampFields) (rest : Prop) : Prop :=
  t.year < t'.year ∨ t.year = t'.year ∧ (t.month < t'.month ∨ t.month = t'.month ∧
    (t.day < t'.day ∨ t.day = t'.day ∧ (t.hour < t'.hour ∨ t.hour = t'.hour ∧
      (t.minute < t'.minute ∨ t.minute = t'.minute ∧
        (t.second < t'.second ∨ t.second = t'.second ∧ rest)))))

theorem TimestampFields.lt_iff (t t' : TimestampFields) :
    t < t' ↔ t.Before t' (t.microsecond < t'.microsecond) := by
  change t.tuple < t'.tuple ↔ _
  simp only [tuple, Prod.Lex.toLex_lt_toLex, Before]

theorem sqliteText_lt_iff (fraction fraction' : Bool) (t t' : Timestamp) :
    sqliteText fraction t < sqliteText fraction' t' ↔ t.1.Before t'.1
      ((if fraction then '.' :: decimals 6 t.1.microsecond else []) <
        (if fraction' then '.' :: decimals 6 t'.1.microsecond else [])) := by
  have hyear (t : Timestamp) : t.1.year < 10 ^ 4 := t.2.year.2.trans_lt (by norm_num)
  have hmonth (t : Timestamp) : t.1.month < 10 ^ 2 := t.2.month.2.trans_lt (by norm_num)
  have hday (t : Timestamp) : t.1.day < 10 ^ 2 :=
    (t.2.day.2.trans (daysInMonth_le _ _)).trans_lt (by norm_num)
  have hhour (t : Timestamp) : t.1.hour < 10 ^ 2 := t.2.hour.trans (by norm_num)
  have hminute (t : Timestamp) : t.1.minute < 10 ^ 2 := t.2.minute.trans (by norm_num)
  have hsecond (t : Timestamp) : t.1.second < 10 ^ 2 := t.2.second.trans (by norm_num)
  simp only [sqliteText, dateText, clockText, List.append_assoc, List.cons_append,
    decimals_append_lt_iff (hyear t) (hyear t'), decimals_append_lt_iff (hmonth t) (hmonth t'),
    decimals_append_lt_iff (hday t) (hday t'), decimals_append_lt_iff (hhour t) (hhour t'),
    decimals_append_lt_iff (hminute t) (hminute t'),
    decimals_append_lt_iff (hsecond t) (hsecond t'), List.cons_lt_cons_self,
    TimestampFields.Before]

/-- Texts with the fraction are ordered as their timestamps. -/
theorem sqliteText_true_lt_iff (t t' : Timestamp) :
    sqliteText true t < sqliteText true t' ↔ t < t' := by
  have hmicro (t : Timestamp) : t.1.microsecond < 10 ^ 6 := t.2.microsecond
  rw [sqliteText_lt_iff, if_pos rfl, if_pos rfl, List.cons_lt_cons_self,
    decimals_lt_iff (hmicro t) (hmicro t'), ← Subtype.coe_lt_coe, TimestampFields.lt_iff]

/-- The timestamp without its fraction of a second. -/
def wholeSecond (t : Timestamp) : Timestamp :=
  ⟨{ t.1 with microsecond := 0 },
    { year := t.2.year, month := t.2.month, day := t.2.day, hour := t.2.hour
      minute := t.2.minute, second := t.2.second, microsecond := by norm_num }⟩

theorem wholeSecond_lt_iff (t t' : Timestamp) :
    wholeSecond t < wholeSecond t' ↔ t.1.Before t'.1 False := by
  rw [← Subtype.coe_lt_coe, TimestampFields.lt_iff]
  simp [wholeSecond, TimestampFields.Before]

/-- Texts without the fraction are ordered as the whole seconds. -/
theorem sqliteText_false_lt_iff (t t' : Timestamp) :
    sqliteText false t < sqliteText false t' ↔ wholeSecond t < wholeSecond t' := by
  rw [sqliteText_lt_iff, wholeSecond_lt_iff]
  simp

/-- A text without the fraction comes before that of its own second with the fraction. -/
theorem sqliteText_mixed_lt_iff (t t' : Timestamp) :
    sqliteText true (wholeSecond t') < sqliteText false t ↔ wholeSecond t' < wholeSecond t := by
  rw [sqliteText_lt_iff, wholeSecond_lt_iff]
  simp [wholeSecond, TimestampFields.Before]

theorem sqliteText_mixed_ne (t t' : Timestamp) : sqliteText false t ≠ sqliteText true t' := by
  intro h
  have hlength := congrArg List.length h
  simp [sqliteText, dateText, clockText] at hlength

end StoredTexts

section Identifiers

/-- The identifier of a row. -/
abbrev RowId := Fin (16 ^ 32)

/-- Identifiers are compared as numbers; the value of 32 digits is one of them. -/
def rowId? (text : List Char) : Option RowId :=
  (uuidOf? text).bind fun n => if h : n < 16 ^ 32 then some ⟨n, h⟩ else none

theorem digitChar_ne (n : Nat) : Nat.digitChar (n % 16) ≠ '-' ∧ Nat.digitChar (n % 16) ≠ ':' := by
  have hdigit : ∀ d < 16, Nat.digitChar d ≠ '-' ∧ Nat.digitChar d ≠ ':' := by decide
  exact hdigit _ (Nat.mod_lt _ (by norm_num))

theorem ne_of_mem_hexDigits {width n : Nat} {c : Char} (h : c ∈ hexDigits width n) :
    c ≠ '-' ∧ c ≠ ':' := by
  induction width generalizing n with
  | zero => cases h
  | succ width ih =>
      rcases List.mem_append.mp h with h | h
      · exact ih h
      · rw [List.mem_singleton.mp h]
        exact digitChar_ne n

theorem groups_append (digits : List Char) :
    digits.take 8 ++ ((digits.drop 8).take 4 ++ ((digits.drop 12).take 4 ++
      ((digits.drop 16).take 4 ++ digits.drop 20))) = digits := by
  have hgroup (k : Nat) : (digits.drop k).take 4 ++ digits.drop (k + 4) = digits.drop k := by
    rw [← List.drop_drop]
    exact List.take_append_drop 4 (digits.drop k)
  rw [hgroup 16, hgroup 12, hgroup 8, List.take_append_drop]

/-- The digits of an identifier, between hyphens. -/
theorem filter_uuidText (n : Nat) :
    (uuidText n).toList.filter (· ≠ '-') = hexDigits 32 n := by
  have hkeep : (hexDigits 32 n).filter (· ≠ '-') = hexDigits 32 n :=
    List.filter_eq_self.mpr fun c hc => by simpa using (ne_of_mem_hexDigits hc).1
  have hhyphen : ['-'].filter (· ≠ '-') = [] := rfl
  rw [uuidText, String.toList_ofList]
  simp only [List.filter_append, hhyphen, List.nil_append, List.append_assoc]
  rw [← List.filter_append, ← List.filter_append, ← List.filter_append, ← List.filter_append,
    groups_append, hkeep]

theorem colon_not_mem_uuidText (n : Nat) : ':' ∉ (uuidText n).toList := by
  intro h
  have hmem : ':' ∈ hexDigits 32 n := by
    rw [← filter_uuidText, List.mem_filter]
    exact ⟨h, by decide⟩
  exact (ne_of_mem_hexDigits hmem).2 rfl

theorem rowId?_uuidText (id : RowId) : rowId? (uuidText id).toList = some id := by
  obtain ⟨n, hn⟩ := id
  have hvalue : digitsValue? 16 hexValue? (hexDigits 32 n) = some (n % 16 ^ 32) :=
    digitsValue?_digits (fun _ => rfl) (fun _ _ => rfl) hexValue?_digitChar 32 n
  rw [digitsValue?, Nat.mod_eq_of_lt hn] at hvalue
  have huuid : uuidOf? (uuidText n).toList = some n := by
    simp only [uuidOf?, filter_uuidText, length_hexDigits, if_true]
    exact hvalue
  rw [rowId?, huuid, Option.bind_some, dif_pos hn]

end Identifiers

section Cursors

/-- The position that a cursor names. -/
structure Cursor where
  createdAt : Timestamp
  zone : Zone
  id : RowId

/-- The `ValueError`s of decoding. -/
inductive CursorError
  | invalidCursorFormat
  | invalidIsoformat
  | badlyFormedUuid

/-- `text.rsplit(":", 1)`, when it has two parts. -/
def rsplitColon (text : List Char) : Option (List Char × List Char) :=
  let last := (text.reverse.takeWhile (· ≠ ':')).reverse
  if last.length < text.length then some (text.take (text.length - last.length - 1), last)
  else none

def encodeCursor (zone : Zone) (createdAt : Timestamp) (id : RowId) : String :=
  String.ofList (isoformat zone createdAt ++ ':' :: (uuidText id).toList)

/-- Decode a cursor, for how its parts are read and the error of a text without two parts. -/
def decodeCursorWith {E A B : Type} (invalid : E) (instant : List Char → Except E A)
    (rowId : List Char → Except E B) (cursor : String) : Except E (A × B) :=
  match rsplitColon cursor.toList with
  | none => .error invalid
  | some (createdAt, id) => do
      let createdAt ← instant createdAt
      let id ← rowId id
      return (createdAt, id)

def decodeCursor (cursor : String) : Except CursorError Cursor :=
  (decodeCursorWith .invalidCursorFormat
    (fun text => (fromisoformat text).elim (.error .invalidIsoformat) .ok)
    (fun text => (rowId? text).elim (.error .badlyFormedUuid) .ok) cursor).map
    fun ((createdAt, zone), id) => ⟨createdAt, zone, id⟩

theorem rsplitColon_append {before last : List Char} (h : ':' ∉ last) :
    rsplitColon (before ++ ':' :: last) = some (before, last) := by
  have hreverse : (before ++ ':' :: last).reverse = last.reverse ++ ':' :: before.reverse := by
    simp
  have hlast : ((before ++ ':' :: last).reverse.takeWhile (· ≠ ':')).reverse = last := by
    rw [hreverse, List.takeWhile_append_of_pos, List.takeWhile_cons_of_neg (by simp),
      List.append_nil, List.reverse_reverse]
    intro c hc
    have hne : c ≠ ':' := fun heq => h (heq ▸ List.mem_reverse.mp hc)
    simpa using hne
  have hlen : (before ++ ':' :: last).length - last.length - 1 = before.length := by
    simp only [List.length_append, List.length_cons]
    omega
  simp only [rsplitColon, hlast, hlen, List.take_left]
  exact if_pos (by simp only [List.length_append, List.length_cons]; omega)

/-- Decoding a cursor gives the position that was encoded. -/
theorem decodeCursor_encodeCursor (zone : Zone) (createdAt : Timestamp) (id : RowId) :
    decodeCursor (encodeCursor zone createdAt id) = .ok ⟨createdAt, zone, id⟩ := by
  rw [decodeCursor, decodeCursorWith, encodeCursor, String.toList_ofList,
    rsplitColon_append (colon_not_mem_uuidText id)]
  simp only [fromisoformat_isoformat, rowId?_uuidText, Option.elim_some]
  rfl

theorem encodeCursor_ne_empty (zone : Zone) (createdAt : Timestamp) (id : RowId) :
    encodeCursor zone createdAt id ≠ "" := by
  intro h
  have hlist := congrArg String.toList h
  simp [encodeCursor] at hlist

end Cursors

end Dalston.Gateway.Cursors
