import Mathlib

/-!
# Base64

Three bytes are written as four symbols, and a shorter end is padded. The decoder is the lenient
one: it passes over what is no symbol, and the padding that completes a group ends the text.
-/

namespace Dalston.Foundation.Base64

/-! ## Symbols -/

/-- The symbol of a number below 64. -/
def symbol (v : Nat) : Char :=
  if v < 26 then Char.ofNat (v + 65)
  else if v < 52 then Char.ofNat (v + 71)
  else if v < 62 then Char.ofNat (v - 4)
  else if v = 62 then '+'
  else '/'

def sextet? (c : Char) : Option Nat :=
  let n := c.toNat
  if 65 ≤ n ∧ n ≤ 90 then some (n - 65)
  else if 97 ≤ n ∧ n ≤ 122 then some (n - 71)
  else if 48 ≤ n ∧ n ≤ 57 then some (n + 4)
  else if n = 43 then some 62
  else if n = 47 then some 63
  else none

theorem sextet?_symbol : ∀ v < 64, sextet? (symbol v) = some v := by decide

theorem symbol_ne_pad : ∀ v < 64, symbol v ≠ '=' := by decide

/-- A symbol of the alphabet that is safe in an address. -/
def ofUrlsafe : Char → Char
  | '-' => '+'
  | '_' => '/'
  | c => c

/-! ## Encoding -/

/-- The numbers of the symbols for a group of bytes. -/
def sextets : List UInt8 → List Nat
  | [] => []
  | [a] => [a.toNat / 4, a.toNat % 4 * 16]
  | [a, b] => [a.toNat / 4, a.toNat % 4 * 16 + b.toNat / 16, b.toNat % 16 * 4]
  | a :: b :: c :: rest =>
    [a.toNat / 4, a.toNat % 4 * 16 + b.toNat / 16, b.toNat % 16 * 4 + c.toNat / 64,
      c.toNat % 64] ++ sextets rest

/-- The text without its padding. -/
def unpadded (data : List UInt8) : List Char := (sextets data).map symbol

/-- Padding up to a whole group. -/
def pad (text : List Char) : List Char :=
  let padding := 4 - text.length % 4
  if padding = 4 then text else text ++ List.replicate padding '='

def b64encode (data : List UInt8) : List Char := pad (unpadded data)

theorem sextets_lt (data : List UInt8) : ∀ v ∈ sextets data, v < 64 := by
  fun_induction sextets data with
  | case1 => simp
  | case2 a =>
      have ha := a.toNat_lt
      intro v hv
      simp only [List.mem_cons, List.not_mem_nil, or_false] at hv
      omega
  | case3 a b =>
      have ha := a.toNat_lt
      have hb := b.toNat_lt
      intro v hv
      simp only [List.mem_cons, List.not_mem_nil, or_false] at hv
      omega
  | case4 a b c rest ih =>
      have ha := a.toNat_lt
      have hb := b.toNat_lt
      have hc := c.toNat_lt
      intro v hv
      rcases List.mem_append.mp hv with hv | hv
      · simp only [List.mem_cons, List.not_mem_nil, or_false] at hv
        omega
      · exact ih v hv

/-! ## Decoding -/

inductive DecodeError
  | extraSymbol
  | padding
  | nonAscii
  deriving DecidableEq, Repr

/-- The decoder within a group: the symbols read of it, the bits left over from the last one, and
the padding read since. -/
def decodeFrom : Nat → Nat → Nat → List Char → Except DecodeError (List UInt8)
  | quad, _, _, [] =>
    if quad = 0 then .ok [] else if quad = 1 then .error .extraSymbol else .error .padding
  | quad, left, pads, c :: rest =>
    if c = '=' then
      if 2 ≤ quad then
        if 4 ≤ quad + (pads + 1) then .ok [] else decodeFrom quad left (pads + 1) rest
      else decodeFrom quad left pads rest
    else match sextet? c with
      | none => decodeFrom quad left pads rest
      | some v =>
        match quad with
        | 0 => decodeFrom 1 v 0 rest
        | 1 => (decodeFrom 2 (v % 16) 0 rest).map (UInt8.ofNat (left * 4 + v / 16) :: ·)
        | 2 => (decodeFrom 3 (v % 4) 0 rest).map (UInt8.ofNat (left * 16 + v / 4) :: ·)
        | _ => (decodeFrom 0 0 0 rest).map (UInt8.ofNat (left * 64 + v) :: ·)

/-- `b64decode` of a text, which has to be ASCII. -/
def b64decode (text : List Char) : Except DecodeError (List UInt8) :=
  if text.all (fun c => decide (c.toNat < 128)) then decodeFrom 0 0 0 text else .error .nonAscii

def urlsafeB64decode (text : List Char) : Except DecodeError (List UInt8) :=
  b64decode (text.map ofUrlsafe)

/-- What the decoder does with a symbol, whose bits complete a byte after the first of a group. -/
theorem decodeFrom_symbol {v : Nat} (hv : v < 64) (quad left pads : Nat) (rest : List Char) :
    decodeFrom quad left pads (symbol v :: rest) = match quad with
      | 0 => decodeFrom 1 v 0 rest
      | 1 => (decodeFrom 2 (v % 16) 0 rest).map (UInt8.ofNat (left * 4 + v / 16) :: ·)
      | 2 => (decodeFrom 3 (v % 4) 0 rest).map (UInt8.ofNat (left * 16 + v / 4) :: ·)
      | _ => (decodeFrom 0 0 0 rest).map (UInt8.ofNat (left * 64 + v) :: ·) := by
  simp only [decodeFrom, if_neg (symbol_ne_pad v hv), sextet?_symbol v hv]

/-- A full group of symbols in front is left as it is by the padding. -/
theorem pad_append {front : List Char} (h : front.length = 4) (rest : List Char) :
    pad (front ++ rest) = front ++ pad rest := by
  have hmod : (front ++ rest).length % 4 = rest.length % 4 := by
    rw [List.length_append, h, Nat.add_mod_left]
  rw [pad, pad, hmod]
  split_ifs
  · rfl
  · exact List.append_assoc front rest _

/-- The bytes of two symbols. -/
theorem ofNat_first (a b : UInt8) :
    UInt8.ofNat (a.toNat / 4 * 4 + (a.toNat % 4 * 16 + b.toNat / 16) / 16) = a := by
  have hb := b.toNat_lt
  have hvalue : a.toNat / 4 * 4 + (a.toNat % 4 * 16 + b.toNat / 16) / 16 = a.toNat := by omega
  rw [hvalue, UInt8.ofNat_toNat]

theorem ofNat_second (a b c : UInt8) :
    UInt8.ofNat ((a.toNat % 4 * 16 + b.toNat / 16) % 16 * 16 +
      (b.toNat % 16 * 4 + c.toNat / 64) / 4) = b := by
  have hb := b.toNat_lt
  have hc := c.toNat_lt
  have hvalue : (a.toNat % 4 * 16 + b.toNat / 16) % 16 * 16 +
      (b.toNat % 16 * 4 + c.toNat / 64) / 4 = b.toNat := by omega
  rw [hvalue, UInt8.ofNat_toNat]

theorem ofNat_third (b c : UInt8) :
    UInt8.ofNat ((b.toNat % 16 * 4 + c.toNat / 64) % 4 * 64 + c.toNat % 64) = c := by
  have hc := c.toNat_lt
  have hvalue : (b.toNat % 16 * 4 + c.toNat / 64) % 4 * 64 + c.toNat % 64 = c.toNat := by omega
  rw [hvalue, UInt8.ofNat_toNat]

/-- The decoder undoes the encoder. -/
theorem decodeFrom_b64encode (data : List UInt8) :
    decodeFrom 0 0 0 (b64encode data) = .ok data := by
  rw [b64encode, unpadded]
  have hlt := sextets_lt data
  fun_induction sextets data with
  | case1 => rfl
  | case2 a =>
      obtain ⟨h₀, h₁⟩ : a.toNat / 4 < 64 ∧ a.toNat % 4 * 16 < 64 := by simpa using hlt
      have hfirst := ofNat_first a 0
      have hpad : pad ([a.toNat / 4, a.toNat % 4 * 16].map symbol) =
          [symbol (a.toNat / 4), symbol (a.toNat % 4 * 16), '=', '='] := rfl
      simp only [UInt8.toNat_zero, Nat.zero_div, Nat.add_zero] at hfirst
      simp only [hpad, decodeFrom_symbol h₀, decodeFrom_symbol h₁, hfirst]
      rfl
  | case3 a b =>
      obtain ⟨h₀, h₁, h₂⟩ : a.toNat / 4 < 64 ∧ a.toNat % 4 * 16 + b.toNat / 16 < 64 ∧
          b.toNat % 16 * 4 < 64 := by simpa using hlt
      have hsecond := ofNat_second a b 0
      have hpad : pad ([a.toNat / 4, a.toNat % 4 * 16 + b.toNat / 16, b.toNat % 16 * 4].map
          symbol) = [symbol (a.toNat / 4), symbol (a.toNat % 4 * 16 + b.toNat / 16),
            symbol (b.toNat % 16 * 4), '='] := rfl
      simp only [UInt8.toNat_zero, Nat.zero_div, Nat.add_zero] at hsecond
      simp only [hpad, decodeFrom_symbol h₀, decodeFrom_symbol h₁, decodeFrom_symbol h₂, ofNat_first,
        hsecond]
      rfl
  | case4 a b c rest ih =>
      obtain ⟨hgroup, hrest⟩ := List.forall_mem_append.mp hlt
      obtain ⟨h₀, h₁, h₂, h₃⟩ : a.toNat / 4 < 64 ∧ a.toNat % 4 * 16 + b.toNat / 16 < 64 ∧
          b.toNat % 16 * 4 + c.toNat / 64 < 64 ∧ c.toNat % 64 < 64 := by simpa using hgroup
      rw [List.map_append, pad_append rfl]
      simp only [List.map_cons, List.map_nil, List.cons_append, List.nil_append,
        decodeFrom_symbol h₀, decodeFrom_symbol h₁, decodeFrom_symbol h₂, decodeFrom_symbol h₃,
        ofNat_first, ofNat_second, ofNat_third, ih hrest]
      rfl

theorem b64encode_ascii (data : List UInt8) : ∀ c ∈ b64encode data, c.toNat < 128 := by
  intro c hc
  have hsymbol : ∀ v < 64, (symbol v).toNat < 128 := by decide
  have hmem : c ∈ unpadded data ∨ c = '=' := by
    rw [b64encode, pad] at hc
    split_ifs at hc
    · exact .inl hc
    · exact (List.mem_append.mp hc).imp_right List.eq_of_mem_replicate
  rcases hmem with hmem | rfl
  · obtain ⟨v, hv, rfl⟩ := List.mem_map.mp hmem
    exact hsymbol v (sextets_lt data v hv)
  · decide

theorem b64decode_b64encode (data : List UInt8) : b64decode (b64encode data) = .ok data := by
  have hascii : (b64encode data).all (fun c => decide (c.toNat < 128)) = true :=
    List.all_eq_true.mpr fun c hc => decide_eq_true (b64encode_ascii data c hc)
  rw [b64decode, if_pos hascii, decodeFrom_b64encode]

end Dalston.Foundation.Base64
