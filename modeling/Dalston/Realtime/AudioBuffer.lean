import Dalston.Foundation.Blocks

/-!
# The audio buffer of a session

A session decodes each binary message to samples, resamples them to the rate of the model and
appends them to a buffer. Chunks of a fixed number of samples leave the buffer at its front,
and a flush empties it.

## Implementation notes

A sample that is decoded from an integer is an exact level, and a float stays the bits it is.
The resampler is a parameter; its quality is a part of it. The metrics are left out.
-/

namespace Dalston.Realtime.Audio

open Foundation

abbrev Bytes := List UInt8

section Decoding

inductive Encoding
  | pcmS16le
  | pcmF32le
  | mulaw
  | alaw

inductive Sample
  | level (value : Rat)
  | float (bits : Nat)
  deriving DecidableEq

def Encoding.ofName : String → Except String Encoding
  | "pcm_s16le" => .ok .pcmS16le
  | "pcm_f32le" => .ok .pcmF32le
  | "mulaw" => .ok .mulaw
  | "alaw" => .ok .alaw
  | encoding => .error (s!"Unsupported encoding: {encoding}. " ++
      "Supported: ['pcm_s16le', 'pcm_f32le', 'mulaw', 'alaw']")

def littleEndian (item : Bytes) : Nat := item.foldr (fun byte value => byte.toNat + 256 * value) 0

/-- A 16-bit number in two's complement. -/
def signed16 (value : Nat) : Int := if value < 32768 then value else value - 65536

/-- The linear value of a μ-law byte. -/
def ulaw2lin (byte : Nat) : Int :=
  let u := 255 - byte
  let t : Int := (u % 16 * 8 + 132) * 2 ^ (u / 16 % 8)
  if u / 128 = 1 then 132 - t else t - 132

/-- The linear value of an A-law byte. -/
def alaw2lin (byte : Nat) : Int :=
  let a := byte ^^^ 85
  let mantissa : Int := a % 16 * 16
  let t : Int := match a / 16 % 8 with
    | 0 => mantissa + 8
    | segment + 1 => (mantissa + 264) * 2 ^ segment
  if a / 128 = 1 then t else -t

/-- The bytes of one sample. -/
def Encoding.itemsize : Encoding → Nat
  | .pcmS16le => 2
  | .pcmF32le => 4
  | .mulaw => 1
  | .alaw => 1

def Encoding.decodeItem (encoding : Encoding) (item : Bytes) : Sample :=
  match encoding with
  | .pcmS16le => .level (signed16 (littleEndian item) / 32768)
  | .pcmF32le => .float (littleEndian item)
  | .mulaw => .level (ulaw2lin (littleEndian item) / 32768)
  | .alaw => .level (alaw2lin (littleEndian item) / 32768)

/-- `np.frombuffer`: the data as items of one size. -/
def frombuffer (itemsize : Nat) (data : Bytes) : Except String (List Bytes) :=
  if itemsize ∣ data.length then .ok (blocks itemsize data)
  else .error "buffer size must be a multiple of element size"

def decodeAudio (encoding : Encoding) (data : Bytes) : Except String (List Sample) :=
  (frombuffer encoding.itemsize data).map (List.map encoding.decodeItem)

end Decoding

structure AudioBuffer where
  sampleRate : Nat
  clientSampleRate : Nat
  encoding : Encoding
  channels : Nat
  chunkDurationMs : Nat
  chunkSamples : Nat
  buffer : List Sample := []
  totalSamples : Nat := 0

namespace AudioBuffer

def create (sampleRate : Nat) (encoding : String) (clientSampleRate : Option Nat)
    (channels : Nat) (chunkDurationMs : Nat) : Except String AudioBuffer := do
  let encoding ← Encoding.ofName encoding
  let clientRate := clientSampleRate.getD 0
  return {
    sampleRate
    clientSampleRate := if clientRate = 0 then sampleRate else clientRate
    encoding
    channels := max 1 channels
    chunkDurationMs
    chunkSamples := sampleRate * chunkDurationMs / 1000 * max 1 channels }

/-- Samples, and the rates they come with and shall have. -/
abbrev Resample := List Sample → Nat → Nat → List Sample

variable (resample : Resample)

def resampleIfNeeded (b : AudioBuffer) (samples : List Sample) : List Sample :=
  if b.clientSampleRate = b.sampleRate ∨ samples.length = 0 then samples
  else resample samples b.clientSampleRate b.sampleRate

def add (b : AudioBuffer) (data : Bytes) : Except String AudioBuffer := do
  let samples ← decodeAudio b.encoding data
  let samples := b.resampleIfNeeded resample samples
  return { b with
    buffer := b.buffer ++ samples
    totalSamples := b.totalSamples + samples.length }

def getChunk (b : AudioBuffer) : AudioBuffer × Option (List Sample) :=
  if b.buffer.length < b.chunkSamples then (b, none)
  else ({ b with buffer := b.buffer.drop b.chunkSamples }, some (b.buffer.take b.chunkSamples))

def flush (b : AudioBuffer) : AudioBuffer × Option (List Sample) :=
  if b.buffer = [] then (b, none) else ({ b with buffer := [] }, some b.buffer)

end AudioBuffer

/-- What a session does with its buffer until the flush. -/
inductive Op
  | add (data : Bytes)
  | getChunk

/-- The messages of a run, in order. -/
def messages (ops : List Op) : List Bytes :=
  ops.filterMap fun
    | .add data => some data
    | .getChunk => none

/-- The buffer after a run, and the chunks that were taken from it. -/
def run (resample : AudioBuffer.Resample) (b : AudioBuffer) :
    List Op → Except String (AudioBuffer × List (List Sample))
  | [] => .ok (b, [])
  | .add data :: ops => do
    let b ← b.add resample data
    run resample b ops
  | .getChunk :: ops => do
    let (b, chunk) := b.getChunk
    let (b, chunks) ← run resample b ops
    return (b, chunk.toList ++ chunks)

/-- The chunks of a run and what the flush returns. -/
def delivered (result : AudioBuffer × List (List Sample)) : List (List Sample) :=
  result.2 ++ result.1.flush.2.toList

/-- The last call found less than a chunk in the buffer. -/
def Drained (result : AudioBuffer × List (List Sample)) : Prop := result.1.getChunk.2 = none

section Stream

variable {resample : AudioBuffer.Resample} {b : AudioBuffer}

theorem Encoding.itemsize_pos (encoding : Encoding) : 0 < encoding.itemsize := by
  cases encoding <;> decide

/-- Every message is cut between two samples. -/
def Whole (encoding : Encoding) (parts : List Bytes) : Prop :=
  ∀ m ∈ parts, encoding.itemsize ∣ m.length

instance (encoding : Encoding) (parts : List Bytes) : Decidable (Whole encoding parts) :=
  inferInstanceAs (Decidable (∀ m ∈ parts, encoding.itemsize ∣ m.length))

/-- The samples of a piece of the stream. -/
def Encoding.samples (encoding : Encoding) (data : Bytes) : List Sample :=
  (blocks encoding.itemsize data).map encoding.decodeItem

/-- The samples that come into the buffer with the messages. -/
def AudioBuffer.arrived (resample : AudioBuffer.Resample) (b : AudioBuffer)
    (parts : List Bytes) : List Sample :=
  parts.flatMap fun m => b.resampleIfNeeded resample (b.encoding.samples m)

/-- A buffer that differs from another one only in what it has been given. -/
def AudioBuffer.SameFormat (b b' : AudioBuffer) : Prop :=
  b'.encoding = b.encoding ∧ b'.sampleRate = b.sampleRate ∧
    b'.clientSampleRate = b.clientSampleRate ∧ b'.chunkSamples = b.chunkSamples

theorem AudioBuffer.SameFormat.trans {b b' b'' : AudioBuffer} (h : b.SameFormat b')
    (h' : b'.SameFormat b'') : b.SameFormat b'' :=
  ⟨h'.1.trans h.1, h'.2.1.trans h.2.1, h'.2.2.1.trans h.2.2.1, h'.2.2.2.trans h.2.2.2⟩

theorem AudioBuffer.SameFormat.arrived {b b' : AudioBuffer} (h : b.SameFormat b')
    (parts : List Bytes) : b'.arrived resample parts = b.arrived resample parts := by
  obtain ⟨hencoding, hrate, hclient, -⟩ := h
  simp only [AudioBuffer.arrived, AudioBuffer.resampleIfNeeded, hencoding, hrate, hclient]

theorem decodeAudio_ok {encoding : Encoding} {data : Bytes}
    (h : encoding.itemsize ∣ data.length) :
    decodeAudio encoding data = .ok (encoding.samples data) := by
  rw [decodeAudio, frombuffer, if_pos h]
  rfl

theorem AudioBuffer.add_ok (resample : AudioBuffer.Resample) {data : Bytes}
    (h : b.encoding.itemsize ∣ data.length) :
    ∃ b', b.add resample data = .ok b' ∧ b.SameFormat b' ∧
      b'.buffer = b.buffer ++ b.resampleIfNeeded resample (b.encoding.samples data) := by
  rw [AudioBuffer.add, decodeAudio_ok h]
  exact ⟨_, rfl, ⟨rfl, rfl, rfl, rfl⟩, rfl⟩

theorem AudioBuffer.getChunk_spec (b : AudioBuffer) :
    b.SameFormat b.getChunk.1 ∧
      b.getChunk.2.toList.flatten ++ b.getChunk.1.buffer = b.buffer ∧
      ∀ c ∈ b.getChunk.2.toList, c.length = b.chunkSamples := by
  rw [AudioBuffer.getChunk]
  split_ifs with h
  · exact ⟨⟨rfl, rfl, rfl, rfl⟩, rfl, by simp⟩
  · refine ⟨⟨rfl, rfl, rfl, rfl⟩, by simp, ?_⟩
    intro c hc
    obtain rfl : c = b.buffer.take b.chunkSamples := by simpa using hc
    rw [List.length_take]
    omega

/-- A run over whole samples ends well. What was taken, followed by what is still there, is
what was there and what has arrived, and every chunk is full. -/
theorem run_spec (resample : AudioBuffer.Resample) {ops : List Op}
    (h : Whole b.encoding (messages ops)) :
    ∃ result, run resample b ops = .ok result ∧ b.SameFormat result.1 ∧
      result.2.flatten ++ result.1.buffer = b.buffer ++ b.arrived resample (messages ops) ∧
      ∀ c ∈ result.2, c.length = b.chunkSamples := by
  induction ops generalizing b with
  | nil => exact ⟨_, rfl, ⟨rfl, rfl, rfl, rfl⟩, by simp [messages, AudioBuffer.arrived], by simp⟩
  | cons op ops ih =>
      cases op with
      | add data =>
          obtain ⟨hdata, hrest⟩ := List.forall_mem_cons.mp h
          obtain ⟨b', hadd, hformat, hbuffer⟩ := AudioBuffer.add_ok resample hdata
          obtain ⟨result, hrun, hformat', hstream, hfull⟩ :=
            ih (b := b') (by rw [hformat.1]; exact hrest)
          refine ⟨result, ?_, ?_, ?_, ?_⟩
          · rw [run, hadd]
            exact hrun
          · exact hformat.trans hformat'
          · rw [hstream, hformat.arrived, hbuffer, List.append_assoc]
            rfl
          · rw [← hformat.2.2.2]
            exact hfull
      | getChunk =>
          obtain ⟨hformat, htaken, hchunk⟩ := b.getChunk_spec
          obtain ⟨result, hrun, hformat', hstream, hfull⟩ :=
            ih (b := b.getChunk.1) (by rw [hformat.1]; exact h)
          refine ⟨(result.1, b.getChunk.2.toList ++ result.2), ?_, ?_, ?_, ?_⟩
          · calc run resample b (.getChunk :: ops)
                = run resample b.getChunk.1 ops >>= fun r =>
                    .ok (r.1, b.getChunk.2.toList ++ r.2) := rfl
              _ = .ok (result.1, b.getChunk.2.toList ++ result.2) := by rw [hrun]; rfl
          · exact hformat.trans hformat'
          · rw [List.flatten_append, List.append_assoc, hstream, hformat.arrived,
              ← List.append_assoc, htaken]
            rfl
          · intro c hc
            rcases List.mem_append.mp hc with hc | hc
            · exact hchunk c hc
            · rw [hfull c hc, hformat.2.2.2]

/-- What the flush adds is what is still in the buffer. -/
theorem flatten_delivered (result : AudioBuffer × List (List Sample)) :
    (delivered result).flatten = result.2.flatten ++ result.1.buffer := by
  rw [delivered, AudioBuffer.flush, List.flatten_append]
  split_ifs with h
  · simp [h]
  · simp

/-- A drained run has delivered the blocks of its stream, and then the rest if there is one. -/
theorem delivered_of_drained {result : AudioBuffer × List (List Sample)} {stream : List Sample}
    (hdrained : Drained result) (hstream : result.2.flatten ++ result.1.buffer = stream)
    (hfull : ∀ c ∈ result.2, c.length = result.1.chunkSamples) :
    delivered result = blocks result.1.chunkSamples stream ++
      if leftover result.1.chunkSamples stream = [] then []
      else [leftover result.1.chunkSamples stream] := by
  have hshort : result.1.buffer.length < result.1.chunkSamples := by
    by_contra hlong
    rw [Drained, AudioBuffer.getChunk, if_neg hlong] at hdrained
    cases hdrained
  obtain ⟨hblocks, hrest⟩ := blocks_flatten_append hfull hshort
  rw [← hstream, hblocks, hrest, delivered, AudioBuffer.flush]
  split_ifs with h <;> rfl

/-- With equal rates the samples that arrive are those of the whole stream. -/
theorem arrived_of_eq (hrates : b.clientSampleRate = b.sampleRate) {parts : List Bytes}
    (h : Whole b.encoding parts) : b.arrived resample parts = b.encoding.samples parts.flatten := by
  have hplain : ∀ samples, b.resampleIfNeeded resample samples = samples := fun samples =>
    if_pos (Or.inl hrates)
  simp only [AudioBuffer.arrived, hplain, Encoding.samples]
  rw [blocks_flatten b.encoding.itemsize_pos h, List.map_flatMap]

/-- The samples of a stream of bytes. -/
def received (encoding : Encoding) (parts : List Bytes) : Nat :=
  parts.flatten.length / encoding.itemsize

/-- The resampler answers with the ratio of the samples, rounded. -/
def RoundsRatio (resample : AudioBuffer.Resample) (clientRate rate : Nat) : Prop :=
  ∀ samples : List Sample,
    |((resample samples clientRate rate).length : Rat) - samples.length * rate / clientRate| ≤ 1 / 2

/-- The messages that hold a sample. -/
def nonempty (parts : List Bytes) : List Bytes := parts.filter fun m => !m.isEmpty

/-- Every message that is not empty adds the error of one rounding at most. -/
theorem length_arrived (hrates : b.clientSampleRate ≠ b.sampleRate)
    (hround : RoundsRatio resample b.clientSampleRate b.sampleRate) {parts : List Bytes}
    (h : Whole b.encoding parts) :
    |((b.arrived resample parts).length : Rat) -
        received b.encoding parts * b.sampleRate / b.clientSampleRate| ≤
      (nonempty parts).length / 2 := by
  induction parts with
  | nil => simp [AudioBuffer.arrived, received, nonempty]
  | cons m parts ih =>
      obtain ⟨hm, hparts⟩ := List.forall_mem_cons.mp h
      have hrest := ih hparts
      have hcount : received b.encoding (m :: parts) =
          m.length / b.encoding.itemsize + received b.encoding parts := by
        rw [received, List.flatten_cons, List.length_append, Nat.add_div_of_dvd_right hm, received]
      have hlen : (b.arrived resample (m :: parts)).length =
          (b.resampleIfNeeded resample (b.encoding.samples m)).length +
            (b.arrived resample parts).length := by
        rw [AudioBuffer.arrived, List.flatMap_cons, List.length_append]
        rfl
      have hsamples : (b.encoding.samples m).length = m.length / b.encoding.itemsize := by
        rw [Encoding.samples, List.length_map, length_blocks]
      rw [hcount, hlen]
      by_cases hempty : m = []
      · subst hempty
        have hnone : b.encoding.samples [] = [] := by
          rw [← List.length_eq_zero_iff, hsamples, List.length_nil, Nat.zero_div]
        have hsame : nonempty ([] :: parts) = nonempty parts := rfl
        simpa [hnone, AudioBuffer.resampleIfNeeded, hsame] using hrest
      · have hone : (nonempty (m :: parts)).length = (nonempty parts).length + 1 := by
          rw [nonempty, List.filter_cons_of_pos (by simpa using hempty), List.length_cons]
          rfl
        have hfirst : |((b.resampleIfNeeded resample (b.encoding.samples m)).length : Rat) -
            (m.length / b.encoding.itemsize : Nat) * b.sampleRate / b.clientSampleRate| ≤
              1 / 2 := by
          rw [← hsamples, AudioBuffer.resampleIfNeeded]
          split_ifs with hskip
          · have hzero := hskip.resolve_left hrates
            norm_num [hzero]
          · exact hround _
        rw [hone]
        generalize m.length / b.encoding.itemsize = k at hfirst ⊢
        calc |((_ + _ : Nat) : Rat) -
              ((k + received b.encoding parts : Nat) : Rat) * b.sampleRate / b.clientSampleRate|
            = |(((b.resampleIfNeeded resample (b.encoding.samples m)).length : Rat) -
                  k * b.sampleRate / b.clientSampleRate) +
                ((b.arrived resample parts).length -
                  received b.encoding parts * b.sampleRate / b.clientSampleRate)| := by
              push_cast
              congr 1
              ring
          _ ≤ 1 / 2 + (nonempty parts).length / 2 :=
              (abs_add_le _ _).trans (add_le_add hfirst hrest)
          _ = ((nonempty parts).length + 1 : Nat) / 2 := by
              push_cast
              ring

end Stream

/-- Two cuts of one stream between its samples, with chunks taken at any moments. With equal
rates a session that drains the buffer gets the same chunks from both. Otherwise each message
is resampled by itself, and the total is off by at most half a sample for each of them. -/
theorem chunks_of_cuts (resample : AudioBuffer.Resample) (b : AudioBuffer)
    (hround : b.clientSampleRate ≠ b.sampleRate →
      RoundsRatio resample b.clientSampleRate b.sampleRate) (ops ops' : List Op)
    (h : Whole b.encoding (messages ops)) (h' : Whole b.encoding (messages ops'))
    (hsame : (messages ops).flatten = (messages ops').flatten) :
    ∃ result result', run resample b ops = .ok result ∧ run resample b ops' = .ok result' ∧
      (b.clientSampleRate = b.sampleRate → Drained result → Drained result' →
        delivered result = delivered result') ∧
      (b.clientSampleRate ≠ b.sampleRate →
        |((delivered result).flatten.length : Rat) - (b.buffer.length +
            received b.encoding (messages ops) * b.sampleRate / b.clientSampleRate)| ≤
          (nonempty (messages ops)).length / 2) := by
  obtain ⟨result, hrun, hformat, hstream, hfull⟩ := run_spec resample h
  obtain ⟨result', hrun', hformat', hstream', hfull'⟩ := run_spec resample h'
  refine ⟨result, result', hrun, hrun', ?_, ?_⟩
  · intro hrates hdrained hdrained'
    rw [arrived_of_eq hrates h] at hstream
    rw [arrived_of_eq hrates h', ← hsame] at hstream'
    rw [← hformat.2.2.2] at hfull
    rw [← hformat'.2.2.2] at hfull'
    rw [delivered_of_drained hdrained hstream hfull,
      delivered_of_drained hdrained' hstream' hfull', hformat.2.2.2, hformat'.2.2.2]
  · intro hrates
    have hbound := length_arrived hrates (hround hrates) h
    rw [flatten_delivered, hstream, List.length_append]
    push_cast
    rwa [add_sub_add_left_eq_sub]

/-- A resampler that repeats or drops samples. -/
def nearestSample : AudioBuffer.Resample := fun samples clientRate rate =>
  (List.range (round (samples.length * rate / clientRate : Rat)).toNat).map fun i =>
    samples.getD (i * clientRate / rate) (.level 0)

theorem nearestSample_rounds (clientRate rate : Nat) :
    RoundsRatio nearestSample clientRate rate := by
  intro samples
  have hpos : (0 : Rat) ≤ samples.length * rate / clientRate := by positivity
  have hround : 0 ≤ round (samples.length * rate / clientRate : Rat) := by
    rw [round_eq]
    exact Int.floor_nonneg.mpr (by linarith)
  have hlen : ((nearestSample samples clientRate rate).length : Rat) =
      round (samples.length * rate / clientRate : Rat) := by
    rw [nearestSample, List.length_map, List.length_range]
    exact_mod_cast Int.toNat_of_nonneg hround
  rw [hlen, abs_sub_comm]
  exact abs_sub_round _

/-- A telephone client of a model at 16 kHz. -/
def wideband : AudioBuffer where
  sampleRate := 16000
  clientSampleRate := 48000
  encoding := .mulaw
  channels := 1
  chunkDurationMs := 100
  chunkSamples := 1600

theorem three_samples_in_three_messages :
    ∃ result result', run nearestSample wideband [.add [255], .add [255], .add [255]] = .ok result ∧
      run nearestSample wideband [.add [255, 255, 255], .getChunk] = .ok result' ∧
      (wideband.clientSampleRate = wideband.sampleRate → Drained result → Drained result' →
        delivered result = delivered result') ∧
      (wideband.clientSampleRate ≠ wideband.sampleRate →
        |((delivered result).flatten.length : Rat) - (wideband.buffer.length +
            received .mulaw [[255], [255], [255]] * wideband.sampleRate /
              wideband.clientSampleRate)| ≤
          (nonempty [[255], [255], [255]]).length / 2) :=
  chunks_of_cuts nearestSample wideband (fun _ => nearestSample_rounds _ _)
    [.add [255], .add [255], .add [255]] [.add [255, 255, 255], .getChunk] (by decide) (by decide)
    rfl

/-- Three messages of one sample each deliver nothing, one message of the three delivers the
one sample that the ratio asks for. -/
theorem single_samples_get_lost :
    AudioBuffer.create 16000 "mulaw" (some 48000) 1 100 = .ok wideband ∧
      RoundsRatio nearestSample wideband.clientSampleRate wideband.sampleRate ∧
      (run nearestSample wideband [.add [255], .getChunk, .add [255], .getChunk, .add [255],
        .getChunk]).map delivered = .ok [] ∧
      (run nearestSample wideband [.add [255, 255, 255], .getChunk]).map delivered =
        .ok [[.level 0]] ∧
      (3 : Rat) * wideband.sampleRate / wideband.clientSampleRate = 1 := by
  refine ⟨rfl, nearestSample_rounds _ _, ?_, ?_, ?_⟩
  · decide +kernel
  · decide +kernel
  · norm_num [wideband]

end Dalston.Realtime.Audio
