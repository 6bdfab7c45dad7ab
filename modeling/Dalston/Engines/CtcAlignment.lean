import Dalston.Foundation.Rounds
import Dalston.Foundation.Spans
import Dalston.Foundation.Stairs

/-!
# Forced alignment of tokens to frames

A lattice scores how well each token fits each frame, a beam search walks back through it from
the last frame and the last token, and the frames of one token are merged into a segment.

## Implementation notes

A score is a rational, an infinity or not a number, and an emission has a score for each frame
and each entry of the vocabulary, read without a check of the index. The probability of a score
is a parameter. A loop may take a number of rounds.
-/

namespace Dalston.Engines.CtcAlignment

open Foundation

section Scores

/-- A 32-bit float without its rounding. -/
inductive Score
  | nan
  | negInf
  | fin (value : Rat)
  | posInf

namespace Score

def add : Score → Score → Score
  | nan, _ => nan
  | _, nan => nan
  | negInf, posInf => nan
  | posInf, negInf => nan
  | negInf, _ => negInf
  | _, negInf => negInf
  | posInf, _ => posInf
  | _, posInf => posInf
  | fin x, fin y => fin (x + y)

/-- `x < y`. -/
def lt : Score → Score → Bool
  | nan, _ => false
  | _, nan => false
  | negInf, negInf => false
  | negInf, _ => true
  | fin _, negInf => false
  | fin x, fin y => decide (x < y)
  | fin _, posInf => true
  | posInf, _ => false

/-- `torch.maximum`, which passes on what is not a number. -/
def maximum : Score → Score → Score
  | nan, _ => nan
  | _, nan => nan
  | x, y => if x.lt y then y else x

def isInf : Score → Bool
  | negInf => true
  | posInf => true
  | _ => false

end Score

/-- The scores of the model for the frames of an audio. -/
structure Emission where
  frames : Nat
  vocab : Nat
  score : Nat → Nat → Score
  frames_pos : 0 < frames

variable (emission : Emission) (tokens : List Int) (blankId : Nat)

/-- The best score of a frame for anything but the blank. -/
def maxNonBlank (t : Nat) : Score :=
  (List.range emission.vocab).foldl
    (fun best v => best.maximum (if v = blankId then .negInf else emission.score t v)) .negInf

def tokenEmission (t : Nat) (token : Int) : Score :=
  if token = -1 then maxNonBlank emission blankId t else emission.score t token.toNat

/-- `torch.cumsum` over the blanks of the frames from 1 on. -/
def cumulativeBlank : Nat → Score
  | 0 => .fin 0
  | t + 1 => if t = 0 then emission.score 1 blankId
    else (cumulativeBlank t).add (emission.score (t + 1) blankId)

/-- The first column, of which the last entries are infinite: all of them for one token. -/
def firstColumn (t : Nat) : Score :=
  if tokens.length = 1 ∨ emission.frames < t + tokens.length then .posInf
  else cumulativeBlank emission blankId t

def buildTrellis : Nat → Nat → Score
  | t, 0 => firstColumn emission tokens blankId t
  | 0, _ + 1 => .negInf
  | t + 1, n + 1 =>
    ((buildTrellis t (n + 1)).add (emission.score t blankId)).maximum
      ((buildTrellis t n).add (tokenEmission emission blankId t (tokens.getD (n + 1) 0)))

end Scores

/-- A point of the alignment path. -/
structure Point where
  tokenIndex : Nat
  timeIndex : Nat
  score : Rat

structure BeamState where
  tokenIndex : Nat
  timeIndex : Nat
  score : Score
  path : List Point

section Backtrack

variable (trellis : Nat → Nat → Score) (emission : Emission) (tokens : List Int) (blankId : Nat)
  (beamWidth : Nat) (exp : Score → Rat)

def initialBeam : BeamState where
  tokenIndex := tokens.length - 1
  timeIndex := emission.frames - 1
  score := trellis (emission.frames - 1) (tokens.length - 1)
  path := [⟨tokens.length - 1, emission.frames - 1,
    exp (emission.score (emission.frames - 1) blankId)⟩]

/-- A beam one frame back, at a token. -/
def BeamState.back (beam : BeamState) (j : Nat) (score p : Score) : BeamState where
  tokenIndex := j
  timeIndex := beam.timeIndex - 1
  score := score
  path := beam.path ++ [⟨j, beam.timeIndex - 1, exp p⟩]

/-- The beams that follow one: it stays at its token or comes from the one before. -/
def extendBeam (beam : BeamState) : List BeamState :=
  let t := beam.timeIndex
  let j := beam.tokenIndex
  if t = 0 then []
  else
    let pStay := emission.score (t - 1) blankId
    let pChange := tokenEmission emission blankId (t - 1) (tokens.getD j 0)
    let stayScore := trellis (t - 1) j
    let changeScore := if 0 < j then trellis (t - 1) (j - 1) else .negInf
    (if stayScore.isInf then [] else [beam.back exp j stayScore pStay]) ++
      (if 0 < j ∧ changeScore.isInf = false then [beam.back exp (j - 1) changeScore pChange]
      else [])

/-- `sorted(next_beams, key=lambda x: x.score, reverse=True)[:beam_width]`. -/
def bestBeams (beams : List BeamState) : List BeamState :=
  (beams.insertionSort fun a b => a.score.lt b.score = false).take beamWidth

/-- The loop until the best beam has come to the first token. -/
def beamLoop : Nat → List BeamState → Option (List BeamState)
  | 0, _ => none
  | _ + 1, [] => some []
  | rounds + 1, best :: rest =>
    if 0 < best.tokenIndex then
      beamLoop rounds (bestBeams beamWidth
        ((best :: rest).flatMap (extendBeam trellis emission tokens blankId exp)))
    else some (best :: rest)

/-- The frames before the beam stay at its token. -/
def fillFrames (beam : BeamState) : List Point :=
  beam.path ++ (List.range beam.timeIndex).reverse.map fun t =>
    ⟨beam.tokenIndex, t, exp (emission.score t blankId)⟩

def backtrack (rounds : Nat) : Option (Option (List Point)) :=
  (beamLoop trellis emission tokens blankId beamWidth exp rounds
      [initialBeam trellis emission tokens blankId exp]).map fun beams =>
    beams.head?.map fun best => (fillFrames emission blankId exp best).reverse

end Backtrack

section Merge

/-- The frames of one character. -/
structure CharSegment where
  label : Char
  start : Nat
  stop : Nat
  score : Rat

/-- The segment of a run of points, where the transcript has its token. -/
def segmentOfRun (transcript : List Char) (run : List Point) : Option CharSegment :=
  match run with
  | [] => none
  | first :: rest =>
    transcript[first.tokenIndex]?.map fun label =>
      { label := label
        start := first.timeIndex
        stop := (rest.getLastD first).timeIndex + 1
        score := ((first :: rest).map (·.score)).sum / (first :: rest).length }

/-- One segment for each run of points of one token. -/
def mergeRepeats (path : List Point) (transcript : List Char) : Option (List CharSegment) :=
  (path.splitBy fun p q => p.tokenIndex == q.tokenIndex).mapM (segmentOfRun transcript)

end Merge

section Path

variable {trellis : Nat → Nat → Score} {emission : Emission} {tokens : List Int} {blankId : Nat}
  {beamWidth : Nat} {exp : Score → Rat}

/-- The frames from the beam's to the last, with the token going up to the last one. -/
structure BeamState.OnPath (emission : Emission) (tokens : List Int) (beam : BeamState) :
    Prop where
  early : beam.timeIndex < emission.frames
  times : beam.path.reverse.map (·.timeIndex) =
    List.range' beam.timeIndex (emission.frames - beam.timeIndex)
  stairs : Stairs Point.tokenIndex beam.tokenIndex (tokens.length - 1) beam.path.reverse

/-- Every frame once and in order, with a token that goes from the first to the last by single
steps. -/
structure Aligned (emission : Emission) (tokens : List Int) (path : List Point) : Prop where
  times : path.map (·.timeIndex) = List.range emission.frames
  stairs : Stairs Point.tokenIndex 0 (tokens.length - 1) path

theorem initialBeam_onPath :
    (initialBeam trellis emission tokens blankId exp).OnPath emission tokens := by
  have hpos := emission.frames_pos
  have hone : emission.frames - (emission.frames - 1) = 1 := by omega
  exact {
    early := Nat.sub_lt hpos Nat.one_pos
    times := by simp [initialBeam, hone]
    stairs := ⟨by simp [initialBeam], by simp [initialBeam], by simp [initialBeam],
      by simp [initialBeam]⟩ }

/-- One frame back the token is the same or the one before. -/
theorem BeamState.OnPath.back {beam : BeamState} (h : beam.OnPath emission tokens)
    (ht : 0 < beam.timeIndex) {j : Nat} (hj : j ≤ beam.tokenIndex ∧ beam.tokenIndex ≤ j + 1)
    (score p : Score) : (beam.back exp j score p).OnPath emission tokens := by
  have hearly := h.early
  have hpath : (beam.back exp j score p).path.reverse =
      ⟨j, beam.timeIndex - 1, exp p⟩ :: beam.path.reverse := by
    simp [BeamState.back]
  have hlen : emission.frames - (beam.timeIndex - 1) = emission.frames - beam.timeIndex + 1 := by
    omega
  refine ⟨show beam.timeIndex - 1 < emission.frames by omega, ?_, ?_⟩
  · calc (beam.back exp j score p).path.reverse.map (·.timeIndex)
        = (beam.timeIndex - 1) :: beam.path.reverse.map (·.timeIndex) := by
          rw [hpath, List.map_cons]
      _ = (beam.timeIndex - 1) ::
            List.range' (beam.timeIndex - 1 + 1) (emission.frames - beam.timeIndex) := by
          rw [h.times, Nat.sub_add_cancel ht]
      _ = List.range' (beam.timeIndex - 1) (emission.frames - (beam.timeIndex - 1)) := by
          rw [hlen, List.range'_succ]
  · rw [hpath]
    exact h.stairs.cons (p := ⟨j, beam.timeIndex - 1, exp p⟩) hj

theorem extendBeam_onPath {beam next : BeamState} (h : beam.OnPath emission tokens)
    (hnext : next ∈ extendBeam trellis emission tokens blankId exp beam) :
    next.OnPath emission tokens ∧ next.timeIndex < beam.timeIndex := by
  by_cases ht : beam.timeIndex = 0
  · simp [extendBeam, ht] at hnext
  · have hpos := Nat.pos_of_ne_zero ht
    have hless : beam.timeIndex - 1 < beam.timeIndex := Nat.sub_lt hpos Nat.one_pos
    simp only [extendBeam, ht, if_false, List.mem_append, List.mem_ite_nil_left,
      List.mem_ite_nil_right, List.mem_singleton] at hnext
    rcases hnext with ⟨-, rfl⟩ | ⟨⟨hj, -⟩, rfl⟩
    · exact ⟨h.back hpos ⟨le_rfl, Nat.le_succ _⟩ _ _, hless⟩
    · exact ⟨h.back hpos ⟨Nat.sub_le _ _, by omega⟩ _ _, hless⟩

theorem mem_of_mem_bestBeams {beams : List BeamState} {beam : BeamState}
    (h : beam ∈ bestBeams beamWidth beams) : beam ∈ beams :=
  (List.mem_insertionSort _).mp (List.mem_of_mem_take h)

/-- Each round goes at least one frame back, so the loop ends. -/
theorem beamLoop_returns {t : Nat} {beams : List BeamState}
    (h : ∀ beam ∈ beams, beam.OnPath emission tokens ∧ beam.timeIndex < t) :
    ∃ final, Returns (fun rounds =>
        beamLoop trellis emission tokens blankId beamWidth exp rounds beams) final ∧
      ∀ best ∈ final.head?, best.OnPath emission tokens ∧ best.tokenIndex = 0 := by
  induction t generalizing beams with
  | zero =>
      have hnil : beams = [] :=
        List.eq_nil_iff_forall_not_mem.mpr fun beam hbeam => Nat.not_lt_zero _ (h beam hbeam).2
      subst hnil
      exact ⟨[], returns_succ.mp (returns_const []), by simp⟩
  | succ t ih =>
      cases beams with
      | nil => exact ⟨[], returns_succ.mp (returns_const []), by simp⟩
      | cons best rest =>
          obtain ⟨hbest, -⟩ := h best List.mem_cons_self
          rcases Nat.eq_zero_or_pos best.tokenIndex with hzero | hpos
          · refine ⟨best :: rest, returns_succ.mp ?_, ?_⟩
            · simpa [beamLoop, hzero] using returns_const (best :: rest)
            · rintro _ ⟨⟩
              exact ⟨hbest, hzero⟩
          · have hnext : ∀ beam ∈ bestBeams beamWidth ((best :: rest).flatMap
                (extendBeam trellis emission tokens blankId exp)),
                beam.OnPath emission tokens ∧ beam.timeIndex < t := by
              intro beam hbeam
              obtain ⟨prev, hprev, hbeam⟩ := List.mem_flatMap.mp (mem_of_mem_bestBeams hbeam)
              obtain ⟨hpath, htime⟩ := h prev hprev
              obtain ⟨hbeam, hback⟩ := extendBeam_onPath hpath hbeam
              exact ⟨hbeam, by omega⟩
            obtain ⟨final, hloop, hfinal⟩ := ih hnext
            refine ⟨final, returns_succ.mp ?_, hfinal⟩
            simpa [beamLoop, hpos] using hloop

/-- What is in front of the beam's path are the frames before it, at its token. -/
theorem BeamState.OnPath.aligned {beam : BeamState} (h : beam.OnPath emission tokens)
    (hzero : beam.tokenIndex = 0) :
    Aligned emission tokens (fillFrames emission blankId exp beam).reverse := by
  have hpath : (fillFrames emission blankId exp beam).reverse =
      (List.range beam.timeIndex).map (fun t =>
        (⟨0, t, exp (emission.score t blankId)⟩ : Point)) ++ beam.path.reverse := by
    simp [fillFrames, hzero]
  have hstairs := h.stairs
  rw [hzero] at hstairs
  rw [hpath]
  refine ⟨?_, hstairs.append_left fun p hp => ?_⟩
  · have hearly := h.early
    have htotal : beam.timeIndex + (emission.frames - beam.timeIndex) = emission.frames := by
      omega
    rw [List.map_append, h.times, List.map_map]
    calc List.map _ (List.range beam.timeIndex) ++
            List.range' beam.timeIndex (emission.frames - beam.timeIndex)
        = List.range' 0 beam.timeIndex ++
            List.range' (0 + beam.timeIndex) (emission.frames - beam.timeIndex) := by
          simp [Function.comp_def, List.range_eq_range']
      _ = List.range emission.frames := by
          rw [List.range'_append_1, htotal, List.range_eq_range']
  · obtain ⟨t, -, rfl⟩ := List.mem_map.mp hp
    rfl

/-- For every trellis there is no path or one that is aligned. -/
theorem backtrack_returns : ∃ found, Returns (fun rounds =>
      backtrack trellis emission tokens blankId beamWidth exp rounds) found ∧
    ∀ path ∈ found, Aligned emission tokens path := by
  have hinit : ∀ beam ∈ [initialBeam trellis emission tokens blankId exp],
      beam.OnPath emission tokens ∧ beam.timeIndex < emission.frames := by
    intro beam hbeam
    obtain rfl := List.mem_singleton.mp hbeam
    exact ⟨initialBeam_onPath, initialBeam_onPath.early⟩
  obtain ⟨final, hloop, hfinal⟩ : ∃ final, Returns (fun rounds =>
      beamLoop trellis emission tokens blankId beamWidth exp rounds
        [initialBeam trellis emission tokens blankId exp]) final ∧
      ∀ best ∈ final.head?, best.OnPath emission tokens ∧ best.tokenIndex = 0 :=
    beamLoop_returns hinit
  refine ⟨_, hloop.map _, fun path hpath => ?_⟩
  obtain ⟨best, hbest, rfl⟩ := Option.mem_map.mp hpath
  obtain ⟨honPath, hzero⟩ := hfinal best hbest
  exact honPath.aligned hzero

/-- A single token always has a path. -/
theorem backtrack_of_single (h : tokens.length = 1) : ∃ path, Returns (fun rounds =>
    backtrack trellis emission tokens blankId beamWidth exp rounds) (some path) := by
  let beam := initialBeam trellis emission tokens blankId exp
  have hzero : ¬ 0 < beam.tokenIndex := by
    rw [show beam.tokenIndex = tokens.length - 1 from rfl]
    omega
  have hloop : Returns (fun rounds =>
      beamLoop trellis emission tokens blankId beamWidth exp rounds [beam]) [beam] :=
    returns_succ.mp ((returns_const [beam]).congr fun rounds => if_neg hzero)
  exact ⟨(fillFrames emission blankId exp beam).reverse, hloop.map _⟩

end Path

section Segments

variable {emission : Emission} {tokens : List Int} {blankId beamWidth : Nat}
  {exp : Score → Rat} {transcript : List Char}

/-- The frame of the point is one of the segment's. -/
def CharSegment.Holds (seg : CharSegment) (p : Point) : Prop :=
  seg.start ≤ p.timeIndex ∧ p.timeIndex < seg.stop

/-- A run of consecutive frames makes a segment of its first frame up to the one after its
last. -/
theorem segmentOfRun_eq {run : List Point} {k a : Nat} {label : Char} (hne : run ≠ [])
    (hkey : ∀ p ∈ run, p.tokenIndex = k) (hlabel : transcript[k]? = some label)
    (htimes : run.map (·.timeIndex) = List.range' a run.length) :
    ∃ score, segmentOfRun transcript run = some ⟨label, a, a + run.length, score⟩ := by
  obtain ⟨p, rest, rfl⟩ := List.exists_cons_of_ne_nil hne
  have hp := hkey p List.mem_cons_self
  have hfirst : p.timeIndex = a := by
    simpa [List.range'_succ] using congrArg List.head? htimes
  have hlast : (rest.getLastD p).timeIndex = a + rest.length := by
    have hend := congrArg List.getLast? htimes
    rw [List.getLast?_map, List.getLast?_cons] at hend
    simpa [List.getLast?_range'] using hend
  refine ⟨((p :: rest).map (·.score)).sum / (p :: rest).length, ?_⟩
  simp only [segmentOfRun, hp, hlabel, Option.map_some, hfirst, hlast, List.length_cons,
    Nat.add_assoc]

/-- Runs for the characters in order, over consecutive frames, make a segment each. -/
theorem segments_of_runs {runs : List (List Point)} {first a n : Nat}
    (hruns : List.Forall₂ (fun run k => run ≠ [] ∧ ∀ p ∈ run, p.tokenIndex = k) runs
      (List.range' first (transcript.length - first)))
    (htimes : runs.flatten.map (·.timeIndex) = List.range' a n) :
    ∃ segs, runs.mapM (segmentOfRun transcript) = some segs ∧
      segs.map (·.label) = transcript.drop first ∧
      Tiles CharSegment.start CharSegment.stop a (a + n) segs ∧
      ∀ p ∈ runs.flatten, first ≤ p.tokenIndex ∧
        ∃ seg, segs[p.tokenIndex - first]? = some seg ∧ seg.Holds p := by
  induction runs generalizing first a n with
  | nil =>
      have hlen := hruns.length_eq
      have hn := congrArg List.length htimes
      simp only [List.length_nil, List.length_range', List.flatten_nil, List.map_nil] at hlen hn
      refine ⟨[], rfl, ?_, show a = a + n by omega, by simp⟩
      rw [List.drop_eq_nil_of_le (by omega), List.map_nil]
  | cons run rest ih =>
      have hlen := hruns.length_eq
      simp only [List.length_cons, List.length_range'] at hlen
      have hfirst : first < transcript.length := by omega
      have hsub : transcript.length - first = transcript.length - (first + 1) + 1 := by omega
      rw [hsub, List.range'_succ] at hruns
      obtain ⟨⟨hne, hkey⟩, hrest⟩ := List.forall₂_cons.mp hruns
      have hn := congrArg List.length htimes
      rw [List.flatten_cons, List.map_append] at htimes
      simp only [List.flatten_cons, List.length_map, List.length_append, List.length_range'] at hn
      have hcut : List.range' a n = List.range' a run.length ++
          List.range' (a + run.length) rest.flatten.length := by
        rw [List.range'_append_1, hn]
      rw [hcut] at htimes
      obtain ⟨hhead, htail⟩ := List.append_inj htimes (by simp)
      obtain ⟨score, hseg⟩ :=
        segmentOfRun_eq hne hkey (List.getElem?_eq_getElem hfirst) hhead
      obtain ⟨segs, hsegs, hlabels, htiles, hmarks⟩ := ih hrest htail
      have hpos := List.length_pos_of_ne_nil hne
      refine ⟨⟨transcript[first], a, a + run.length, score⟩ :: segs,
        by simp [List.mapM_cons, hseg, hsegs], ?_, ⟨rfl, Nat.lt_add_of_pos_right hpos, ?_⟩, ?_⟩
      · rw [List.map_cons, hlabels, ← List.drop_eq_getElem_cons]
      · rw [← hn, ← Nat.add_assoc]
        exact htiles
      · intro p hp
        rcases List.mem_append.mp (List.flatten_cons ▸ hp) with hp | hp
        · have htime : p.timeIndex ∈ List.range' a run.length :=
            hhead ▸ List.mem_map_of_mem hp
          obtain ⟨hlow, hhigh⟩ := List.mem_range'_1.mp htime
          exact ⟨(hkey p hp).ge, ⟨transcript[first], a, a + run.length, score⟩,
            by simp [hkey p hp], hlow, hhigh⟩
        · obtain ⟨hlater, seg, hget, hholds⟩ := hmarks p hp
          have hindex : p.tokenIndex - first = p.tokenIndex - (first + 1) + 1 := by omega
          exact ⟨by omega, seg, by rw [hindex, List.getElem?_cons_succ, hget], hholds⟩

/-- An aligned path has a segment for each character, in order, with the frames of its token,
and the segments tile the frames. -/
theorem Aligned.mergeRepeats {path : List Point} (h : Aligned emission tokens path)
    (hlen : transcript.length = tokens.length) (hne : tokens ≠ []) :
    ∃ segs, mergeRepeats path transcript = some segs ∧ segs.map (·.label) = transcript ∧
      Tiles CharSegment.start CharSegment.stop 0 emission.frames segs ∧
      ∀ p ∈ path, ∃ seg, segs[p.tokenIndex]? = some seg ∧ seg.Holds p := by
  have hruns := h.stairs.runs
  have hpos := List.length_pos_of_ne_nil hne
  have hcount : tokens.length - 1 + 1 - 0 = transcript.length - 0 := by omega
  rw [hcount] at hruns
  have hflat := List.flatten_splitBy (fun p q : Point => p.tokenIndex == q.tokenIndex) path
  have htimes : (path.splitBy fun p q => p.tokenIndex == q.tokenIndex).flatten.map
      (·.timeIndex) = List.range' 0 emission.frames := by
    rw [hflat, h.times, List.range_eq_range']
  obtain ⟨segs, hsegs, hlabels, htiles, hmarks⟩ := segments_of_runs hruns htimes
  rw [hflat] at hmarks
  exact ⟨segs, hsegs, by simpa using hlabels, by simpa using htiles,
    fun p hp => (hmarks p hp).2⟩

/-- The trellis gives no path or one through every frame in order, with the tokens from the
first to the last by single steps, and the path has a segment for each token. -/
theorem backtrack_mergeRepeats (hne : tokens ≠ []) (hlen : transcript.length = tokens.length) :
    ∃ found, Returns (fun rounds => backtrack (buildTrellis emission tokens blankId) emission
        tokens blankId beamWidth exp rounds) found ∧
      ∀ path ∈ found, path.map (·.timeIndex) = List.range emission.frames ∧
        Stairs Point.tokenIndex 0 (tokens.length - 1) path ∧
        ∃ segs, CtcAlignment.mergeRepeats path transcript = some segs ∧
          segs.length = tokens.length ∧ segs.map (·.label) = transcript ∧
          Tiles CharSegment.start CharSegment.stop 0 emission.frames segs ∧
          ∀ p ∈ path, ∃ seg, segs[p.tokenIndex]? = some seg ∧ seg.Holds p := by
  obtain ⟨found, hfound, haligned⟩ := backtrack_returns
  refine ⟨found, hfound, fun path hpath => ?_⟩
  obtain ⟨segs, hsegs, hlabels, htiles, hmarks⟩ := (haligned path hpath).mergeRepeats hlen hne
  have hcount : segs.length = tokens.length := by
    rw [← hlen, ← hlabels, List.length_map]
  exact ⟨(haligned path hpath).times, (haligned path hpath).stairs, segs, hsegs, hcount,
    hlabels, htiles, hmarks⟩

/-- Three frames of a model with a blank and two characters. -/
def threeFrames : Emission where
  frames := 3
  vocab := 3
  score := fun t v => if t = v then .fin (-1) else .fin (-2)
  frames_pos := Nat.succ_pos 2

theorem two_characters : ∃ found, Returns (fun rounds =>
        backtrack (buildTrellis threeFrames [1, 2] 0) threeFrames [1, 2] 0 2
          (fun _ => 1 / 2) rounds) found ∧
      ∀ path ∈ found, path.map (·.timeIndex) = List.range threeFrames.frames ∧
        Stairs Point.tokenIndex 0 1 path ∧
        ∃ segs, CtcAlignment.mergeRepeats path ['a', 'b'] = some segs ∧
          segs.length = 2 ∧ segs.map (·.label) = ['a', 'b'] ∧
          Tiles CharSegment.start CharSegment.stop 0 threeFrames.frames segs ∧
          ∀ p ∈ path, ∃ seg, segs[p.tokenIndex]? = some seg ∧ seg.Holds p :=
  backtrack_mergeRepeats (by decide) (by decide)

end Segments

end Dalston.Engines.CtcAlignment
