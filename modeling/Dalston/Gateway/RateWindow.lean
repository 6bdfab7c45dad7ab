import Dalston.Foundation.SortedSet
import Dalston.Model.Json

/-!
# The request-rate window

`check_request_rate` runs one script on the sorted set of a tenant's requests:
it drops the requests that have left the window, counts the others and, below
the limit, adds the new one. The script runs atomically, and so the calls of any
number of gateways form one sequence.

## Implementation notes

A clock reading is a rational number of seconds; the key of a tenant expires by
the same clock. `tostring` prints a number with 14 significant digits. A member
is represented by the decimal that its text denotes.
-/

namespace Dalston.Gateway

open Foundation Model

/-- `tostring`, which formats with `%.14g`. -/
def tostring (x : Rat) : Rat :=
  if x = 0 then 0
  else
    let digit := (10 : Rat) ^ (Int.log 10 |x| - 13)
    roundHalfEven (x / digit) * digit

/-- The key of a tenant with the time at which it expires. -/
structure RequestWindow where
  requests : SortedSet Rat Rat
  expireAt : Option Rat

namespace RequestWindow

def absent : RequestWindow := ⟨.empty, none⟩

def expired (window : RequestWindow) (now : Rat) : Bool :=
  match window.expireAt with
  | some deadline => decide (deadline < now)
  | none => false

/-- The key without the entries outside the window. -/
def current (window : RequestWindow) (now windowStart : Rat) : RequestWindow :=
  if window.expired now then absent
  else { window with requests := window.requests.zremrangebyscore 0 windowStart }

end RequestWindow

structure RateLimitResult where
  allowed : Bool
  limit : Nat
  remaining : Nat
  resetSeconds : Option Nat

/-- What the script returns: allowed, the current count, remaining. -/
structure ScriptReply where
  allowed : Bool
  currentCount : Nat
  remaining : Nat

def slidingWindowScript (now windowStart : Rat) (limit windowSeconds : Nat)
    (key : RequestWindow) : ScriptReply × RequestWindow :=
  let window := key.current now windowStart
  let currentCount := window.requests.zcard
  if currentCount < limit then
    (⟨true, currentCount + 1, limit - currentCount - 1⟩,
      ⟨window.requests.zadd (tostring now) now, some (now + (windowSeconds + 1 : Nat))⟩)
  else (⟨false, currentCount, 0⟩, window)

def WINDOW_SECONDS : Nat := 60

section Calls

variable {Tenant : Type} [DecidableEq Tenant]

structure RateCall (Tenant : Type) where
  tenant : Tenant
  /-- `time.time()` of the gateway. -/
  now : Rat

/-- The request windows of all tenants. -/
abbrev Windows (Tenant : Type) := Tenant → RequestWindow

def checkRequestRate (requestsPerMinute : Nat) (windows : Windows Tenant)
    (call : RateCall Tenant) : RateLimitResult × Windows Tenant :=
  let reply := slidingWindowScript call.now (call.now - WINDOW_SECONDS) requestsPerMinute
    WINDOW_SECONDS (windows call.tenant)
  (⟨reply.1.allowed, requestsPerMinute, reply.1.remaining, some WINDOW_SECONDS⟩,
    Function.update windows call.tenant reply.2)

variable (limit : Nat)

/-- The windows after a sequence of calls. -/
def afterCalls (windows : Windows Tenant) (calls : List (RateCall Tenant)) : Windows Tenant :=
  calls.foldl (fun before call => (checkRequestRate limit before call).2) windows

def results : Windows Tenant → List (RateCall Tenant) → List RateLimitResult
  | _, [] => []
  | windows, call :: rest =>
      let reply := checkRequestRate limit windows call
      reply.1 :: results reply.2 rest

def allowedCalls : Windows Tenant → List (RateCall Tenant) → List (RateCall Tenant)
  | _, [] => []
  | windows, call :: rest =>
      let reply := checkRequestRate limit windows call
      if reply.1.allowed then call :: allowedCalls reply.2 rest else allowedCalls reply.2 rest

/-- The window a call counts its predecessors in. -/
def countedWindow (windows : Windows Tenant) (call : RateCall Tenant) : RequestWindow :=
  (windows call.tenant).current call.now (call.now - WINDOW_SECONDS)

/-- An allowed call whose reading prints like that of a call still in the window
replaces it. -/
def AddsMember (windows : Windows Tenant) (call : RateCall Tenant) : Prop :=
  (countedWindow windows call).requests.zcard < limit →
    tostring call.now ∉ (countedWindow windows call).requests

/-- Every call of the sequence that is allowed adds a member. -/
def AddMembers (windows : Windows Tenant) (calls : List (RateCall Tenant)) : Prop :=
  ∀ pre call post, calls = pre ++ call :: post → AddsMember limit (afterCalls limit windows pre) call

/-- How many calls of a tenant have a reading that satisfies a test. -/
def callsOf (tenant : Tenant) (test : Rat → Bool) (calls : List (RateCall Tenant)) : Nat :=
  calls.countP fun call => decide (call.tenant = tenant) && test call.now

section Step

variable {limit : Nat} {windows : Windows Tenant} {call : RateCall Tenant}

theorem checkRequestRate_allowed :
    (checkRequestRate limit windows call).1.allowed =
      decide ((countedWindow windows call).requests.zcard < limit) := by
  unfold checkRequestRate slidingWindowScript countedWindow
  dsimp only
  split
  · rename_i h
    simp [h]
  · rename_i h
    simp [h]

theorem checkRequestRate_accept (h : (countedWindow windows call).requests.zcard < limit) :
    (checkRequestRate limit windows call).2 = Function.update windows call.tenant
      ⟨(countedWindow windows call).requests.zadd (tostring call.now) call.now,
        some (call.now + 61)⟩ := by
  have hseconds : ((WINDOW_SECONDS + 1 : Nat) : Rat) = 61 := by norm_num [WINDOW_SECONDS]
  unfold countedWindow at h
  simp only [checkRequestRate, slidingWindowScript, countedWindow, h, if_true, hseconds]

theorem checkRequestRate_reject (h : ¬ (countedWindow windows call).requests.zcard < limit) :
    (checkRequestRate limit windows call).2 =
      Function.update windows call.tenant (countedWindow windows call) := by
  unfold countedWindow at h
  simp only [checkRequestRate, slidingWindowScript, countedWindow, h, if_false]

end Step

theorem callsOf_append (tenant : Tenant) (test : Rat → Bool) (calls more : List (RateCall Tenant)) :
    callsOf tenant test (calls ++ more) = callsOf tenant test calls + callsOf tenant test more :=
  List.countP_append

theorem callsOf_singleton (tenant : Tenant) (test : Rat → Bool) (call : RateCall Tenant) :
    callsOf tenant test [call] =
      if call.tenant = tenant ∧ test call.now = true then 1 else 0 := by
  simp [callsOf, List.countP_cons]

/-- The sorted sets account for the allowed calls up to a reading. -/
structure Covers (allowed : List (RateCall Tenant)) (windows : Windows Tenant) (last : Rat) :
    Prop where
  counted : ∀ tenant bound, last - 60 ≤ bound →
    callsOf tenant (fun now => decide (bound < now)) allowed ≤
      (windows tenant).requests.above bound
  deadline : ∀ call ∈ allowed, ∀ deadline, (windows call.tenant).expireAt = some deadline →
    call.now + 61 ≤ deadline
  past : ∀ call ∈ allowed, call.now ≤ last

section Invariant

variable {allowed : List (RateCall Tenant)} {windows : Windows Tenant} {last : Rat}
  {call : RateCall Tenant} {limit : Nat}

/-- A key that has expired held no call of the window. -/
theorem Covers.callsOf_expired (h : Covers allowed windows last) {tenant : Tenant} {now bound : Rat}
    (hexpired : (windows tenant).expired now = true) (hbound : now - 60 ≤ bound) :
    callsOf tenant (fun now => decide (bound < now)) allowed = 0 := by
  unfold callsOf
  rw [List.countP_eq_zero]
  intro call hcall htest
  simp only [Bool.and_eq_true, decide_eq_true_eq] at htest
  obtain ⟨htenant, hlate⟩ := htest
  unfold RequestWindow.expired at hexpired
  split at hexpired
  · rename_i deadline hdeadline
    have hpassed : deadline < now := of_decide_eq_true hexpired
    have hkept : call.now + 61 ≤ deadline := h.deadline call hcall deadline (htenant ▸ hdeadline)
    linarith
  · cases hexpired

theorem Covers.counted_current (h : Covers allowed windows last) (hlast : last ≤ call.now)
    {bound : Rat} (hbound : call.now - 60 ≤ bound) :
    callsOf call.tenant (fun now => decide (bound < now)) allowed ≤
      (countedWindow windows call).requests.above bound := by
  unfold countedWindow RequestWindow.current
  split
  · rename_i hexpired
    rw [h.callsOf_expired hexpired hbound]
    exact Nat.zero_le _
  · have hstart : call.now - (WINDOW_SECONDS : Rat) ≤ bound := by
      simpa [WINDOW_SECONDS] using hbound
    rw [SortedSet.above_zremrangebyscore hstart]
    exact h.counted call.tenant bound (by linarith)

theorem Covers.reject (h : Covers allowed windows last) (hlast : last ≤ call.now)
    (hreject : ¬ (countedWindow windows call).requests.zcard < limit) :
    Covers allowed (checkRequestRate limit windows call).2 call.now := by
  rw [checkRequestRate_reject hreject]
  constructor
  · intro tenant bound hbound
    by_cases htenant : tenant = call.tenant
    · subst htenant
      rw [Function.update_self]
      exact h.counted_current hlast hbound
    · rw [Function.update_of_ne htenant]
      exact h.counted tenant bound (by linarith)
  · intro other hother deadline hdeadline
    by_cases htenant : other.tenant = call.tenant
    · rw [htenant, Function.update_self] at hdeadline
      unfold countedWindow RequestWindow.current at hdeadline
      split at hdeadline
      · cases hdeadline
      · exact h.deadline other hother deadline (htenant ▸ hdeadline)
    · rw [Function.update_of_ne htenant] at hdeadline
      exact h.deadline other hother deadline hdeadline
  · intro other hother
    exact (h.past other hother).trans hlast

theorem Covers.accept (h : Covers allowed windows last) (hlast : last ≤ call.now)
    (haccept : (countedWindow windows call).requests.zcard < limit)
    (hfresh : tostring call.now ∉ (countedWindow windows call).requests) :
    Covers (allowed ++ [call]) (checkRequestRate limit windows call).2 call.now := by
  rw [checkRequestRate_accept haccept]
  constructor
  · intro tenant bound hbound
    rw [callsOf_append, callsOf_singleton]
    by_cases htenant : tenant = call.tenant
    · subst htenant
      rw [Function.update_self]
      have hcounted := h.counted_current hlast hbound
      rw [SortedSet.above_zadd hfresh]
      simp only [true_and, decide_eq_true_eq]
      omega
    · rw [Function.update_of_ne htenant, if_neg fun hand => htenant hand.1.symm]
      exact h.counted tenant bound (by linarith)
  · intro other hother deadline hdeadline
    by_cases htenant : other.tenant = call.tenant
    · rw [htenant, Function.update_self] at hdeadline
      have hdeadline : call.now + 61 = deadline := Option.some.inj hdeadline
      rcases List.mem_append.mp hother with hold | hnew
      · have hpast := h.past other hold
        linarith
      · rw [List.mem_singleton.mp hnew]
        exact hdeadline.le
    · rw [Function.update_of_ne htenant] at hdeadline
      rcases List.mem_append.mp hother with hold | hnew
      · exact h.deadline other hold deadline hdeadline
      · exact absurd (congrArg RateCall.tenant (List.mem_singleton.mp hnew)) htenant
  · intro other hother
    rcases List.mem_append.mp hother with hold | hnew
    · exact (h.past other hold).trans hlast
    · rw [List.mem_singleton.mp hnew]

/-- Two readings that satisfy the test are less than a window apart. -/
def Short (test : Rat → Bool) : Prop :=
  ∀ earlier later, test earlier = true → test later = true → later - 60 < earlier

/-- The allowed calls of a tenant in a short interval stay within the limit. -/
def WithinLimit (limit : Nat) (allowed : List (RateCall Tenant)) : Prop :=
  ∀ tenant test, Short test → callsOf tenant test allowed ≤ limit

theorem WithinLimit.accept (hwithin : WithinLimit limit allowed) (h : Covers allowed windows last)
    (hlast : last ≤ call.now) (haccept : (countedWindow windows call).requests.zcard < limit) :
    WithinLimit limit (allowed ++ [call]) := by
  intro tenant test hshort
  rw [callsOf_append, callsOf_singleton]
  split
  · rename_i hinside
    obtain ⟨htenant, hnow⟩ := hinside
    subst htenant
    calc callsOf call.tenant test allowed + 1
        ≤ callsOf call.tenant (fun now => decide (call.now - 60 < now)) allowed + 1 := by
          apply Nat.add_le_add_right
          apply List.countP_mono_left
          intro other _ hother
          simp only [Bool.and_eq_true, decide_eq_true_eq] at hother ⊢
          exact ⟨hother.1, hshort _ _ hother.2 hnow⟩
      _ ≤ (countedWindow windows call).requests.above (call.now - 60) + 1 :=
          Nat.add_le_add_right (h.counted_current hlast le_rfl) 1
      _ ≤ (countedWindow windows call).requests.zcard + 1 :=
          Nat.add_le_add_right (SortedSet.above_le_zcard _ _) 1
      _ ≤ limit := haccept
  · exact hwithin tenant test hshort

theorem addMembers_cons {rest : List (RateCall Tenant)} :
    AddMembers limit windows (call :: rest) ↔
      AddsMember limit windows call ∧
        AddMembers limit (checkRequestRate limit windows call).2 rest := by
  constructor
  · intro h
    constructor
    · exact h [] call rest rfl
    · intro pre next post heq
      exact h (call :: pre) next post (by rw [heq, List.cons_append])
  · rintro ⟨hhead, htail⟩ pre next post heq
    cases pre with
    | nil =>
        obtain ⟨rfl, rfl⟩ := List.cons.inj heq
        exact hhead
    | cons first pre =>
        obtain ⟨rfl, hrest⟩ := List.cons.inj heq
        exact htail pre next post hrest

theorem addMembers_nil : AddMembers limit windows [] := by
  intro pre next post heq
  cases pre <;> cases heq

end Invariant

/-- A sequence of calls keeps the allowed ones within the limit. -/
theorem withinLimit_allowedCalls {limit : Nat} (calls : List (RateCall Tenant))
    {windows : Windows Tenant} {allowed : List (RateCall Tenant)} {last : Rat}
    (hcovers : Covers allowed windows last) (hwithin : WithinLimit limit allowed)
    (hclock : (calls.map (·.now)).Pairwise (· ≤ ·)) (hlast : ∀ call ∈ calls, last ≤ call.now)
    (hadd : AddMembers limit windows calls) :
    WithinLimit limit (allowed ++ allowedCalls limit windows calls) := by
  induction calls generalizing windows allowed last with
  | nil => simpa [allowedCalls] using hwithin
  | cons call rest ih =>
      rw [List.map_cons, List.pairwise_cons] at hclock
      have hcall : last ≤ call.now := hlast call List.mem_cons_self
      have hrest : ∀ other ∈ rest, call.now ≤ other.now :=
        fun other hother => hclock.1 other.now (List.mem_map.mpr ⟨other, hother, rfl⟩)
      by_cases haccept : (countedWindow windows call).requests.zcard < limit
      · have hreply : allowedCalls limit windows (call :: rest) =
            call :: allowedCalls limit (checkRequestRate limit windows call).2 rest := by
          simp [allowedCalls, checkRequestRate_allowed, haccept]
        rw [hreply, ← List.singleton_append, ← List.append_assoc]
        exact ih (hcovers.accept hcall haccept ((addMembers_cons.mp hadd).1 haccept))
          (hwithin.accept hcovers hcall haccept) hclock.2 hrest
            (addMembers_cons.mp hadd).2
      · have hreply : allowedCalls limit windows (call :: rest) =
            allowedCalls limit (checkRequestRate limit windows call).2 rest := by
          simp [allowedCalls, checkRequestRate_allowed, haccept]
        rw [hreply]
        exact ih (hcovers.reject hcall haccept) hwithin hclock.2 hrest
            (addMembers_cons.mp hadd).2

/-- No later call can tell the two apart. -/
def SameFrom (now : Rat) (windows windows' : Windows Tenant) : Prop :=
  ∀ tenant later, now ≤ later →
    (windows tenant).current later (later - WINDOW_SECONDS) =
      (windows' tenant).current later (later - WINDOW_SECONDS)

theorem RequestWindow.current_current (window : RequestWindow) {now later : Rat}
    (h : now ≤ later) :
    (window.current now (now - WINDOW_SECONDS)).current later (later - WINDOW_SECONDS) =
      window.current later (later - WINDOW_SECONDS) := by
  have hstart : now - (WINDOW_SECONDS : Rat) ≤ later - WINDOW_SECONDS := by linarith
  by_cases hnow : window.expired now = true
  · have hlater : window.expired later = true := by
      unfold expired at hnow ⊢
      split at hnow
      · exact decide_eq_true ((of_decide_eq_true hnow).trans_le h)
      · cases hnow
    have hcurrent : window.current now (now - WINDOW_SECONDS) = absent := by
      rw [current, if_pos hnow]
    rw [hcurrent, current, current, if_pos hlater]
    rfl
  · have hcurrent : window.current now (now - WINDOW_SECONDS) = ⟨window.requests.zremrangebyscore 0
        (now - WINDOW_SECONDS), window.expireAt⟩ := by
      rw [current, if_neg hnow]
    rw [hcurrent, current, current]
    by_cases hlater : window.expired later = true
    · have hsame : expired ⟨window.requests.zremrangebyscore 0 (now - WINDOW_SECONDS),
          window.expireAt⟩ later = true := hlater
      rw [if_pos hsame, if_pos hlater]
    · have hsame : ¬ expired ⟨window.requests.zremrangebyscore 0 (now - WINDOW_SECONDS),
          window.expireAt⟩ later = true := hlater
      rw [if_neg hsame, if_neg hlater]
      simp only [SortedSet.zremrangebyscore_zremrangebyscore hstart]

section Rejected

variable {windows windows' : Windows Tenant} {call : RateCall Tenant}

theorem sameFrom_reject {limit : Nat}
    (h : ¬ (countedWindow windows call).requests.zcard < limit) :
    SameFrom call.now (checkRequestRate limit windows call).2 windows := by
  intro tenant later hlater
  rw [checkRequestRate_reject h]
  by_cases htenant : tenant = call.tenant
  · subst htenant
    rw [Function.update_self]
    exact RequestWindow.current_current _ hlater
  · rw [Function.update_of_ne htenant]

theorem SameFrom.step (limit : Nat) {now : Rat} (h : SameFrom now windows windows') (hnow : now ≤ call.now) :
    (checkRequestRate limit windows call).1 = (checkRequestRate limit windows' call).1 ∧
      SameFrom call.now (checkRequestRate limit windows call).2
        (checkRequestRate limit windows' call).2 := by
  have hcounted : countedWindow windows call = countedWindow windows' call :=
    h call.tenant call.now hnow
  unfold countedWindow at hcounted
  have hscript : ∀ seconds, slidingWindowScript call.now (call.now - WINDOW_SECONDS) limit seconds
        (windows call.tenant) =
      slidingWindowScript call.now (call.now - WINDOW_SECONDS) limit seconds
        (windows' call.tenant) := by
    intro seconds
    simp only [slidingWindowScript, hcounted]
  constructor
  · simp only [checkRequestRate, hscript]
  · intro tenant later hlater
    simp only [checkRequestRate, hscript]
    by_cases htenant : tenant = call.tenant
    · subst htenant
      simp only [Function.update_self]
    · simp only [Function.update_of_ne htenant]
      exact h tenant later (hnow.trans hlater)

theorem SameFrom.results (limit : Nat) (calls : List (RateCall Tenant)) {now : Rat}
    (h : SameFrom now windows windows') (hclock : (calls.map (·.now)).Pairwise (· ≤ ·))
    (hnow : ∀ call ∈ calls, now ≤ call.now) :
    results limit windows calls = results limit windows' calls := by
  induction calls generalizing windows windows' now with
  | nil => rfl
  | cons call rest ih =>
      rw [List.map_cons, List.pairwise_cons] at hclock
      have hrest : ∀ other ∈ rest, call.now ≤ other.now :=
        fun other hother => hclock.1 other.now (List.mem_map.mpr ⟨other, hother, rfl⟩)
      obtain ⟨hreply, hafter⟩ := h.step limit (hnow call List.mem_cons_self)
      simp only [Gateway.results, hreply, ih hafter hclock.2 hrest]

end Rejected

/-- Before the first call. -/
def noRequests : Windows Tenant := fun _ => .absent

theorem covers_noRequests (last : Rat) :
    Covers ([] : List (RateCall Tenant)) (noRequests : Windows Tenant) last := by
  constructor
  · intro tenant bound _
    exact Nat.zero_le _
  · intro call hcall
    cases hcall
  · intro call hcall
    cases hcall

/-- In a sequence of calls with non-decreasing clock readings in which every allowed call adds
a member, no half-open interval of the window's length has more allowed calls of a tenant
than the limit, and leaving out a rejected call changes no later result. -/
theorem allowed_within_limit {limit : Nat} {calls : List (RateCall Tenant)}
    (hclock : (calls.map (·.now)).Pairwise (· ≤ ·)) (hadd : AddMembers limit noRequests calls) :
    (∀ tenant start,
      callsOf tenant (fun now => decide (start ≤ now ∧ now < start + 60))
        (allowedCalls limit noRequests calls) ≤ limit ∧
      callsOf tenant (fun now => decide (start < now ∧ now ≤ start + 60))
        (allowedCalls limit noRequests calls) ≤ limit) ∧
    ∀ pre call post, calls = pre ++ call :: post →
      (checkRequestRate limit (afterCalls limit noRequests pre) call).1.allowed = false →
      results limit (afterCalls limit noRequests (pre ++ [call])) post =
        results limit (afterCalls limit noRequests pre) post := by
  constructor
  · intro tenant start
    have hwithin : WithinLimit limit (allowedCalls limit noRequests calls) := by
      cases calls with
      | nil =>
          intro tenant test _
          exact Nat.zero_le _
      | cons call rest =>
          rw [List.map_cons, List.pairwise_cons] at hclock
          have hfirst : ∀ other ∈ call :: rest, call.now ≤ other.now := by
            intro other hother
            rcases List.mem_cons.mp hother with rfl | hother
            · exact le_rfl
            · exact hclock.1 other.now (List.mem_map.mpr ⟨other, hother, rfl⟩)
          have hrun := withinLimit_allowedCalls (call :: rest) (covers_noRequests call.now)
            (fun _ _ _ => Nat.zero_le limit) (List.pairwise_cons.mpr hclock) hfirst hadd
          simpa using hrun
    constructor
    · apply hwithin
      intro earlier later hearlier hlater
      simp only [decide_eq_true_eq] at hearlier hlater
      linarith
    · apply hwithin
      intro earlier later hearlier hlater
      simp only [decide_eq_true_eq] at hearlier hlater
      linarith
  · intro pre call post heq hreject
    rw [checkRequestRate_allowed, decide_eq_false_iff_not] at hreject
    have hsplit : afterCalls limit noRequests (pre ++ [call]) =
        (checkRequestRate limit (afterCalls limit noRequests pre) call).2 := by
      simp [afterCalls]
    rw [hsplit]
    rw [heq, List.map_append, List.map_cons, List.pairwise_append, List.pairwise_cons] at hclock
    apply (sameFrom_reject hreject).results limit post hclock.2.1.2
    intro other hother
    exact hclock.2.1.1 other.now (List.mem_map.mpr ⟨other, hother, rfl⟩)

end Calls

instance (limit : Nat) (windows : Windows Unit) (call : RateCall Unit) :
    Decidable (AddsMember limit windows call) :=
  inferInstanceAs (Decidable (_ < _ → _ ∉ _))

/-- Two calls of one tenant, one second apart. -/
def spacedCalls : List (RateCall Unit) := [⟨(), 1700000000⟩, ⟨(), 1700000001⟩]

theorem spacedCalls_within_limit :
    (∀ (tenant : Unit) (start : Rat),
      callsOf tenant (fun now => decide (start ≤ now ∧ now < start + 60))
        (allowedCalls 1 noRequests spacedCalls) ≤ 1 ∧
      callsOf tenant (fun now => decide (start < now ∧ now ≤ start + 60))
        (allowedCalls 1 noRequests spacedCalls) ≤ 1) ∧
    ∀ pre call post, spacedCalls = pre ++ call :: post →
      (checkRequestRate 1 (afterCalls 1 noRequests pre) call).1.allowed = false →
      results 1 (afterCalls 1 noRequests (pre ++ [call])) post =
        results 1 (afterCalls 1 noRequests pre) post := by
  apply allowed_within_limit
  · decide +kernel
  · exact addMembers_cons.mpr ⟨by decide +kernel,
      addMembers_cons.mpr ⟨by decide +kernel, addMembers_nil⟩⟩

/-- Three calls of one tenant at one clock reading. -/
def simultaneousCalls : List (RateCall Unit) := List.replicate 3 ⟨(), 1700000000⟩

/-- Calls with one reading are one member, and so a limit of two lets all of them pass. -/
theorem simultaneous_exceed_limit :
    (simultaneousCalls.map (·.now)).Pairwise (· ≤ ·) ∧
      2 < callsOf () (fun now => decide (1700000000 ≤ now ∧ now < (1700000000 : Rat) + 60))
        (allowedCalls 2 noRequests simultaneousCalls) := by
  decide +kernel

end Dalston.Gateway
