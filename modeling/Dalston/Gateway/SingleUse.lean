import Dalston.Gateway.SessionTokens

/-!
# Tokens are used once

The field that consumes a token is set by at most one call, and while the token
is in force, as long as no call sets it after the hash has gone. The hash of a
token always has an expiry, except while the call that creates it is about to
give it one.

## Implementation notes

The invariant ties each stored hash to the marks of its key. A call that has set
the field keeps that as its local state until it returns.
-/

namespace Dalston.Gateway.Tokens

open Foundation

def TokenMark.isConsumed : TokenMark → Bool
  | consumed _ => true
  | _ => false

/-- How many calls have set `consumed_at` under the key. -/
def consumptions (marks : List (String × TokenMark)) (key : String) : Nat :=
  marks.countP fun m => decide (m.1 = key) && m.2.isConsumed

section Laws

variable (hashApiKey : String → String)

/-- The call is a consumption of the key and has returned its single-use token. -/
def succeeds (key : String) (x : Return TokenCall TokenStore TokenReply) : Bool :=
  match x.call, x.result with
  | .consume rawToken, .accepted token =>
      decide (redisSessionToken (hashApiKey rawToken) = key) && token.singleUse
  | _, _ => false

/-- How many consumptions of the key's single-use token have been successful. -/
def successes (shared : TokenShared) (key : String) : Nat :=
  shared.returned.countP (succeeds hashApiKey key)

/-- A token is consumed before it expires, and not after it was revoked. -/
def Rightful (older : List (String × TokenMark)) : String × TokenMark → Prop
  | (key, .consumed t) =>
      (∃ expiresAt, (key, .created expiresAt) ∈ older ∧ t ≤ expiresAt) ∧ (key, .revoked) ∉ older
  | _ => True

/-- Every mark is rightful where it was made. -/
def AllRightful (marks : List (String × TokenMark)) : Prop :=
  ∀ newer m older, marks = newer ++ m :: older → Rightful older m

/-- At most one consumption of a token is successful, none is after the token has expired or was
revoked, and no hash stays for ever. -/
structure SingleUseLaw (pool : TokenPool) : Prop where
  once : ∀ key, successes hashApiKey pool.toShared key ≤ consumptions pool.store.marks key ∧
    consumptions pool.store.marks key ≤ 1
  inTime : AllRightful pool.store.marks
  fades : ∀ key k, pool.store.keys key = some k → k.expireAt = none →
    ∃ t ∈ pool.threads, ∃ ttl, t.rest.next? = some (.expire key ttl)

end Laws

/-- The hash is there and its token has not expired. -/
def unspoilt (s : TokenStore) (key : String) : Bool :=
  (s.find key).any fun k =>
    match k.fields.get? "expires_at" with
    | some (.time t) => decide (s.now ≤ t)
    | _ => false

/-- Only time passes by itself. -/
def TokenEffect.fromOutside : TokenEffect → Bool
  | .timePasses _ => true
  | _ => false

def anyTurn : Turn TokenCall TokenEffect → Bool
  | .outside e => e.fromOutside
  | _ => true

/-- No token is drawn twice, `consumed_at` is set only while the token is in force, and no call
that creates a token is given up before it has set the expiry. -/
def timely (pool : TokenPool) : Turn TokenCall TokenEffect → Bool
  | .move i =>
      match pool.next? i with
      | some (.hset key _) => pool.store.marks.all fun m => decide (m.1 ≠ key)
      | some (.hsetnx key _) => unspoilt pool.store key
      | _ => true
  | .fail i =>
      match pool.next? i with
      | some (.expire _ _) => false
      | _ => true
  | .outside e => e.fromOutside
  | .start _ => true

/-- What a call has done that others count on. -/
inductive TokenStage
  | calling
  /-- The hash is there and has no expiry yet. -/
  | owing (key : String)
  /-- The call has set `consumed_at`. -/
  | marked (key : String)
  deriving DecidableEq

inductive TokenMove (s : TokenStore) : TokenStage → TokenEffect → TokenStage → Prop
  | clock : TokenMove s .calling .clock .calling
  | hgetall (key : String) : TokenMove s .calling (.hgetall key) .calling
  | hset (key : String) (token : SessionToken) (h : token.consumedAt = none) :
      TokenMove s .calling (.hset key token) (.owing key)
  | expire (key : String) (ttl : Nat) : TokenMove s (.owing key) (.expire key ttl) .calling
  | taken {key : String} (t : Nat) (h : s.has key "consumed_at" = true) :
      TokenMove s .calling (.hsetnx key t) .calling
  | takes {key : String} (t : Nat) (h : s.has key "consumed_at" = false) :
      TokenMove s .calling (.hsetnx key t) (.marked key)
  | delete (key : String) : TokenMove s .calling (.delete key) .calling

section Programs

variable {hashApiKey : String → String}

/-- A call ends owing nothing, and with its mark if it has consumed a single-use token. -/
structure TokenEnd (hashApiKey : String → String) (c : TokenCall) (reply : TokenReply)
    (l : TokenStage) : Prop where
  settled : ∀ key, l ≠ .owing key
  marked : ∀ rawToken token, c = .consume rawToken → reply = .accepted token →
    token.singleUse = true → l = .marked (redisSessionToken (hashApiKey rawToken))

abbrev FollowsToken (p : TokenOp TokenReply) (Q : TokenReply → TokenStage → Prop)
    (l : TokenStage) : Prop :=
  p.Follows (fun l s e l' => TokenMove s l e l') (fun _ => True) Q l

theorem follows_checkToken (token : SessionToken) :
    FollowsToken (checkToken token) (fun _ l => l = .calling) .calling := by
  apply Program.follows_perform_bind.mpr
  intro s _
  refine ⟨.calling, .clock, ?_⟩
  split
  · rfl
  · split <;> rfl

theorem follows_checkKey (found : Option TokenKey) :
    FollowsToken (checkKey found) (fun _ l => l = .calling) .calling := by
  cases found with
  | none => rfl
  | some k =>
      rw [checkKey]
      split
      · rfl
      · exact follows_checkToken _

/-- A validation leaves no trace. -/
theorem follows_validate (rawToken : String) :
    FollowsToken (validateSessionToken hashApiKey rawToken) (fun _ l => l = .calling)
      .calling := by
  rw [validateSessionToken]
  split
  · rfl
  · intro s _
    exact ⟨.calling, .hgetall _, follows_checkKey _⟩

theorem follows_consumeAccepted (rawToken : String) (reply : TokenReply) :
    FollowsToken (consumeAccepted hashApiKey rawToken reply)
      (TokenEnd hashApiKey (.consume rawToken)) .calling := by
  have hplain : ∀ reply, (∀ token, reply = .accepted token → token.singleUse = false) →
      TokenEnd hashApiKey (.consume rawToken) reply .calling := by
    intro reply hreply
    constructor
    · intro key h
      cases h
    · intro _ token _ haccepted hsingle
      rw [hreply token haccepted] at hsingle
      cases hsingle
  cases reply with
  | accepted token =>
      cases hsingle : token.singleUse with
      | false =>
          simp only [consumeAccepted, hsingle, Bool.not_false, if_true]
          exact hplain _ fun _ h => by cases h; exact hsingle
      | true =>
          simp only [consumeAccepted, hsingle, Bool.not_true, Bool.false_eq_true, if_false]
          apply Program.follows_perform_bind.mpr
          intro s _
          refine ⟨.calling, .clock, ?_⟩
          apply Program.follows_perform_bind.mpr
          intro s' _
          cases hhas : s'.has (redisSessionToken (hashApiKey rawToken)) "consumed_at" with
          | true =>
              refine ⟨.calling, .taken _ hhas, ?_⟩
              exact hplain _ fun _ h => by cases h
          | false =>
              refine ⟨.marked _, .takes _ hhas, ?_⟩
              constructor
              · intro key h
                cases h
              · intro raw _ hraw _ _
                cases hraw
                rfl
  | created token => exact hplain _ fun _ h => by cases h
  | rejected => exact hplain _ fun _ h => by cases h
  | revoked found => exact hplain _ fun _ h => by cases h
  | raised error => exact hplain _ fun _ h => by cases h

theorem follows_create (c : Creation) :
    FollowsToken (createSessionToken hashApiKey c) (TokenEnd hashApiKey (.create c)) .calling := by
  have hend : ∀ reply, TokenEnd hashApiKey (.create c) reply .calling := by
    intro reply
    constructor
    · intro key h
      cases h
    · intro _ _ h
      cases h
  rw [createSessionToken]
  split
  · exact hend _
  · intro s _
    refine ⟨.calling, .clock, ?_⟩
    intro s' _
    refine ⟨.owing _, .hset _ _ rfl, ?_⟩
    intro s'' _
    exact ⟨.calling, .expire _ _, hend _⟩

/-- Every call follows the protocol. -/
theorem follows_code (c : TokenCall) :
    FollowsToken (c.code hashApiKey) (TokenEnd hashApiKey c) .calling := by
  have hend : ∀ {c : TokenCall} {reply : TokenReply} {l : TokenStage},
      (∀ rawToken, c ≠ .consume rawToken) → l = .calling → TokenEnd hashApiKey c reply l := by
    rintro c reply l hc rfl
    constructor
    · intro key h
      cases h
    · intro rawToken _ h
      exact absurd h (hc rawToken)
  cases c with
  | create c => exact follows_create c
  | validate rawToken =>
      exact Program.follows_mono (follows_validate rawToken) fun _ _ h => hend (by simp) h
  | consume rawToken =>
      apply Program.follows_bind.mpr
      apply Program.follows_mono (follows_validate rawToken)
      rintro reply l rfl
      exact follows_consumeAccepted rawToken reply
  | revoke rawToken =>
      rw [TokenCall.code, revokeSessionToken]
      split
      · exact hend (by simp) rfl
      · intro s _
        exact ⟨.calling, .delete _, hend (by simp) rfl⟩

end Programs

section Stores

/-- What the marks of a key say of the hash that is stored under it. -/
structure KeySound (marks : List (String × TokenMark)) (key : String) (k : TokenKey) : Prop where
  granted : ∃ expiresAt, k.fields.get? "expires_at" = some (.time expiresAt) ∧
    (key, .created expiresAt) ∈ marks
  standing : (key, .revoked) ∉ marks
  unconsumed : k.fields.contains "consumed_at" = false → consumptions marks key = 0

structure TokensSound (s : TokenStore) : Prop where
  keys : ∀ key k, s.keys key = some k → KeySound s.marks key k
  once : ∀ key, consumptions s.marks key ≤ 1
  rightful : AllRightful s.marks

variable {s : TokenStore} {marks : List (String × TokenMark)} {key other : String} {k : TokenKey}
  {m : TokenMark}

theorem keys_of_find (h : s.find key = some k) : s.keys key = some k :=
  (Option.filter_eq_some_iff.mp h).1

theorem keys_put (value : Option TokenKey) :
    (s.put key value).keys other = if other = key then value else s.keys other :=
  Function.update_apply ..

theorem consumptions_cons : consumptions ((key, m) :: marks) other =
    consumptions marks other + if key = other ∧ m.isConsumed then 1 else 0 := by
  simp [consumptions, List.countP_cons]

theorem AllRightful.cons (h : AllRightful marks) {m : String × TokenMark}
    (hm : Rightful marks m) : AllRightful (m :: marks) := by
  intro newer m' older heq
  cases newer with
  | nil =>
      obtain ⟨rfl, rfl⟩ := List.cons.inj heq
      exact hm
  | cons _ newer => exact h newer m' older (List.cons.inj heq).2

/-- A mark of another key says nothing of this one. -/
theorem KeySound.mark_ne (h : KeySound marks other k) (hne : key ≠ other) :
    KeySound ((key, m) :: marks) other k where
  granted := by
    obtain ⟨expiresAt, hfield, hmark⟩ := h.granted
    exact ⟨expiresAt, hfield, List.mem_cons_of_mem _ hmark⟩
  standing hmem := by
    cases hmem with
    | head => exact hne rfl
    | tail _ hmem => exact h.standing hmem
  unconsumed hfield := by
    rw [consumptions_cons, h.unconsumed hfield, if_neg fun heq => hne heq.1]

/-- The hash that a new token leaves under a fresh key. -/
theorem keySound_created {token : SessionToken} (hnew : token.consumedAt = none)
    (hfresh : ∀ m ∈ marks, m.1 ≠ key) (expireAt : Option Nat) :
    KeySound ((key, .created token.expiresAt) :: marks) key
      ⟨Dict.merge [] token.toDict, expireAt⟩ where
  granted := by
    refine ⟨token.expiresAt, ?_, List.mem_cons_self⟩
    simp [SessionToken.toDict, hnew, Dict.merge, Dict.set, Dict.get?]
  standing hmem := by
    cases hmem with
    | tail _ hmem => exact hfresh _ hmem rfl
  unconsumed _ := by
    have hnone : consumptions marks key = 0 := by
      rw [consumptions, List.countP_eq_zero]
      intro m hm
      simp [hfresh m hm]
    simp [consumptions_cons, hnone, TokenMark.isConsumed]

theorem keySound_consumed (h : KeySound marks key k) (now t : Nat) :
    KeySound ((key, .consumed now) :: marks) key
      { k with fields := k.fields.set "consumed_at" (.time t) } where
  granted := by
    obtain ⟨expiresAt, hfield, hmark⟩ := h.granted
    refine ⟨expiresAt, ?_, List.mem_cons_of_mem _ hmark⟩
    rw [Dict.get?_set_ne _ _ (by decide), hfield]
  standing hmem := by
    cases hmem with
    | tail _ hmem => exact h.standing hmem
  unconsumed hfield := by
    simp [Dict.contains] at hfield

variable (hs : TokensSound s)

include hs

theorem TokensSound.keys_eq_none (hfresh : ∀ m ∈ s.marks, m.1 ≠ key) : s.keys key = none := by
  cases hk : s.keys key with
  | none => rfl
  | some k =>
      obtain ⟨_, _, hmark⟩ := (hs.keys key k hk).granted
      exact absurd rfl (hfresh _ hmark)

theorem TokensSound.hset {token : SessionToken} (hnew : token.consumedAt = none)
    (hfresh : ∀ m ∈ s.marks, m.1 ≠ key) :
    TokensSound (apply (TokenEffect.hset key token) s) := by
  have hnone : s.find key = none := by
    rw [TokenStore.find, hs.keys_eq_none hfresh]
    rfl
  simp only [apply, TokenEffect.apply, hnone, Option.getD_none]
  constructor
  case keys =>
    intro other k hk
    change (s.put key _).keys other = some k at hk
    rw [keys_put] at hk
    split at hk
    · next heq =>
      subst heq
      obtain rfl := Option.some.inj hk
      exact keySound_created hnew hfresh _
    · next hne => exact (hs.keys other k hk).mark_ne (Ne.symm hne)
  case once =>
    intro other
    change consumptions ((key, _) :: s.marks) other ≤ 1
    simpa [consumptions_cons, TokenMark.isConsumed] using hs.once other
  case rightful => exact hs.rightful.cons trivial

theorem TokensSound.expire (key : String) (ttl : Nat) :
    TokensSound (apply (TokenEffect.expire key ttl) s) := by
  simp only [apply, TokenEffect.apply]
  cases hfind : s.find key with
  | none => exact hs
  | some k =>
      have hk := hs.keys key k (keys_of_find hfind)
      have hput : ∀ value : Option TokenKey,
          (∀ k', value = some k' → k'.fields = k.fields) → TokensSound (s.put key value) := by
        intro value hvalue
        refine ⟨?_, hs.once, hs.rightful⟩
        intro other k' hk'
        rw [keys_put] at hk'
        split at hk'
        · next heq =>
          subst heq
          have hfields := hvalue k' hk'
          exact ⟨hfields ▸ hk.granted, hk.standing, hfields ▸ hk.unconsumed⟩
        · exact hs.keys other k' hk'
      dsimp only
      split
      · exact hput none (by simp)
      · refine hput _ fun k' hk' => ?_
        obtain rfl := Option.some.inj hk'
        rfl

/-- A field that is set while the token is in force is set rightfully. -/
theorem TokensSound.hsetnx (key : String) (t : Nat) (hforce : unspoilt s key = true) :
    TokensSound (apply (TokenEffect.hsetnx key t) s) := by
  simp only [apply, TokenEffect.apply]
  split
  · exact hs
  · next hhas =>
    obtain ⟨k, hfind, hforce⟩ := (Option.any_eq_true _ _).mp hforce
    have hk := hs.keys key k (keys_of_find hfind)
    obtain ⟨expiresAt, hfield, hmark⟩ := hk.granted
    have hnow : s.now ≤ expiresAt := by simpa [hfield] using hforce
    have hunset : k.fields.contains "consumed_at" = false := by
      simpa [TokenStore.has, hfind] using hhas
    simp only [hfind, Option.getD_some]
    constructor
    case keys =>
      intro other k' hk'
      change (s.put key _).keys other = some k' at hk'
      rw [keys_put] at hk'
      split at hk'
      · next heq =>
        subst heq
        obtain rfl := Option.some.inj hk'
        exact keySound_consumed hk s.now t
      · next hne => exact (hs.keys other k' hk').mark_ne (Ne.symm hne)
    case once =>
      intro other
      change consumptions ((key, _) :: s.marks) other ≤ 1
      rw [consumptions_cons]
      split
      · next heq =>
        obtain ⟨rfl, _⟩ := heq
        rw [hk.unconsumed hunset]
      · exact hs.once other
    case rightful => exact hs.rightful.cons ⟨⟨expiresAt, hmark, hnow⟩, hk.standing⟩

theorem TokensSound.delete (key : String) : TokensSound (apply (TokenEffect.delete key) s) := by
  simp only [apply, TokenEffect.apply]
  split
  · constructor
    case keys =>
      intro other k hk
      change (s.put key none).keys other = some k at hk
      rw [keys_put] at hk
      split at hk
      · cases hk
      · next hne => exact (hs.keys other k hk).mark_ne (Ne.symm hne)
    case once =>
      intro other
      change consumptions ((key, _) :: s.marks) other ≤ 1
      simpa [consumptions_cons, TokenMark.isConsumed] using hs.once other
    case rightful => exact hs.rightful.cons trivial
  · exact hs

end Stores

/-- What is known of the tokens and of the calls under way. -/
structure Account (hashApiKey : String → String) (shared : TokenShared)
    (gs : Multiset (Local TokenCall TokenStore TokenStage)) : Prop where
  store : TokensSound shared.store
  paid : ∀ key, successes hashApiKey shared key + (gs.countP fun g => g.state = .marked key) ≤
    consumptions shared.store.marks key
  fades : ∀ key k, shared.store.keys key = some k → k.expireAt = none →
    ∃ g ∈ gs, g.state = .owing key

section Accounts

variable {hashApiKey : String → String} {shared : TokenShared}
  {gs : Multiset (Local TokenCall TokenStore TokenStage)} {call : TokenCall} {born : TokenStore}
  {l l' : TokenStage} {e : TokenEffect}

theorem countP_marked_cons (key : String) :
    ((⟨call, born, l⟩ ::ₘ gs).countP fun g => g.state = .marked key) =
      (gs.countP fun g => g.state = .marked key) + if l = .marked key then 1 else 0 :=
  Multiset.countP_cons ..

/-- An effect that changes no mark and takes no call's mark away. -/
theorem Account.moved (h : Account hashApiKey shared (⟨call, born, l⟩ ::ₘ gs))
    (hstore : TokensSound (apply e shared.store))
    (hpaid : ∀ key, consumptions shared.store.marks key + (if l' = .marked key then 1 else 0) ≤
      consumptions (apply e shared.store).marks key + if l = .marked key then 1 else 0)
    (hfades : ∀ key k, (apply e shared.store).keys key = some k → k.expireAt = none →
      l' = .owing key ∨ l ≠ .owing key ∧
        ∃ k', shared.store.keys key = some k' ∧ k'.expireAt = none) :
    Account hashApiKey (shared.perform e) (⟨call, born, l'⟩ ::ₘ gs) where
  store := hstore
  paid key := by
    have hold := h.paid key
    have hnew := hpaid key
    rw [countP_marked_cons] at hold ⊢
    change successes hashApiKey shared key + _ ≤ consumptions (apply e shared.store).marks key
    omega
  fades key k hk hnever := by
    rcases hfades key k hk hnever with rfl | ⟨hl, k', hk', hnever'⟩
    · exact ⟨_, Multiset.mem_cons_self _ _, rfl⟩
    · obtain ⟨g, hg, hstate⟩ := h.fades key k' hk' hnever'
      rcases Multiset.mem_cons.mp hg with rfl | hg
      · exact absurd hstate hl
      · exact ⟨g, Multiset.mem_cons_of_mem hg, hstate⟩

theorem Account.look (h : Account hashApiKey shared (⟨call, born, .calling⟩ ::ₘ gs))
    (he : apply e shared.store = shared.store) :
    Account hashApiKey (shared.perform e) (⟨call, born, .calling⟩ ::ₘ gs) := by
  apply h.moved
  case hstore => rw [he]; exact h.store
  case hpaid => intro key; rw [he]
  case hfades =>
    intro key k hk hnever
    rw [he] at hk
    exact Or.inr ⟨by simp, k, hk, hnever⟩

theorem Account.hset {key : String} {token : SessionToken}
    (h : Account hashApiKey shared (⟨call, born, .calling⟩ ::ₘ gs))
    (hnew : token.consumedAt = none) (hfresh : ∀ m ∈ shared.store.marks, m.1 ≠ key) :
    Account hashApiKey (shared.perform (.hset key token)) (⟨call, born, .owing key⟩ ::ₘ gs) := by
  apply h.moved
  case hstore => exact h.store.hset hnew hfresh
  case hpaid =>
    intro other
    change _ ≤ consumptions ((key, _) :: shared.store.marks) other + _
    simp [consumptions_cons, TokenMark.isConsumed]
  case hfades =>
    intro other k hk hnever
    change (shared.store.put key _).keys other = some k at hk
    rw [keys_put] at hk
    split at hk
    · next heq => exact Or.inl (by rw [heq])
    · exact Or.inr ⟨by simp, k, hk, hnever⟩

theorem Account.expire {key : String} {ttl : Nat}
    (h : Account hashApiKey shared (⟨call, born, .owing key⟩ ::ₘ gs)) :
    Account hashApiKey (shared.perform (.expire key ttl)) (⟨call, born, .calling⟩ ::ₘ gs) := by
  have hmarks : (apply (TokenEffect.expire key ttl) shared.store).marks = shared.store.marks := by
    simp only [apply, TokenEffect.apply]
    split
    · rfl
    · split <;> rfl
  apply h.moved
  case hstore => exact h.store.expire key ttl
  case hpaid => intro other; rw [hmarks]; simp
  case hfades =>
    intro other k hk hnever
    right
    have hother : other ≠ key := by
      rintro rfl
      simp only [apply, TokenEffect.apply] at hk
      split at hk
      · next hfind =>
        rw [TokenStore.find, hk] at hfind
        simp [hnever] at hfind
      · split at hk
        · rw [keys_put, if_pos rfl] at hk
          cases hk
        · rw [keys_put, if_pos rfl] at hk
          cases hk
          cases hnever
    refine ⟨by simpa using hother.symm, k, ?_, hnever⟩
    simp only [apply, TokenEffect.apply] at hk
    split at hk
    · exact hk
    · split at hk
      · rwa [keys_put, if_neg hother] at hk
      · rwa [keys_put, if_neg hother] at hk

theorem Account.takes {key : String} {t : Nat}
    (h : Account hashApiKey shared (⟨call, born, .calling⟩ ::ₘ gs))
    (hhas : shared.store.has key "consumed_at" = false) (hforce : unspoilt shared.store key = true) :
    Account hashApiKey (shared.perform (.hsetnx key t)) (⟨call, born, .marked key⟩ ::ₘ gs) := by
  obtain ⟨old, hfind, _⟩ := (Option.any_eq_true _ _).mp hforce
  have happly : apply (TokenEffect.hsetnx key t) shared.store =
      (shared.store.put key
        (some { old with fields := old.fields.set "consumed_at" (.time t) })).mark key
          (.consumed shared.store.now) := by
    simp [apply, TokenEffect.apply, hhas, hfind]
  apply h.moved
  case hstore => exact h.store.hsetnx key t hforce
  case hpaid =>
    intro other
    rw [happly]
    change _ ≤ consumptions ((key, _) :: shared.store.marks) other + _
    simp [consumptions_cons, TokenMark.isConsumed]
  case hfades =>
    intro other k hk hnever
    refine Or.inr ⟨by simp, ?_⟩
    rw [happly] at hk
    change (shared.store.put key _).keys other = some k at hk
    rw [keys_put] at hk
    split at hk
    · next heq =>
      subst heq
      obtain rfl := Option.some.inj hk
      exact ⟨old, keys_of_find hfind, hnever⟩
    · exact ⟨k, hk, hnever⟩

theorem Account.delete {key : String}
    (h : Account hashApiKey shared (⟨call, born, .calling⟩ ::ₘ gs)) :
    Account hashApiKey (shared.perform (.delete key)) (⟨call, born, .calling⟩ ::ₘ gs) := by
  have hmarks (other : String) :
      consumptions (apply (TokenEffect.delete key) shared.store).marks other =
        consumptions shared.store.marks other := by
    simp only [apply, TokenEffect.apply]
    split
    · change consumptions ((key, _) :: shared.store.marks) other = _
      simp [consumptions_cons, TokenMark.isConsumed]
    · rfl
  apply h.moved
  case hstore => exact h.store.delete key
  case hpaid => intro other; rw [hmarks]
  case hfades =>
    intro other k hk hnever
    refine Or.inr ⟨by simp, ?_⟩
    simp only [apply, TokenEffect.apply] at hk
    split at hk
    · change (shared.store.put key none).keys other = some k at hk
      rw [keys_put] at hk
      split at hk
      · cases hk
      · exact ⟨k, hk, hnever⟩
    · exact ⟨k, hk, hnever⟩

/-- A call that returns takes its mark with it. -/
theorem Account.ended {reply : TokenReply}
    (h : Account hashApiKey shared (⟨call, born, l⟩ ::ₘ gs)) (hend : TokenEnd hashApiKey call reply l) :
    Account hashApiKey { shared with returned := ⟨call, born, reply⟩ :: shared.returned } gs where
  store := h.store
  paid key := by
    have hold := h.paid key
    rw [countP_marked_cons] at hold
    have hnew : successes hashApiKey
          { shared with returned := ⟨call, born, reply⟩ :: shared.returned } key =
        successes hashApiKey shared key +
          if succeeds hashApiKey key ⟨call, born, reply⟩ then 1 else 0 :=
      List.countP_cons ..
    rw [hnew]
    split
    · next hsucceeds =>
      have hmarked : l = .marked key := by
        unfold succeeds at hsucceeds
        split at hsucceeds
        · next rawToken token hcall hreply =>
          obtain ⟨hkey, hsingle⟩ := Bool.and_eq_true_iff.mp hsucceeds
          rw [← of_decide_eq_true hkey]
          exact hend.marked rawToken token hcall hreply hsingle
        · cases hsucceeds
      rw [if_pos hmarked] at hold
      change _ ≤ consumptions shared.store.marks key
      omega
    · change _ ≤ consumptions shared.store.marks key
      omega
  fades key k hk hnever := by
    obtain ⟨g, hg, hstate⟩ := h.fades key k hk hnever
    rcases Multiset.mem_cons.mp hg with rfl | hg
    · exact absurd hstate (hend.settled key)
    · exact ⟨g, hg, hstate⟩

/-- A call that is given up owes nothing. -/
theorem Account.failed (h : Account hashApiKey shared (⟨call, born, l⟩ ::ₘ gs))
    (hl : ∀ key, l ≠ .owing key) : Account hashApiKey shared gs where
  store := h.store
  paid key := by
    have hold := h.paid key
    rw [countP_marked_cons] at hold
    omega
  fades key k hk hnever := by
    obtain ⟨g, hg, hstate⟩ := h.fades key k hk hnever
    rcases Multiset.mem_cons.mp hg with rfl | hg
    · exact absurd hstate (hl key)
    · exact ⟨g, hg, hstate⟩

end Accounts

section Runs

variable {hashApiKey : String → String}

/-- Who owes an expiry sets it next. -/
theorem expires_next {c : TokenCall} {p : TokenOp TokenReply} {key : String}
    (h : FollowsToken p (TokenEnd hashApiKey c) (.owing key)) :
    ∃ ttl, p.next? = some (.expire key ttl) := by
  cases p with
  | done reply => exact absurd rfl (h.settled key)
  | step e next =>
      obtain ⟨l', hmove, _⟩ := h .fresh trivial
      cases hmove with
      | expire _ ttl => exact ⟨ttl, rfl⟩

theorem account_preserved :
    Preserved (TokenCall.code hashApiKey) (fun _ l s e l' => TokenMove s l e l') (fun _ => True)
      (TokenEnd hashApiKey) (fun _ => .calling) (fun pool t => timely pool t = true)
      (Account hashApiKey) := by
  constructor
  case code => exact fun _ c _ => follows_code c
  case store => exact fun _ _ _ => trivial
  case start =>
    intro pool gs c _ h _
    constructor
    case store => exact h.store
    case paid =>
      intro key
      rw [countP_marked_cons]
      simpa using h.paid key
    case fades =>
      intro key k hk hnever
      obtain ⟨g, hg, hstate⟩ := h.fades key k hk hnever
      exact ⟨g, Multiset.mem_cons_of_mem hg, hstate⟩
  case move =>
    rintro pool ⟨call, born, l⟩ gs i e l' h hok hnext _ hmove
    cases hmove with
    | clock => exact h.look rfl
    | hgetall key => exact h.look rfl
    | hset key token hnew =>
        have hfresh : ∀ m ∈ pool.store.marks, m.1 ≠ key := by
          simpa [timely, hnext] using hok
        exact h.hset hnew hfresh
    | expire key ttl => exact h.expire
    | taken t hhas => exact h.look (by simp [apply, TokenEffect.apply, hhas])
    | @takes key t hhas =>
        have hforce : unspoilt pool.store key = true := by simpa [timely, hnext] using hok
        exact h.takes hhas hforce
    | delete key => exact h.delete
  case done =>
    rintro pool ⟨call, born, l⟩ gs reply h hend
    exact h.ended hend
  case fail =>
    rintro pool t ⟨call, born, l⟩ gs i h hok ht ⟨_, _, hfollows⟩
    apply h.failed
    rintro key rfl
    obtain ⟨ttl, hexpire⟩ := expires_next hfollows
    have hnext : pool.next? i = some (.expire key ttl) := by simp [Pool.next?, ht, hexpire]
    simp [timely, hnext] at hok
  case outside =>
    intro pool gs e _ h hok
    cases e with
    | timePasses duration => exact ⟨⟨h.store.keys, h.store.once, h.store.rightful⟩, h.paid, h.fades⟩
    | _ => simp [timely, TokenEffect.fromOutside] at hok

theorem account_fresh : Account hashApiKey (Pool.idle .fresh : TokenPool).toShared 0 where
  store :=
    { keys := fun _ _ h => by cases h
      once := fun _ => Nat.zero_le 1
      rightful := fun newer m older h => by cases newer <;> cases h }
  paid key := by simp [successes, consumptions, Pool.idle, TokenStore.fresh]
  fades _ _ h := by cases h

/-- In every timely run a token is consumed at most once, while it is in force, and no hash of a
token stays for ever. -/
theorem single_use {pool : TokenPool}
    (run : Pool.Run (TokenCall.code hashApiKey) (fun pool t => timely pool t = true)
      (Pool.idle .fresh) pool) : SingleUseLaw hashApiKey pool := by
  obtain ⟨gs, hm, h⟩ := account_preserved.run run ⟨0, Pool.matches_idle _, account_fresh⟩
  constructor
  case once =>
    intro key
    have hpaid := h.paid key
    exact ⟨by omega, h.store.once key⟩
  case inTime => exact h.store.rightful
  case fades =>
    intro key k hk hnever
    obtain ⟨g, hg, hstate⟩ := h.fades key k hk hnever
    obtain ⟨t, ht, hmatch⟩ := hm.exists_thread hg
    exact ⟨t, ht, expires_next (hstate ▸ hmatch.follows)⟩

end Runs

section Samples

/-- A single-use token for five minutes. -/
def sampleCreation : Creation where
  apiKey := ⟨1, 1, [.realtime]⟩
  ttl := 300
  scopes := [.realtime]
  tokenType := "realtime"
  singleUse := true
  rawToken := "tk_sample"

/-- A token is created, and two connections try to consume it. -/
def sampleTurns : List (Turn TokenCall TokenEffect) :=
  List.flatten [
    [.start (.create sampleCreation)], List.replicate 4 (.move 0),
    [.start (.consume "tk_sample"), .start (.consume "tk_sample")],
    List.replicate 4 (.move 0), [.outside (.timePasses 1000)], List.replicate 5 (.move 1)]

/-- The token is revoked between the read of a consumption and its write. -/
def revokedMidway : List (Turn TokenCall TokenEffect) :=
  List.flatten [
    [.start (.create sampleCreation)], List.replicate 4 (.move 0),
    [.start (.consume "tk_sample"), .start (.revoke "tk_sample")],
    [.move 0, .move 0, .move 1, .move 1], List.replicate 3 (.move 0)]

end Samples

theorem single_use_sample :
    SingleUseLaw id ((Pool.idle .fresh).turns (TokenCall.code id) sampleTurns) := by
  have hallowed : Pool.Allowed (TokenCall.code id) (fun pool t => timely pool t = true)
      (Pool.idle .fresh) sampleTurns := by
    decide +kernel
  exact single_use (Pool.run_of_allowed hallowed)

/-- A token is consumed after it was revoked, and its hash then stays for ever. -/
theorem consumed_after_revocation :
    ¬ ∀ (hashApiKey : String → String) (pool : TokenPool),
      Pool.Run (TokenCall.code hashApiKey) (fun _ t => anyTurn t = true) (Pool.idle .fresh) pool →
        SingleUseLaw hashApiKey pool := by
  intro hclaim
  have hallowed : Pool.Allowed (TokenCall.code id) (fun _ t => anyTurn t = true)
      (Pool.idle .fresh) revokedMidway := by
    decide +kernel
  have hlaw := hclaim id _ (Pool.run_of_allowed hallowed)
  have hmarks : ((Pool.idle .fresh).turns (TokenCall.code id) revokedMidway).store.marks =
      [] ++ (redisSessionToken "tk_sample", .consumed 0) ::
        [(redisSessionToken "tk_sample", .revoked),
          (redisSessionToken "tk_sample", .created 300000)] := by
    decide +kernel
  exact (hlaw.inTime _ _ _ hmarks).2 List.mem_cons_self

end Dalston.Gateway.Tokens
