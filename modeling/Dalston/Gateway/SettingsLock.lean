import Dalston.Gateway.Settings

/-!
# The optimistic lock of the settings

An update is checked against the newest row timestamp that its process sees, which may
be some seconds old, and is committed some awaits later. A deletion or a reset leaves no
later timestamp. Where the check sees the newest timestamp of the database, that timestamp
is later than all before it, and no other change of the namespace is committed between the
check and the commit, an update is only committed if nothing was committed after the
state that its author saw.
-/

namespace Dalston.Gateway.Settings

open Foundation Model

/-- No version follows one with the timestamp, and none is later. -/
def Unseen (expected : Instant) : List (Option Instant) → Prop
  | [] => True
  | current :: older =>
      some expected ∉ older ∧ ∀ version ∈ current :: older, ∀ updatedAt ∈ version,
        updatedAt ≤ expected

instance (expected : Instant) : ∀ versions, Decidable (Unseen expected versions)
  | [] => isTrue trivial
  | current :: older =>
      inferInstanceAs (Decidable (some expected ∉ older ∧
        ∀ version ∈ current :: older, ∀ updatedAt ∈ version, updatedAt ≤ expected))

/-- The latest version has a later timestamp than all before it. -/
def Advanced : List (Option Instant) → Prop
  | [] => True
  | current :: older => ∀ version ∈ older, ∀ earlier ∈ version, ∃ later ∈ current, earlier < later

instance : ∀ versions, Decidable (Advanced versions)
  | [] => isTrue trivial
  | current :: older =>
      inferInstanceAs (Decidable
        (∀ version ∈ older, ∀ earlier ∈ version, ∃ later ∈ current, earlier < later))

theorem unseen_of_advanced {expected : Instant} {current : Option Instant}
    {older : List (Option Instant)} (h : Advanced (current :: older))
    (hcheck : modifiedAfter expected current = false) : Unseen expected (current :: older) := by
  have hcurrent : ∀ later ∈ current, later ≤ expected := by
    intro later hlater
    simpa [modifiedAfter, Option.mem_def.mp hlater] using hcheck
  have holder : ∀ version ∈ older, ∀ earlier ∈ version, earlier < expected := by
    intro version hversion earlier hearlier
    obtain ⟨later, hlater, hlt⟩ := h version hversion earlier hearlier
    exact hlt.trans_le (hcurrent later hlater)
  constructor
  · intro hmem
    exact absurd (holder _ hmem expected rfl) (lt_irrefl expected)
  · intro version hversion updatedAt hupdated
    rcases List.mem_cons.mp hversion with rfl | hversion
    · exact hcurrent updatedAt hupdated
    · exact (holder version hversion updatedAt hupdated).le

section Conditions

/-- The update that commits next, if it was checked: its namespace and the timestamp. -/
def Request.committing : Request → Option (Scope × Instant)
  | .commitUpdate scope _ _ (some expected) => some (scope, expected)
  | _ => none

/-- A checked update relies on what it has read of the namespace. -/
def Request.relies (scope : Scope) : Request → Bool
  | .putCache _ scope' _ _ (some _) | .selectRow scope' _ (some _)
  | .commitUpdate scope' _ _ (some _) => scope' = scope
  | _ => false

def relying (scope : Scope) (t : SettingsThread) : Bool := t.rest.next?.any (Request.relies scope)

/-- Calls are made and given up in any way. -/
def AnyOrder (_ : SettingsPool) : Turn Call Request → Prop
  | .start _ | .move _ | .fail _ => True
  | .outside r => r.fromOutside = true

/-- What an update is checked against is the newest timestamp, and later than all before. -/
def ReadsLatest (s : SettingsStore) : Request → Prop
  | .readCache process scope (some _) =>
      ∀ entry ∈ s.cached process scope,
        entry.updatedAt = s.updatedAt scope ∧ Advanced (s.versions scope)
  | .selectNamespace scope (some _) => Advanced (s.versions scope)
  | _ => True

/-- No other call relies on the namespace that is changed. -/
def ChangesAlone (pool : SettingsPool) (i : Nat) : Request → Prop
  | .commitUpdate scope _ _ _ | .commitReset scope _ =>
      ∀ t ∈ pool.threads.eraseIdx i, relying scope t = false
  | _ => True

/-- Updates are checked against the latest version, and no change comes between a check and
its commit. -/
def Undisturbed (pool : SettingsPool) : Turn Call Request → Prop
  | .start _ | .fail _ => True
  | .move i => ∀ r ∈ pool.next? i, ReadsLatest pool.store r ∧ ChangesAlone pool i r
  | .outside r => r.fromOutside = true

instance (s : SettingsStore) : ∀ r, Decidable (ReadsLatest s r)
  | .readCache process scope (some _) =>
      inferInstanceAs (Decidable (∀ entry ∈ s.cached process scope,
        entry.updatedAt = s.updatedAt scope ∧ Advanced (s.versions scope)))
  | .selectNamespace scope (some _) => inferInstanceAs (Decidable (Advanced (s.versions scope)))
  | .readCache _ _ none | .selectNamespace _ none | .putCache _ _ _ _ _ | .selectRow _ _ _
  | .commitUpdate _ _ _ _ | .deleteRows _ | .commitReset _ _ | .invalidate _ _ | .timePasses _
  | .processRestarts _ => isTrue trivial

instance (pool : SettingsPool) (i : Nat) : ∀ r, Decidable (ChangesAlone pool i r)
  | .commitUpdate scope _ _ _ | .commitReset scope _ =>
      inferInstanceAs (Decidable (∀ t ∈ pool.threads.eraseIdx i, relying scope t = false))
  | .readCache _ _ _ | .selectNamespace _ _ | .putCache _ _ _ _ _ | .selectRow _ _ _
  | .deleteRows _ | .invalidate _ _ | .timePasses _ | .processRestarts _ => isTrue trivial

instance (pool : SettingsPool) : ∀ turn, Decidable (Undisturbed pool turn)
  | .start _ | .fail _ => isTrue trivial
  | .move i =>
      inferInstanceAs
        (Decidable (∀ r ∈ pool.next? i, ReadsLatest pool.store r ∧ ChangesAlone pool i r))
  | .outside _ => inferInstanceAs (Decidable (_ = _))

instance (pool : SettingsPool) : ∀ turn, Decidable (AnyOrder pool turn)
  | .start _ | .move _ | .fail _ => isTrue trivial
  | .outside _ => inferInstanceAs (Decidable (_ = _))

end Conditions

/-- Where a checked update stands. -/
inductive LockState
  /-- It has not read the namespace, or does not rely on it any more. -/
  | apart
  /-- It has read the newest timestamp. -/
  | looked (seen : Option Instant)
  | passed

def LockState.relies : LockState → Bool
  | apart => false
  | looked _ | passed => true

/-- The request is not one of a checked update. -/
def Request.unchecked : Request → Bool
  | .readCache _ _ check | .selectNamespace _ check | .putCache _ _ _ _ check | .selectRow _ _ check
  | .commitUpdate _ _ _ check => check.isNone
  | .deleteRows _ | .commitReset _ _ | .invalidate _ _ => true
  | .timePasses _ | .processRestarts _ => false

/-- How an update of the namespace moves that is checked against a timestamp. -/
inductive LockMove (process : Nat) (scope : Scope) (expected : Instant) :
    LockState → SettingsStore → Request → LockState → Prop
  | hit (s : SettingsStore) (entry : CacheEntry) (h : s.cached process scope = some entry)
      (hcheck : modifiedAfter expected entry.updatedAt = false) :
      LockMove process scope expected .apart s (.readCache process scope (some expected)) .passed
  | leave (s : SettingsStore) :
      LockMove process scope expected .apart s (.readCache process scope (some expected)) .apart
  | select (s : SettingsStore) :
      LockMove process scope expected .apart s (.selectNamespace scope (some expected))
        (.looked (s.updatedAt scope))
  | pass (s : SettingsStore) (seen : Option Instant) (rows : Dict Json)
      (hcheck : modifiedAfter expected seen = false) :
      LockMove process scope expected (.looked seen) s
        (.putCache process scope rows seen (some expected)) .passed
  | refuse (s : SettingsStore) (seen : Option Instant) (rows : Dict Json) :
      LockMove process scope expected (.looked seen) s
        (.putCache process scope rows seen (some expected)) .apart
  | row (s : SettingsStore) (key : String) (l : LockState) (hl : l = .passed ∨ l = .apart) :
      LockMove process scope expected .passed s (.selectRow scope key (some expected)) l
  | commit (s : SettingsStore) (changes : List Change) (stamp : Instant) :
      LockMove process scope expected .passed s (.commitUpdate scope changes stamp (some expected))
        .apart
  | after (s : SettingsStore) (r : Request) (h : r.unchecked = true) :
      LockMove process scope expected .apart s r .apart

/-- The timestamp a call checks its namespace against. -/
def Call.lock : Call → Option (Nat × Scope × Instant)
  | .update u => u.expectedUpdatedAt.map fun expected => (u.process, u.scope, expected)
  | .get _ _ | .reset _ _ => none

def lockMove (c : Call) : LockState → SettingsStore → Request → LockState → Prop :=
  match c.lock with
  | some (process, scope, expected) => LockMove process scope expected
  | none => fun l _ r l' => r.unchecked = true ∧ l' = l

section Unchecked

/-- Every request of the program is one that checks nothing. -/
abbrev Unchecked {A : Type} (p : Op A) : Prop := p.Only fun r => r.unchecked = true

theorem unchecked_done {A : Type} (a : A) : Unchecked (return a : Op A) := Program.only_done a

theorem unchecked_exec {r : Request} (h : r.unchecked = true) : Unchecked (exec r) :=
  Program.only_perform_bind h fun _ => unchecked_done ()

theorem unchecked_fetchNamespaceRows (process : Nat) (scope : Scope) :
    Unchecked (fetchNamespaceRows process scope none) := by
  refine Program.only_perform_bind rfl fun s => ?_
  show Unchecked (fetchUncached process scope none (s.cached process scope))
  rcases s.cached process scope with _ | entry
  · refine Program.only_perform_bind rfl fun s' => ?_
    exact Program.only_bind (unchecked_exec rfl) fun _ => unchecked_done _
  · exact unchecked_done _

theorem unchecked_getNamespace (registry : SettingsRegistry) (process : Nat) (scope : Scope) :
    Unchecked (getNamespace registry process scope) :=
  Program.only_bind (unchecked_fetchNamespaceRows process scope) fun _ => unchecked_done _

theorem unchecked_finishChange (registry : SettingsRegistry) (process : Nat) (scope : Scope)
    (oldValues : Dict Json) : Unchecked (finishChange registry process scope oldValues) := by
  refine Program.only_bind (unchecked_exec rfl) fun _ => ?_
  exact Program.only_bind (unchecked_getNamespace registry process scope) fun _ => unchecked_done _

theorem unchecked_upsertAll (registry : SettingsRegistry) (scope : Scope) (updatedBy : Nat)
    (pending : Pending) (updates : Dict Json) :
    Unchecked (upsertAll registry scope updatedBy none pending updates) := by
  induction updates generalizing pending with
  | nil => exact unchecked_done _
  | cons update rest ih =>
      refine Program.only_perform_bind rfl fun s => ?_
      split
      · exact unchecked_done _
      · exact ih _

theorem unchecked_commitPending (registry : SettingsRegistry) (process : Nat) (scope : Scope)
    (stamp : Instant) (outcome : Except SettingsError Pending) :
    Unchecked (commitPending registry process scope stamp none outcome) := by
  cases outcome with
  | error error => exact unchecked_done _
  | ok pending =>
      refine Program.only_perform_bind rfl fun s => ?_
      split
      · exact unchecked_done _
      · exact unchecked_finishChange registry process scope _

theorem unchecked_code (registry : SettingsRegistry) {c : Call} (h : c.lock = none) :
    Unchecked (c.code registry) := by
  cases c with
  | get process scope =>
      show Unchecked (getSettings registry process scope)
      unfold getSettings
      split
      · exact unchecked_done _
      · exact Program.only_bind (unchecked_getNamespace registry process scope) fun _ =>
          unchecked_done _
  | update u =>
      have hnone : u.expectedUpdatedAt = none := by simpa [Call.lock] using h
      show Unchecked (updateNamespace registry u)
      unfold updateNamespace
      split
      · exact unchecked_done _
      · rw [hnone, checkUpdate, applyUpdate, hnone]
        exact Program.only_bind (unchecked_upsertAll registry u.scope u.updatedBy _ _)
          (unchecked_commitPending registry u.process u.scope u.stamp)
  | reset process scope =>
      show Unchecked (resetNamespace registry process scope)
      unfold resetNamespace
      split
      · exact unchecked_done _
      · refine Program.only_bind (unchecked_fetchNamespaceRows process scope) fun fetched => ?_
        refine Program.only_perform_bind rfl fun s => ?_
        refine Program.only_bind (unchecked_exec rfl) fun _ => ?_
        exact unchecked_finishChange registry process scope _

end Unchecked

section Protocol

variable {registry : SettingsRegistry} {process : Nat} {scope : Scope} {expected : Instant}
  {J : SettingsStore → Prop}

theorem follows_finishChange (oldValues : Dict Json) :
    (finishChange registry process scope oldValues).Follows (LockMove process scope expected) J
      (fun _ l => l.relies = false) .apart := by
  refine Program.follows_of_only (unchecked_finishChange registry process scope oldValues) ?_ ?_
  · exact fun s r hr => .after s r hr
  · exact fun _ => rfl

/-- Where an update stands after its rows were fetched. -/
def LockState.upserted : Except SettingsError Pending → LockState
  | .error _ => apart
  | .ok _ => passed

theorem follows_upsertAll (updatedBy : Nat) (pending : Pending) (updates : Dict Json) :
    (upsertAll registry scope updatedBy (some expected) pending updates).Follows
      (LockMove process scope expected) J (fun outcome l => l = .upserted outcome) .passed := by
  induction updates generalizing pending with
  | nil => rfl
  | cons update rest ih =>
      apply Program.follows_perform_bind.mpr
      intro s _
      split
      · exact ⟨.apart, .row s update.1 .apart (Or.inr rfl), rfl⟩
      · exact ⟨.passed, .row s update.1 .passed (Or.inl rfl), ih _⟩

theorem follows_commitPending (stamp : Instant) (outcome : Except SettingsError Pending) :
    (commitPending registry process scope stamp (some expected) outcome).Follows
      (LockMove process scope expected) J (fun _ l => l.relies = false) (.upserted outcome) := by
  cases outcome with
  | error error => rfl
  | ok pending =>
      apply Program.follows_perform_bind.mpr
      intro s _
      refine ⟨.apart, .commit s pending.changes stamp, ?_⟩
      split
      · rfl
      · exact follows_finishChange _

theorem follows_applyUpdate {u : Update} (h : u.expectedUpdatedAt = some expected) :
    (applyUpdate registry u).Follows (LockMove u.process u.scope expected) J
      (fun _ l => l.relies = false) .passed := by
  rw [applyUpdate, h]
  apply Program.follows_bind.mpr
  apply Program.follows_mono (follows_upsertAll u.updatedBy _ u.updates)
  rintro outcome l rfl
  exact follows_commitPending u.stamp outcome

/-- Where an update stands after its check. -/
def LockState.judged (expected : Instant) (seen : Option Instant) : LockState :=
  if modifiedAfter expected seen then apart else passed

theorem follows_fetchNamespaceRows :
    (fetchNamespaceRows process scope (some expected)).Follows (LockMove process scope expected) J
      (fun fetched l => l = .judged expected fetched.2) .apart := by
  apply Program.follows_perform_bind.mpr
  intro s _
  show ∃ l, _ ∧ (fetchUncached process scope (some expected) (s.cached process scope)).Follows
    (LockMove process scope expected) J _ l
  rcases hcached : s.cached process scope with _ | entry
  · refine ⟨.apart, .leave s, ?_⟩
    apply Program.follows_perform_bind.mpr
    intro s' _
    refine ⟨.looked (s'.updatedAt scope), .select s', ?_⟩
    apply follows_exec.mpr
    intro s'' _
    rcases hcheck : modifiedAfter expected (s'.updatedAt scope) with _ | _
    · exact ⟨.passed, .pass s'' _ _ hcheck, by simp [LockState.judged, hcheck]⟩
    · exact ⟨.apart, .refuse s'' _ _, by simp [LockState.judged, hcheck]⟩
  · rcases hcheck : modifiedAfter expected entry.updatedAt with _ | _
    · exact ⟨.passed, .hit s entry hcached hcheck, by simp [fetchUncached, LockState.judged, hcheck]⟩
    · exact ⟨.apart, .leave s, by simp [fetchUncached, LockState.judged, hcheck]⟩

theorem follows_checkUpdate {u : Update} (h : u.expectedUpdatedAt = some expected) :
    (checkUpdate registry u (some expected)).Follows (LockMove u.process u.scope expected) J
      (fun _ l => l.relies = false) .apart := by
  apply Program.follows_bind.mpr
  apply Program.follows_mono follows_fetchNamespaceRows
  rintro fetched l rfl
  unfold applyChecked LockState.judged
  split
  · rfl
  · exact follows_applyUpdate h

theorem follows_lock (c : Call) :
    (c.code registry).Follows (lockMove c) J (fun _ l => l.relies = false) .apart := by
  rcases hlock : c.lock with _ | ⟨process, scope, expected⟩
  · have hmove : lockMove c = fun l _ r l' => r.unchecked = true ∧ l' = l := by
      simp [lockMove, hlock]
    rw [hmove]
    exact Program.follows_of_only (unchecked_code registry hlock) (fun _ _ hr => ⟨hr, rfl⟩)
      fun _ => rfl
  · cases c with
    | get | reset => cases hlock
    | update u =>
        obtain ⟨expected', hexpected, heq⟩ := Option.map_eq_some_iff.mp hlock
        obtain ⟨rfl, rfl, rfl⟩ : u.process = process ∧ u.scope = scope ∧ expected' = expected := by
          simpa using heq
        have hmove : lockMove (.update u) = LockMove u.process u.scope expected' := by
          simp [lockMove, hlock]
        rw [hmove]
        show (updateNamespace registry u).Follows _ J _ _
        unfold updateNamespace
        split
        · rfl
        · rw [hexpected]
          exact follows_checkUpdate hexpected

end Protocol

section Frames

variable {s : SettingsStore} {scope scope' : Scope} {r : Request}

/-- The namespace the request changes. -/
def Request.changes : Request → Option Scope
  | .commitUpdate scope _ _ _ | .commitReset scope _ => some scope
  | _ => none

/-- The rows and the versions of the namespace are what they were. -/
structure Unchanged (scope : Scope) (s s' : SettingsStore) : Prop where
  rows : s'.rowsOf scope = s.rowsOf scope
  versions : s'.versions scope = s.versions scope

theorem Unchanged.updatedAt {s' : SettingsStore} (h : Unchanged scope s s') :
    s'.updatedAt scope = s.updatedAt scope := by
  rw [SettingsStore.updatedAt, h.rows, SettingsStore.updatedAt]

theorem rowsOf_map {f : SettingRow → SettingRow} (hscope : ∀ row, (f row).scope = row.scope)
    (hsame : ∀ row, row.scope = scope → f row = row) (rows : List SettingRow) :
    (rows.map f).filter (fun row => row.scope = scope) =
      rows.filter fun row => row.scope = scope := by
  induction rows with
  | nil => rfl
  | cons row rest ih =>
      by_cases hrow : row.scope = scope
      · simp [hrow, hsame row hrow, ih]
      · simp [hrow, hscope row, ih]

theorem unchanged_change (h : scope' ≠ scope) (stamp : Instant) (change : Change) :
    Unchanged scope s (s.change scope' stamp change) := by
  refine ⟨?_, by cases change <;> rfl⟩
  cases change with
  | delete id =>
      simp only [SettingsStore.rowsOf, SettingsStore.change, List.filter_filter]
      refine List.filter_congr fun row _ => ?_
      by_cases hrow : row.scope = scope <;> simp [hrow, Ne.symm h]
  | write id value updatedBy =>
      refine rowsOf_map (fun row => ?_) (fun row hrow => ?_) s.rows
      · split <;> rfl
      · exact if_neg fun hwritten => h (hwritten.1.1.symm.trans hrow)
  | insert key value updatedBy =>
      simp [SettingsStore.rowsOf, SettingsStore.change, h]

theorem unchanged_changes (h : scope' ≠ scope) (stamp : Instant) (changes : List Change) :
    Unchanged scope s (changes.foldl (SettingsStore.change scope' stamp) s) := by
  induction changes generalizing s with
  | nil => exact ⟨rfl, rfl⟩
  | cons change rest ih =>
      have hfirst : Unchanged scope s (s.change scope' stamp change) :=
        unchanged_change h stamp change
      have hrest := @ih (s.change scope' stamp change)
      exact ⟨hrest.rows.trans hfirst.rows, hrest.versions.trans hfirst.versions⟩

theorem unchanged_addVersion (h : scope' ≠ scope) : Unchanged scope s (s.addVersion scope') :=
  ⟨rfl, if_neg (Ne.symm h)⟩

theorem unchanged_apply (h : r.changes ≠ some scope) : Unchanged scope s (apply r s) := by
  cases r with
  | commitUpdate scope' changes stamp check =>
      have hne : scope' ≠ scope := fun heq => h (congrArg some heq)
      simp only [apply, Request.apply]
      split
      · exact ⟨rfl, rfl⟩
      · let s' := changes.foldl (SettingsStore.change scope' stamp) s
        have hchanges : Unchanged scope s s' := unchanged_changes hne stamp changes
        have hversion : Unchanged scope s' (s'.addVersion scope') := unchanged_addVersion hne
        exact ⟨hversion.rows.trans hchanges.rows, hversion.versions.trans hchanges.versions⟩
  | commitReset scope' ids =>
      have hne : scope' ≠ scope := fun heq => h (congrArg some heq)
      refine ⟨?_, if_neg (Ne.symm hne)⟩
      simp only [SettingsStore.rowsOf, apply, Request.apply, SettingsStore.addVersion,
        List.filter_filter]
      refine List.filter_congr fun row _ => ?_
      by_cases hrow : row.scope = scope <;> simp [hrow, Ne.symm hne]
  | readCache | selectNamespace | putCache | selectRow | deleteRows | invalidate | timePasses
  | processRestarts => exact ⟨rfl, rfl⟩

/-- The latest version of a namespace is the newest timestamp of its rows. -/
def Recorded (s : SettingsStore) : Prop :=
  ∀ scope, (s.versions scope).head? = some (s.updatedAt scope)

theorem head_addVersion : ((s.addVersion scope).versions scope).head? =
    some ((s.addVersion scope).updatedAt scope) := by
  simp [SettingsStore.addVersion, SettingsStore.updatedAt, SettingsStore.rowsOf]

theorem recorded_apply (h : Recorded s) : Recorded (apply r s) := by
  intro other
  by_cases hchanges : r.changes = some other
  · cases r with
    | commitUpdate scope' changes stamp check =>
        obtain rfl : scope' = other := Option.some.inj hchanges
        simp only [apply, Request.apply]
        split
        · exact h scope'
        · exact head_addVersion
    | commitReset scope' ids =>
        obtain rfl : scope' = other := Option.some.inj hchanges
        exact head_addVersion
    | _ => cases hchanges
  · have hsame : Unchanged other s (apply r s) := unchanged_apply hchanges
    rw [hsame.versions, hsame.updatedAt]
    exact h other

end Frames

section Runs

variable {registry : SettingsRegistry}

/-- What a checked update knows where it stands. -/
def LockState.Sound (s : SettingsStore) (scope : Scope) (expected : Instant) : LockState → Prop
  | apart => True
  | looked seen => seen = s.updatedAt scope ∧ Advanced (s.versions scope)
  | passed => Unseen expected (s.versions scope)

theorem LockState.Sound.frame {s s' : SettingsStore} {scope : Scope} {expected : Instant}
    {l : LockState} (h : l.Sound s scope expected) (hsame : Unchanged scope s s') :
    l.Sound s' scope expected := by
  cases l with
  | apart => trivial
  | looked seen => exact ⟨h.1.trans hsame.updatedAt.symm, hsame.versions ▸ h.2⟩
  | passed =>
      show Unseen expected (s'.versions scope)
      rw [hsame.versions]
      exact h

theorem LockState.sound_of_apart {s : SettingsStore} {scope : Scope} {expected : Instant}
    {l : LockState} (h : l.relies = false) : l.Sound s scope expected := by
  cases l with
  | apart => trivial
  | looked | passed => cases h

/-- A checked update that relies on its namespace shows it by its next request. -/
theorem relying_of_matches {t : SettingsThread} {g : Local Call SettingsStore LockState}
    (h : t.Matches lockMove (fun _ => True) (fun _ _ l => l.relies = false) g) {process : Nat}
    {scope : Scope} {expected : Instant} (hlock : g.call.lock = some (process, scope, expected))
    (hrelies : g.state.relies = true) (s : SettingsStore) : relying scope t = true := by
  have hmove : lockMove g.call = LockMove process scope expected := by simp [lockMove, hlock]
  have hfollows := h.follows
  rw [hmove] at hfollows
  cases hnext : t.rest.next? with
  | none =>
      obtain ⟨_, hend⟩ := Program.follows_end hfollows hnext
      rw [hrelies] at hend
      cases hend
  | some r =>
      obtain ⟨l, hl⟩ := Program.follows_next hfollows (s := s) trivial hnext
      generalize g.state = l₀ at hrelies hl
      cases hl with
      | pass | refuse | row | commit => simp [relying, hnext, Request.relies]
      | _ => cases hrelies

/-- The move of a checked update keeps what it knows. -/
theorem LockMove.sound {process : Nat} {scope : Scope} {expected : Instant} {l l' : LockState}
    {s : SettingsStore} {r : Request} (h : LockMove process scope expected l s r l')
    (hrecorded : Recorded s) (hl : l.Sound s scope expected) (hreads : ReadsLatest s r) :
    l'.Sound (apply r s) scope expected := by
  obtain ⟨older, hversions⟩ : ∃ older, s.versions scope = s.updatedAt scope :: older :=
    List.head?_eq_some_iff.mp (hrecorded scope)
  cases h with
  | hit _ entry hcached hcheck =>
      obtain ⟨hlatest, hadvanced⟩ := hreads entry hcached
      show Unseen expected (s.versions scope)
      rw [hversions] at hadvanced ⊢
      exact unseen_of_advanced hadvanced (hlatest ▸ hcheck)
  | select => exact ⟨rfl, hreads⟩
  | pass _ seen rows hcheck =>
      obtain ⟨rfl, hadvanced⟩ := hl
      show Unseen expected (s.versions scope)
      rw [hversions] at hadvanced ⊢
      exact unseen_of_advanced hadvanced hcheck
  | row _ key l hpassed =>
      rcases hpassed with rfl | rfl
      · exact hl
      · trivial
  | leave | refuse | commit | after => trivial

/-- Every checked update knows that its namespace is as its author saw it. -/
structure Ledger (s : Shared Call Request SettingsStore Reply)
    (gs : Multiset (Local Call SettingsStore LockState)) : Prop where
  recorded : Recorded s.store
  sound : ∀ g ∈ gs, ∀ process scope expected, g.call.lock = some (process, scope, expected) →
    g.state.Sound s.store scope expected

/-- A checked update that commits next has passed its check. -/
theorem Ledger.committing {s : Shared Call Request SettingsStore Reply}
    {gs : Multiset (Local Call SettingsStore LockState)} (h : Ledger s gs)
    {g : Local Call SettingsStore LockState} (hg : g ∈ gs) {r : Request} {l : LockState}
    (hmove : lockMove g.call g.state s.store r l) {scope : Scope} {expected : Instant}
    (hr : r.committing = some (scope, expected)) : Unseen expected (s.store.versions scope) := by
  cases r with
  | commitUpdate scope' changes stamp check =>
      cases check with
      | none => cases hr
      | some expected' =>
          obtain ⟨rfl, rfl⟩ := Prod.mk.inj (Option.some.inj hr)
          rcases hlock : g.call.lock with _ | ⟨process, scope, expected⟩
          · rw [lockMove, hlock] at hmove
            cases hmove.1
          · have hsound := h.sound g hg process scope expected hlock
            rw [lockMove, hlock] at hmove
            generalize g.state = l₀ at hsound hmove
            cases hmove with
            | commit => exact hsound
            | after _ _ hunchecked => cases hunchecked
  | _ => cases hr

theorem ledger_preserved :
    Preserved (Call.code registry) lockMove (fun _ => True) (fun _ _ l => l.relies = false)
      (fun _ => .apart) Undisturbed Ledger := by
  constructor
  case code =>
    intro pool c _
    exact follows_lock c
  case store =>
    intro s gs _
    trivial
  case start =>
    intro pool gs c _ h _
    refine ⟨h.recorded, fun g hg process scope expected hlock => ?_⟩
    rcases Multiset.mem_cons.mp hg with rfl | hg
    · trivial
    · exact h.sound g hg process scope expected hlock
  case move =>
    intro pool g gs i r l h hok hnext hothers hmove
    obtain ⟨hreads, halone⟩ := hok r hnext
    refine ⟨recorded_apply h.recorded, fun g' hg' process scope expected hlock => ?_⟩
    rcases Multiset.mem_cons.mp hg' with rfl | hg'
    · have hlockMove : lockMove g.call = LockMove process scope expected := by
        simp [lockMove, show g.call.lock = _ from hlock]
      rw [hlockMove] at hmove
      have hl := h.sound g (Multiset.mem_cons_self g gs) process scope expected hlock
      exact hmove.sound h.recorded hl hreads
    · have hl := h.sound g' (Multiset.mem_cons_of_mem hg') process scope expected hlock
      by_cases hchanges : r.changes = some scope
      · obtain ⟨t, ht, hmatch⟩ := Thread.exists_matching hothers hg'
        have hquiet : relying scope t = false := by
          cases r with
          | commitUpdate scope' | commitReset scope' =>
              obtain rfl : scope' = scope := Option.some.inj hchanges
              exact halone t ht
          | _ => cases hchanges
        apply LockState.sound_of_apart
        by_contra hrelies
        have hbusy := relying_of_matches hmatch hlock (by simpa using hrelies) pool.store
        rw [hquiet] at hbusy
        cases hbusy
      · exact hl.frame (unchanged_apply hchanges)
  case done =>
    intro pool g gs a h _
    exact ⟨h.recorded, fun g' hg' => h.sound g' (Multiset.mem_cons_of_mem hg')⟩
  case fail =>
    intro pool t g gs i h _ _ _
    exact ⟨h.recorded, fun g' hg' => h.sound g' (Multiset.mem_cons_of_mem hg')⟩
  case outside =>
    intro pool gs r _ h hok
    refine ⟨recorded_apply h.recorded, fun g hg process scope expected hlock => ?_⟩
    have hunchanged : r.changes ≠ some scope := by
      intro hchanges
      cases r with
      | commitUpdate | commitReset => cases hok
      | _ => cases hchanges
    exact (h.sound g hg process scope expected hlock).frame (unchanged_apply hunchanged)

/-- In every run in which updates are checked against the latest version and no change comes
between a check and its commit, a checked update that commits has missed no change. -/
theorem unseen_of_undisturbed {start : SettingsStore} {pool : SettingsPool}
    (hstart : Recorded start)
    (run : Pool.Run (Call.code registry) Undisturbed (Pool.idle start) pool) {i : Nat}
    {r : Request} (h : pool.next? i = some r) {scope : Scope} {expected : Instant}
    (hr : r.committing = some (scope, expected)) : Unseen expected (pool.store.versions scope) := by
  have hidle : Ledger (Pool.idle start : SettingsPool).toShared 0 := by
    refine ⟨hstart, fun g hg => ?_⟩
    exact absurd hg (Multiset.notMem_zero g)
  obtain ⟨gs, hm, hledger⟩ := ledger_preserved.run run ⟨0, Pool.matches_idle _, hidle⟩
  obtain ⟨t, ht, hnext⟩ := Option.bind_eq_some_iff.mp h
  obtain ⟨g, rest, rfl, hmatch, _⟩ := hm.split ht
  obtain ⟨l, hmove⟩ := Program.follows_next hmatch.follows (s := pool.store) trivial hnext
  exact hledger.committing (Multiset.mem_cons_self g rest) hmove hr

end Runs

section Samples

def audioScope : Scope := ⟨none, "audio"⟩

def sizeDefinition : SettingDefinition where
  key := "url_max_size_gb"
  valueType := .int
  minValue := some 1
  maxValue := some 50
  options := none
  nullable := false
  envDefault := .num 3

def audioRegistry : SettingsRegistry where
  editable ns := if ns = "audio" then some true else none
  definitions ns := if ns = "audio" then [sizeDefinition] else []

def sizeRow : SettingRow := ⟨1, audioScope, "url_max_size_gb", .num 2, none, 5⟩

/-- A store with no history. -/
def settingsStore (rows : List SettingRow) : SettingsStore where
  now := 10
  nextId := 2
  rows
  caches _ _ := none
  versions scope := [SettingsStore.latest (rows.filter fun row => row.scope = scope)]

theorem recorded_settingsStore (rows : List SettingRow) : Recorded (settingsStore rows) :=
  fun _ => rfl

/-- Another process updates what its author saw at time 5. -/
def sizeUpdate : Update where
  process := 1
  scope := audioScope
  updates := [("url_max_size_gb", .num 4)]
  updatedBy := 7
  expectedUpdatedAt := some 5
  stamp := 9

/-- An update up to its commit. -/
def updateTurns : List (Turn Call Request) :=
  .start (.update sizeUpdate) :: List.replicate 4 (.move 0)

/-- A reset commits before the same update is made. -/
def resetTurns : List (Turn Call Request) :=
  .start (.reset 0 audioScope) :: List.replicate 5 (.move 0) ++
    .start (.update sizeUpdate) :: List.replicate 4 (.move 1)

def sizePool (turns : List (Turn Call Request)) : SettingsPool :=
  (Pool.idle (settingsStore [sizeRow])).turns (Call.code audioRegistry) turns

end Samples

theorem unseen_of_undisturbed_sample :
    (∃ r ∈ (sizePool updateTurns).next? 0, r.committing = some (audioScope, 5)) ∧
      Unseen 5 ((sizePool updateTurns).store.versions audioScope) := by
  have hallowed : Pool.Allowed (Call.code audioRegistry) Undisturbed
      (Pool.idle (settingsStore [sizeRow])) updateTurns := by
    decide +kernel
  have hcommits : ∃ r ∈ (sizePool updateTurns).next? 0, r.committing = some (audioScope, 5) := by
    decide +kernel
  refine ⟨hcommits, ?_⟩
  obtain ⟨r, hr, hcommitting⟩ := hcommits
  exact unseen_of_undisturbed (recorded_settingsStore _) (Pool.run_of_allowed hallowed) hr
    hcommitting

/-- A checked update commits after a reset that its author has not seen. -/
theorem reset_overwritten :
    ¬ ∀ (registry : SettingsRegistry) (start : SettingsStore) (pool : SettingsPool),
      Recorded start → Pool.Run (Call.code registry) AnyOrder (Pool.idle start) pool →
        ∀ (i : Nat) (r : Request), pool.next? i = some r →
          ∀ scope expected, r.committing = some (scope, expected) →
            Unseen expected (pool.store.versions scope) := by
  intro hclaim
  have hallowed : Pool.Allowed (Call.code audioRegistry) AnyOrder
      (Pool.idle (settingsStore [sizeRow])) resetTurns := by
    decide +kernel
  obtain ⟨r, hr, hcommitting⟩ :
      ∃ r ∈ (sizePool resetTurns).next? 1, r.committing = some (audioScope, 5) := by
    decide +kernel
  have hseen : ¬ Unseen 5 ((sizePool resetTurns).store.versions audioScope) := by
    decide +kernel
  exact hseen (hclaim _ _ _ (recorded_settingsStore _) (Pool.run_of_allowed hallowed) 1 r hr _ _
    hcommitting)

end Dalston.Gateway.Settings
