import Dalston.Orchestrator.PurgeExclusion

/-!
# Retention of jobs and sessions

The sweeps go by one column, the purge time of an owner. Nothing that ends a job
sets it, so a job is never purged. The end of a session sets it from the
session's retention, but the recorders of the realtime engines store artifacts
under the text of the session id, which is not the prefix the purge deletes.

Where a job that ends is permanent, and a session that is not permanent stores
nothing, the sweeps keep what the retentions promise.
-/

namespace Dalston.Orchestrator.Cleanup

open Foundation Model

/-- The retention of the owner has elapsed. -/
def OwnerRow.Elapsed {kind : OwnerKind} (row : OwnerRow kind) (now : Nat) : Prop :=
  OwnerStatus.terminal row.status = true ∧ row.retention ≠ RETENTION_PERMANENT ∧
    ∃ endedAt ttlSeconds, row.endedAt = some endedAt ∧
      retentionToTtlSeconds row.retention = some ttlSeconds ∧ endedAt + ttlSeconds.toNat * 1000 ≤ now

/-- The key is one of an artifact of the owner. -/
def ArtifactOf : OwnerKind → Uuid → ObjectKey → Prop
  | .job, id, key => key.kind = .job ∧ key.folder = uuidText id
  | .session, id, key => key.kind = .session ∧ parseSessionId key.folder = some id

namespace CleanupState

/-- What the retentions promise. -/
structure Retained (s : CleanupState) : Prop where
  /-- Only an owner whose retention has elapsed is purged. -/
  purging : ∀ w item takenAt step, s.workers w = .inside item takenAt step →
    ∃ row ∈ (s.owners item.kind).rows, row.id = item.id ∧ row.Elapsed s.now
  purged : ∀ kind, ∀ row ∈ (s.owners kind).rows, ∀ t, row.purgedAt = some t → row.Elapsed t
  /-- A sweep selects what has elapsed, unless its batch is full of what is due no later. -/
  selected : ∀ kind, ∀ row ∈ (s.owners kind).rows, row.Elapsed s.now → row.purgedAt = none →
    row.id ∈ s.batch kind ∨ (s.batch kind).length = s.batchSize ∧
      ∀ row' ∈ (s.owners kind).expired s.now s.batchSize, row'.purgeAfter ≤ row.purgeAfter
  /-- A sweep that is done with an owner, without an error, has purged it. -/
  reached : ∀ w item takenAt, s.workers w = .releasing item takenAt .finished →
    s.Purged item.kind item.id
  /-- Nothing is stored for a purged owner. -/
  clean : ∀ kind id, s.Purged kind id → ∀ key ∈ s.objects, ¬ArtifactOf kind id key

/-- A job that ends is permanent, and a session that is not permanent stores nothing. -/
def Unstored (s : CleanupState) : CleanupAction → Prop
  | .jobStatus id status => status.terminal = true →
      ∀ row ∈ (s.owners .job).rows, row.id = id → row.retention = RETENTION_PERMANENT
  | .createSession sessionId retention => retention = RETENTION_PERMANENT ∨
      ∀ id, parseSessionId sessionId = some id → ∀ key ∈ s.objects, ¬ArtifactOf .session id key
  | .storeForSession sessionId _ => ∀ row ∈ (s.owners .session).rows,
      parseSessionId sessionId = some row.id → row.retention = RETENTION_PERMANENT
  | _ => True

end CleanupState

section PurgeTimes

variable {retention : Int} {endedAt p : Nat}

theorem computePurgeAfter_eq_some_iff : computePurgeAfter retention endedAt = some p ↔
    retention ≠ RETENTION_PERMANENT ∧ ∃ ttlSeconds, retentionToTtlSeconds retention = some ttlSeconds ∧
      endedAt + ttlSeconds.toNat * 1000 = p := by
  unfold computePurgeAfter retentionToTtlSeconds
  by_cases htransient : retention = RETENTION_TRANSIENT
  · subst htransient
    simp [RETENTION_TRANSIENT, RETENTION_PERMANENT]
  · by_cases hpermanent : retention = RETENTION_PERMANENT
    · simp [hpermanent, RETENTION_TRANSIENT, RETENTION_PERMANENT]
    · have hdays : retention * SECONDS_PER_DAY ≠ 0 :=
        mul_ne_zero htransient (by decide)
      simp [htransient, hpermanent, hdays]

end PurgeTimes

/-- The purge time of a row is that of its retention and its end. -/
structure OwnerRow.Sound {kind : OwnerKind} (row : OwnerRow kind) : Prop where
  scheduled : ∀ p, row.purgeAfter = some p → OwnerStatus.terminal row.status = true ∧
    ∃ endedAt, row.endedAt = some endedAt ∧ computePurgeAfter row.retention endedAt = some p
  due : ∀ endedAt p, row.endedAt = some endedAt →
    computePurgeAfter row.retention endedAt = some p → row.purgeAfter = some p
  purged : ∀ t, row.purgedAt = some t → ∃ p, row.purgeAfter = some p ∧ p ≤ t

namespace OwnerRow

variable {kind : OwnerKind} {row : OwnerRow kind} {now p : Nat}

theorem Sound.elapsed (h : row.Sound) (hp : row.purgeAfter = some p) (hle : p ≤ now) :
    row.Elapsed now := by
  obtain ⟨hterminal, endedAt, hended, hcompute⟩ := h.scheduled p hp
  obtain ⟨hpermanent, ttlSeconds, httl, rfl⟩ := computePurgeAfter_eq_some_iff.mp hcompute
  exact ⟨hterminal, hpermanent, endedAt, ttlSeconds, hended, httl, hle⟩

theorem Sound.purgeAfter_of_elapsed (h : row.Sound) (helapsed : row.Elapsed now) :
    ∃ p, row.purgeAfter = some p ∧ p ≤ now := by
  obtain ⟨-, hpermanent, endedAt, ttlSeconds, hended, httl, hle⟩ := helapsed
  have hcompute : computePurgeAfter row.retention endedAt =
      some (endedAt + ttlSeconds.toNat * 1000) :=
    computePurgeAfter_eq_some_iff.mpr ⟨hpermanent, ttlSeconds, httl, rfl⟩
  exact ⟨_, h.due endedAt _ hended hcompute, hle⟩

theorem sound_created (id : Uuid) (status : OwnerStatus kind) (retention : Int) :
    (created id status retention).Sound := by
  constructor <;> simp [created]

/-- A permanent job, or one that goes on, stays without a purge time. -/
theorem Sound.jobStatus {row : OwnerRow .job} (h : row.Sound) (hnone : row.purgeAfter = none)
    {status : JobStatus} (hpermanent : status.terminal = true → row.retention = RETENTION_PERMANENT) :
    (row.jobStatus now status).Sound := by
  constructor
  case scheduled =>
    intro p hp
    have : row.purgeAfter = some p := hp
    rw [hnone] at this
    cases this
  case due =>
    intro endedAt p hended hcompute
    by_cases hterminal : status.terminal = true
    · exact absurd (hpermanent hterminal) (computePurgeAfter_eq_some_iff.mp hcompute).1
    · refine h.due endedAt p ?_ hcompute
      simpa [OwnerRow.jobStatus, hterminal] using hended
  case purged =>
    intro t ht
    obtain ⟨p, hp, -⟩ := h.purged t ht
    rw [hnone] at hp
    cases hp

theorem Sound.active {row : OwnerRow .session} (h : row.Sound) (hactive : row.status = .active) :
    row.purgeAfter = none ∧ row.purgedAt = none := by
  have hnone : row.purgeAfter = none := by
    cases hp : row.purgeAfter with
    | none => rfl
    | some p =>
        have hterminal := (h.scheduled p hp).1
        rw [hactive] at hterminal
        cases hterminal
  refine ⟨hnone, ?_⟩
  cases ht : row.purgedAt with
  | none => rfl
  | some t =>
      obtain ⟨p, hp, -⟩ := h.purged t ht
      rw [hnone] at hp
      cases hp

theorem Sound.finalize {row : OwnerRow .session} (h : row.Sound) (status : SessionStatus) :
    (row.finalize now status).Sound := by
  unfold OwnerRow.finalize
  split
  case isTrue hfinal =>
    obtain ⟨hactive, hterminal⟩ := hfinal
    constructor
    case scheduled => exact fun p hp => ⟨hterminal, now, rfl, hp⟩
    case due =>
      intro endedAt p hended hcompute
      obtain rfl := Option.some.inj hended
      exact hcompute
    case purged =>
      intro t ht
      have hnone := (h.active hactive).2
      have hsome : row.purgedAt = some t := ht
      rw [hnone] at hsome
      cases hsome
  case isFalse => exact h

/-- What is due when a session is finalised has been finalised before. -/
theorem Sound.finalize_of_purgeAfter {row : OwnerRow .session} (h : row.Sound)
    (status : SessionStatus) (hp : row.purgeAfter = some p) : row.finalize now status = row := by
  unfold OwnerRow.finalize
  rw [if_neg]
  rintro ⟨hactive, -⟩
  rw [(h.active hactive).1] at hp
  cases hp

theorem Sound.mark (h : row.Sound) {t : Nat} (hp : row.purgeAfter = some p) (hle : p ≤ t) :
    ({ row with purgedAt := some t } : OwnerRow kind).Sound where
  scheduled := h.scheduled
  due := h.due
  purged t' ht' := by
    obtain rfl := Option.some.inj ht'
    exact ⟨p, hp, hle⟩

end OwnerRow

namespace CleanupState

/-- The purge time of the owner is at the time or before it. -/
def DueBy (s : CleanupState) (kind : OwnerKind) (id : Uuid) (t : Nat) : Prop :=
  ∃ row ∈ (s.owners kind).rows, row.id = id ∧ ∃ p, row.purgeAfter = some p ∧ p ≤ t

/-- The owner whose purge the worker has committed, or has found committed. -/
def committed? : PurgeStage → Option (OwnerKind × Uuid)
  | .inside item _ .committed | .inside item _ .auditing | .releasing item _ .finished =>
      some (item.kind, item.id)
  | _ => none

/-- What a worker knows of the owner at hand and of those that are still to come. -/
structure Informed (s : CleanupState) (stage : PurgeStage) : Prop where
  pending : ∀ kind id, id ∈ stage.pending kind → s.DueBy kind id s.now
  committing : ∀ (item : PurgeItem) takenAt t, stage = .inside item takenAt (.committing t) →
    s.DueBy item.kind item.id t
  committed : ∀ kind id, committed? stage = some (kind, id) → s.Purged kind id

/-- Rows are sound, jobs have no purge time, and sessions that are not permanent store nothing. -/
structure Orderly (s : CleanupState) : Prop where
  sound : ∀ kind, ∀ row ∈ (s.owners kind).rows, row.Sound
  jobs : ∀ row ∈ (s.owners .job).rows, row.purgeAfter = none
  informed : ∀ w, s.Informed (s.workers w)
  unstored : ∀ row ∈ (s.owners .session).rows, row.retention ≠ RETENTION_PERMANENT →
    ∀ key ∈ s.objects, ¬ArtifactOf .session row.id key

variable {s s' : CleanupState} {w : Nat} {kind : OwnerKind} {id : Uuid} {t : Nat}
  {stage : PurgeStage}

theorem DueBy.mono {t' : Nat} (h : s.DueBy kind id t) (hle : t ≤ t') : s.DueBy kind id t' := by
  obtain ⟨row, hrow, hid, p, hp, hpt⟩ := h
  exact ⟨row, hrow, hid, p, hp, hpt.trans hle⟩

theorem dueBy_of_mem_batch (h : id ∈ s.batch kind) : s.DueBy kind id s.now := by
  obtain ⟨row, hrow, rfl⟩ := List.mem_map.mp h
  obtain ⟨hmem, hdue⟩ := Table.mem_select.mp (List.mem_of_mem_take hrow)
  rw [Bool.and_eq_true, Option.any_eq_true] at hdue
  obtain ⟨⟨p, hp, hle⟩, -⟩ := hdue
  exact ⟨row, hmem, rfl, p, hp, of_decide_eq_true hle⟩

/-- What a worker knows stays true while purge times and purge marks stay. -/
theorem Informed.mono (h : s.Informed stage) (hnow : s.now ≤ s'.now)
    (hdue : ∀ kind id t, s.DueBy kind id t → s'.DueBy kind id t)
    (hpurged : ∀ kind id, s.Purged kind id → s'.Purged kind id) : s'.Informed stage where
  pending kind id hid := (hdue kind id _ (h.pending kind id hid)).mono hnow
  committing item takenAt t hstage := hdue _ _ _ (h.committing item takenAt t hstage)
  committed kind id hcommitted := hpurged kind id (h.committed kind id hcommitted)

/-- A worker that goes by no lock, or is before its commit, knows of purge times alone. -/
theorem informed_of_pending (hpending : ∀ kind id, id ∈ stage.pending kind → s.DueBy kind id s.now)
    (hcommitting : ∀ item takenAt t, stage ≠ .inside item takenAt (.committing t))
    (hcommitted : committed? stage = none) : s.Informed stage where
  pending := hpending
  committing item takenAt t hstage := absurd hstage (hcommitting item takenAt t)
  committed kind id hsome := by
    rw [hcommitted] at hsome
    cases hsome

theorem committed?_of_lease? (h : stage.lease? = none) : committed? stage = none := by
  cases stage with
  | inside | releasing => cases h
  | stopped | asleep | selecting | locking | answered => rfl

theorem committed?_inside {item : PurgeItem} {takenAt : Nat} {step : PurgeStep}
    (h : step ≠ .committed ∧ step ≠ .auditing) : committed? (.inside item takenAt step) = none := by
  cases step with
  | committed => exact absurd rfl h.1
  | auditing => exact absurd rfl h.2
  | listing | removing | loading | committing => rfl

theorem Orderly.setStage (h : s.Orderly) (hstage : s.Informed stage) :
    (s.setStage w stage).Orderly where
  sound := h.sound
  jobs := h.jobs
  informed w' := by
    rw [workers_setStage]
    split
    · exact hstage.mono le_rfl (fun _ _ _ hdue => hdue) fun _ _ hpurged => hpurged
    · exact (h.informed w').mono le_rfl (fun _ _ _ hdue => hdue) fun _ _ hpurged => hpurged
  unstored := h.unstored

theorem Orderly.locks (h : s.Orderly) (kind : OwnerKind) (id : Uuid) (lock : Option (Lease Nat)) :
    (s.setLock kind id lock).Orderly :=
  ⟨h.sound, h.jobs, fun w => ⟨(h.informed w).pending, (h.informed w).committing,
    (h.informed w).committed⟩, h.unstored⟩

theorem Orderly.objects (h : s.Orderly) {objects : List ObjectKey} (hsub : objects ⊆ s.objects) :
    ({ s with objects := objects } : CleanupState).Orderly :=
  ⟨h.sound, h.jobs, fun w => ⟨(h.informed w).pending, (h.informed w).committing,
    (h.informed w).committed⟩, fun row hrow hpermanent key hkey =>
      h.unstored row hrow hpermanent key (hsub hkey)⟩

/-- New rows under the old keys, with the old purge times and no mark taken back. -/
theorem Orderly.setOwners {f : OwnerRow kind → OwnerRow kind} {hf : ∀ r, (f r).id = r.id}
    (h : s.Orderly)
    (hsound : ∀ row ∈ (s.owners kind).rows, row.id = id → (f row).Sound)
    (htime : ∀ row ∈ (s.owners kind).rows, row.id = id → ∀ p, row.purgeAfter = some p →
      (f row).purgeAfter = some p)
    (hjob : kind = .job → ∀ row, (f row).purgeAfter = row.purgeAfter)
    (hmark : ∀ row ∈ (s.owners kind).rows, row.purgedAt.isSome → (f row).purgedAt.isSome)
    (hretention : ∀ row, (f row).retention = row.retention) :
    (s.setOwners kind (OwnerTable.modify (s.owners kind) id f hf)).Orderly := by
  have hdue : ∀ kind' id' t, s.DueBy kind' id' t →
      (s.setOwners kind (OwnerTable.modify (s.owners kind) id f hf)).DueBy kind' id' t := by
    rintro kind' id' t ⟨row, hrow, hid, p, hp, hle⟩
    by_cases heq : kind' = kind
    · subst heq
      unfold DueBy
      rw [owners_setOwners_self]
      refine ⟨_, mem_modify.mpr ⟨row, hrow, rfl⟩, ?_⟩
      by_cases hsame : row.id = id
      · rw [if_pos hsame]
        exact ⟨(hf row).trans hid, p, htime row hrow hsame p hp, hle⟩
      · rw [if_neg hsame]
        exact ⟨hid, p, hp, hle⟩
    · unfold DueBy
      rw [owners_setOwners_ne s _ _ heq]
      exact ⟨row, hrow, hid, p, hp, hle⟩
  have hpurged : ∀ kind' id', s.Purged kind' id' →
      (s.setOwners kind (OwnerTable.modify (s.owners kind) id f hf)).Purged kind' id' := by
    rintro kind' id' ⟨row, hrow, hid, hsome⟩
    by_cases heq : kind' = kind
    · subst heq
      unfold Purged
      rw [owners_setOwners_self]
      refine ⟨_, mem_modify.mpr ⟨row, hrow, rfl⟩, ?_⟩
      by_cases hsame : row.id = id
      · rw [if_pos hsame]
        exact ⟨(hf row).trans hid, hmark row hrow hsome⟩
      · rw [if_neg hsame]
        exact ⟨hid, hsome⟩
    · unfold Purged
      rw [owners_setOwners_ne s _ _ heq]
      exact ⟨row, hrow, hid, hsome⟩
  constructor
  case sound =>
    intro kind' row hrow
    by_cases heq : kind' = kind
    · subst heq
      rw [owners_setOwners_self] at hrow
      obtain ⟨row₀, hrow₀, rfl⟩ := mem_modify.mp hrow
      split
      case isTrue hid => exact hsound row₀ hrow₀ hid
      case isFalse => exact h.sound kind' row₀ hrow₀
    · rw [owners_setOwners_ne s _ _ heq] at hrow
      exact h.sound kind' row hrow
  case jobs =>
    intro row hrow
    by_cases heq : kind = .job
    · subst heq
      rw [owners_setOwners_self] at hrow
      obtain ⟨row₀, hrow₀, rfl⟩ := mem_modify.mp hrow
      split
      · rw [hjob rfl row₀]
        exact h.jobs row₀ hrow₀
      · exact h.jobs row₀ hrow₀
    · rw [owners_setOwners_ne s _ _ (Ne.symm heq)] at hrow
      exact h.jobs row hrow
  case informed => exact fun w => (h.informed w).mono le_rfl hdue hpurged
  case unstored =>
    intro row hrow hpermanent
    by_cases heq : kind = .session
    · subst heq
      rw [owners_setOwners_self] at hrow
      obtain ⟨row₀, hrow₀, rfl⟩ := mem_modify.mp hrow
      have hkeeps : (if row₀.id = id then f row₀ else row₀).id = row₀.id ∧
          (if row₀.id = id then f row₀ else row₀).retention = row₀.retention := by
        split
        · exact ⟨hf row₀, hretention row₀⟩
        · exact ⟨rfl, rfl⟩
      rw [hkeeps.2] at hpermanent
      rw [hkeeps.1]
      exact h.unstored row₀ hrow₀ hpermanent
    · rw [owners_setOwners_ne s _ _ (Ne.symm heq)] at hrow
      exact h.unstored row hrow hpermanent

theorem Orderly.commits {item : PurgeItem} {takenAt purgedAt : Nat} (h : s.Orderly)
    (hstage : s.workers w = .inside item takenAt (.committing purgedAt)) :
    (s.commit w item takenAt purgedAt).Orderly := by
  obtain ⟨row, hrow, hid, p, hp, hle⟩ :=
    (h.informed w).committing item takenAt purgedAt hstage
  have hall : ∀ row' ∈ (s.owners item.kind).rows, row'.id = item.id → row' = row :=
    fun row' hrow' hid' => Table.eq_of_key hrow' hrow (hid'.trans hid.symm)
  have hmarked : (s.setOwners item.kind
      (markPurged (s.owners item.kind) item.id purgedAt)).Orderly := by
    refine h.setOwners ?_ ?_ ?_ ?_ ?_
    · intro row' hrow' hid'
      obtain rfl := hall row' hrow' hid'
      exact (h.sound item.kind row' hrow').mark hp hle
    · exact fun row' _ _ p' hp' => hp'
    · exact fun _ _ => rfl
    · exact fun _ _ _ => rfl
    · exact fun _ => rfl
  have hinformed := hmarked.informed w
  rw [workers_setOwners, hstage] at hinformed
  refine hmarked.setStage ⟨hinformed.pending, by simp, ?_⟩
  rintro kind id hcommitted
  obtain ⟨rfl, rfl⟩ : item.kind = kind ∧ item.id = id := by
    simpa [committed?] using hcommitted
  unfold Purged
  rw [owners_setOwners_self]
  exact ⟨_, mem_modify.mpr ⟨row, hrow, rfl⟩, by rw [if_pos hid]; exact hid, by rw [if_pos hid]; rfl⟩

theorem Orderly.move {m : PurgeMove} (h : s.Orderly) : (s.move w m).Orderly := by
  have hmoved := moved s w m
  generalize s.move w m = s' at hmoved ⊢
  have hinformed := h.informed w
  cases hmoved with
  | stays => exact h
  | leaves stage hlease hfrom hpending =>
      refine h.setStage (informed_of_pending ?_ ?_ (committed?_of_lease? hlease))
      · intro kind id hid
        obtain hbefore | hbatch := hpending kind id hid
        · exact hinformed.pending kind id hbefore
        · exact dueBy_of_mem_batch hbatch
      · rintro item takenAt t rfl
        cases hlease
  | acquires item hstage =>
      rw [hstage] at hinformed
      exact (h.locks item.kind item.id _).setStage
        (informed_of_pending hinformed.pending (by simp) rfl)
  | enters item takenAt hm hstage =>
      rw [hstage] at hinformed
      exact h.setStage (informed_of_pending hinformed.pending (by simp) rfl)
  | works item takenAt step step' objects hstage hstep hobjects hstep' hcommitting =>
      rw [hstage] at hinformed
      refine (h.objects hobjects).setStage ⟨hinformed.pending, ?_, ?_⟩
      · rintro item' takenAt' t heq
        obtain ⟨rfl, rfl, rfl⟩ := PurgeStage.inside.inj heq
        obtain ⟨rfl, -⟩ := hcommitting t rfl
        exact hinformed.pending item.kind item.id (by simp [PurgeStage.pending])
      · intro kind id hcommitted
        rw [committed?_inside hstep'] at hcommitted
        cases hcommitted
  | commits item takenAt purgedAt hstage => exact h.commits hstage
  | replies item takenAt hkind hstage =>
      rw [hstage] at hinformed
      exact h.setStage ⟨hinformed.pending, by simp, hinformed.committed⟩
  | audits item takenAt written hm hkind hstage =>
      rw [hstage] at hinformed
      have haudits : ({ s with
          audits := if written then item.id :: s.audits else s.audits } : CleanupState).Orderly :=
        ⟨h.sound, h.jobs, fun w => ⟨(h.informed w).pending, (h.informed w).committing,
          (h.informed w).committed⟩, h.unstored⟩
      exact haudits.setStage ⟨hinformed.pending, by simp, hinformed.committed⟩
  | ends item takenAt step outcome hstage hbroken hfinished =>
      rw [hstage] at hinformed
      refine h.setStage ⟨hinformed.pending, by simp, ?_⟩
      cases outcome with
      | failed | cancelled => simp [committed?]
      | finished =>
          intro kind id hcommitted
          obtain ⟨rfl, rfl⟩ : item.kind = kind ∧ item.id = id := by
            simpa [committed?] using hcommitted
          obtain rfl | hmarked := hfinished rfl
          · exact hinformed.committed item.kind item.id rfl
          · obtain ⟨row, hrow, hid, -⟩ :=
              hinformed.pending item.kind item.id (by simp [PurgeStage.pending])
            exact ⟨row, hrow, hid, hmarked row hrow hid⟩
  | releases item takenAt outcome hstage =>
      rw [hstage] at hinformed
      refine (h.locks item.kind item.id none).setStage (informed_of_pending ?_ ?_ ?_)
      · intro kind id hid
        cases outcome with
        | cancelled => simp [PurgeStage.released, PurgeStage.pending] at hid
        | finished | failed =>
            obtain ⟨rfl, hrest⟩ := PurgeStage.mem_pending_proceed hid
            exact hinformed.pending item.kind id (by simp [PurgeStage.pending, hrest])
      · rintro item' takenAt' t heq
        have hnone := PurgeStage.lease?_released item outcome
        rw [heq] at hnone
        cases hnone
      · exact committed?_of_lease? (PurgeStage.lease?_released item outcome)

section Outside

theorem Orderly.inserts {row : OwnerRow kind} (h : s.Orderly) (hsound : row.Sound)
    (hnone : row.purgeAfter = none)
    (hunstored : kind = .session → row.retention ≠ RETENTION_PERMANENT →
      ∀ key ∈ s.objects, ¬ArtifactOf .session row.id key) :
    (s.create kind row).Orderly := by
  unfold create
  split
  case isFalse => exact h
  case isTrue =>
    have hkept : ∀ kind', ∀ row' ∈ (s.owners kind').rows,
        row' ∈ ((s.setOwners kind ((s.owners kind).insertOrIgnore row)).owners kind').rows := by
      intro kind' row' hrow'
      by_cases heq : kind' = kind
      · subst heq
        rw [owners_setOwners_self]
        exact Table.mem_insertOrIgnore.mpr (Or.inl hrow')
      · rwa [owners_setOwners_ne s _ _ heq]
    have hnew : ∀ kind', ∀ row' ∈
        ((s.setOwners kind ((s.owners kind).insertOrIgnore row)).owners kind').rows,
        row' ∈ (s.owners kind').rows ∨ kind' = kind ∧ HEq row' row := by
      intro kind' row' hrow'
      by_cases heq : kind' = kind
      · subst heq
        rw [owners_setOwners_self] at hrow'
        obtain hold | ⟨rfl, -⟩ := Table.mem_insertOrIgnore.mp hrow'
        · exact Or.inl hold
        · exact Or.inr ⟨rfl, HEq.rfl⟩
      · rw [owners_setOwners_ne s _ _ heq] at hrow'
        exact Or.inl hrow'
    constructor
    case sound =>
      intro kind' row' hrow'
      obtain hold | ⟨rfl, hrow⟩ := hnew kind' row' hrow'
      · exact h.sound kind' row' hold
      · obtain rfl := eq_of_heq hrow
        exact hsound
    case jobs =>
      intro row' hrow'
      obtain hold | ⟨rfl, hrow⟩ := hnew .job row' hrow'
      · exact h.jobs row' hold
      · obtain rfl := eq_of_heq hrow
        exact hnone
    case informed =>
      intro w
      refine (h.informed w).mono le_rfl ?_ ?_
      · rintro kind' id t ⟨row', hrow', hdue⟩
        exact ⟨row', hkept kind' row' hrow', hdue⟩
      · rintro kind' id ⟨row', hrow', hpurged⟩
        exact ⟨row', hkept kind' row' hrow', hpurged⟩
    case unstored =>
      intro row' hrow' hpermanent
      obtain hold | ⟨rfl, hrow⟩ := hnew .session row' hrow'
      · exact h.unstored row' hold hpermanent
      · obtain rfl := eq_of_heq hrow
        exact hunstored rfl hpermanent

theorem Orderly.stores (h : s.Orderly) {key : ObjectKey}
    (hkey : ∀ row ∈ (s.owners .session).rows, row.retention ≠ RETENTION_PERMANENT →
      ¬ArtifactOf .session row.id key) :
    ({ s with objects := key :: s.objects } : CleanupState).Orderly := by
  refine ⟨h.sound, h.jobs, fun w => ⟨(h.informed w).pending, (h.informed w).committing,
    (h.informed w).committed⟩, ?_⟩
  intro row hrow hpermanent key' hkey'
  obtain rfl | hold := List.mem_cons.mp hkey'
  · exact hkey row hrow hpermanent
  · exact h.unstored row hrow hpermanent key' hold

theorem Orderly.jobStatus {status : JobStatus} (h : s.Orderly)
    (hpermanent : s.Unstored (.jobStatus id status)) : (s.act (.jobStatus id status)).Orderly := by
  refine h.setOwners ?_ ?_ ?_ ?_ ?_
  · intro row hrow hid
    exact (h.sound .job row hrow).jobStatus (h.jobs row hrow) fun hterminal =>
      hpermanent hterminal row hrow hid
  · exact fun row _ _ p hp => hp
  · exact fun _ _ => rfl
  · exact fun row _ hsome => hsome
  · exact fun _ => rfl

theorem Orderly.finalizeSession (h : s.Orderly) (sessionId : String) (status : SessionStatus) :
    (s.act (.finalizeSession sessionId status)).Orderly := by
  cases hparse : parseSessionId sessionId with
  | none => simpa only [CleanupState.act, hparse] using h
  | some id =>
      simp only [CleanupState.act, hparse]
      refine h.setOwners ?_ ?_ (by simp) ?_ (OwnerRow.finalize_retention s.now status)
      · exact fun row hrow _ => (h.sound .session row hrow).finalize status
      · intro row hrow _ p hp
        rwa [(h.sound .session row hrow).finalize_of_purgeAfter status hp]
      · intro row _ hsome
        rwa [OwnerRow.finalize_purgedAt]

theorem Orderly.act {action : CleanupAction} (h : s.Orderly) (hunstored : s.Unstored action) :
    (s.act action).Orderly := by
  cases action with
  | tick duration =>
      refine ⟨h.sound, h.jobs, fun w => ?_, h.unstored⟩
      exact (h.informed w).mono (Nat.le_add_right _ _) (fun _ _ _ hdue => hdue)
        fun _ _ hpurged => hpurged
  | move w m => exact h.move
  | crash w => exact h.setStage (informed_of_pending (by simp [PurgeStage.pending]) (by simp) rfl)
  | createJob id retention => exact h.inserts (OwnerRow.sound_created _ _ _) rfl (by simp)
  | jobStatus id status => exact h.jobStatus hunstored
  | storeForJob id name =>
      refine h.stores ?_
      rintro row hrow hpermanent ⟨hkind, -⟩
      cases hkind
  | createSession sessionId retention =>
      cases hparse : parseSessionId sessionId with
      | none => simpa only [CleanupState.act, hparse] using h
      | some id =>
          simp only [CleanupState.act, hparse]
          refine h.inserts (OwnerRow.sound_created _ _ _) rfl fun _ hpermanent => ?_
          obtain hretention | hnothing := hunstored
          · exact absurd hretention hpermanent
          · exact hnothing id hparse
  | finalizeSession sessionId status => exact h.finalizeSession sessionId status
  | storeForSession sessionId name =>
      refine h.stores ?_
      rintro row hrow hpermanent ⟨-, hparse⟩
      exact hpermanent (hunstored row hrow hparse)

end Outside

section Runs

/-- A database without owners, an empty bucket, and no worker. -/
structure Vacant (s : CleanupState) : Prop where
  noOwners : ∀ kind, (s.owners kind).rows = []
  noObjects : s.objects = []
  stopped : ∀ w, s.workers w = .stopped

theorem Vacant.orderly (h : s.Vacant) : s.Orderly where
  sound kind row hrow := by
    rw [h.noOwners] at hrow
    cases hrow
  jobs row hrow := by
    rw [h.noOwners] at hrow
    cases hrow
  informed w := by
    rw [h.stopped]
    exact informed_of_pending (by simp [PurgeStage.pending]) (by simp) rfl
  unstored row hrow := by
    rw [h.noOwners] at hrow
    cases hrow

theorem Orderly.elapsed_of_dueBy (h : s.Orderly) (hdue : s.DueBy kind id t) :
    ∃ row ∈ (s.owners kind).rows, row.id = id ∧ row.Elapsed t := by
  obtain ⟨row, hrow, hid, p, hp, hle⟩ := hdue
  exact ⟨row, hrow, hid, (h.sound kind row hrow).elapsed hp hle⟩

theorem Orderly.selected (h : s.Orderly) {row : OwnerRow kind} (hrow : row ∈ (s.owners kind).rows)
    (helapsed : row.Elapsed s.now) (hnone : row.purgedAt = none) :
    row.id ∈ s.batch kind ∨ (s.batch kind).length = s.batchSize ∧
      ∀ row' ∈ (s.owners kind).expired s.now s.batchSize, row'.purgeAfter ≤ row.purgeAfter := by
  obtain ⟨p, hp, hle⟩ := (h.sound kind row hrow).purgeAfter_of_elapsed helapsed
  have hselect : row ∈ (s.owners kind).select
      (fun r => r.purgeAfter.any (· ≤ s.now) && r.purgedAt.isNone) fun r => r.purgeAfter.getD 0 := by
    rw [Table.mem_select]
    exact ⟨hrow, by simp [hp, hle, hnone]⟩
  obtain hbatch | ⟨hfull, hbefore⟩ := Table.mem_take_select hselect s.batchSize
  · exact Or.inl (List.mem_map.mpr ⟨row, hbatch, rfl⟩)
  · refine Or.inr ⟨by rw [batch, List.length_map]; exact hfull, fun row' hrow' => ?_⟩
    have hmem := (Table.mem_select.mp (List.mem_of_mem_take hrow')).2
    rw [Bool.and_eq_true, Option.any_eq_true] at hmem
    obtain ⟨⟨p', hp', -⟩, -⟩ := hmem
    have hle' := hbefore row' hrow'
    rw [hp', hp, Option.getD_some, Option.getD_some] at hle'
    rw [hp', hp]
    exact hle'

theorem Orderly.retained (h : s.Orderly) : s.Retained where
  purging w item takenAt step hstage := by
    have hinformed := h.informed w
    rw [hstage] at hinformed
    exact h.elapsed_of_dueBy (hinformed.pending item.kind item.id (by simp [PurgeStage.pending]))
  purged kind row hrow t ht := by
    obtain ⟨p, hp, hle⟩ := (h.sound kind row hrow).purged t ht
    exact (h.sound kind row hrow).elapsed hp hle
  selected kind row := h.selected
  reached w item takenAt hstage := by
    have hinformed := h.informed w
    rw [hstage] at hinformed
    exact hinformed.committed item.kind item.id rfl
  clean kind id hpurged := by
    obtain ⟨row, hrow, rfl, hsome⟩ := hpurged
    obtain ⟨t, ht⟩ := Option.isSome_iff_exists.mp hsome
    obtain ⟨p, hp, hle⟩ := (h.sound kind row hrow).purged t ht
    cases kind with
    | job =>
        rw [h.jobs row hrow] at hp
        cases hp
    | session =>
        exact h.unstored row hrow ((h.sound .session row hrow).elapsed hp hle).2.1

/-- Where jobs that end are permanent and other sessions store nothing, the retentions are kept. -/
theorem retentions_kept {s₀ : CleanupState} (h₀ : s₀.Vacant)
    (run : ActionRun (Acts act) Unstored s₀ s) : s.Retained := by
  have horderly : s.Orderly := by
    refine run.invariant h₀.orderly ?_
    rintro s action _ hs rfl hunstored
    exact hs.act hunstored
  exact horderly.retained

end Runs

section Samples

def vacant : CleanupState where
  now := 0
  batchSize := 10
  owners _ := ⟨[], List.nodup_nil⟩
  objects := []
  locks _ _ := none
  workers _ := .stopped
  audits := []

theorem vacant_vacant : vacant.Vacant := ⟨fun _ => rfl, rfl, fun _ => rfl⟩

/-- A transient session stores nothing, ends and is purged. -/
def transientSession : List CleanupAction :=
  [.createSession "sess_00000000000000ab" RETENTION_TRANSIENT, .tick 5000,
    .finalizeSession "sess_00000000000000ab" .completed] ++
    [.start, .wake, .select, .select, .set, .answer, .list, .load, .commit, .reply, .release].map
      (.move 0)

/-- A transient job that completes. -/
def transientJob : List CleanupAction :=
  [.createJob 7 RETENTION_TRANSIENT, .storeForJob 7 "audio/original.wav", .jobStatus 7 .running,
    .tick 5000, .jobStatus 7 .completed]

end Samples

theorem retentions_kept_sample : (transientSession.foldl act vacant).Retained := by
  have hcreate : vacant.Unstored (.createSession "sess_00000000000000ab" RETENTION_TRANSIENT) :=
    Or.inr fun _ _ _ hkey => by cases hkey
  refine retentions_kept vacant_vacant (ActionRun.of_permitted ⟨hcreate, ?_⟩)
  simp [AllPermitted, Unstored]

example : (transientSession.foldl act vacant).audits = [] ∧
    (((transientSession.foldl act vacant).owners .session).rows.map fun row => row.purgedAt) =
      [some 5000] := by
  decide +kernel

/-- A transient job has completed, and no sweep selects it. -/
theorem transient_job_kept :
    ¬∀ s₀ s : CleanupState, s₀.Vacant → ActionRun (Acts act) (fun _ _ => True) s₀ s →
      s.Retained := by
  intro hclaim
  have hpermitted : AllPermitted act (fun _ _ => True) vacant transientJob := by
    simp [AllPermitted, transientJob]
  have hlaw := hclaim _ _ vacant_vacant (ActionRun.of_permitted hpermitted)
  have helapsed : (⟨7, .completed, RETENTION_TRANSIENT, some 5000, none, none⟩ : OwnerRow .job).Elapsed
      (transientJob.foldl act vacant).now := ⟨rfl, by decide, 5000, 0, rfl, rfl, by decide⟩
  have hbatch : (transientJob.foldl act vacant).batch .job = [] := by decide +kernel
  obtain hmem | ⟨hfull, -⟩ := hlaw.selected .job _ (List.mem_singleton.mpr rfl) helapsed rfl
  · rw [hbatch] at hmem
    cases hmem
  · rw [hbatch] at hfull
    cases hfull

end CleanupState

end Dalston.Orchestrator.Cleanup
