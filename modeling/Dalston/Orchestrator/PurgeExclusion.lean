import Dalston.Orchestrator.Cleanup

/-!
# Purges under an expiring lock

A purge lock is neither extended while the owner is being purged nor compared
with its taker when it is given back. Where every purge is over before its lock
expires, the lock is what it looks like: at most one worker is inside the purge
of an owner, each gives its own lock back, and the purge of a job that is not
broken off between the commit and the audit event is audited once.
-/

namespace Dalston.Orchestrator.Cleanup

open Foundation Model

/-- The job that is marked as purged and whose audit event is to be written. -/
def PurgeStage.audits? : PurgeStage → Option Uuid
  | inside ⟨.job, id, _⟩ _ .committed | inside ⟨.job, id, _⟩ _ .auditing => some id
  | _ => none

namespace CleanupState

/-- The worker is inside the purge of the owner. -/
def Inside (s : CleanupState) (w : Nat) (kind : OwnerKind) (id : Uuid) : Prop :=
  ∃ rest takenAt step, s.workers w = .inside ⟨kind, id, rest⟩ takenAt step

/-- The worker purges the owner at hand, or is about to give its lock back. -/
def Working (s : CleanupState) (w : Nat) (item : PurgeItem) (takenAt : Nat) : Prop :=
  (∃ step, s.workers w = .inside item takenAt step) ∨
    ∃ outcome, s.workers w = .releasing item takenAt outcome

/-- The worker has marked the job as purged and has not yet written the audit event. -/
def Auditing (s : CleanupState) (w : Nat) (id : Uuid) : Prop := (s.workers w).audits? = some id

def Purged (s : CleanupState) (kind : OwnerKind) (id : Uuid) : Prop :=
  ∃ row ∈ (s.owners kind).rows, row.id = id ∧ row.purgedAt.isSome

def Unpurged (s : CleanupState) (kind : OwnerKind) (id : Uuid) : Prop :=
  ∃ row ∈ (s.owners kind).rows, row.id = id ∧ row.purgedAt = none

/-- At most one worker is inside the purge of an owner, none is about to delete the lock of
another one, and every purged job has one audit event, or a worker about to write it. -/
structure PurgeExclusive (s : CleanupState) : Prop where
  alone : ∀ kind id w w', s.Inside w kind id → s.Inside w' kind id → w = w'
  respects : ∀ w item takenAt outcome lease, s.workers w = .releasing item takenAt outcome →
    s.current item.kind item.id = some lease → lease.holder = w
  unaudited : ∀ id, ¬s.Purged .job id → s.audits.count id = 0
  audited : ∀ id, s.Purged .job id →
    s.audits.count id = 1 ∨ s.audits.count id = 0 ∧ ∃ w, s.Auditing w id

/-- No purge outlives its lock, none is broken off between the commit and the audit event, and
the audit event is written. -/
def Prompt (s : CleanupState) : CleanupAction → Prop
  | .tick duration => ∀ w item takenAt, s.Working w item takenAt →
      s.now + duration ≤ takenAt + purgeLockTtl
  | .move w .answer => ∀ item takenAt, s.workers w = .answered item (some takenAt) →
      s.now ≤ takenAt + purgeLockTtl
  | .move w .raise | .move w .cancel | .crash w => ∀ id, ¬s.Auditing w id
  | .move _ (.audit written) => written = true
  | _ => True

section Locks

/-- A lock that has not expired is held by the worker that goes by it, and no lock under which
a worker works has expired. -/
structure Covered (s : CleanupState) : Prop where
  held : ∀ w kind id takenAt, (s.workers w).lease? = some (kind, id, takenAt) →
    s.now ≤ takenAt + purgeLockTtl → s.current kind id = some ⟨w, takenAt + purgeLockTtl⟩
  lasts : ∀ w item takenAt, s.Working w item takenAt → s.now ≤ takenAt + purgeLockTtl

variable {s : CleanupState} {w w' : Nat} {item : PurgeItem} {takenAt : Nat} {stage : PurgeStage}
  {kind : OwnerKind} {id : Uuid}

theorem Working.lease? (h : s.Working w item takenAt) :
    (s.workers w).lease? = some (item.kind, item.id, takenAt) := by
  obtain ⟨step, h⟩ | ⟨outcome, h⟩ := h
  · rw [h]
    rfl
  · rw [h]
    rfl

theorem Inside.working (h : s.Inside w kind id) :
    ∃ item takenAt, s.Working w item takenAt ∧ item.kind = kind ∧ item.id = id := by
  obtain ⟨rest, takenAt, step, h⟩ := h
  exact ⟨⟨kind, id, rest⟩, takenAt, Or.inl ⟨step, h⟩, rfl, rfl⟩

theorem working_setStage (hne : w' ≠ w) :
    (s.setStage w stage).Working w' item takenAt ↔ s.Working w' item takenAt := by
  unfold Working
  rw [workers_setStage_ne s w stage hne]

theorem Working.stage_lease? (h : (s.setStage w stage).Working w item takenAt) :
    stage.lease? = some (item.kind, item.id, takenAt) := by
  have hlease := h.lease?
  rwa [workers_setStage_self] at hlease

theorem Covered.current_of_working (h : s.Covered) (hw : s.Working w item takenAt) :
    s.current item.kind item.id = some ⟨w, takenAt + purgeLockTtl⟩ :=
  h.held w item.kind item.id takenAt hw.lease? (h.lasts w item takenAt hw)

theorem Covered.eq_of_working {item' : PurgeItem} {takenAt' : Nat} (h : s.Covered)
    (hw : s.Working w item takenAt) (hw' : s.Working w' item' takenAt')
    (hkind : item.kind = item'.kind) (hid : item.id = item'.id) : w = w' := by
  have hheld := h.current_of_working hw
  rw [hkind, hid, h.current_of_working hw'] at hheld
  exact (congrArg Lease.holder (Option.some.inj hheld)).symm

theorem Covered.alone (h : s.Covered) (hw : s.Inside w kind id) (hw' : s.Inside w' kind id) :
    w = w' := by
  obtain ⟨item, takenAt, hwork, rfl, rfl⟩ := hw.working
  obtain ⟨item', takenAt', hwork', hkind, hid⟩ := hw'.working
  exact h.eq_of_working hwork hwork' hkind.symm hid.symm

/-- A worker may leave its lock, or go on under the lock it goes by. -/
theorem Covered.setStage (h : s.Covered)
    (hlease : ∀ kind id takenAt, stage.lease? = some (kind, id, takenAt) →
      (s.workers w).lease? = some (kind, id, takenAt) ∧ s.now ≤ takenAt + purgeLockTtl) :
    (s.setStage w stage).Covered := by
  constructor
  case held =>
    intro w' kind id takenAt htaken hnow
    rw [workers_setStage] at htaken
    split at htaken
    case isTrue heq =>
      subst heq
      exact h.held w' kind id takenAt (hlease kind id takenAt htaken).1 hnow
    case isFalse => exact h.held w' kind id takenAt htaken hnow
  case lasts =>
    intro w' item takenAt hwork
    by_cases heq : w' = w
    · subst heq
      exact (hlease item.kind item.id takenAt hwork.stage_lease?).2
    · exact h.lasts w' item takenAt ((working_setStage heq).mp hwork)

/-- The stage after a step of the purge of an owner. -/
theorem Covered.goesOn (h : s.Covered) (hw : s.Working w item takenAt)
    (hstage : stage.lease? = some (item.kind, item.id, takenAt)) :
    (s.setStage w stage).Covered := by
  refine h.setStage ?_
  intro kind id takenAt' hlease
  rw [hstage] at hlease
  obtain ⟨rfl, rfl, rfl⟩ : item.kind = kind ∧ item.id = id ∧ takenAt = takenAt' := by
    simpa using hlease
  exact ⟨hw.lease?, h.lasts w item takenAt hw⟩

theorem Covered.leaves (h : s.Covered) (hstage : stage.lease? = none) :
    (s.setStage w stage).Covered := by
  refine h.setStage ?_
  intro kind id takenAt hlease
  rw [hstage] at hlease
  cases hlease

theorem Covered.acquires (h : s.Covered) : (s.acquire w item).Covered := by
  have hcovers : ∀ kind id lease, s.current kind id = some lease →
      (s.acquire w item).current kind id = some lease := by
    intro kind id lease hcurrent
    rw [acquire, current_setStage]
    by_cases hsame : kind = item.kind ∧ id = item.id
    · obtain ⟨rfl, rfl⟩ := hsame
      rw [current_setLock_self]
      exact Lease.current_acquire hcurrent
    · rwa [current_setLock_ne s _ _ _ hsame]
  constructor
  case held =>
    intro w' kind id takenAt htaken hnow
    by_cases heq : w' = w
    · subst heq
      rw [acquire, workers_setStage_self] at htaken
      cases hcurrent : s.current item.kind item.id with
      | some lease =>
          rw [hcurrent] at htaken
          cases htaken
      | none =>
          rw [hcurrent] at htaken
          obtain ⟨rfl, rfl, rfl⟩ : item.kind = kind ∧ item.id = id ∧ s.now = takenAt := by
            simpa [PurgeStage.lease?] using htaken
          rw [acquire, current_setStage, current_setLock_self, Lease.acquire_of_none hcurrent]
          exact Lease.current_eq_some_iff.mpr ⟨rfl, hnow⟩
    · rw [acquire, workers_setStage_ne _ _ _ heq, workers_setLock] at htaken
      exact hcovers kind id _ (h.held w' kind id takenAt htaken hnow)
  case lasts =>
    intro w' item' takenAt hwork
    by_cases heq : w' = w
    · subst heq
      obtain ⟨step, hstage⟩ | ⟨outcome, hstage⟩ := hwork
      · rw [acquire, workers_setStage_self] at hstage
        cases hstage
      · rw [acquire, workers_setStage_self] at hstage
        cases hstage
    · exact h.lasts w' item' takenAt ((working_setStage heq).mp hwork)

theorem Covered.releases {outcome : PurgeOutcome} (h : s.Covered) (hw : s.Working w item takenAt) :
    (s.release w item outcome).Covered := by
  constructor
  case held =>
    intro w' kind id takenAt' htaken hnow
    by_cases heq : w' = w
    · subst heq
      rw [release, workers_setStage_self, PurgeStage.lease?_released] at htaken
      cases htaken
    · rw [release, workers_setStage_ne _ _ _ heq, workers_setLock] at htaken
      have hheld := h.held w' kind id takenAt' htaken hnow
      rw [release, current_setStage, current_setLock_ne]
      · exact hheld
      · rintro ⟨rfl, rfl⟩
        rw [h.current_of_working hw] at hheld
        exact heq (congrArg Lease.holder (Option.some.inj hheld)).symm
  case lasts =>
    intro w' item' takenAt' hwork
    by_cases heq : w' = w
    · subst heq
      have hlease := hwork.stage_lease?
      rw [PurgeStage.lease?_released] at hlease
      cases hlease
    · exact h.lasts w' item' takenAt' ((working_setStage heq).mp hwork)

theorem Covered.move {m : PurgeMove} (h : s.Covered) (hprompt : s.Prompt (.move w m)) :
    (s.move w m).Covered := by
  have hmoved := moved s w m
  generalize s.move w m = s' at hmoved ⊢
  cases hmoved with
  | stays => exact h
  | leaves stage hlease => exact h.leaves hlease
  | acquires item => exact h.acquires
  | enters item takenAt hm hanswered =>
      subst hm
      refine h.setStage ?_
      intro kind id takenAt' hlease
      obtain ⟨rfl, rfl, rfl⟩ : item.kind = kind ∧ item.id = id ∧ takenAt = takenAt' := by
        simpa [PurgeStage.lease?] using hlease
      exact ⟨by rw [hanswered]; rfl, hprompt item takenAt hanswered⟩
  | works item takenAt step step' objects hstage =>
      have hobjects : ({ s with objects := objects } : CleanupState).Covered := ⟨h.held, h.lasts⟩
      exact hobjects.goesOn (Or.inl ⟨step, hstage⟩) rfl
  | commits item takenAt purgedAt hstage =>
      have howners : (s.setOwners item.kind
          (markPurged (s.owners item.kind) item.id purgedAt)).Covered := ⟨h.held, h.lasts⟩
      exact howners.goesOn (Or.inl ⟨_, hstage⟩) rfl
  | replies item takenAt hkind hstage => exact h.goesOn (Or.inl ⟨_, hstage⟩) rfl
  | audits item takenAt written hm hkind hstage =>
      have haudits : ({ s with
          audits := if written then item.id :: s.audits else s.audits } : CleanupState).Covered :=
        ⟨h.held, h.lasts⟩
      exact haudits.goesOn (Or.inl ⟨_, hstage⟩) rfl
  | ends item takenAt step outcome hstage => exact h.goesOn (Or.inl ⟨_, hstage⟩) rfl
  | releases item takenAt outcome hstage => exact h.releases (Or.inr ⟨_, hstage⟩)

theorem Covered.tick {duration : Nat} (h : s.Covered) (hprompt : s.Prompt (.tick duration)) :
    (s.act (.tick duration)).Covered where
  held w kind id takenAt htaken hnow := by
    have hbefore : s.now ≤ s.now + duration := Nat.le_add_right _ _
    have hcurrent := h.held w kind id takenAt htaken (hbefore.trans hnow)
    obtain ⟨hlock, _⟩ := Lease.current_eq_some_iff.mp hcurrent
    exact Lease.current_eq_some_iff.mpr ⟨hlock, hnow⟩
  lasts w item takenAt hwork := hprompt w item takenAt hwork

theorem Covered.outside {s' : CleanupState} (h : s.Covered) (hout : Outside s s') : s'.Covered := by
  cases hout with
  | stays => exact h
  | inserts | modifies | stores => exact ⟨h.held, h.lasts⟩

theorem Covered.act {action : CleanupAction} (h : s.Covered) (hprompt : s.Prompt action) :
    (s.act action).Covered := by
  obtain ⟨duration, rfl⟩ | ⟨w, m, rfl⟩ | ⟨w, rfl⟩ | hout := act_cases s action
  · exact h.tick hprompt
  · exact h.move hprompt
  · exact h.leaves rfl
  · exact h.outside hout

end Locks

section Rows

variable {s s' : CleanupState} {w : Nat} {item : PurgeItem} {takenAt purgedAt : Nat}
  {kind : OwnerKind} {id : Uuid}

theorem mem_modify {t : OwnerTable kind} {f : OwnerRow kind → OwnerRow kind}
    {hf : ∀ r, (f r).id = r.id} {row : OwnerRow kind} :
    row ∈ (OwnerTable.modify t id f hf).rows ↔
      ∃ row₀ ∈ t.rows, (if row₀.id = id then f row₀ else row₀) = row :=
  Table.mem_update

/-- What changes neither keys nor purge marks leaves the owners that a mark tells apart. -/
theorem exists_modify {t : OwnerTable kind} {f : OwnerRow kind → OwnerRow kind}
    {hf : ∀ r, (f r).id = r.id} (hpurged : ∀ r, (f r).purgedAt = r.purgedAt)
    (p : Option Nat → Prop) (id' : Uuid) :
    (∃ row ∈ (OwnerTable.modify t id f hf).rows, row.id = id' ∧ p row.purgedAt) ↔
      ∃ row ∈ t.rows, row.id = id' ∧ p row.purgedAt := by
  have hkeeps : ∀ row : OwnerRow kind, (if row.id = id then f row else row).id = row.id ∧
      (if row.id = id then f row else row).purgedAt = row.purgedAt := by
    intro row
    split
    · exact ⟨hf row, hpurged row⟩
    · exact ⟨rfl, rfl⟩
  constructor
  · rintro ⟨row, hrow, hid, hp⟩
    obtain ⟨row₀, hrow₀, rfl⟩ := mem_modify.mp hrow
    rw [(hkeeps row₀).1] at hid
    rw [(hkeeps row₀).2] at hp
    exact ⟨row₀, hrow₀, hid, hp⟩
  · rintro ⟨row, hrow, hid, hp⟩
    refine ⟨_, mem_modify.mpr ⟨row, hrow, rfl⟩, ?_, ?_⟩
    · rwa [(hkeeps row).1]
    · rwa [(hkeeps row).2]

theorem Unpurged.not_purged (h : s.Unpurged kind id) : ¬s.Purged kind id := by
  rintro ⟨row, hrow, hid, hsome⟩
  obtain ⟨row', hrow', hid', hnone⟩ := h
  rw [Table.eq_of_key hrow hrow' (hid.trans hid'.symm), hnone] at hsome
  cases hsome

theorem Outside.purged_iff (h : Outside s s') : s'.Purged kind id ↔ s.Purged kind id := by
  cases h with
  | stays => rfl
  | stores => rfl
  | inserts kind' row hrow =>
      unfold Purged
      by_cases heq : kind = kind'
      · subst heq
        rw [owners_setOwners_self]
        simp only [Table.mem_insertOrIgnore]
        constructor
        · rintro ⟨row', hrow' | ⟨rfl, _⟩, hid, hsome⟩
          · exact ⟨row', hrow', hid, hsome⟩
          · rw [hrow] at hsome
            cases hsome
        · rintro ⟨row', hrow', hid, hsome⟩
          exact ⟨row', Or.inl hrow', hid, hsome⟩
      · rw [owners_setOwners_ne s _ _ heq]
  | modifies kind' id' f hf hpurged =>
      unfold Purged
      by_cases heq : kind = kind'
      · subst heq
        rw [owners_setOwners_self]
        exact exists_modify hpurged (fun p => p.isSome) id
      · rw [owners_setOwners_ne s _ _ heq]

theorem Outside.unpurged (h : Outside s s') (hrow : s.Unpurged kind id) : s'.Unpurged kind id := by
  cases h with
  | stays => exact hrow
  | stores => exact hrow
  | inserts kind' row hnew =>
      obtain ⟨row', hrow', hid, hnone⟩ := hrow
      unfold Unpurged
      by_cases heq : kind = kind'
      · subst heq
        rw [owners_setOwners_self]
        exact ⟨row', Table.mem_insertOrIgnore.mpr (Or.inl hrow'), hid, hnone⟩
      · rw [owners_setOwners_ne s _ _ heq]
        exact ⟨row', hrow', hid, hnone⟩
  | modifies kind' id' f hf hpurged =>
      unfold Unpurged
      by_cases heq : kind = kind'
      · subst heq
        rw [owners_setOwners_self]
        exact (exists_modify hpurged (fun p => p = none) id).mpr hrow
      · rw [owners_setOwners_ne s _ _ heq]
        exact hrow

theorem purged_commit (h : s.Unpurged item.kind item.id) :
    (s.commit w item takenAt purgedAt).Purged kind id ↔
      s.Purged kind id ∨ kind = item.kind ∧ id = item.id := by
  unfold Purged commit
  rw [owners_setStage]
  by_cases heq : kind = item.kind
  · subst heq
    rw [owners_setOwners_self]
    simp only [markPurged, mem_modify]
    constructor
    · rintro ⟨_, ⟨row, hrow, rfl⟩, hid, hsome⟩
      by_cases hsame : row.id = item.id
      · rw [if_pos hsame] at hid
        exact Or.inr ⟨trivial, hid.symm.trans hsame⟩
      · rw [if_neg hsame] at hid hsome
        exact Or.inl ⟨row, hrow, hid, hsome⟩
    · rintro (⟨row, hrow, hid, hsome⟩ | ⟨-, rfl⟩)
      · by_cases hsame : row.id = item.id
        · exact ⟨_, ⟨row, hrow, rfl⟩, by rw [if_pos hsame]; exact hid, by rw [if_pos hsame]; rfl⟩
        · exact ⟨_, ⟨row, hrow, rfl⟩, by rw [if_neg hsame]; exact hid, by rwa [if_neg hsame]⟩
      · obtain ⟨row, hrow, hid, -⟩ := h
        exact ⟨_, ⟨row, hrow, rfl⟩, by rw [if_pos hid]; exact hid, by rw [if_pos hid]; rfl⟩
  · rw [owners_setOwners_ne s _ _ heq]
    simp [heq]

theorem unpurged_commit (hne : ¬(kind = item.kind ∧ id = item.id)) (h : s.Unpurged kind id) :
    (s.commit w item takenAt purgedAt).Unpurged kind id := by
  obtain ⟨row, hrow, hid, hnone⟩ := h
  unfold Unpurged commit
  rw [owners_setStage]
  by_cases heq : kind = item.kind
  · subst heq
    rw [owners_setOwners_self]
    have hother : row.id ≠ item.id := fun hsame => hne ⟨rfl, hid.symm.trans hsame⟩
    exact ⟨row, mem_modify.mpr ⟨row, hrow, if_neg hother⟩, hid, hnone⟩
  · rw [owners_setOwners_ne s _ _ heq]
    exact ⟨row, hrow, hid, hnone⟩

end Rows

section Audits

/-- A purge that is about to be committed is of an unmarked owner, and a job has an audit event
once it is marked and nobody is about to write one. -/
structure Audited (s : CleanupState) : Prop where
  committing : ∀ w item takenAt purgedAt, s.workers w = .inside item takenAt (.committing purgedAt) →
    s.Unpurged item.kind item.id
  unaudited : ∀ id, ¬s.Purged .job id → s.audits.count id = 0
  auditing : ∀ w id, s.Auditing w id → s.Purged .job id ∧ s.audits.count id = 0
  audited : ∀ id, s.Purged .job id → (∀ w, ¬s.Auditing w id) → s.audits.count id = 1

variable {s s' : CleanupState} {w w' : Nat} {item : PurgeItem} {takenAt purgedAt : Nat}
  {stage : PurgeStage} {id : Uuid}

theorem Auditing.inside (h : s.Auditing w id) : s.Inside w .job id := by
  unfold Auditing at h
  cases hstage : s.workers w with
  | inside item takenAt step =>
      obtain ⟨kind, id', rest⟩ := item
      rw [hstage] at h
      cases kind with
      | session => cases h
      | job =>
          cases step with
          | committed | auditing =>
              obtain rfl := Option.some.inj h
              exact ⟨rest, takenAt, _, hstage⟩
          | listing | removing | loading | committing => cases h
  | stopped | asleep | selecting | locking | answered | releasing =>
      rw [hstage] at h
      cases h

theorem audits?_inside {step : PurgeStep} (h : step ≠ .committed ∧ step ≠ .auditing) :
    (PurgeStage.inside item takenAt step).audits? = none := by
  obtain ⟨kind, id, rest⟩ := item
  cases kind with
  | session => rfl
  | job =>
      cases step with
      | committed => exact absurd rfl h.1
      | auditing => exact absurd rfl h.2
      | listing | removing | loading | committing => rfl

theorem audits?_session {step : PurgeStep} (h : item.kind = .session) :
    (PurgeStage.inside item takenAt step).audits? = none := by
  obtain ⟨kind, id, rest⟩ := item
  subst h
  rfl

theorem audits?_of_lease? (h : stage.lease? = none) : stage.audits? = none := by
  cases stage with
  | inside item takenAt step => cases h
  | stopped | asleep | selecting | locking | answered | releasing => rfl

theorem auditing_setStage : (s.setStage w stage).Auditing w' id ↔
    if w' = w then stage.audits? = some id else s.Auditing w' id := by
  unfold Auditing
  rw [workers_setStage]
  split <;> rfl

/-- A worker that is about to write no audit event, before or after its move. -/
theorem Audited.setStage (h : s.Audited) (hbefore : ∀ id, ¬s.Auditing w id)
    (hafter : stage.audits? = none)
    (hcommitting : ∀ item takenAt purgedAt, stage = .inside item takenAt (.committing purgedAt) →
      s.Unpurged item.kind item.id) : (s.setStage w stage).Audited := by
  have hsame : ∀ w' id, (s.setStage w stage).Auditing w' id ↔ s.Auditing w' id := by
    intro w' id
    rw [auditing_setStage]
    split
    case isTrue heq =>
      subst heq
      simp [hafter, hbefore]
    case isFalse => rfl
  constructor
  case committing =>
    intro w' item takenAt purgedAt hstage
    rw [workers_setStage] at hstage
    split at hstage
    · exact hcommitting item takenAt purgedAt hstage
    · exact h.committing w' item takenAt purgedAt hstage
  case unaudited => exact h.unaudited
  case auditing => exact fun w' id hw => h.auditing w' id ((hsame w' id).mp hw)
  case audited =>
    exact fun id hpurged hnobody =>
      h.audited id hpurged fun w' hw => hnobody w' ((hsame w' id).mpr hw)

theorem Audited.objects (h : s.Audited) (objects : List ObjectKey) :
    ({ s with objects := objects } : CleanupState).Audited :=
  ⟨h.committing, h.unaudited, h.auditing, h.audited⟩

theorem Audited.locks (h : s.Audited) (kind : OwnerKind) (lock : Option (Lease Nat)) :
    (s.setLock kind id lock).Audited :=
  ⟨h.committing, h.unaudited, h.auditing, h.audited⟩

theorem Audited.outside (h : s.Audited) (hout : Outside s s') : s'.Audited := by
  have hworkers := hout.workers_eq
  have haudits := hout.audits_eq
  have hsame : ∀ w id, s'.Auditing w id ↔ s.Auditing w id := by
    intro w id
    unfold Auditing
    rw [hworkers]
  constructor
  case committing =>
    intro w item takenAt purgedAt hstage
    rw [hworkers] at hstage
    exact hout.unpurged (h.committing w item takenAt purgedAt hstage)
  case unaudited =>
    intro id hnot
    rw [hout.purged_iff] at hnot
    rw [haudits]
    exact h.unaudited id hnot
  case auditing =>
    intro w id hw
    rw [hout.purged_iff, haudits]
    exact h.auditing w id ((hsame w id).mp hw)
  case audited =>
    intro id hpurged hnobody
    rw [hout.purged_iff] at hpurged
    rw [haudits]
    exact h.audited id hpurged fun w hw => hnobody w ((hsame w id).mpr hw)

/-- The commit makes the worker the one that owes the audit event of the job. -/
theorem Audited.commits (h : s.Audited) (hc : s.Covered)
    (hstage : s.workers w = .inside item takenAt (.committing purgedAt)) :
    (s.commit w item takenAt purgedAt).Audited := by
  have hrow := h.committing w item takenAt purgedAt hstage
  have hinside : s.Inside w item.kind item.id := ⟨item.rest, takenAt, _, hstage⟩
  have hauditing : ∀ w' id, (s.commit w item takenAt purgedAt).Auditing w' id ↔
      if w' = w then item.kind = .job ∧ id = item.id else s.Auditing w' id := by
    intro w' id
    rw [commit, auditing_setStage]
    split
    · obtain ⟨kind, id', rest⟩ := item
      cases kind <;> simp [PurgeStage.audits?, eq_comm]
    · rfl
  constructor
  case committing =>
    intro w' item' takenAt' purgedAt' hstage'
    by_cases heq : w' = w
    · subst heq
      rw [commit, workers_setStage_self] at hstage'
      cases hstage'
    · rw [commit, workers_setStage_ne _ _ _ heq, workers_setOwners] at hstage'
      refine unpurged_commit ?_ (h.committing w' item' takenAt' purgedAt' hstage')
      rintro ⟨hkind, hid⟩
      have hinside' : s.Inside w' item.kind item.id := by
        rw [← hkind, ← hid]
        exact ⟨item'.rest, takenAt', _, hstage'⟩
      exact heq (hc.alone hinside' hinside)
  case unaudited =>
    intro id hnot
    exact h.unaudited id fun hpurged => hnot ((purged_commit hrow).mpr (Or.inl hpurged))
  case auditing =>
    intro w' id hw
    rw [purged_commit hrow]
    rw [hauditing] at hw
    split at hw
    · obtain ⟨hkind, rfl⟩ := hw
      rw [hkind] at hrow
      exact ⟨Or.inr ⟨hkind.symm, rfl⟩, h.unaudited _ hrow.not_purged⟩
    · obtain ⟨hpurged, hcount⟩ := h.auditing w' id hw
      exact ⟨Or.inl hpurged, hcount⟩
  case audited =>
    intro id hpurged hnobody
    obtain hpurged | ⟨hkind, hid⟩ := (purged_commit hrow).mp hpurged
    · refine h.audited id hpurged fun w' hw => ?_
      by_cases heq : w' = w
      · subst heq
        unfold Auditing at hw
        rw [hstage] at hw
        obtain ⟨kind, id', rest⟩ := item
        cases kind <;> cases hw
      · exact hnobody w' ((hauditing w' id).mpr (by rwa [if_neg heq]))
    · exact absurd ((hauditing w id).mpr (by rw [if_pos rfl]; exact ⟨hkind.symm, hid⟩)) (hnobody w)

theorem Audited.replies (h : s.Audited) (hkind : item.kind = .job)
    (hstage : s.workers w = .inside item takenAt .committed) :
    (s.setStage w (.inside item takenAt .auditing)).Audited := by
  have hsame : ∀ w' id, (s.setStage w (.inside item takenAt .auditing)).Auditing w' id ↔
      s.Auditing w' id := by
    intro w' id
    rw [auditing_setStage]
    split
    case isTrue heq =>
      subst heq
      obtain ⟨kind, id', rest⟩ := item
      subst hkind
      unfold Auditing
      rw [hstage]
      rfl
    case isFalse => rfl
  constructor
  case committing =>
    intro w' item' takenAt' purgedAt hstage'
    rw [workers_setStage] at hstage'
    split at hstage'
    · cases hstage'
    · exact h.committing w' item' takenAt' purgedAt hstage'
  case unaudited => exact h.unaudited
  case auditing => exact fun w' id hw => h.auditing w' id ((hsame w' id).mp hw)
  case audited =>
    exact fun id hpurged hnobody =>
      h.audited id hpurged fun w' hw => hnobody w' ((hsame w' id).mpr hw)

/-- The audit event of the job is written. -/
theorem Audited.audits (h : s.Audited) (hc : s.Covered)
    (hstage : s.workers w = .inside item takenAt .auditing) (hkind : item.kind = .job) :
    (s.audit w item takenAt true).Audited := by
  have hw : s.Auditing w item.id := by
    obtain ⟨kind, id', rest⟩ := item
    subst hkind
    unfold Auditing
    rw [hstage]
    rfl
  have hpurged := (h.auditing w item.id hw).1
  have hauditing : ∀ w' id, (s.audit w item takenAt true).Auditing w' id ↔
      w' ≠ w ∧ s.Auditing w' id := by
    intro w' id
    rw [audit, auditing_setStage]
    split
    case isTrue heq => simp [heq, PurgeStage.audits?]
    case isFalse hne => simp only [hne, ne_eq, not_false_eq_true, true_and]; rfl
  constructor
  case committing =>
    intro w' item' takenAt' purgedAt hstage'
    by_cases heq : w' = w
    · subst heq
      rw [audit, workers_setStage_self] at hstage'
      cases hstage'
    · rw [audit, workers_setStage_ne _ _ _ heq] at hstage'
      exact h.committing w' item' takenAt' purgedAt hstage'
  case unaudited =>
    intro id hnot
    have hne : item.id ≠ id := by
      rintro rfl
      exact hnot hpurged
    simp only [audit, audits_setStage, if_true, List.count_cons_of_ne hne]
    exact h.unaudited id hnot
  case auditing =>
    intro w' id hw'
    obtain ⟨hne, hw'⟩ := (hauditing w' id).mp hw'
    have hother : item.id ≠ id := by
      rintro rfl
      exact hne (hc.alone hw'.inside hw.inside)
    simp only [audit, audits_setStage, if_true, List.count_cons_of_ne hother]
    exact h.auditing w' id hw'
  case audited =>
    intro id hpurged' hnobody
    simp only [audit, audits_setStage, if_true]
    by_cases hid : item.id = id
    · subst hid
      rw [List.count_cons_self, (h.auditing w item.id hw).2]
    · rw [List.count_cons_of_ne hid]
      refine h.audited id hpurged' fun w' hw' => ?_
      refine hnobody w' ((hauditing w' id).mpr ⟨?_, hw'⟩)
      rintro rfl
      have hsame : some item.id = some id := by
        rw [← hw, ← hw']
      exact hid (Option.some.inj hsame)

theorem Audited.move {m : PurgeMove} (h : s.Audited) (hc : s.Covered)
    (hprompt : s.Prompt (.move w m)) : (s.move w m).Audited := by
  have hmoved := moved s w m
  generalize s.move w m = s' at hmoved ⊢
  -- A worker that stands elsewhere than after a commit is about to write no audit event.
  have hquiet : ∀ {stage}, s.workers w = stage → stage.audits? = none → ∀ id, ¬s.Auditing w id := by
    intro stage hstage hnone id hw
    unfold Auditing at hw
    rw [hstage, hnone] at hw
    cases hw
  cases hmoved with
  | stays => exact h
  | leaves stage hlease hfrom =>
      refine h.setStage ?_ ?_ ?_
      · intro id hw
        obtain ⟨rest, takenAt, step, hstage⟩ := hw.inside
        exact hfrom _ _ _ hstage
      · exact audits?_of_lease? hlease
      · rintro item takenAt purgedAt rfl
        cases hlease
  | acquires item hstage =>
      exact (h.locks item.kind _).setStage (hquiet hstage rfl) rfl (by simp)
  | enters item takenAt hm hstage =>
      exact h.setStage (hquiet hstage rfl) (audits?_inside (by simp)) (by simp)
  | works item takenAt step step' objects hstage hstep hobjects hstep' hcommitting =>
      refine (h.objects objects).setStage (hquiet hstage (audits?_inside hstep))
        (audits?_inside hstep') ?_
      rintro item' takenAt' purgedAt heq
      obtain ⟨rfl, rfl, rfl⟩ := PurgeStage.inside.inj heq
      exact (hcommitting purgedAt rfl).2
  | commits item takenAt purgedAt hstage => exact h.commits hc hstage
  | replies item takenAt hkind hstage => exact h.replies hkind hstage
  | audits item takenAt written hm hkind hstage =>
      subst hm
      obtain rfl : written = true := hprompt
      exact h.audits hc hstage hkind
  | ends item takenAt step outcome hstage hbroken =>
      refine h.setStage ?_ rfl (by simp)
      by_cases hstep : step = .committed ∨ step = .auditing
      · obtain hsession | rfl | rfl := hbroken hstep
        · exact hquiet hstage (audits?_session hsession)
        · exact hprompt
        · exact hprompt
      · exact hquiet hstage (audits?_inside (not_or.mp hstep))
  | releases item takenAt outcome hstage =>
      refine (h.locks item.kind none).setStage (hquiet hstage rfl) ?_ ?_
      · exact audits?_of_lease? (PurgeStage.lease?_released item outcome)
      · intro item' takenAt' purgedAt heq
        have hnone := PurgeStage.lease?_released item outcome
        rw [heq] at hnone
        cases hnone

theorem Audited.act {action : CleanupAction} (h : s.Audited) (hc : s.Covered)
    (hprompt : s.Prompt action) : (s.act action).Audited := by
  obtain ⟨duration, rfl⟩ | ⟨w, m, rfl⟩ | ⟨w, rfl⟩ | hout := act_cases s action
  · exact ⟨h.committing, h.unaudited, h.auditing, h.audited⟩
  · exact h.move hc hprompt
  · exact h.setStage hprompt rfl (by simp)
  · exact h.outside hout

end Audits

section Runs

variable {s₀ s : CleanupState}

theorem Unstarted.covered (h : s₀.Unstarted) : s₀.Covered where
  held w kind id takenAt hlease := by
    rw [h.stopped w] at hlease
    cases hlease
  lasts w item takenAt hwork := by
    have hlease := hwork.lease?
    rw [h.stopped w] at hlease
    cases hlease

theorem Unstarted.not_purged (h : s₀.Unstarted) (kind : OwnerKind) (id : Uuid) :
    ¬s₀.Purged kind id := by
  rintro ⟨row, hrow, -, hsome⟩
  rw [h.unpurged kind row hrow] at hsome
  cases hsome

theorem Unstarted.audited (h : s₀.Unstarted) : s₀.Audited where
  committing w item takenAt purgedAt hstage := by
    rw [h.stopped w] at hstage
    cases hstage
  unaudited id _ := by rw [h.unaudited, List.count_nil]
  auditing w id hw := by
    unfold Auditing at hw
    rw [h.stopped w] at hw
    cases hw
  audited id hpurged _ := absurd hpurged (h.not_purged .job id)

theorem Covered.purgeExclusive (hc : s.Covered) (ha : s.Audited) : s.PurgeExclusive where
  alone _ _ _ _ := hc.alone
  respects w item takenAt outcome lease hstage hcurrent := by
    rw [hc.current_of_working (Or.inr ⟨outcome, hstage⟩)] at hcurrent
    exact congrArg Lease.holder (Option.some.inj hcurrent).symm
  unaudited := ha.unaudited
  audited id hpurged := by
    by_cases howed : ∃ w, s.Auditing w id
    · obtain ⟨w, hw⟩ := howed
      exact Or.inr ⟨(ha.auditing w id hw).2, w, hw⟩
    · exact Or.inl (ha.audited id hpurged fun w hw => howed ⟨w, hw⟩)

/-- Where no purge outlives its lock, purges are exclusive and are audited once. -/
theorem purges_exclusive (h₀ : s₀.Unstarted) (run : ActionRun (Acts act) Prompt s₀ s) :
    s.PurgeExclusive := by
  have hboth : s.Covered ∧ s.Audited := by
    refine run.invariant (I := fun s => s.Covered ∧ s.Audited) ⟨h₀.covered, h₀.audited⟩ ?_
    rintro s action _ ⟨hc, ha⟩ rfl hprompt
    exact ⟨hc.act hprompt, ha.act hc hprompt⟩
  exact hboth.1.purgeExclusive hboth.2

end Runs

section Samples

/-- An owner of the kind that is due, and no other owners. -/
def oneDue (kind : OwnerKind) (status : OwnerStatus kind) : CleanupState where
  now := 0
  batchSize := 10
  owners := Function.update (fun kind => (⟨[], List.nodup_nil⟩ : OwnerTable kind)) kind
    ⟨[⟨7, status, RETENTION_TRANSIENT, some 0, some 0, none⟩], List.nodup_singleton 7⟩
  objects := []
  locks _ _ := none
  workers _ := .stopped
  audits := []

theorem oneDue_unstarted (kind : OwnerKind) (status : OwnerStatus kind) :
    (oneDue kind status).Unstarted where
  stopped _ := rfl
  unpurged kind' row hrow := by
    unfold oneDue at hrow
    by_cases heq : kind' = kind
    · subst heq
      simp only [Function.update_self, List.mem_singleton] at hrow
      rw [hrow]
    · simp [Function.update_of_ne heq] at hrow
  unaudited := rfl

/-- From the start of a worker to inside the purge of a job. -/
def intoPurge (w : Nat) : List CleanupAction :=
  [.start, .wake, .select, .set, .answer].map (.move w)

/-- From inside the purge of a job without artifacts to the end of it. -/
def throughPurge (w : Nat) : List CleanupAction :=
  [.list, .load, .commit, .reply, .audit true, .release].map (.move w)

end Samples

theorem purges_exclusive_sample :
    ((intoPurge 0 ++ throughPurge 0).foldl act (oneDue .job .completed)).PurgeExclusive := by
  have hanswer : (List.foldl act (oneDue .job .completed)
      [.move 0 .start, .move 0 .wake, .move 0 .select, .move 0 .set]).Prompt (.move 0 .answer) := by
    intro item takenAt hstage
    cases hstage
    decide
  exact purges_exclusive (oneDue_unstarted .job .completed) (ActionRun.of_permitted
    ⟨trivial, trivial, trivial, trivial, hanswer, trivial, trivial, trivial, trivial, rfl, trivial,
      trivial⟩)

/-- A purge that takes longer than five minutes is joined by another worker. -/
theorem two_purges :
    ¬∀ s₀ s : CleanupState, s₀.Unstarted → ActionRun (Acts act) (fun _ _ => True) s₀ s →
      s.PurgeExclusive := by
  intro hclaim
  have hpermitted : AllPermitted act (fun _ _ => True) (oneDue .job .completed)
      (intoPurge 0 ++ .tick 300001 :: intoPurge 1) := by
    simp [AllPermitted, intoPurge]
  have hlaw := hclaim _ _ (oneDue_unstarted .job .completed) (ActionRun.of_permitted hpermitted)
  have halone := hlaw.alone .job 7 0 1 ⟨[], 0, .listing none, by decide +kernel⟩
    ⟨[], 300001, .listing none, by decide +kernel⟩
  cases halone

end CleanupState

end Dalston.Orchestrator.Cleanup
