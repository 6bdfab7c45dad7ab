import Dalston.Gateway.SessionItems

/-!
# Which completed events belong to which commits

An observer who sees the commits, clears and finals, and no item id, can say when the
adapter's events are right: it keeps the audio of the commits that wait for their final.
-/

namespace Dalston.Gateway

open Foundation Model

section Queue

variable {α β : Type}

/-- What waits after one more was committed: the newest are kept, or the one that came
first if nothing can be queued. -/
def enqueue (maxDepth : Int) (item : α) (waiting : List α) : List α :=
  if 0 < maxDepth then
    if maxDepth < (waiting ++ [item]).length then (waiting ++ [item]).tail
    else waiting ++ [item]
  else if waiting.isEmpty then [item] else waiting

/-- What waits after a clear. -/
def afterClear (maxDepth : Int) (waiting : List α) : List α :=
  if 0 < maxDepth then waiting else []

theorem forall₂_tail {R : α → β → Prop} {as : List α} {bs : List β}
    (h : List.Forall₂ R as bs) : List.Forall₂ R as.tail bs.tail := by
  cases h with
  | nil => exact List.Forall₂.nil
  | cons _ hrest => exact hrest

theorem enqueue_forall₂ {R : α → β → Prop} {maxDepth : Int} {a : α} {b : β} {as : List α}
    {bs : List β} (hab : R a b) (h : List.Forall₂ R as bs) :
    List.Forall₂ R (enqueue maxDepth a as) (enqueue maxDepth b bs) := by
  have happ : List.Forall₂ R (as ++ [a]) (bs ++ [b]) :=
    List.rel_append h (List.Forall₂.cons hab List.Forall₂.nil)
  simp only [enqueue, happ.length_eq]
  split
  · split
    · exact forall₂_tail happ
    · exact happ
  · cases h with
    | nil => exact happ
    | cons hhead hrest => exact List.Forall₂.cons hhead hrest

theorem enqueue_sublist (maxDepth : Int) (item : α) (waiting : List α) :
    (enqueue maxDepth item waiting).Sublist (waiting ++ [item]) := by
  unfold enqueue
  split
  · split
    · exact List.tail_sublist _
    · exact List.Sublist.refl _
  · split
    · exact List.sublist_append_right _ _
    · exact List.sublist_append_left _ _

theorem enqueue_short {maxDepth : Int} {item : α} {waiting : List α} (hdepth : ¬ 0 < maxDepth)
    (h : waiting.length ≤ 1) : (enqueue maxDepth item waiting).length ≤ 1 := by
  rw [enqueue, if_neg hdepth]
  split
  · exact le_refl 1
  · exact h

end Queue

theorem OpenAISessionState.ensure_pending (state : OpenAISessionState) :
    state.ensureActiveItem.2.pendingItemId = state.pendingItemId := by
  unfold OpenAISessionState.ensureActiveItem
  split
  · rfl
  · split <;> rfl

theorem OpenAISessionState.discard_pending (state : OpenAISessionState) (newId : String) :
    (state.discardPendingItem newId).pendingItemId = newId := by
  unfold OpenAISessionState.discardPendingItem
  split
  · split <;> rfl
  · rfl

theorem OpenAISessionState.finalize_pending (state : OpenAISessionState) :
    state.finalizeActiveItem.pendingItemId = state.pendingItemId := by
  unfold OpenAISessionState.finalizeActiveItem
  split <;> rfl

/-- The shape of the shared state while the items `ids` wait for their final. -/
structure Shape (maxDepth : Int) (ids : List String) (state : OpenAISessionState) : Prop where
  queue : state.committedItemQueue = if 0 < maxDepth then ids else []
  active : state.activeTranscriptItemId = ids.head? ∨
    ids = [] ∧ state.activeTranscriptItemId = some state.pendingItemId
  short : ¬ 0 < maxDepth → ids.length ≤ 1

namespace Shape

variable {maxDepth : Int} {ids : List String} {state : OpenAISessionState}

theorem initial (itemId : String) : Shape maxDepth [] (.initial itemId) where
  queue := by simp [OpenAISessionState.initial]
  active := Or.inl rfl
  short := by simp

/-- The active item is the oldest one that waits, or the pending one if none does. -/
theorem ensureActiveItem (h : Shape maxDepth ids state) :
    state.ensureActiveItem =
      (ids.headD state.pendingItemId,
        { state with activeTranscriptItemId := some (ids.headD state.pendingItemId) }) := by
  obtain ⟨pending, active, last, queue⟩ := state
  rcases h.active with hactive | ⟨rfl, hactive⟩
  · have hactive : active = ids.head? := hactive
    subst hactive
    cases ids with
    | nil =>
        have hqueue : queue = [] := by simpa using h.queue
        subst hqueue
        rfl
    | cons id rest => rfl
  · have hactive : active = some pending := hactive
    subst hactive
    rfl

theorem ensured (h : Shape maxDepth ids state) :
    Shape maxDepth ids
      { state with activeTranscriptItemId := some (ids.headD state.pendingItemId) } where
  queue := h.queue
  active := by
    cases ids with
    | nil => exact Or.inr ⟨rfl, rfl⟩
    | cons id rest => exact Or.inl rfl
  short := h.short

theorem commitActiveItem (h : Shape maxDepth ids state) (newId : String) :
    Shape maxDepth (enqueue maxDepth state.pendingItemId ids)
      (state.commitActiveItem maxDepth newId).2.2 := by
  obtain ⟨pending, active, last, queue⟩ := state
  obtain ⟨hqueue, hactive, hshort⟩ := h
  simp only at hqueue hactive
  by_cases hdepth : 0 < maxDepth
  · rw [if_pos hdepth] at hqueue
    subst hqueue
    constructor
    case short => exact fun hnot => absurd hdepth hnot
    case queue =>
      simp only [OpenAISessionState.commitActiveItem, OpenAISessionState.dropOverflow, enqueue,
        if_pos hdepth]
      cases queue with
      | nil => split <;> rfl
      | cons id rest => split <;> rfl
    case active =>
      left
      simp only [OpenAISessionState.commitActiveItem, OpenAISessionState.dropOverflow, enqueue,
        if_pos hdepth]
      cases queue with
      | nil =>
          have hfits : ¬ maxDepth < 1 := by omega
          rcases hactive with rfl | ⟨_, rfl⟩ <;> simp [hfits]
      | cons id rest =>
          rcases hactive with rfl | ⟨hnil, _⟩
          · by_cases hover : maxDepth < ((id :: rest) ++ [pending]).length
            · rw [if_pos hover, if_pos hover]
              cases rest <;> simp
            · rw [if_neg hover, if_neg hover]
              simp
          · cases hnil
  · rw [if_neg hdepth] at hqueue
    subst hqueue
    have hover : maxDepth < 1 := by omega
    constructor
    case short => exact fun _ => enqueue_short hdepth (hshort hdepth)
    case queue =>
      simp [OpenAISessionState.commitActiveItem, OpenAISessionState.dropOverflow, hover, hdepth]
    case active =>
      left
      simp only [OpenAISessionState.commitActiveItem, OpenAISessionState.dropOverflow, enqueue,
        if_neg hdepth, List.nil_append, List.length_singleton, Nat.cast_one, if_pos hover]
      rcases hactive with rfl | ⟨rfl, rfl⟩
      · cases ids with
        | nil => simp
        | cons id rest =>
            by_cases heq : id = pending <;> simp [heq]
      · simp

/-- A final for the oldest item that waits takes it off the queue. -/
theorem finalizeActiveItem {id : String} (h : Shape maxDepth (id :: ids) state)
    (hactive : state.activeTranscriptItemId = some id) :
    Shape maxDepth ids state.finalizeActiveItem := by
  have hshort : ¬ 0 < maxDepth → ids = [] := by
    intro hdepth
    simpa using h.short hdepth
  rw [OpenAISessionState.finalizeActiveItem, hactive]
  by_cases hdepth : 0 < maxDepth
  · have hqueue : state.committedItemQueue.erase id = ids := by
      rw [h.queue, if_pos hdepth, List.erase_cons_head]
    constructor
    case queue => simp only [hqueue, if_pos hdepth]
    case active => exact Or.inl (congrArg List.head? hqueue)
    case short => exact fun hnot => absurd hdepth hnot
  · have hqueue : state.committedItemQueue.erase id = [] := by
      rw [h.queue, if_neg hdepth, List.erase_nil]
    constructor
    case queue => simp only [hqueue, if_neg hdepth]
    case active =>
      left
      rw [hshort hdepth]
      exact congrArg List.head? hqueue
    case short => simp [hshort hdepth]

/-- A final while nothing waits leaves no item active. -/
theorem finalizePending (h : Shape maxDepth [] state) {active : String}
    (hactive : state.activeTranscriptItemId = some active) :
    Shape maxDepth [] state.finalizeActiveItem := by
  have hqueue : state.committedItemQueue = [] := by simpa using h.queue
  rw [OpenAISessionState.finalizeActiveItem, hactive]
  constructor
  case queue => simp [hqueue]
  case active => exact Or.inl (by simp [hqueue])
  case short => simp

theorem discardPendingItem (h : Shape maxDepth ids state) (newId : String) :
    Shape maxDepth (afterClear maxDepth ids) (state.discardPendingItem newId) := by
  obtain ⟨pending, active, last, queue⟩ := state
  obtain ⟨hqueue, hactive, hshort⟩ := h
  simp only at hqueue hactive
  unfold afterClear
  by_cases hdepth : 0 < maxDepth
  · rw [if_pos hdepth] at hqueue ⊢
    subst hqueue
    cases queue with
    | nil =>
        rcases hactive with rfl | ⟨_, rfl⟩ <;>
          exact ⟨by simp [OpenAISessionState.discardPendingItem],
            Or.inl (by simp [OpenAISessionState.discardPendingItem]), by simp⟩
    | cons id rest =>
        rcases hactive with rfl | ⟨hnil, _⟩
        · exact ⟨by simp [OpenAISessionState.discardPendingItem, hdepth],
            Or.inl (by simp [OpenAISessionState.discardPendingItem]), hshort⟩
        · cases hnil
  · rw [if_neg hdepth] at hqueue ⊢
    subst hqueue
    cases active <;>
      exact ⟨by simp [OpenAISessionState.discardPendingItem],
        Or.inl (by simp [OpenAISessionState.discardPendingItem]), by simp⟩

end Shape

/-- A commit that waits for its final: its audio, and whether a final came before it did. -/
structure Waiting where
  audio : Span
  finalized : Bool

/-- What is seen of a session without its item ids. -/
structure Observer where
  received : Nat
  committedUntil : Nat
  waiting : List Waiting
  early : Option Span

namespace Observer

def start : Observer where
  received := 0
  committedUntil := 0
  waiting := []
  early := none

/-- The audio that a commit would close now. -/
def openAudio (observer : Observer) : Span where
  start := observer.committedUntil
  stop := observer.received

def next (maxDepth : Int) (observer : Observer) : AdapterEvent → Observer
  | .append size => { observer with received := observer.received + size }
  | .commit _ =>
      { observer with
        committedUntil := observer.received
        waiting := enqueue maxDepth
          { audio := observer.openAudio, finalized := observer.early.isSome } observer.waiting
        early := none }
  | .clear _ =>
      { observer with waiting := afterClear maxDepth observer.waiting, early := none }
  | .transcriptFinal _ audio =>
      match observer.waiting with
      | [] => { observer with early := some audio }
      | _ :: rest => { observer with waiting := rest }
  | _ => observer

/-- A final is of the audio of the oldest commit that waits, and the first one for it. While
none waits, one final may come before the next commit, and is then of the audio it closes. -/
def Accepts (observer : Observer) : AdapterEvent → Prop
  | .commit _ => ∀ audio, observer.early = some audio → audio.Within observer.openAudio
  | .transcriptFinal _ audio =>
      match observer.waiting with
      | [] => observer.early = none
      | oldest :: _ => oldest.finalized = false ∧ audio.Within oldest.audio
  | _ => True

end Observer

/-- Every event of a run is accepted. -/
def Matched (maxDepth : Int) : Observer → List AdapterEvent → Prop
  | _, [] => True
  | observer, event :: rest =>
      observer.Accepts event ∧ Matched maxDepth (observer.next maxDepth event) rest

/-- The ids that a session has used. -/
def ItemSession.known (session : ItemSession) : List String :=
  session.state.pendingItemId :: session.commits.map (·.itemId) ++
    session.completions.map (·.itemId)

/-- The observer tracks the session, whose waiting items are `ids`. -/
structure Tracks (maxDepth : Int) (ids : List String) (observer : Observer)
    (session : ItemSession) : Prop where
  shape : Shape maxDepth ids session.state
  received : observer.received = session.received
  committedUntil : observer.committedUntil = session.committedUntil
  waiting : List.Forall₂ (fun id (item : Waiting) =>
    { itemId := id, audio := item.audio } ∈ session.commits ∧
      (item.finalized = true ↔ id ∈ session.completions.map (·.itemId))) ids observer.waiting
  early_none : observer.early = none →
    session.state.pendingItemId ∉ session.completions.map (·.itemId)
  early_some : ∀ audio, observer.early = some audio → ids = [] ∧ ∃ before,
    session.completions = before ++ [{ itemId := session.state.pendingItemId, audio }]
  fresh : session.state.pendingItemId ∉ session.commits.map (·.itemId)
  distinct : (session.commits.map (·.itemId)).Nodup
  queued : ids.Sublist (session.commits.map (·.itemId))
  once : (session.completions.map (·.itemId)).Nodup
  ordered : ((session.completions.map (·.itemId)).filter
        (· ∈ session.commits.map (·.itemId)) ++
      ids.filter (· ∉ session.completions.map (·.itemId))).Sublist
    (session.commits.map (·.itemId))
  text : ∀ completion ∈ session.completions, ∀ commit ∈ session.commits,
    completion.itemId = commit.itemId → completion.audio.Within commit.audio

namespace Tracks

variable {maxDepth : Int} {ids : List String} {observer : Observer} {session : ItemSession}

theorem start (itemId : String) : Tracks maxDepth [] .start (.start itemId) where
  shape := Shape.initial itemId
  received := rfl
  committedUntil := rfl
  waiting := List.Forall₂.nil
  early_none := fun _ => List.not_mem_nil
  early_some := by
    intro audio h
    cases h
  fresh := List.not_mem_nil
  distinct := List.nodup_nil
  queued := List.Sublist.refl _
  once := List.nodup_nil
  ordered := List.Sublist.refl _
  text := by
    intro completion h
    cases h

theorem correlated (h : Tracks maxDepth ids observer session) : session.Correlated where
  once := h.once
  ordered := (List.sublist_append_left _ _).trans h.ordered
  text := h.text

/-- Events that change neither the record nor the pending item keep the observer on track. -/
theorem unchanged (h : Tracks maxDepth ids observer session) {state : OpenAISessionState}
    (hshape : Shape maxDepth ids state) (hpending : state.pendingItemId =
      session.state.pendingItemId) :
    Tracks maxDepth ids observer { session with state } where
  shape := hshape
  received := h.received
  committedUntil := h.committedUntil
  waiting := h.waiting
  early_none := by
    rw [hpending]
    exact h.early_none
  early_some := by
    rw [hpending]
    exact h.early_some
  fresh := by
    rw [hpending]
    exact h.fresh
  distinct := h.distinct
  queued := h.queued
  once := h.once
  ordered := h.ordered
  text := h.text

theorem append (h : Tracks maxDepth ids observer session) (size : Nat) :
    Tracks maxDepth ids (observer.next maxDepth (.append size))
      (session.step maxDepth (.append size)) where
  shape := h.shape
  received := congrArg (· + size) h.received
  committedUntil := h.committedUntil
  waiting := h.waiting
  early_none := h.early_none
  early_some := h.early_some
  fresh := h.fresh
  distinct := h.distinct
  queued := h.queued
  once := h.once
  ordered := h.ordered
  text := h.text

/-- A clear gives the pending item a new id, and keeps what waits if it is queued. -/
theorem clear (h : Tracks maxDepth ids observer session) {newId : String}
    (hnew : newId ∉ session.known) :
    Tracks maxDepth (afterClear maxDepth ids) (observer.next maxDepth (.clear newId))
      (session.step maxDepth (.clear newId)) := by
  have hpending : (session.step maxDepth (.clear newId)).state.pendingItemId = newId :=
    session.state.discard_pending newId
  have hsub : (afterClear maxDepth ids).Sublist ids := by
    unfold afterClear
    split
    · exact List.Sublist.refl _
    · exact List.nil_sublist _
  simp only [ItemSession.known, List.cons_append, List.mem_cons, List.mem_append, not_or] at hnew
  constructor
  case shape => exact h.shape.discardPendingItem newId
  case received => exact h.received
  case committedUntil => exact h.committedUntil
  case waiting =>
    simp only [Observer.next, afterClear]
    split
    · exact h.waiting
    · exact List.Forall₂.nil
  case early_none =>
    intro _
    rw [hpending]
    exact hnew.2.2
  case early_some =>
    intro audio hearly
    cases hearly
  case fresh =>
    rw [hpending]
    exact hnew.2.1
  case distinct => exact h.distinct
  case queued => exact hsub.trans h.queued
  case once => exact h.once
  case ordered => exact ((List.Sublist.refl _).append (hsub.filter _)).trans h.ordered
  case text => exact h.text

section Commit

variable {newId : String}

theorem commit_pending :
    (session.step maxDepth (.commit newId)).state.pendingItemId = newId := rfl

theorem commit_commits :
    (session.step maxDepth (.commit newId)).commits = session.commits ++
      [{ itemId := session.state.pendingItemId,
         audio := { start := session.committedUntil, stop := session.received } }] := rfl

theorem commit_completions :
    (session.step maxDepth (.commit newId)).completions = session.completions := rfl

/-- The completed events of committed items after a commit, in the order of the commits. -/
theorem commit_ordered (h : Tracks maxDepth ids observer session) :
    ((session.completions.map (·.itemId)).filter
          (· ∈ session.commits.map (·.itemId) ++ [session.state.pendingItemId]) ++
        (enqueue maxDepth session.state.pendingItemId ids).filter
          (· ∉ session.completions.map (·.itemId))).Sublist
      (session.commits.map (·.itemId) ++ [session.state.pendingItemId]) := by
  have hwaits := (enqueue_sublist maxDepth session.state.pendingItemId ids).filter
    (· ∉ session.completions.map (·.itemId))
  refine ((List.Sublist.refl _).append hwaits).trans ?_
  rw [List.filter_append, ← List.append_assoc]
  cases hearly : observer.early with
  | none =>
      have hnot := h.early_none hearly
      have hfilter : (session.completions.map (·.itemId)).filter
            (· ∈ session.commits.map (·.itemId) ++ [session.state.pendingItemId]) =
          (session.completions.map (·.itemId)).filter
            (· ∈ session.commits.map (·.itemId)) := by
        apply List.filter_congr
        intro id hid
        have hne : id ≠ session.state.pendingItemId := fun heq => hnot (heq ▸ hid)
        simp [hne]
      rw [hfilter]
      exact h.ordered.append (List.filter_sublist)
  | some audio =>
      obtain ⟨rfl, before, hbefore⟩ := h.early_some audio hearly
      have honce := h.once
      have hordered := h.ordered
      rw [hbefore] at honce hordered ⊢
      simp only [List.map_append, List.map_cons, List.map_nil] at honce hordered ⊢
      have hnot : session.state.pendingItemId ∉ before.map (·.itemId) := by
        intro hmem
        exact (List.nodup_append.mp honce).2.2 _ hmem _ (List.mem_singleton_self _) rfl
      have hfilter : (before.map (·.itemId)).filter
            (· ∈ session.commits.map (·.itemId) ++ [session.state.pendingItemId]) =
          (before.map (·.itemId)).filter (· ∈ session.commits.map (·.itemId)) := by
        apply List.filter_congr
        intro id hid
        have hne : id ≠ session.state.pendingItemId := fun heq => hnot (heq ▸ hid)
        simp [hne]
      have hfront : ((before.map (·.itemId)).filter
          (· ∈ session.commits.map (·.itemId))).Sublist
            (session.commits.map (·.itemId)) := by
        refine List.Sublist.trans ?_ hordered
        rw [List.filter_append, List.append_assoc]
        exact List.sublist_append_left _ _
      rw [List.filter_append, hfilter]
      simpa using hfront.append (List.Sublist.refl [session.state.pendingItemId])

/-- An accepted commit moves the pending item to the end of what waits. -/
theorem commit (h : Tracks maxDepth ids observer session) (hnew : newId ∉ session.known)
    (haccepts : observer.Accepts (.commit newId)) :
    Tracks maxDepth (enqueue maxDepth session.state.pendingItemId ids)
      (observer.next maxDepth (.commit newId)) (session.step maxDepth (.commit newId)) := by
  have haudio : observer.openAudio =
      { start := session.committedUntil, stop := session.received } := by
    rw [Observer.openAudio, h.received, h.committedUntil]
  simp only [ItemSession.known, List.cons_append, List.mem_cons, List.mem_append, not_or] at hnew
  constructor
  case shape => exact h.shape.commitActiveItem newId
  case received => exact h.received
  case committedUntil => exact h.received
  case waiting =>
    apply enqueue_forall₂
    · constructor
      · rw [haudio, commit_commits]
        exact List.mem_append_right _ (List.mem_singleton_self _)
      · constructor
        · intro hearly
          obtain ⟨audio, haudio⟩ := Option.isSome_iff_exists.mp hearly
          obtain ⟨_, before, hbefore⟩ := h.early_some audio haudio
          rw [commit_completions, hbefore]
          simp
        · intro hmem
          by_contra hearly
          exact h.early_none (Option.not_isSome_iff_eq_none.mp hearly) hmem
    · refine h.waiting.imp ?_
      rintro id item ⟨hcommit, hiff⟩
      exact ⟨List.mem_append_left _ hcommit, hiff⟩
  case early_none =>
    intro _
    exact hnew.2.2
  case early_some =>
    intro audio hearly
    cases hearly
  case fresh =>
    simp only [commit_pending, commit_commits, List.map_append, List.map_cons, List.map_nil,
      List.mem_append, List.mem_singleton, not_or]
    exact ⟨hnew.2.1, hnew.1⟩
  case distinct =>
    simp only [commit_commits, List.map_append, List.map_cons, List.map_nil]
    exact List.nodup_append.mpr ⟨h.distinct, List.nodup_singleton _, fun id hid other hother =>
      fun heq => h.fresh (List.mem_singleton.mp hother ▸ heq ▸ hid)⟩
  case queued =>
    simp only [commit_commits, List.map_append, List.map_cons, List.map_nil]
    exact (enqueue_sublist _ _ _).trans (h.queued.append (List.Sublist.refl _))
  case once => exact h.once
  case ordered =>
    simp only [commit_commits, List.map_append, List.map_cons, List.map_nil]
    exact h.commit_ordered
  case text =>
    intro completion hcompletion commit hcommit heq
    rw [commit_commits] at hcommit
    rcases List.mem_append.mp hcommit with hold | hnew
    · exact h.text completion hcompletion commit hold heq
    · rw [List.mem_singleton.mp hnew] at heq ⊢
      cases hearly : observer.early with
      | none =>
          exact absurd (List.mem_map.mpr ⟨completion, hcompletion, heq⟩) (h.early_none hearly)
      | some audio =>
          obtain ⟨_, before, hbefore⟩ := h.early_some audio hearly
          have honce := h.once
          rw [commit_completions] at hcompletion
          rw [hbefore] at honce hcompletion
          rcases List.mem_append.mp hcompletion with hbefore | hlast
          · simp only [List.map_append, List.map_cons, List.map_nil] at honce
            exact absurd heq ((List.nodup_append.mp honce).2.2 _
              (List.mem_map.mpr ⟨completion, hbefore, rfl⟩) _ (List.mem_singleton_self _))
          · rw [List.mem_singleton.mp hlast, ← haudio]
            exact haccepts audio hearly

end Commit

section Final

theorem nodup_snoc {α : Type} {xs : List α} {x : α} (h : xs.Nodup) (hx : x ∉ xs) :
    (xs ++ [x]).Nodup := by
  rw [← List.concat_eq_append]
  exact h.concat hx

variable {transcript : Json} {audio : Span}

/-- A final is a completed event for the oldest item that waits, else for the pending one. -/
theorem step_final (h : Tracks maxDepth ids observer session) :
    session.step maxDepth (.transcriptFinal transcript audio) =
      { session with
        state := OpenAISessionState.finalizeActiveItem {
          session.state with
            activeTranscriptItemId := some (ids.headD session.state.pendingItemId) }
        completions := session.completions ++
          [{ itemId := ids.headD session.state.pendingItemId, audio }] } := by
  simp only [ItemSession.step, OpenAISessionState.handle, h.shape.ensureActiveItem]
  rfl

/-- The first final of the pending item, while nothing waits. -/
theorem finalPending (h : Tracks maxDepth [] observer session) (hearly : observer.early = none) :
    Tracks maxDepth [] { observer with early := some audio }
      (session.step maxDepth (.transcriptFinal transcript audio)) := by
  have hnot := h.early_none hearly
  have hwaiting := h.waiting
  rw [h.step_final, List.headD_nil]
  constructor
  case shape => exact h.shape.ensured.finalizePending rfl
  case received => exact h.received
  case committedUntil => exact h.committedUntil
  case waiting =>
    rw [List.forall₂_nil_left_iff.mp hwaiting]
    exact List.Forall₂.nil
  case early_none =>
    intro hnone
    cases hnone
  case early_some =>
    intro found hfound
    cases hfound
    rw [OpenAISessionState.finalize_pending]
    exact ⟨rfl, session.completions, rfl⟩
  case fresh =>
    rw [OpenAISessionState.finalize_pending]
    exact h.fresh
  case distinct => exact h.distinct
  case queued => exact h.queued
  case once =>
    rw [List.map_append]
    exact nodup_snoc h.once hnot
  case ordered =>
    have hordered := h.ordered
    have hfresh : [session.state.pendingItemId].filter
        (· ∈ session.commits.map (·.itemId)) = [] := by
      simp only [List.filter_cons, h.fresh, decide_false, Bool.false_eq_true, if_false,
        List.filter_nil]
    simp only [List.filter_nil, List.append_nil] at hordered
    simp only [List.map_append, List.map_cons, List.map_nil, List.filter_append, hfresh,
      List.filter_nil, List.append_nil]
    exact hordered
  case text =>
    intro completion hcompletion commit hcommit heq
    rcases List.mem_append.mp hcompletion with hold | hnew
    · exact h.text completion hold commit hcommit heq
    · rw [List.mem_singleton.mp hnew] at heq
      exact absurd (List.mem_map.mpr ⟨commit, hcommit, heq.symm⟩) h.fresh

/-- The final of the oldest item that waits. -/
theorem finalOldest {id : String} {oldest : Waiting} {rest : List Waiting}
    (h : Tracks maxDepth (id :: ids) observer session)
    (hwaiting : observer.waiting = oldest :: rest) (hfirst : oldest.finalized = false)
    (hwithin : audio.Within oldest.audio) :
    Tracks maxDepth ids { observer with waiting := rest }
      (session.step maxDepth (.transcriptFinal transcript audio)) := by
  have hforall := h.waiting
  rw [hwaiting] at hforall
  obtain ⟨⟨hcommitted, hfinal⟩, hrest⟩ := List.forall₂_cons.mp hforall
  have hnot : id ∉ session.completions.map (·.itemId) := by
    intro hmem
    rw [hfirst] at hfinal
    exact Bool.noConfusion (hfinal.mpr hmem)
  have hids : id ∉ ids := (List.nodup_cons.mp (h.distinct.sublist h.queued)).1
  have hmem : id ∈ session.commits.map (·.itemId) := List.mem_map.mpr ⟨_, hcommitted, rfl⟩
  have hearly : observer.early = none := by
    cases hcase : observer.early with
    | none => rfl
    | some early => cases (h.early_some early hcase).1
  rw [h.step_final, List.headD_cons]
  constructor
  case shape => exact h.shape.ensured.finalizeActiveItem rfl
  case received => exact h.received
  case committedUntil => exact h.committedUntil
  case waiting =>
    have hother : ∀ other ∈ ids, other ≠ id := fun other hmem heq => hids (heq ▸ hmem)
    refine (List.forall₂_and_left _ _ |>.mpr ⟨hother, hrest⟩).imp ?_
    rintro other item ⟨hne, hcommit, hiff⟩
    refine ⟨hcommit, ?_⟩
    simpa [hne] using hiff
  case early_none =>
    intro _
    rw [OpenAISessionState.finalize_pending, List.map_append]
    have hne : session.state.pendingItemId ≠ id := fun heq => h.fresh (heq ▸ hmem)
    exact fun hin => (List.mem_append.mp hin).elim (h.early_none hearly)
      fun hlast => hne (List.mem_singleton.mp hlast)
  case early_some =>
    intro early hsome
    rw [hearly] at hsome
    cases hsome
  case fresh =>
    rw [OpenAISessionState.finalize_pending]
    exact h.fresh
  case distinct => exact h.distinct
  case queued => exact (List.sublist_cons_self id ids).trans h.queued
  case once =>
    rw [List.map_append]
    exact nodup_snoc h.once hnot
  case ordered =>
    have hordered := h.ordered
    have hkept : ids.filter (· ∉ session.completions.map (·.itemId) ++ [id]) =
        ids.filter (· ∉ session.completions.map (·.itemId)) := by
      apply List.filter_congr
      intro other hother
      have hne : other ≠ id := fun heq => hids (heq ▸ hother)
      simp [hne]
    have hcounted : [id].filter (· ∈ session.commits.map (·.itemId)) = [id] := by
      simp only [List.filter_cons, hmem, decide_true, if_true, List.filter_nil]
    rw [List.filter_cons_of_pos (by simpa only [decide_eq_true_eq] using hnot)] at hordered
    simp only [List.map_append, List.map_cons, List.map_nil, List.filter_append, hcounted, hkept,
      List.append_assoc, List.singleton_append]
    exact hordered
  case text =>
    intro completion hcompletion commit hcommit heq
    rcases List.mem_append.mp hcompletion with hold | hnew
    · exact h.text completion hold commit hcommit heq
    · rw [List.mem_singleton.mp hnew] at heq ⊢
      have hsame : commit = { itemId := id, audio := oldest.audio } :=
        List.inj_on_of_nodup_map h.distinct hcommit hcommitted heq.symm
      rw [hsame]
      exact hwithin

end Final

/-- Interim texts and speech boundaries only make an item active. -/
theorem active (h : Tracks maxDepth ids observer session) :
    Tracks maxDepth ids observer
      { session with state := session.state.ensureActiveItem.2 } := by
  rw [h.shape.ensureActiveItem]
  exact h.unchanged h.shape.ensured rfl

/-- The observer stays on track after every event that it accepts. -/
theorem step (h : Tracks maxDepth ids observer session) {event : AdapterEvent}
    (hnew : ∀ newId, generatedId event = some newId → newId ∉ session.known)
    (haccepts : observer.Accepts event) :
    ∃ ids', Tracks maxDepth ids' (observer.next maxDepth event)
      (session.step maxDepth event) := by
  cases event with
  | append size => exact ⟨ids, h.append size⟩
  | commit newId => exact ⟨_, h.commit (hnew newId rfl) haccepts⟩
  | clear newId => exact ⟨_, h.clear (hnew newId rfl)⟩
  | transcriptPartial text => exact ⟨ids, h.active⟩
  | speechStart timestamp => exact ⟨ids, h.active⟩
  | speechEnd timestamp => exact ⟨ids, h.active⟩
  | transcriptFinal text audio =>
      obtain ⟨received, committedUntil, waiting, early⟩ := observer
      have hforall := h.waiting
      cases waiting with
      | nil =>
          obtain rfl := List.forall₂_nil_right_iff.mp hforall
          exact ⟨[], h.finalPending haccepts⟩
      | cons oldest rest =>
          cases ids with
          | nil => cases hforall
          | cons id rest => exact ⟨rest, h.finalOldest rfl haccepts.1 haccepts.2⟩

end Tracks

namespace ItemSession

variable {maxDepth : Int} {session : ItemSession}

/-- The record of a step extends the record before it. -/
theorem step_record (maxDepth : Int) (session : ItemSession) (event : AdapterEvent) :
    ∃ commits completions,
      (session.step maxDepth event).commits = session.commits ++ commits ∧
      (session.step maxDepth event).completions = session.completions ++ completions := by
  cases event with
  | commit newId => exact ⟨_, [], rfl, (List.append_nil _).symm⟩
  | transcriptFinal text audio => exact ⟨[], _, (List.append_nil _).symm, rfl⟩
  | append | clear | transcriptPartial | speechStart | speechEnd =>
      exact ⟨[], [], (List.append_nil _).symm, (List.append_nil _).symm⟩

theorem run_record (maxDepth : Int) (session : ItemSession) (events : List AdapterEvent) :
    ∃ commits completions,
      (session.run maxDepth events).commits = session.commits ++ commits ∧
      (session.run maxDepth events).completions = session.completions ++ completions := by
  induction events generalizing session with
  | nil => exact ⟨[], [], (List.append_nil _).symm, (List.append_nil _).symm⟩
  | cons event rest ih =>
      obtain ⟨commits, completions, hcommits, hcompletions⟩ :=
        step_record maxDepth session event
      obtain ⟨commits', completions', hcommits', hcompletions'⟩ :=
        ih (session.step maxDepth event)
      refine ⟨commits ++ commits', completions ++ completions', ?_, ?_⟩
      · rw [← List.append_assoc, ← hcommits]
        exact hcommits'
      · rw [← List.append_assoc, ← hcompletions]
        exact hcompletions'

/-- What was wrong in the record stays wrong. -/
theorem once_text_of_run {events : List AdapterEvent}
    (h : (session.run maxDepth events).Correlated) :
    (session.completions.map (·.itemId)).Nodup ∧
      ∀ completion ∈ session.completions, ∀ commit ∈ session.commits,
        completion.itemId = commit.itemId → completion.audio.Within commit.audio := by
  obtain ⟨commits, completions, hcommits, hcompletions⟩ :=
    run_record maxDepth session events
  have honce := h.once
  have htext := h.text
  rw [hcompletions] at honce htext
  rw [hcommits] at htext
  rw [List.map_append] at honce
  exact ⟨(List.nodup_append.mp honce).1, fun completion hcompletion commit hcommit =>
    htext completion (List.mem_append_left _ hcompletion) commit
      (List.mem_append_left _ hcommit)⟩

/-- A step uses no id but the ones known and the one it generates. -/
theorem known_step {event : AdapterEvent} {id : String}
    (hactive : session.state.ensureActiveItem.1 ∈ session.known)
    (h : id ∈ (session.step maxDepth event).known) :
    id ∈ session.known ∨ generatedId event = some id := by
  have hknown : ∀ {pending : String}, pending = session.state.pendingItemId →
      id ∈ pending :: session.commits.map (·.itemId) ++ session.completions.map (·.itemId) →
      id ∈ session.known := by
    rintro _ rfl hmem
    exact hmem
  cases event with
  | append size => exact Or.inl h
  | transcriptPartial | speechStart | speechEnd =>
      exact Or.inl (hknown session.state.ensure_pending h)
  | clear newId =>
      have hpending : (session.step maxDepth (.clear newId)).state.pendingItemId = newId :=
        session.state.discard_pending newId
      rw [known, hpending] at h
      rcases List.mem_cons.mp h with rfl | hold
      · exact Or.inr rfl
      · exact Or.inl (List.mem_cons_of_mem _ hold)
  | commit newId =>
      rw [known, Tracks.commit_pending, Tracks.commit_commits, Tracks.commit_completions] at h
      rcases List.mem_cons.mp h with rfl | hold
      · exact Or.inr rfl
      · left
        rcases List.mem_append.mp hold with hcommits | hcompletions
        · rw [List.map_append] at hcommits
          rcases List.mem_append.mp hcommits with hcommits | hnew
          · exact List.mem_append_left _ (List.mem_cons_of_mem _ hcommits)
          · exact List.mem_append_left _ (List.mem_singleton.mp hnew ▸ List.mem_cons_self)
        · exact List.mem_append_right _ hcompletions
  | transcriptFinal text audio =>
      left
      have hpending : (session.step maxDepth (.transcriptFinal text audio)).state.pendingItemId =
          session.state.pendingItemId :=
        session.state.ensureActiveItem.2.finalize_pending.trans session.state.ensure_pending
      rw [known, hpending] at h
      rcases List.mem_append.mp h with hold | hcompleted
      · exact List.mem_append_left _ hold
      · have hcompleted : id ∈ (session.completions ++
            [(⟨session.state.ensureActiveItem.1, audio⟩ : ItemAudio)]).map (·.itemId) :=
          hcompleted
        rw [List.map_append] at hcompleted
        rcases List.mem_append.mp hcompleted with hold | hnew
        · exact List.mem_append_right _ hold
        · exact List.mem_singleton.mp hnew ▸ hactive

end ItemSession

namespace Tracks

variable {maxDepth : Int} {ids : List String} {observer : Observer} {session : ItemSession}

theorem active_known (h : Tracks maxDepth ids observer session) :
    session.state.ensureActiveItem.1 ∈ session.known := by
  rw [h.shape.ensureActiveItem]
  cases ids with
  | nil => exact List.mem_append_left _ List.mem_cons_self
  | cons id rest =>
      exact List.mem_append_left _ (List.mem_cons_of_mem _ (h.queued.mem List.mem_cons_self))

/-- After an event that the observer does not accept, an item has two completed events or
the text of other audio. -/
theorem accepts_of_run (h : Tracks maxDepth ids observer session) {event : AdapterEvent}
    {events : List AdapterEvent}
    (hrun : ((session.step maxDepth event).run maxDepth events).Correlated) :
    observer.Accepts event := by
  obtain ⟨honce, htext⟩ := ItemSession.once_text_of_run hrun
  cases event with
  | append | clear | transcriptPartial | speechStart | speechEnd => exact trivial
  | commit newId =>
      intro audio hearly
      obtain ⟨_, before, hbefore⟩ := h.early_some audio hearly
      have hwithin := htext { itemId := session.state.pendingItemId, audio }
        (by
          rw [commit_completions, hbefore]
          exact List.mem_append_right _ (List.mem_singleton_self _))
        _ (List.mem_append_right _ (List.mem_singleton_self _)) rfl
      rw [Observer.openAudio, h.received, h.committedUntil]
      exact hwithin
  | transcriptFinal text audio =>
      rw [h.step_final] at honce htext
      have hnot : ids.headD session.state.pendingItemId ∉
          session.completions.map (·.itemId) := by
        intro hmem
        rw [List.map_append] at honce
        exact (List.nodup_append.mp honce).2.2 _ hmem _ (List.mem_singleton_self _) rfl
      obtain ⟨received, committedUntil, waiting, early⟩ := observer
      have hforall := h.waiting
      cases waiting with
      | nil =>
          obtain rfl := List.forall₂_nil_right_iff.mp hforall
          change early = none
          cases early with
          | none => rfl
          | some found =>
              obtain ⟨_, before, hbefore⟩ := h.early_some found rfl
              rw [hbefore] at hnot
              exact absurd (by simp) hnot
      | cons oldest rest =>
          cases ids with
          | nil => cases hforall
          | cons id rest =>
              obtain ⟨⟨hcommitted, hfinal⟩, _⟩ := List.forall₂_cons.mp hforall
              constructor
              · exact Bool.eq_false_iff.mpr fun htrue => hnot (hfinal.mp htrue)
              · exact htext { itemId := id, audio }
                  (List.mem_append_right _ (List.mem_singleton_self _)) _ hcommitted rfl

/-- A tracked session keeps its promise over a run exactly if every event is accepted. -/
theorem run_correlated_iff (h : Tracks maxDepth ids observer session)
    (events : List AdapterEvent) (hnew : (events.filterMap generatedId).Nodup)
    (hunused : ∀ id ∈ events.filterMap generatedId, id ∉ session.known) :
    (session.run maxDepth events).Correlated ↔ Matched maxDepth observer events := by
  induction events generalizing ids observer session with
  | nil => exact ⟨fun _ => trivial, fun _ => h.correlated⟩
  | cons event rest ih =>
      have hevent : ∀ newId, generatedId event = some newId → newId ∉ session.known := by
        intro newId heq
        exact hunused newId (by simp [heq])
      have hrest : (rest.filterMap generatedId).Nodup := by
        cases hid : generatedId event with
        | none => simpa [hid] using hnew
        | some newId =>
            rw [List.filterMap_cons_some hid] at hnew
            exact (List.nodup_cons.mp hnew).2
      have hknown : ∀ id ∈ rest.filterMap generatedId,
          id ∉ (session.step maxDepth event).known := by
        intro id hid hmem
        rcases ItemSession.known_step h.active_known hmem with hold | hgenerated
        · refine hunused id ?_ hold
          rw [List.filterMap_cons]
          split
          · exact hid
          · exact List.mem_cons_of_mem _ hid
        · rw [List.filterMap_cons_some hgenerated] at hnew
          exact (List.nodup_cons.mp hnew).1 hid
      constructor
      · intro hrun
        have haccepts := h.accepts_of_run hrun
        obtain ⟨ids', hnext⟩ := h.step hevent haccepts
        exact ⟨haccepts, (ih hnext hrest hknown).mp hrun⟩
      · rintro ⟨haccepts, hmatched⟩
        obtain ⟨ids', hnext⟩ := h.step hevent haccepts
        exact (ih hnext hrest hknown).mpr hmatched

end Tracks

/-- Whatever ids are generated, as long as they are different, the client's items are
completed once, in the order of the commits and with their own text exactly if the finals
match the commits. -/
theorem correlated_iff_matched (maxDepth : Int) (itemId : String) (events : List AdapterEvent)
    (hids : (itemId :: events.filterMap generatedId).Nodup) :
    ((ItemSession.start itemId).run maxDepth events).Correlated ↔
      Matched maxDepth .start events := by
  obtain ⟨hfirst, hnew⟩ := List.nodup_cons.mp hids
  apply (Tracks.start itemId).run_correlated_iff events hnew
  intro id hid hmem
  rcases List.mem_cons.mp hmem with rfl | hmem
  · exact hfirst hid
  · cases hmem

/-- A commit whose flush brings the final of its audio. -/
theorem flush_correlated :
    ((ItemSession.start "item_a").run 64
      [.append 4800, .commit "item_b", .transcriptFinal (.str "hello") ⟨0, 4800⟩]).Correlated :=
  (correlated_iff_matched 64 "item_a" _ (by decide)).mpr
    ⟨trivial, ⟨(fun _ h => nomatch h), ⟨⟨rfl, by decide⟩, trivial⟩⟩⟩

/-- Two utterances that the worker ends by itself, and no commit: one item, completed twice. -/
theorem completed_twice :
    ¬ ∀ (itemId : String) (events : List AdapterEvent),
      (itemId :: events.filterMap generatedId).Nodup →
        ((ItemSession.start itemId).run 64 events).Correlated := by
  intro h
  have honce := (h "item_a" [.append 9600, .transcriptFinal (.str "hello") ⟨0, 4800⟩,
    .transcriptFinal (.str "world") ⟨4800, 9600⟩] (by decide)).once
  revert honce
  decide

end Dalston.Gateway
