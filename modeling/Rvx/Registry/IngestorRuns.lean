import Rvx.Engine.StoreRuns
import Rvx.Registry.Ingestor
import Mathlib.Data.List.Nodup

/-!
# Every admitted page is written and answered once

The groups, the page put aside and the channel hold the admitted pages in the order of their
admission, whatever the limits cut.  A worker that can do nothing has handed over all of them.
-/

namespace Rvx.Registry

open Core Engine

/-- A page alone, or several within the limits. -/
def Limited (batch : List Pending) : Prop :=
  batch ≠ [] ∧ batch.length ≤ MAX_BATCH_PAGES ∧
    (batch.length = 1 ∨ (batch.map Pending.bytes).sum ≤ MAX_BATCH_BYTES ∧
      (batch.map Pending.records).sum ≤ MAX_BATCH_RECORDS)

/-- The replies of pages that are ingested one after another, each with its own result. -/
def ownReplies (serde : Serde) : List Pending → Database → List Reply
  | [], _ => []
  | pending :: rest, db =>
    let (result, middle) := (pending.delivery.ingest serde).atomically db
    ⟨pending.reply, result.mapError .page⟩ :: ownReplies serde rest middle

namespace Group

variable (serde : Serde) (group : Group)

/-- The results of the pages, as the snapshot store has them. -/
def results : List (Except EngineError ℕ) :=
  (ingestSequentially serde (group.batch.map Pending.delivery) group.stores.snapshots).1

/-- The outcome of the metadata transaction. -/
def metadata : Except EngineError Repository :=
  Ingestor.updateMetadata group.failures
    (Ingestor.successful group.batch (group.results serde)) group.now group.stores.repository

/-- The waiters of a group have their own results, or all of them the error of a transaction that
failed. -/
def Answered : Prop :=
  (∃ error, group.failures.snapshots = some error ∧
    group.replies = Ingestor.fail group.batch error) ∨
  (∃ error, group.failures.snapshots = none ∧ group.metadata serde = .error error ∧
    group.replies = Ingestor.fail group.batch error) ∨
  ∃ repository, group.failures.snapshots = none ∧ group.metadata serde = .ok repository ∧
    group.replies = ownReplies serde group.batch group.stores.snapshots

end Group

namespace Ingestor

variable {serde : Serde}

/-- The pages given to `write`. -/
def handed (ingestor : Ingestor) : List Pending := ingestor.groups.flatMap Group.batch

/-- The replies sent. -/
def replies (ingestor : Ingestor) : List Reply := ingestor.groups.flatMap Group.replies

/-- The pages of the group under way. -/
def current : IngestWorker → List Pending
  | .receiving => []
  | .collecting batch _ _ => batch
  | .writing batch => batch
  | .stopped => []

/-- What the worker keeps is within the limits, and it keeps a page aside only after a group. -/
def WorkerSound (ingestor : Ingestor) : Prop :=
  match ingestor.worker with
  | .receiving => True
  | .collecting batch bytes records =>
    Limited batch ∧ bytes = (batch.map Pending.bytes).sum ∧
      records = (batch.map Pending.records).sum ∧ ingestor.deferred = none
  | .writing batch => Limited batch
  | .stopped => ingestor.closed = true ∧ ingestor.deferred = none ∧ ingestor.queue = []

structure Sound (serde : Serde) (ingestor : Ingestor) : Prop where
  order : ingestor.handed ++ (current ingestor.worker ++ (ingestor.deferred.toList ++
    ingestor.queue)) = ingestor.admitted
  numbered : ingestor.admitted.map Pending.reply = List.range ingestor.admitted.length
  groups : ∀ group ∈ ingestor.groups, Limited group.batch ∧ group.Answered serde
  worker : ingestor.WorkerSound

/-! ## Writing -/

theorem zip_results_eq (batch : List Pending) (db : Database) :
    (batch.zip (ingestSequentially serde (batch.map Pending.delivery) db).1).map
        (fun (pending, result) ↦ (⟨pending.reply, result.mapError .page⟩ : Reply)) =
      ownReplies serde batch db := by
  induction batch generalizing db with
  | nil => rfl
  | cons pending rest ih =>
    simp only [List.map_cons, ingestSequentially, List.zip_cons_cons, ownReplies]
    rw [ih]

theorem write_answered (batch : List Pending) (stores : Stores) (failures : Failures) (now : ℤ) :
    Group.Answered serde
      ⟨batch, stores, failures, now, (write serde failures now batch stores).1⟩ := by
  unfold Group.Answered Group.metadata Group.results write ingestGroup
  cases hsnapshots : failures.snapshots with
  | some error => exact Or.inl ⟨error, rfl, rfl⟩
  | none =>
    dsimp only
    rw [ingestBatch_eq]
    dsimp only
    cases hmetadata : updateMetadata failures (successful batch
        (ingestSequentially serde (batch.map Pending.delivery) stores.snapshots).1) now
        stores.repository with
    | error error => exact Or.inr (Or.inl ⟨error, rfl, rfl, rfl⟩)
    | ok repository => exact Or.inr (Or.inr ⟨repository, rfl, rfl, zip_results_eq batch _⟩)

theorem reply_ownReplies (batch : List Pending) (db : Database) :
    (ownReplies serde batch db).map Reply.reply = batch.map Pending.reply := by
  induction batch generalizing db with
  | nil => rfl
  | cons pending rest ih => simp only [ownReplies, List.map_cons, ih]

theorem reply_fail (batch : List Pending) (error : EngineError) :
    (fail batch error).map Reply.reply = batch.map Pending.reply := by
  simp [fail, Function.comp_def]

/-- Every waiter of a group has one reply. -/
theorem reply_of_answered {group : Group} (h : group.Answered serde) :
    group.replies.map Reply.reply = group.batch.map Pending.reply := by
  rcases h with ⟨error, -, hreplies⟩ | ⟨error, -, -, hreplies⟩ | ⟨repository, -, -, hreplies⟩
  · rw [hreplies, reply_fail]
  · rw [hreplies, reply_fail]
  · rw [hreplies, reply_ownReplies]

/-! ## Steps -/

theorem limited_singleton (pending : Pending) : Limited [pending] :=
  ⟨by simp, by simp [MAX_BATCH_PAGES], Or.inl rfl⟩

theorem limited_append {batch : List Pending} {next : Pending}
    (hpages : batch.length < MAX_BATCH_PAGES)
    (hbytes : (batch.map Pending.bytes).sum + next.bytes ≤ MAX_BATCH_BYTES)
    (hrecords : (batch.map Pending.records).sum + next.records ≤ MAX_BATCH_RECORDS) :
    Limited (batch ++ [next]) :=
  ⟨by simp, by simpa using Nat.succ_le_of_lt hpages,
    Or.inr ⟨by simpa using hbytes, by simpa using hrecords⟩⟩

theorem Sound.receive {ingestor ingestor' : Ingestor} (h : ingestor.Sound serde)
    (hworker : ingestor.worker = .receiving) (hstep : ingestor.receive = some ingestor') :
    ingestor'.Sound serde := by
  have horder := h.order
  rw [hworker] at horder
  unfold Ingestor.receive at hstep
  split at hstep
  · next first hdeferred =>
    rw [Option.some.injEq] at hstep
    subst hstep
    refine ⟨?_, h.numbered, h.groups, limited_singleton first, by simp, by simp, rfl⟩
    simpa [handed, current, hdeferred] using horder
  · next first rest hdeferred hqueue =>
    rw [Option.some.injEq] at hstep
    subst hstep
    refine ⟨?_, h.numbered, h.groups, limited_singleton first, by simp, by simp, hdeferred⟩
    simpa [handed, current, hdeferred, hqueue] using horder
  · next hdeferred hqueue =>
    rw [Option.ite_none_right_eq_some, Option.some.injEq] at hstep
    obtain ⟨hclosed, hstep⟩ := hstep
    subst hstep
    exact ⟨by simpa [handed, current] using horder, h.numbered, h.groups, hclosed, hdeferred,
      hqueue⟩

theorem Sound.collect {ingestor : Ingestor} (h : ingestor.Sound serde) {batch : List Pending}
    {bytes records : ℕ} (hworker : ingestor.worker = .collecting batch bytes records) :
    (ingestor.collect batch bytes records).Sound serde := by
  have horder := h.order
  have hsound := h.worker
  rw [hworker] at horder
  rw [WorkerSound, hworker] at hsound
  obtain ⟨hlimited, hbytes, hrecords, hdeferred⟩ := hsound
  have hwriting : Sound serde { ingestor with worker := .writing batch } :=
    ⟨horder, h.numbered, h.groups, hlimited⟩
  unfold Ingestor.collect
  split_ifs with hpages
  · split
    · exact hwriting
    · next next rest hqueue =>
      split_ifs with hlimit
      · refine ⟨?_, h.numbered, h.groups, hlimited⟩
        simpa [handed, current, hdeferred, hqueue] using horder
      · rw [not_or, not_lt, not_lt, hbytes, hrecords] at hlimit
        refine ⟨?_, h.numbered, h.groups, limited_append hpages hlimit.1 hlimit.2,
          by simp [hbytes], by simp [hrecords], hdeferred⟩
        simpa [handed, current, hdeferred, hqueue] using horder
  · exact hwriting

theorem Sound.finish {ingestor : Ingestor} (h : ingestor.Sound serde) {batch : List Pending}
    (hworker : ingestor.worker = .writing batch) (failures : Failures) (now : ℤ) :
    (ingestor.finish serde batch failures now).Sound serde := by
  have horder := h.order
  have hlimited := h.worker
  rw [hworker] at horder
  rw [WorkerSound, hworker] at hlimited
  have hgroup : Group.Answered serde ⟨batch, ingestor.stores, failures, now, _⟩ :=
    write_answered batch ingestor.stores failures now
  refine ⟨?_, h.numbered, ?_, trivial⟩
  · simpa [Ingestor.finish, handed, current] using horder
  · simp only [Ingestor.finish, List.forall_mem_append, List.forall_mem_singleton]
    exact ⟨h.groups, hlimited, hgroup⟩

theorem Sound.commit {ingestor ingestor' : Ingestor} (h : ingestor.Sound serde)
    {delivery : Delivery} {bytes : ℕ} (hstep : ingestor.commit delivery bytes = some ingestor') :
    ingestor'.Sound serde := by
  rw [Ingestor.commit, Option.ite_none_right_eq_some, Option.some.injEq] at hstep
  obtain ⟨⟨-, hclosed, -⟩, hstep⟩ := hstep
  subst hstep
  refine ⟨?_, ?_, h.groups, ?_⟩
  · simp only [handed, ← h.order, List.append_assoc]
  · simp [h.numbered, List.range_succ]
  · have hsound := h.worker
    unfold WorkerSound at hsound ⊢
    dsimp only
    split
    · trivial
    · next hworker => simpa [hworker] using hsound
    · next hworker => simpa [hworker] using hsound
    · next hworker =>
      rw [hworker] at hsound
      exact absurd hsound.1 (by simp [hclosed])

theorem Sound.close {ingestor : Ingestor} (h : ingestor.Sound serde) :
    ({ ingestor with closed := true } : Ingestor).Sound serde := by
  refine ⟨h.order, h.numbered, h.groups, ?_⟩
  have hsound := h.worker
  unfold WorkerSound at hsound ⊢
  dsimp only
  split
  · trivial
  · next hworker => simpa [hworker] using hsound
  · next hworker => simpa [hworker] using hsound
  · next hworker =>
    rw [hworker] at hsound
    exact ⟨rfl, hsound.2⟩

theorem Sound.step {ingestor ingestor' : Ingestor} {action : IngestAction}
    (h : ingestor.Sound serde) (hstep : ingestor.step serde action = some ingestor') :
    ingestor'.Sound serde := by
  cases action with
  | commit delivery bytes => exact h.commit hstep
  | close =>
    rw [Ingestor.step, Option.some.injEq] at hstep
    exact hstep ▸ h.close
  | store stores =>
    rw [Ingestor.step, Option.some.injEq] at hstep
    exact hstep ▸ ⟨h.order, h.numbered, h.groups, h.worker⟩
  | work failures now =>
    rw [Ingestor.step, Ingestor.work] at hstep
    split at hstep
    · next hworker => exact h.receive hworker hstep
    · next hworker => exact Option.some.inj hstep ▸ h.collect hworker
    · next hworker => exact Option.some.inj hstep ▸ h.finish hworker failures now
    · cases hstep

theorem sound_start (stores : Stores) : (start stores).Sound serde :=
  ⟨rfl, rfl, by simp [start], trivial⟩

/-- What is true of every ingestor a run leads to. -/
theorem sound_run {stores : Stores} {actions : List IngestAction} {ingestor : Ingestor}
    (h : (start stores).run serde actions = some ingestor) : ingestor.Sound serde :=
  Runs.invariant (Sound serde) (fun hsound hstep ↦ hsound.step hstep) (sound_start stores) h

/-! ## The end of the work -/

/-- How far a worker is from the next page. -/
def phase : IngestWorker → ℕ
  | .receiving => 1
  | .collecting _ _ _ => 3
  | .writing _ => 2
  | .stopped => 0

/-- A bound on the steps the worker can take without a new page. -/
def remaining (ingestor : Ingestor) : ℕ :=
  4 * ingestor.queue.length + 4 * ingestor.deferred.toList.length + phase ingestor.worker

theorem remaining_work {ingestor ingestor' : Ingestor} {failures : Failures} {now : ℤ}
    (h : ingestor.Sound serde) (hstep : ingestor.work serde failures now = some ingestor') :
    ingestor'.remaining < ingestor.remaining := by
  have hsound := h.worker
  unfold WorkerSound at hsound
  unfold Ingestor.work at hstep
  split at hstep
  · next hworker =>
    unfold Ingestor.receive at hstep
    split at hstep
    · next hdeferred =>
      rw [Option.some.injEq] at hstep
      subst hstep
      simp [remaining, phase, hworker, hdeferred]
    · next hdeferred hqueue =>
      rw [Option.some.injEq] at hstep
      subst hstep
      simp [remaining, phase, hworker, hdeferred, hqueue]
      omega
    · rw [Option.ite_none_right_eq_some, Option.some.injEq] at hstep
      rw [← hstep.2]
      simp [remaining, phase, hworker]
  · next hworker =>
    rw [hworker] at hsound
    rw [Option.some.injEq] at hstep
    subst hstep
    unfold Ingestor.collect
    split_ifs
    · split
      · simp [remaining, phase, hworker]
      · next hqueue =>
        split_ifs
        · simp [remaining, phase, hworker, hqueue, hsound.2.2.2]
          omega
        · simp [remaining, phase, hworker, hqueue]
    · simp [remaining, phase, hworker]
  · next hworker =>
    rw [Option.some.injEq] at hstep
    subst hstep
    simp [Ingestor.finish, remaining, phase, hworker]
  · cases hstep

/-- A worker that can do nothing has handed over every page. -/
theorem handed_of_blocked {ingestor : Ingestor} (h : ingestor.Sound serde) {failures : Failures}
    {now : ℤ} (hblocked : ingestor.work serde failures now = none) :
    ingestor.handed = ingestor.admitted := by
  have horder := h.order
  have hsound := h.worker
  unfold WorkerSound at hsound
  unfold Ingestor.work at hblocked
  split at hblocked
  · next hworker =>
    unfold Ingestor.receive at hblocked
    split at hblocked
    · cases hblocked
    · cases hblocked
    · next hdeferred hqueue => simpa [hworker, hdeferred, hqueue, current] using horder
  · cases hblocked
  · cases hblocked
  · next hworker =>
    rw [hworker] at hsound
    simpa [hworker, hsound.2.1, hsound.2.2, current] using horder

/-- Steps of the worker alone come to an end. -/
theorem length_le_remaining {ingestor later : Ingestor} (h : ingestor.Sound serde)
    {works : List (Failures × ℤ)}
    (hrun : ingestor.run serde (works.map fun work ↦ .work work.1 work.2) = some later) :
    works.length ≤ ingestor.remaining := by
  have hcounted : ∀ action ∈ works.map fun work ↦ IngestAction.work work.1 work.2,
      ∃ failures now, action = .work failures now :=
    List.forall_mem_map.mpr fun work _ ↦ ⟨work.1, work.2, rfl⟩
  have hbound := Runs.length_le_measure (Sound serde) remaining _ (fun hsound hstep ↦
    hsound.step hstep) (fun hsound hwork hstep ↦ by
      obtain ⟨failures, now, rfl⟩ := hwork
      exact remaining_work hsound hstep) hcounted h hrun
  rwa [List.length_map] at hbound

theorem reply_replies {ingestor : Ingestor} (h : ingestor.Sound serde) :
    ingestor.replies.map Reply.reply = ingestor.handed.map Pending.reply := by
  rw [replies, handed, List.map_flatMap, List.map_flatMap]
  exact List.flatMap_congr fun group hgroup ↦ reply_of_answered (h.groups group hgroup).2

/-- The waiters answered are those of the pages handed over, each once. -/
theorem nodup_replies {ingestor : Ingestor} (h : ingestor.Sound serde) :
    (ingestor.replies.map Reply.reply).Nodup := by
  have hnumbers : (ingestor.admitted.map Pending.reply).Nodup := by
    rw [h.numbered]
    exact List.nodup_range
  rw [reply_replies h]
  rw [← h.order, List.map_append] at hnumbers
  exact hnumbers.of_append_left

/-- In every run the pages are handed over in the order of their admission and none is lost: what
is not handed over yet is in the group under way, put aside or in the channel.  Every group is
within the limits and answered, every waiter at most once, and once the worker rests, which it does
after finitely many steps without a new page, each of them. -/
theorem run_hands_over (serde : Serde) (stores : Stores) {actions : List IngestAction}
    {ingestor : Ingestor} (h : (start stores).run serde actions = some ingestor) :
    ingestor.handed ++ (current ingestor.worker ++ (ingestor.deferred.toList ++ ingestor.queue)) =
        ingestor.admitted ∧
      (∀ group ∈ ingestor.groups, Limited group.batch ∧ group.Answered serde) ∧
      ingestor.replies.map Reply.reply = ingestor.handed.map Pending.reply ∧
      (ingestor.replies.map Reply.reply).Nodup ∧
      (∀ failures now, ingestor.work serde failures now = none →
        ingestor.handed = ingestor.admitted) ∧
      ∀ (works : List (Failures × ℤ)) (later : Ingestor),
        ingestor.run serde (works.map fun work ↦ .work work.1 work.2) = some later →
        works.length ≤ ingestor.remaining := by
  have hsound := sound_run h
  exact ⟨hsound.order, hsound.groups, reply_replies hsound, nodup_replies hsound,
    fun _ _ hblocked ↦ handed_of_blocked hsound hblocked,
    fun _ _ hrun ↦ length_le_remaining hsound hrun⟩

/-- An open store and a repository that knows the source of the sample pages. -/
def sampleStores (serde : Serde) : Stores :=
  ⟨((Store.init.run serde openNew).map Store.db).getD .empty,
    { Repository.empty with
      sources := (KeyedTable.empty.insert? ⟨"trainer", "run-1", "attempt-1", "learner", "",
        none, none, .discovered, none, none, none, 1000, 500⟩).getD .empty }⟩

/-- Two pages that do not fit one group. -/
def sampleActions : List IngestAction :=
  [.commit (Engine.sampleDelivery 0 none [sampleSnapshot 0 sampleState]) MAX_BATCH_BYTES,
    .commit (Engine.sampleDelivery 1 none [sampleSnapshot 1 sampleState]) MAX_BATCH_BYTES,
    .close] ++ List.replicate 7 (.work ⟨none, none⟩ 300)

theorem run_hands_over_sample : ∃ ingestor,
    (start (sampleStores (.inverse []))).run (.inverse []) sampleActions = some ingestor ∧
      ingestor.groups.map (fun group ↦ group.batch.map Pending.reply) = [[0], [1]] ∧
      ingestor.replies.map (fun reply ↦ (reply.reply, reply.result.toOption)) =
        [(0, some 1), (1, some 1)] ∧
      ingestor.handed = ingestor.admitted := by
  have hsample : ((start (sampleStores (.inverse []))).run (.inverse []) sampleActions).map
      (fun ingestor ↦ (ingestor.groups.map (fun group ↦ group.batch.map Pending.reply),
        ingestor.replies.map (fun reply ↦ (reply.reply, reply.result.toOption)),
        (ingestor.work (.inverse []) ⟨none, none⟩ 300).isNone)) =
      some ([[0], [1]], [(0, some 1), (1, some 1)], true) := by decide +kernel
  obtain ⟨ingestor, hrun, hviews⟩ := Option.map_eq_some_iff.mp hsample
  simp only [Prod.mk.injEq, Option.isNone_iff_eq_none] at hviews
  exact ⟨ingestor, hrun, hviews.1, hviews.2.1,
    (run_hands_over (.inverse []) (sampleStores (.inverse [])) hrun).2.2.2.2.1 _ _ hviews.2.2⟩

end Ingestor

end Rvx.Registry
