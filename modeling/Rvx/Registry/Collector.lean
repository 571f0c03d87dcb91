import Rvx.Lib.Runs
import Rvx.Lib.StableSort
import Rvx.Registry.RunLifecycle

/-!
# The collector

The loop that discovers sources and scrapes them when they are due.  A schedule entry or a task
stands for every discovered source; the set of scheduled sources and the table of discovered ones
decide whether a source that is seen again gets another entry.

The repository changes at any moment.  A listing is read by a blocking call and processed later; in
between the loop itself does nothing else.  A run is what happens until the collector is shut down.
-/

namespace Rvx.Registry

open Core Engine Check

deriving instance DecidableEq for Source

/-- `Draining | Ended | Lost`. -/
def Source.Halted (source : Source) : Prop := source.state = .draining ∨ source.state.Stopped

instance (source : Source) : Decidable source.Halted := inferInstanceAs (Decidable (_ ∨ _))

/-- A scrape that is spawned and not joined yet, with its result once it has returned. -/
structure ScrapeTask where
  source : Source
  hasData : Option Bool

/-- What the collector has done: it saw a source in a listing, or it started a scrape. -/
inductive ScrapeEvent where
  | saw (source : Source)
  | started (sourceId : String)
deriving DecidableEq

def ScrapeEvent.seen : ScrapeEvent → Option Source
  | .saw source => some source
  | .started _ => none

/-- The heap is the list of its entries in the order in which they are popped. -/
structure Collector where
  repository : Repository
  listing : Option (KeyedTable Source.id)
  sources : KeyedTable Source.id
  schedule : List (ℕ × String)
  scheduled : OrderedSet String
  tasks : List ScrapeTask
  log : List ScrapeEvent

inductive CollectorAction where
  | operate (operation : Operation)
  | list
  | refresh (now : String → ℕ)
  | start (now : ℕ)
  | finish (index : ℕ) (hasData : Bool)
  | join (index : ℕ) (now : ℕ)

/-- `ORDER BY run_id, role, rank, endpoint`; a rank that is null comes first. -/
def listKey (source : Source) : String ×ₗ String ×ₗ WithBot ℤ ×ₗ String :=
  let rank : WithBot ℤ := source.rank
  toLex (source.runId, toLex (source.role, toLex (rank, source.endpoint)))

def listSources (sources : KeyedTable Source.id) : List Source :=
  StableSort.sortOn listKey sources.rows

/-- `scrape_delay` in nanoseconds. -/
def scrapeDelay (source : Source) (hasData : Bool) : ℕ :=
  if hasData then 1000000 else source.scrapeIntervalMs * 1000000

namespace Collector

/-- The collector before its first discovery. -/
def start (repository : Repository) : Collector :=
  ⟨repository, none, .empty, [], OrderedMap.empty, [], []⟩

/-- `scheduled.insert` and `schedule.push`. -/
def push (due : ℕ) (sourceId : String) (collector : Collector) : Collector :=
  { collector with
    schedule := collector.schedule.orderedInsert (fun a b ↦ toLex a ≤ toLex b) (due, sourceId)
    scheduled := OrderedSet.insert sourceId collector.scheduled }

section Step

variable (collectable : String → Bool)

/-- A source that is scraped: it has not halted, and its endpoint is an HTTP URL with a host. -/
def Live (source : Source) : Prop := ¬ source.Halted ∧ collectable source.endpoint = true

instance (source : Source) : Decidable (Live collectable source) :=
  inferInstanceAs (Decidable (_ ∧ _))

/-- The body of the loop of `refresh_schedule`. -/
def visit (now : String → ℕ) (collector : Collector) (source : Source) : Collector :=
  let seen : Collector := { collector with log := collector.log ++ [.saw source] }
  if ¬ Live collectable source then
    { seen with sources := seen.sources.retain fun row ↦ row.id ≠ source.id }
  else
    let added :=
      if seen.sources.find? source.id = none ∧ source.id ∉ seen.scheduled then
        seen.push (now source.id) source.id
      else seen
    { added with sources := added.sources.put source }

/-- The schedule without its first entry, which was for the given source. -/
def pop (sourceId : String) (rest : List (ℕ × String)) (collector : Collector) : Collector :=
  { collector with
    schedule := rest
    scheduled := collector.scheduled.retain fun key _ ↦ key ≠ sourceId }

def step (parse : String → Except String Unit) (maximumConcurrency : ℕ) (collector : Collector) :
    CollectorAction → Option Collector
  | .operate operation =>
    some { collector with repository := collector.repository.step parse operation }
  | .list =>
    match collector.listing with
    | some _ => none
    | none => some { collector with listing := some collector.repository.sources }
  | .refresh now =>
    match collector.listing with
    | none => none
    | some table =>
      some { (listSources table).foldl (visit collectable now) collector with listing := none }
  | .start now =>
    if collector.listing.isSome = true ∨ collector.tasks.length ≥ max maximumConcurrency 1 then none
    else match collector.schedule with
      | [] => none
      | (due, sourceId) :: rest =>
        if due > now then none
        else match collector.sources.find? sourceId with
          | none => some (collector.pop sourceId rest)
          | some source =>
            some { collector.pop sourceId rest with
              tasks := collector.tasks ++ [⟨source, none⟩]
              log := collector.log ++ [.started sourceId] }
  | .finish index hasData =>
    match collector.tasks[index]? with
    | some ⟨source, none⟩ =>
      some { collector with tasks := collector.tasks.set index ⟨source, some hasData⟩ }
    | _ => none
  | .join index now =>
    if collector.listing.isSome = true then none
    else match collector.tasks[index]? with
      | some ⟨source, some hasData⟩ =>
        some ({ collector with tasks := collector.tasks.eraseIdx index }.push
          (now + scrapeDelay source hasData) source.id)
      | _ => none

end Step

/-! ## What a discovery saw -/

/-- The sources seen, in order. -/
def seen (log : List ScrapeEvent) : List Source := log.filterMap ScrapeEvent.seen

/-- The source was seen live, and has not been seen halted since. -/
def Discovered (collectable : String → Bool) (log : List ScrapeEvent) (sourceId : String) : Prop :=
  ∃ before source after, log = before ++ .saw source :: after ∧ source.id = sourceId ∧
    Live collectable source ∧ ∀ other ∈ seen after, other.id = sourceId → ¬ other.Halted

/-- No scrape of a source is started after the source was seen halted. -/
def Orderly : ScrapeEvent → ScrapeEvent → Prop
  | .saw source, .started sourceId => source.Halted → sourceId ≠ source.id
  | _, _ => True

/-- The entries in the schedule that are for a source. -/
def entryCount (collector : Collector) (sourceId : String) : ℕ :=
  (collector.schedule.map Prod.snd).count sourceId

def taskIds (tasks : List ScrapeTask) : List String := tasks.map fun task ↦ task.source.id

/-- The scrapes of a source that are spawned and not joined. -/
def taskCount (collector : Collector) (sourceId : String) : ℕ :=
  (taskIds collector.tasks).count sourceId

end Collector

/-! ## What the repository guarantees -/

/-- Sources with their endpoints under the identifiers they had. -/
def KeepsEndpoints (sources sources' : KeyedTable Source.id) : Prop :=
  ∃ change : Source → Source,
    (∀ row, (change row).id = row.id ∧ (change row).endpoint = row.endpoint) ∧
      sources'.rows = sources.rows.map change

theorem KeepsEndpoints.refl (sources : KeyedTable Source.id) : KeepsEndpoints sources sources :=
  ⟨id, fun _ ↦ ⟨rfl, rfl⟩, (List.map_id _).symm⟩

theorem KeepsEndpoints.trans {a b c : KeyedTable Source.id} (hab : KeepsEndpoints a b)
    (hbc : KeepsEndpoints b c) : KeepsEndpoints a c := by
  obtain ⟨first, hfirst, hb⟩ := hab
  obtain ⟨second, hsecond, hc⟩ := hbc
  refine ⟨second ∘ first, fun row ↦ ?_, by rw [hc, hb, List.map_map]⟩
  exact ⟨(hsecond _).1.trans (hfirst row).1, (hsecond _).2.trans (hfirst row).2⟩

/-- An `UPDATE` of other columns keeps the endpoints. -/
theorem KeepsEndpoints.of_rows {sources sources' : KeyedTable Source.id} {change : Source → Source}
    (hrows : sources'.rows = sources.rows.map change)
    (hchange : ∀ row, (change row).id = row.id ∧ (change row).endpoint = row.endpoint) :
    KeepsEndpoints sources sources' :=
  ⟨change, hchange, hrows⟩

namespace Repository

variable {parse : String → Except String Unit}

theorem updateRunStatus_endpoints {before after : Repository} {runId : String} {target : RunStatus}
    {now : ℤ} (h : before.updateRunStatus runId target now = .ok after) :
    KeepsEndpoints before.sources after.sources := by
  unfold updateRunStatus at h
  split at h
  · exact absurd h (by simp)
  split at h
  case isFalse => exact absurd h (by simp)
  split at h
  · exact Except.ok.inj h ▸ .refl _
  obtain rfl := Except.ok.inj h
  cases htarget : terminalSourceState target with
  | none => exact .refl _
  | some state => exact .of_rows rfl fun row ↦ by split <;> exact ⟨rfl, rfl⟩

theorem updateSourceState_endpoints {before after : Repository} {sourceId : String}
    {target : SourceState} (h : before.updateSourceState sourceId target = .ok after) :
    KeepsEndpoints before.sources after.sources := by
  unfold updateSourceState at h
  split at h
  · exact absurd h (by simp)
  split at h
  case isFalse => exact absurd h (by simp)
  split at h
  · exact Except.ok.inj h ▸ .refl _
  obtain rfl := Except.ok.inj h
  exact .of_rows rfl fun row ↦ by split <;> exact ⟨rfl, rfl⟩

theorem updateSourceSuccessBatch_endpoints {before after : Repository}
    {reports : List (String × SnapshotDescriptor)} {now : ℤ}
    (h : before.updateSourceSuccessBatch reports now = .ok after) :
    KeepsEndpoints before.sources after.sources := by
  unfold updateSourceSuccessBatch at h
  induction reports generalizing before with
  | nil => exact pure_eq_ok.mp h ▸ .refl _
  | cons report rest ih =>
    obtain ⟨middle, hreport, hrest⟩ := foldlM_cons_eq_ok.mp h
    simp only [reportSuccess, bind_eq_ok, pure_eq_ok] at hreport
    obtain ⟨descriptors, -, rfl⟩ := hreport
    have hmarked : KeepsEndpoints before.sources
        (markActive report.1 report.2.sourceSessionId now before) :=
      .of_rows rfl fun row ↦ by split <;> exact ⟨rfl, rfl⟩
    exact hmarked.trans (ih hrest)

/-- No operation changes the endpoint of a source; one of them may add a source. -/
theorem perform_endpoints {before after : Repository} {operation : Operation}
    (h : before.perform parse operation = .ok after) :
    KeepsEndpoints before.sources after.sources ∨
      ∃ source, operation = .registerSource source ∧
        before.sources.insert? source = some after.sources := by
  cases operation with
  | createProject id name now =>
    simp only [perform, createProject, bind_eq_ok, pure_eq_ok] at h
    obtain ⟨_, -, _, -, projects, -, rfl⟩ := h
    exact Or.inl (.refl _)
  | createExperiment id projectId name now =>
    simp only [perform, createExperiment, bind_eq_ok, pure_eq_ok] at h
    obtain ⟨_, -, _, -, _, -, experiments, -, rfl⟩ := h
    exact Or.inl (.refl _)
  | createRun id experimentId name configJson now =>
    simp only [perform, createRun, bind_eq_ok, pure_eq_ok] at h
    obtain ⟨_, -, _, -, _, -, runs, -, rfl⟩ := h
    exact Or.inl (.refl _)
  | registerSource source =>
    unfold perform registerSource at h
    rw [bind_eq_ok, exists_unit] at h
    obtain ⟨-, h⟩ := h
    split at h
    · obtain rfl := pure_eq_ok.mp h
      exact Or.inl (.of_rows rfl fun row ↦ by split <;> exact ⟨rfl, rfl⟩)
    · simp only [bind_eq_ok, pure_eq_ok, insertRow_eq_ok] at h
      obtain ⟨sources, hsources, rfl⟩ := h
      exact Or.inr ⟨source, rfl, hsources⟩
  | updateRunStatus runId target now => exact Or.inl (updateRunStatus_endpoints h)
  | updateSourceState sourceId target => exact Or.inl (updateSourceState_endpoints h)
  | updateSourceSuccessBatch reports now => exact Or.inl (updateSourceSuccessBatch_endpoints h)
  | updateSourceFailure sourceId error =>
    obtain rfl := Except.ok.inj h
    exact Or.inl (.of_rows rfl fun row ↦ by split <;> exact ⟨rfl, rfl⟩)

/-- What a source becomes: it keeps its endpoint and stays halted once it has. -/
def Advances (source source' : Source) : Prop :=
  source'.endpoint = source.endpoint ∧ (source.Halted → source'.Halted)

theorem Advances.refl (source : Source) : Advances source source := ⟨rfl, id⟩

theorem Advances.trans (a b c : Source) (hab : Advances a b) (hbc : Advances b c) :
    Advances a c :=
  ⟨hbc.1.trans hab.1, hbc.2 ∘ hab.2⟩

theorem halted_of_moves {source source' : Source}
    (h : SourceMoves source source') (hhalted : source.Halted) : source'.Halted := by
  rcases hhalted with hdraining | hstopped
  · exact h.2 hdraining
  · exact Or.inr (h.1 hstopped ▸ hstopped)

theorem step_advances (repository : Repository) (operation : Operation) :
    KeyedTable.Follows Advances repository.sources (repository.step parse operation).sources := by
  have hendpoints : KeyedTable.Follows (fun row row' : Source ↦ row'.endpoint = row.endpoint)
      repository.sources (repository.step parse operation).sources := by
    unfold step
    split
    · rename_i after hafter
      rcases perform_endpoints hafter with ⟨change, hchange, hrows⟩ | ⟨source, -, hinsert⟩
      · exact KeyedTable.follows_of_rows hrows fun row _ ↦ hchange row
      · exact KeyedTable.follows_insert? (fun _ ↦ rfl) hinsert
    · exact .refl fun _ ↦ rfl
  intro wanted row hrow
  obtain ⟨row', hrow', hmoves⟩ :=
    (@step_sound parse repository operation).evolves.sources wanted row hrow
  obtain ⟨other, hother, hendpoint⟩ := hendpoints wanted row hrow
  obtain rfl := Option.some.inj (hrow'.symm.trans hother)
  exact ⟨row', hrow', hendpoint, halted_of_moves hmoves⟩

end Repository

namespace Collector

open Repository

variable {collectable : String → Bool} {parse : String → Except String Unit}
  {maximumConcurrency : ℕ} {collector collector' : Collector} {table : KeyedTable Source.id}

/-! ## The log -/

theorem seen_saw (log : List ScrapeEvent) (source : Source) :
    seen (log ++ [.saw source]) = seen log ++ [source] := by
  simp [seen, ScrapeEvent.seen]

theorem seen_started (log : List ScrapeEvent) (sourceId : String) :
    seen (log ++ [.started sourceId]) = seen log := by
  simp [seen, ScrapeEvent.seen]

theorem discovered_saw {log : List ScrapeEvent} {source : Source} {sourceId : String}
    (h : Discovered collectable (log ++ [.saw source]) sourceId) :
    source.id = sourceId ∧ Live collectable source ∨
      Discovered collectable log sourceId ∧ (source.id = sourceId → ¬ source.Halted) := by
  obtain ⟨before, first, after, hlog, hid, hlive, hafter⟩ := h
  cases after using List.reverseRecOn with
  | nil =>
    obtain ⟨-, heq⟩ := List.append_inj' hlog rfl
    obtain rfl : source = first := by simpa using heq
    exact Or.inl ⟨hid, hlive⟩
  | append_singleton after last =>
    rw [← List.cons_append, ← List.append_assoc] at hlog
    obtain ⟨hfront, heq⟩ := List.append_inj' hlog rfl
    obtain rfl : ScrapeEvent.saw source = last := by simpa using heq
    rw [seen_saw] at hafter
    refine Or.inr ⟨⟨before, first, after, hfront, hid, hlive, fun other hother ↦ ?_⟩, ?_⟩
    · exact hafter other (List.mem_append_left _ hother)
    · exact hafter source (List.mem_append_right _ (List.mem_singleton_self source))

theorem discovered_started {log : List ScrapeEvent} {started sourceId : String}
    (h : Discovered collectable (log ++ [.started started]) sourceId) :
    Discovered collectable log sourceId := by
  obtain ⟨before, first, after, hlog, hid, hlive, hafter⟩ := h
  cases after using List.reverseRecOn with
  | nil =>
    obtain ⟨-, heq⟩ := List.append_inj' hlog rfl
    simp at heq
  | append_singleton after last =>
    rw [← List.cons_append, ← List.append_assoc] at hlog
    obtain ⟨hfront, heq⟩ := List.append_inj' hlog rfl
    obtain rfl : ScrapeEvent.started started = last := by simpa using heq
    rw [seen_started] at hafter
    exact ⟨before, first, after, hfront, hid, hlive, hafter⟩

/-! ## The schedule and the tasks -/

theorem entryCount_push (due : ℕ) (pushed sourceId : String) :
    (collector.push due pushed).entryCount sourceId =
      collector.entryCount sourceId + if sourceId = pushed then 1 else 0 := by
  have hperm := (List.perm_orderedInsert (fun a b : ℕ × String ↦ toLex a ≤ toLex b) (due, pushed)
    collector.schedule).map Prod.snd
  unfold entryCount push
  rw [hperm.count_eq, List.map_cons, List.count_cons]
  simp only [beq_iff_eq, @eq_comm _ pushed]

theorem mem_scheduled_push (due : ℕ) (pushed sourceId : String) :
    sourceId ∈ (collector.push due pushed).scheduled ↔
      sourceId = pushed ∨ sourceId ∈ collector.scheduled :=
  OrderedSet.mem_insert

/-- Pushing keeps the set of the scheduled sources. -/
theorem scheduled_push
    (h : ∀ sourceId, sourceId ∈ collector.scheduled ↔ 0 < collector.entryCount sourceId)
    (due : ℕ) (pushed sourceId : String) :
    sourceId ∈ (collector.push due pushed).scheduled ↔
      0 < (collector.push due pushed).entryCount sourceId := by
  rw [mem_scheduled_push, entryCount_push, h]
  by_cases hid : sourceId = pushed
  · simp [hid]
  · simp [hid]

theorem mem_scheduled_pop (popped : String) (rest : List (ℕ × String)) (sourceId : String) :
    sourceId ∈ (collector.pop popped rest).scheduled ↔
      sourceId ∈ collector.scheduled ∧ sourceId ≠ popped := by
  rw [← OrderedMap.get?_isSome, ← OrderedMap.get?_isSome, Option.isSome_iff_exists,
    Option.isSome_iff_exists]
  simp only [pop, OrderedMap.get?_retain, decide_eq_true_eq, exists_and_right]

theorem find?_without (sources : KeyedTable Source.id) (removed sourceId : String) :
    (sources.retain fun row ↦ row.id ≠ removed).find? sourceId =
      if sourceId = removed then none else sources.find? sourceId := by
  refine Option.ext fun row ↦ ?_
  rw [KeyedTable.find?_retain, decide_eq_true_eq]
  split
  · rename_i heq
    simp only [reduceCtorEq, iff_false, not_and_not_right]
    intro hrow
    exact (KeyedTable.find?_eq_some.mp hrow).2.trans heq
  · rename_i hne
    rw [and_iff_left_iff_imp]
    intro hrow
    rw [(KeyedTable.find?_eq_some.mp hrow).2]
    exact hne

/-! ## The invariant -/

/-- The collector with the table that its last listing came from, or the next one will. -/
structure Consistent (collectable : String → Bool) (table : KeyedTable Source.id)
    (collector : Collector) : Prop where
  forward : ∀ source ∈ seen collector.log,
    ∃ row, table.find? source.id = some row ∧ Advances source row
  known : ∀ sourceId row, collector.sources.find? sourceId = some row →
    row ∈ seen collector.log ∧ collectable row.endpoint = true
  discovered : ∀ sourceId, Discovered collectable collector.log sourceId →
    collector.sources.find? sourceId ≠ none
  halted : ∀ source ∈ seen collector.log, source.Halted →
    collector.sources.find? source.id = none
  scheduled : ∀ sourceId, sourceId ∈ collector.scheduled ↔ 0 < collector.entryCount sourceId
  most : ∀ sourceId, collector.entryCount sourceId + collector.taskCount sourceId ≤ 1
  one : ∀ sourceId, collector.sources.find? sourceId ≠ none →
    collector.entryCount sourceId + collector.taskCount sourceId = 1
  tasks : ∀ sourceId, 0 < collector.taskCount sourceId →
    collector.sources.find? sourceId ≠ none ∨
      ∃ source ∈ seen collector.log, source.id = sourceId ∧ source.Halted
  orderly : collector.log.Pairwise Orderly

theorem consistent_start (repository : Repository) (table : KeyedTable Source.id) :
    Consistent collectable table (start repository) where
  forward := by simp [start, seen]
  known := by simp [start, KeyedTable.find?, Table.lookup]
  discovered sourceId h := by
    obtain ⟨before, source, after, hlog, -⟩ := h
    simp [start] at hlog
  halted := by simp [start, seen]
  scheduled := by simp [start, entryCount]
  most := by simp [start, entryCount, taskCount, taskIds]
  one := by simp [start, KeyedTable.find?, Table.lookup]
  tasks := by simp [start, taskCount, taskIds]
  orderly := List.Pairwise.nil

theorem Consistent.mono {table' : KeyedTable Source.id} (h : Consistent collectable table collector)
    (hfollows : KeyedTable.Follows Advances table table') :
    Consistent collectable table' collector :=
  { h with
    forward := fun source hsource ↦ by
      obtain ⟨row, hrow, hadvances⟩ := h.forward source hsource
      obtain ⟨row', hrow', hadvances'⟩ := hfollows source.id row hrow
      exact ⟨row', hrow', hadvances.trans _ _ _ hadvances'⟩ }

/-! ## One discovery -/

/-- A source that is seen live was never seen halted. -/
theorem Consistent.never_halted (h : Consistent collectable table collector) {source : Source}
    (hrow : table.find? source.id = some source) (hlive : Live collectable source) :
    ∀ other ∈ seen collector.log, other.id = source.id → ¬ other.Halted := by
  intro other hother hid hhalted
  obtain ⟨row, hfound, hadvances⟩ := h.forward other hother
  rw [hid, hrow, Option.some.injEq] at hfound
  exact hlive.1 (hfound ▸ hadvances.2 hhalted)

/-- A collected source that is not seen live any more is seen halted. -/
theorem Consistent.halted_of_known (h : Consistent collectable table collector) {source : Source}
    (hrow : table.find? source.id = some source) (hlive : ¬ Live collectable source)
    (hknown : collector.sources.find? source.id ≠ none) : source.Halted := by
  obtain ⟨row, hfound⟩ := Option.ne_none_iff_exists'.mp hknown
  obtain ⟨hseen, hcollectable⟩ := h.known source.id row hfound
  obtain ⟨row', hrow', hadvances⟩ := h.forward row hseen
  rw [(KeyedTable.find?_eq_some.mp hfound).2, hrow, Option.some.injEq] at hrow'
  by_contra hhalted
  exact hlive ⟨hhalted, hrow' ▸ hadvances.1 ▸ hcollectable⟩

/-- The log and the table after a source is seen. -/
theorem Consistent.forward_saw (h : Consistent collectable table collector) {source : Source}
    (hrow : table.find? source.id = some source) :
    ∀ other ∈ seen (collector.log ++ [.saw source]),
      ∃ row, table.find? other.id = some row ∧ Advances other row := by
  intro other hother
  rw [seen_saw, List.mem_append, List.mem_singleton] at hother
  rcases hother with hold | rfl
  · exact h.forward other hold
  · exact ⟨other, hrow, .refl other⟩

theorem Consistent.orderly_saw (h : Consistent collectable table collector) (source : Source) :
    (collector.log ++ [ScrapeEvent.saw source]).Pairwise Orderly := by
  rw [List.pairwise_append]
  refine ⟨h.orderly, List.pairwise_singleton _ _, fun first _ last hlast ↦ ?_⟩
  rw [List.mem_singleton.mp hlast]
  cases first <;> trivial

/-- A source that is not collected leaves the table of sources. -/
theorem Consistent.visit_removed (h : Consistent collectable table collector) {source : Source}
    (hrow : table.find? source.id = some source) (hlive : ¬ Live collectable source) :
    Consistent collectable table { collector with
      log := collector.log ++ [.saw source]
      sources := collector.sources.retain fun row ↦ row.id ≠ source.id } where
  forward := h.forward_saw hrow
  known sourceId row hfound := by
    rw [find?_without] at hfound
    split at hfound
    · simp at hfound
    · obtain ⟨hseen, hcollectable⟩ := h.known sourceId row hfound
      rw [seen_saw]
      exact ⟨List.mem_append_left _ hseen, hcollectable⟩
  discovered sourceId hdiscovered := by
    rcases discovered_saw hdiscovered with ⟨-, hseenLive⟩ | ⟨hold, hnot⟩
    · exact absurd hseenLive hlive
    · have hknown := h.discovered sourceId hold
      rw [find?_without, if_neg]
      · exact hknown
      · rintro rfl
        exact hnot rfl (h.halted_of_known hrow hlive hknown)
  halted other hother hhalted := by
    rw [find?_without]
    split
    · rfl
    · rename_i hne
      rw [seen_saw, List.mem_append, List.mem_singleton] at hother
      rcases hother with hold | rfl
      · exact h.halted other hold hhalted
      · exact absurd rfl hne
  scheduled := h.scheduled
  most := h.most
  one sourceId hknown := by
    refine h.one sourceId fun hnone ↦ hknown ?_
    rw [find?_without, hnone, ite_self]
  tasks sourceId hcount := by
    rw [find?_without, seen_saw]
    by_cases hid : sourceId = source.id
    · subst hid
      right
      rcases h.tasks source.id hcount with hknown | ⟨other, hother, hsame, hhalted⟩
      · exact ⟨source, List.mem_append_right _ (List.mem_singleton_self source), rfl,
          h.halted_of_known hrow hlive hknown⟩
      · exact ⟨other, List.mem_append_left _ hother, hsame, hhalted⟩
    · rw [if_neg hid]
      refine (h.tasks sourceId hcount).imp_right ?_
      rintro ⟨other, hother, hsame⟩
      exact ⟨other, List.mem_append_left _ hother, hsame⟩
  orderly := h.orderly_saw source

/-- Neither an entry nor a task stands for a source that is new and not scheduled. -/
theorem Consistent.unclaimed (h : Consistent collectable table collector) {source : Source}
    (hrow : table.find? source.id = some source) (hlive : Live collectable source)
    (hnew : collector.sources.find? source.id = none) (hfree : source.id ∉ collector.scheduled) :
    collector.entryCount source.id = 0 ∧ collector.taskCount source.id = 0 := by
  constructor
  · exact Nat.eq_zero_of_not_pos fun hpos ↦ hfree ((h.scheduled source.id).mpr hpos)
  · refine Nat.eq_zero_of_not_pos fun hpos ↦ ?_
    rcases h.tasks source.id hpos with hknown | ⟨other, hother, hid, hhalted⟩
    · exact hknown hnew
    · exact h.never_halted hrow hlive other hother hid hhalted

/-- A source that is collected has one entry or one task, and is in the table of sources. -/
theorem Consistent.visit_kept (h : Consistent collectable table collector) {source : Source}
    {added : Collector} (hrow : table.find? source.id = some source)
    (hlive : Live collectable source) (hlog : added.log = collector.log ++ [.saw source])
    (htasks : added.tasks = collector.tasks)
    (hscheduled : ∀ sourceId, sourceId ∈ added.scheduled ↔ 0 < added.entryCount sourceId)
    (hothers : ∀ sourceId, sourceId ≠ source.id →
      added.entryCount sourceId = collector.entryCount sourceId)
    (hown : added.entryCount source.id + collector.taskCount source.id = 1) :
    Consistent collectable table { added with sources := collector.sources.put source } := by
  have hput (sourceId : String) : (collector.sources.put source).find? sourceId =
      if sourceId = source.id then some source else collector.sources.find? sourceId :=
    KeyedTable.find?_put source collector.sources sourceId
  have hcount (sourceId : String) : added.taskCount sourceId = collector.taskCount sourceId := by
    rw [taskCount, taskCount, htasks]
  have hnever := h.never_halted hrow hlive
  constructor
  case forward =>
    dsimp only
    rw [hlog]
    exact h.forward_saw hrow
  case known =>
    intro sourceId row hfound
    dsimp only at hfound ⊢
    rw [hlog, seen_saw, List.mem_append, List.mem_singleton]
    rw [hput] at hfound
    split at hfound
    · obtain rfl := Option.some.inj hfound
      exact ⟨Or.inr rfl, hlive.2⟩
    · obtain ⟨hseen, hcollectable⟩ := h.known sourceId row hfound
      exact ⟨Or.inl hseen, hcollectable⟩
  case discovered =>
    intro sourceId hdiscovered
    dsimp only at hdiscovered ⊢
    rw [hlog] at hdiscovered
    rw [hput]
    split
    · simp
    · rename_i hne
      rcases discovered_saw hdiscovered with ⟨hid, -⟩ | ⟨hold, -⟩
      · exact absurd hid.symm hne
      · exact h.discovered sourceId hold
  case halted =>
    intro other hother hhalted
    dsimp only at hother ⊢
    rw [hlog, seen_saw, List.mem_append, List.mem_singleton] at hother
    rcases hother with hold | rfl
    · rw [hput, if_neg fun hid ↦ hnever other hold hid hhalted]
      exact h.halted other hold hhalted
    · exact absurd hhalted hlive.1
  case scheduled => exact hscheduled
  case most =>
    intro sourceId
    change added.entryCount sourceId + added.taskCount sourceId ≤ 1
    rw [hcount]
    by_cases hid : sourceId = source.id
    · rw [hid]
      exact hown.le
    · rw [hothers sourceId hid]
      exact h.most sourceId
  case one =>
    intro sourceId hknown
    change added.entryCount sourceId + added.taskCount sourceId = 1
    dsimp only at hknown
    rw [hput] at hknown
    rw [hcount]
    by_cases hid : sourceId = source.id
    · rw [hid]
      exact hown
    · rw [hothers sourceId hid]
      rw [if_neg hid] at hknown
      exact h.one sourceId hknown
  case tasks =>
    intro sourceId hpos
    change 0 < added.taskCount sourceId at hpos
    rw [hcount] at hpos
    dsimp only
    rw [hput, hlog, seen_saw]
    split
    · exact Or.inl (by simp)
    · refine (h.tasks sourceId hpos).imp_right ?_
      rintro ⟨other, hother, hsame⟩
      exact ⟨other, List.mem_append_left _ hother, hsame⟩
  case orderly =>
    dsimp only
    rw [hlog]
    exact h.orderly_saw source

/-- The step lemma of a discovery: seeing a source keeps the invariant. -/
theorem Consistent.visit (h : Consistent collectable table collector) (now : String → ℕ)
    {source : Source} (hrow : table.find? source.id = some source) :
    Consistent collectable table (collector.visit collectable now source) := by
  unfold Collector.visit
  dsimp only
  by_cases hlive : Live collectable source
  · rw [if_neg (not_not.mpr hlive)]
    by_cases hfresh : collector.sources.find? source.id = none ∧ source.id ∉ collector.scheduled
    · obtain ⟨hentries, htasks⟩ := h.unclaimed hrow hlive hfresh.1 hfresh.2
      rw [if_pos hfresh]
      refine h.visit_kept hrow hlive rfl rfl (scheduled_push h.scheduled _ _) ?_ ?_
      · intro sourceId hid
        rw [entryCount_push, if_neg hid]
        rfl
      · rw [entryCount_push, if_pos rfl, htasks]
        exact congrArg (· + 1) hentries
    · rw [if_neg hfresh]
      refine h.visit_kept hrow hlive rfl rfl h.scheduled (fun _ _ ↦ rfl) ?_
      by_cases hnew : collector.sources.find? source.id = none
      · have hscheduled : source.id ∈ collector.scheduled :=
          not_not.mp fun hfree ↦ hfresh ⟨hnew, hfree⟩
        have hpos := (h.scheduled source.id).mp hscheduled
        have hmost := h.most source.id
        change collector.entryCount source.id + collector.taskCount source.id = 1
        omega
      · exact h.one source.id hnew
  · rw [if_pos hlive]
    exact h.visit_removed hrow hlive

/-- A discovery keeps the invariant. -/
theorem Consistent.refresh (h : Consistent collectable table collector) (now : String → ℕ)
    {sources : List Source} (hsources : ∀ source ∈ sources, source ∈ table.rows) :
    Consistent collectable table (sources.foldl (Collector.visit collectable now) collector) := by
  induction sources generalizing collector with
  | nil => exact h
  | cons source rest ih =>
    have hrow : table.find? source.id = some source :=
      KeyedTable.find?_eq_some.mpr ⟨hsources source List.mem_cons_self, rfl⟩
    exact ih (h.visit now hrow) fun other hother ↦ hsources other (List.mem_cons_of_mem source hother)

theorem repository_foldl_visit (now : String → ℕ) (sources : List Source) :
    (sources.foldl (Collector.visit collectable now) collector).repository =
      collector.repository := by
  induction sources generalizing collector with
  | nil => rfl
  | cons source rest ih =>
    rw [List.foldl_cons, ih]
    unfold Collector.visit Collector.push
    dsimp only
    split_ifs <;> rfl

/-! ## Scrapes -/

section Scrapes

variable {due : ℕ} {sourceId : String} {rest : List (ℕ × String)}

theorem entryCount_pop (hschedule : collector.schedule = (due, sourceId) :: rest) (wanted : String) :
    collector.entryCount wanted =
      (collector.pop sourceId rest).entryCount wanted + if sourceId = wanted then 1 else 0 := by
  unfold entryCount pop
  rw [hschedule, List.map_cons, List.count_cons]
  simp only [beq_iff_eq]

/-- Popping an entry keeps the set of the scheduled sources. -/
theorem Consistent.scheduled_pop (h : Consistent collectable table collector)
    (hschedule : collector.schedule = (due, sourceId) :: rest) (wanted : String) :
    wanted ∈ (collector.pop sourceId rest).scheduled ↔
      0 < (collector.pop sourceId rest).entryCount wanted := by
  have hcount := entryCount_pop hschedule wanted
  have hmost := h.most wanted
  rw [mem_scheduled_pop, h.scheduled]
  by_cases hid : wanted = sourceId
  · rw [if_pos hid.symm] at hcount
    simp only [hid, ne_eq, not_true_eq_false, and_false, false_iff]
    rw [hid] at hcount hmost
    omega
  · rw [if_neg (Ne.symm hid), Nat.add_zero] at hcount
    simp only [hid, ne_eq, not_false_eq_true, and_true, hcount]

/-- An entry of a source that is not collected any more is dropped. -/
theorem Consistent.drop (h : Consistent collectable table collector)
    (hschedule : collector.schedule = (due, sourceId) :: rest)
    (hgone : collector.sources.find? sourceId = none) :
    Consistent collectable table (collector.pop sourceId rest) :=
  { h with
    scheduled := h.scheduled_pop hschedule
    most := fun wanted ↦ by
      have hcount := entryCount_pop hschedule wanted
      have hmost := h.most wanted
      change (collector.pop sourceId rest).entryCount wanted + collector.taskCount wanted ≤ 1
      omega
    one := fun wanted hknown ↦ by
      have hcount := entryCount_pop hschedule wanted
      have hne : sourceId ≠ wanted := by
        rintro rfl
        exact hknown hgone
      rw [if_neg hne, Nat.add_zero] at hcount
      have hone := h.one wanted hknown
      rw [hcount] at hone
      exact hone }

/-- A scrape takes the place of its entry. -/
theorem Consistent.spawn (h : Consistent collectable table collector)
    (hschedule : collector.schedule = (due, sourceId) :: rest) {source : Source}
    (hsource : collector.sources.find? sourceId = some source) :
    Consistent collectable table { collector.pop sourceId rest with
      tasks := collector.tasks ++ [⟨source, none⟩]
      log := collector.log ++ [.started sourceId] } := by
  have hid : source.id = sourceId := (KeyedTable.find?_eq_some.mp hsource).2
  have hcount (wanted : String) :
      (taskIds (collector.tasks ++ [⟨source, none⟩])).count wanted =
        collector.taskCount wanted + if sourceId = wanted then 1 else 0 := by
    rw [taskIds, List.map_append, List.count_append, List.map_singleton, List.count_singleton, hid]
    simp only [taskCount, taskIds, beq_iff_eq]
  have hsum (wanted : String) : (collector.pop sourceId rest).entryCount wanted +
      (taskIds (collector.tasks ++ [⟨source, none⟩])).count wanted =
        collector.entryCount wanted + collector.taskCount wanted := by
    rw [hcount, entryCount_pop hschedule]
    omega
  constructor
  case forward =>
    dsimp only
    rw [seen_started]
    exact h.forward
  case known =>
    dsimp only
    rw [seen_started]
    exact h.known
  case discovered =>
    exact fun wanted hdiscovered ↦ h.discovered wanted (discovered_started hdiscovered)
  case halted =>
    dsimp only
    rw [seen_started]
    exact h.halted
  case scheduled => exact h.scheduled_pop hschedule
  case most => exact fun wanted ↦ (hsum wanted).le.trans (h.most wanted)
  case one => exact fun wanted hknown ↦ (hsum wanted).trans (h.one wanted hknown)
  case tasks =>
    intro wanted hpos
    dsimp only
    rw [seen_started]
    by_cases hwanted : sourceId = wanted
    · left
      change collector.sources.find? wanted ≠ none
      rw [← hwanted, hsource]
      simp
    · refine h.tasks wanted ?_
      have hsame := hcount wanted
      rw [if_neg hwanted, Nat.add_zero] at hsame
      exact hsame ▸ hpos
  case orderly =>
    rw [List.pairwise_append]
    refine ⟨h.orderly, List.pairwise_singleton _ _, fun first hfirst last hlast ↦ ?_⟩
    rw [List.mem_singleton.mp hlast]
    cases first with
    | started other => trivial
    | saw other =>
      intro hhalted heq
      have hseen : other ∈ seen collector.log :=
        List.mem_filterMap.mpr ⟨.saw other, hfirst, rfl⟩
      have hgone := h.halted other hseen hhalted
      rw [← heq, hsource] at hgone
      simp at hgone

/-- The tasks are those of the same sources. -/
theorem Consistent.returned (h : Consistent collectable table collector) {tasks : List ScrapeTask}
    (hids : taskIds tasks = taskIds collector.tasks) :
    Consistent collectable table { collector with tasks } := by
  have hcount (wanted : String) :
      (taskIds tasks).count wanted = collector.taskCount wanted := by
    rw [hids, taskCount]
  exact { h with
    most := fun wanted ↦ by
      change collector.entryCount wanted + (taskIds tasks).count wanted ≤ 1
      rw [hcount]
      exact h.most wanted
    one := fun wanted hknown ↦ by
      change collector.entryCount wanted + (taskIds tasks).count wanted = 1
      rw [hcount]
      exact h.one wanted hknown
    tasks := fun wanted hpos ↦ by
      change 0 < (taskIds tasks).count wanted at hpos
      rw [hcount] at hpos
      exact h.tasks wanted hpos }

/-- An entry takes the place of a scrape that is joined. -/
theorem Consistent.rescheduled (h : Consistent collectable table collector) {index : ℕ}
    {task : ScrapeTask} (htask : collector.tasks[index]? = some task) (due : ℕ) :
    Consistent collectable table
      ({ collector with tasks := collector.tasks.eraseIdx index }.push due task.source.id) := by
  have hcount (wanted : String) : collector.taskCount wanted =
      (taskIds (collector.tasks.eraseIdx index)).count wanted +
        if wanted = task.source.id then 1 else 0 := by
    obtain ⟨hindex, hget⟩ := List.getElem?_eq_some_iff.mp htask
    have hperm := (List.getElem_cons_eraseIdx_perm hindex).map fun task ↦ task.source.id
    rw [taskCount, taskIds, ← hperm.count_eq, List.map_cons, List.count_cons, hget]
    simp only [taskIds, beq_iff_eq, @eq_comm _ wanted]
  have hsum (wanted : String) :
      ({ collector with tasks := collector.tasks.eraseIdx index }.push due
          task.source.id).entryCount wanted +
        (taskIds (collector.tasks.eraseIdx index)).count wanted =
      collector.entryCount wanted + collector.taskCount wanted := by
    rw [hcount, entryCount_push]
    change collector.entryCount wanted + _ + _ = _
    omega
  exact { h with
    scheduled := scheduled_push h.scheduled due task.source.id
    most := fun wanted ↦ (hsum wanted).le.trans (h.most wanted)
    one := fun wanted hknown ↦ (hsum wanted).trans (h.one wanted hknown)
    tasks := fun wanted hpos ↦ by
      refine h.tasks wanted ?_
      rw [hcount]
      exact Nat.lt_of_lt_of_le hpos (Nat.le_add_right _ _) }

end Scrapes

/-! ## Runs -/

/-- The listing that is being processed, or the table that the next one will read. -/
def listed (collector : Collector) : KeyedTable Source.id :=
  collector.listing.getD collector.repository.sources

/-- The invariant of the collector: a listing is at most behind the repository. -/
structure Sound (collectable : String → Bool) (collector : Collector) : Prop where
  behind : KeyedTable.Follows Advances collector.listed collector.repository.sources
  consistent : Consistent collectable collector.listed collector

theorem sound_start (repository : Repository) : Sound collectable (start repository) :=
  ⟨.refl Advances.refl, consistent_start repository _⟩

theorem Sound.operate (h : Sound collectable collector) (operation : Operation) :
    Sound collectable
      { collector with repository := collector.repository.step parse operation } := by
  obtain ⟨hbehind, hconsistent⟩ := h
  have hadvances := @step_advances parse collector.repository operation
  unfold listed at hbehind hconsistent
  cases hlisting : collector.listing with
  | none =>
    rw [hlisting, Option.getD_none] at hconsistent
    exact ⟨.refl Advances.refl, { hconsistent.mono hadvances with }⟩
  | some table =>
    rw [hlisting, Option.getD_some] at hbehind hconsistent
    exact ⟨hbehind.trans Advances.trans hadvances, { hconsistent with }⟩

/-- The step lemma: every action keeps the collector sound. -/
theorem Sound.step (h : Sound collectable collector) {action : CollectorAction}
    (hstep : collector.step collectable parse maximumConcurrency action = some collector') :
    Sound collectable collector' := by
  unfold Collector.step at hstep
  cases action with
  | operate operation => exact Option.some.inj hstep ▸ h.operate operation
  | list =>
    dsimp only at hstep
    split at hstep
    · simp at hstep
    · rename_i hlisting
      obtain rfl := Option.some.inj hstep
      have hlisted : collector.listed = collector.repository.sources := by
        rw [listed, hlisting, Option.getD_none]
      have hconsistent := hlisted ▸ h.consistent
      exact ⟨.refl Advances.refl, { hconsistent with }⟩
  | refresh now =>
    dsimp only at hstep
    split at hstep
    · simp at hstep
    · rename_i table hlisting
      obtain rfl := Option.some.inj hstep
      have hlisted : collector.listed = table := by rw [listed, hlisting, Option.getD_some]
      have hrepository : ((listSources table).foldl (Collector.visit collectable now)
          collector).repository = collector.repository := repository_foldl_visit now _
      have hsources : ∀ source ∈ listSources table, source ∈ table.rows :=
        fun source hsource ↦ StableSort.mem_sortOn.mp hsource
      have hconsistent := ((hlisted ▸ h.consistent).refresh now hsources).mono (hlisted ▸ h.behind)
      refine ⟨.refl Advances.refl, ?_⟩
      rw [listed, Option.getD_none, hrepository]
      exact { hconsistent with }
  | start now =>
    dsimp only at hstep
    split_ifs at hstep
    split at hstep
    · simp at hstep
    · rename_i due sourceId rest hschedule
      split_ifs at hstep
      split at hstep
      · rename_i hgone
        obtain rfl := Option.some.inj hstep
        exact ⟨h.behind, h.consistent.drop hschedule hgone⟩
      · rename_i source hsource
        obtain rfl := Option.some.inj hstep
        exact ⟨h.behind, h.consistent.spawn hschedule hsource⟩
  | finish index hasData =>
    dsimp only at hstep
    split at hstep
    · rename_i source htask
      obtain rfl := Option.some.inj hstep
      obtain ⟨hindex, hget⟩ := List.getElem?_eq_some_iff.mp htask
      refine ⟨h.behind, h.consistent.returned ?_⟩
      have hmapped : index < (taskIds collector.tasks).length := by simpa [taskIds] using hindex
      have hid : (taskIds collector.tasks)[index] = source.id := by simp [taskIds, hget]
      rw [taskIds, List.map_set, ← taskIds, ← hid, List.set_getElem_self]
    · simp at hstep
  | join index now =>
    dsimp only at hstep
    split_ifs at hstep
    split at hstep
    · rename_i source hasData htask
      obtain rfl := Option.some.inj hstep
      exact ⟨h.behind, h.consistent.rescheduled htask _⟩
    · simp at hstep

/-! ## Endpoints -/

/-- Every source that the collector reads or has read has an endpoint that it collects. -/
def Collects (collectable : String → Bool) (collector : Collector) : Prop :=
  (∀ source ∈ collector.repository.sources.rows, collectable source.endpoint = true) ∧
    (∀ table, collector.listing = some table →
      ∀ source ∈ table.rows, collectable source.endpoint = true) ∧
    ∀ source ∈ seen collector.log, collectable source.endpoint = true

/-- A registration of an endpoint that is collected, or anything else. -/
def Registers (collectable : String → Bool) (action : CollectorAction) : Prop :=
  ∀ source, action = .operate (.registerSource source) → collectable source.endpoint = true

theorem step_collects {repository : Repository} {operation : Operation}
    (h : ∀ source ∈ repository.sources.rows, collectable source.endpoint = true)
    (hregisters : Registers collectable (.operate operation)) :
    ∀ source ∈ (repository.step parse operation).sources.rows,
      collectable source.endpoint = true := by
  unfold Repository.step
  split
  · rename_i after hafter
    rcases perform_endpoints hafter with ⟨change, hchange, hrows⟩ | ⟨added, rfl, hinsert⟩
    · intro source hsource
      rw [hrows] at hsource
      obtain ⟨row, hrow, rfl⟩ := List.mem_map.mp hsource
      rw [(hchange row).2]
      exact h row hrow
    · intro source hsource
      rw [(KeyedTable.insert?_eq_some hinsert).1, List.mem_append, List.mem_singleton] at hsource
      rcases hsource with hold | rfl
      · exact h source hold
      · exact hregisters source rfl
  · exact h

theorem seen_foldl_visit (now : String → ℕ) (sources : List Source) :
    seen (sources.foldl (Collector.visit collectable now) collector).log =
      seen collector.log ++ sources := by
  induction sources generalizing collector with
  | nil => rw [List.foldl_nil, List.append_nil]
  | cons source rest ih =>
    have hlog : (collector.visit collectable now source).log = collector.log ++ [.saw source] := by
      unfold Collector.visit Collector.push
      dsimp only
      split_ifs <;> rfl
    rw [List.foldl_cons, ih, hlog, seen_saw, List.append_assoc, List.singleton_append]

theorem Collects.step (h : Collects collectable collector) {action : CollectorAction}
    (hregisters : Registers collectable action)
    (hstep : collector.step collectable parse maximumConcurrency action = some collector') :
    Collects collectable collector' := by
  obtain ⟨hrepository, hlisting, hseen⟩ := h
  unfold Collector.step at hstep
  cases action with
  | operate operation =>
    obtain rfl := Option.some.inj hstep
    exact ⟨step_collects hrepository hregisters, hlisting, hseen⟩
  | list =>
    dsimp only at hstep
    split at hstep
    · simp at hstep
    · obtain rfl := Option.some.inj hstep
      refine ⟨hrepository, fun table htable ↦ ?_, hseen⟩
      obtain rfl := Option.some.inj htable
      exact hrepository
  | refresh now =>
    dsimp only at hstep
    split at hstep
    · simp at hstep
    · rename_i table htable
      obtain rfl := Option.some.inj hstep
      refine ⟨?_, by simp, ?_⟩
      · dsimp only
        rw [repository_foldl_visit]
        exact hrepository
      · dsimp only
        rw [seen_foldl_visit]
        intro source hsource
        rcases List.mem_append.mp hsource with hold | hnew
        · exact hseen source hold
        · exact hlisting table htable source (StableSort.mem_sortOn.mp hnew)
  | start now =>
    dsimp only at hstep
    split_ifs at hstep
    split at hstep
    · simp at hstep
    · split_ifs at hstep
      split at hstep
      · obtain rfl := Option.some.inj hstep
        exact ⟨hrepository, hlisting, hseen⟩
      · obtain rfl := Option.some.inj hstep
        refine ⟨hrepository, hlisting, ?_⟩
        dsimp only
        rw [seen_started]
        exact hseen
  | finish index hasData =>
    dsimp only at hstep
    split at hstep
    · obtain rfl := Option.some.inj hstep
      exact ⟨hrepository, hlisting, hseen⟩
    · simp at hstep
  | join index now =>
    dsimp only at hstep
    split_ifs at hstep
    split at hstep
    · obtain rfl := Option.some.inj hstep
      exact ⟨hrepository, hlisting, hseen⟩
    · simp at hstep

/-- In every run of the collector, a source that a discovery saw live and none saw halted since has
exactly one schedule entry or task; no source has two tasks; and no scrape of a source starts after
it was seen halted.  Where only endpoints that are collected get registered, a source is seen live
unless it is seen halted. -/
theorem collector_schedules {repository : Repository} {actions : List CollectorAction}
    (h : Runs.after (step collectable parse maximumConcurrency) actions (start repository) =
      some collector) :
    (∀ sourceId, Discovered collectable collector.log sourceId →
        collector.entryCount sourceId + collector.taskCount sourceId = 1) ∧
      (∀ sourceId, collector.taskCount sourceId ≤ 1) ∧ collector.log.Pairwise Orderly ∧
      ((∀ source ∈ repository.sources.rows, collectable source.endpoint = true) →
        (∀ action ∈ actions, Registers collectable action) →
          ∀ source ∈ seen collector.log, Live collectable source ↔ ¬ source.Halted) := by
  have hconsistent := (Runs.invariant (Sound collectable) (fun hsound hstep ↦ hsound.step hstep)
    (sound_start repository) h).consistent
  refine ⟨fun sourceId hdiscovered ↦ hconsistent.one sourceId
    (hconsistent.discovered sourceId hdiscovered), fun sourceId ↦ ?_, hconsistent.orderly, ?_⟩
  · exact (Nat.le_add_left _ _).trans (hconsistent.most sourceId)
  · intro hrepository hregisters source hsource
    have hstart : Collects collectable (start repository) :=
      ⟨hrepository, by simp [start], by simp [start, seen]⟩
    have hcollects := Runs.invariant_along (Collects collectable)
      (fun hcollects hregisters hstep ↦ hcollects.step hregisters hstep) hstart
      (Runs.Along.of_forall fun _ action haction ↦ hregisters action haction) h
    exact and_iff_left (hcollects.2.2 source hsource)

section Sample

def sampleRepository : Repository :=
  Repository.empty.run (fun _ ↦ .ok ()) (sampleFinished.take 4)

/-- A source is discovered and scraped; its interval changes while the scrape runs, and the next
scrape is due when the run has ended. -/
def sampleCollection : List CollectorAction :=
  [.list, .refresh fun _ ↦ 0, .start 0,
   .operate (.registerSource { sampleSource "source_1" with scrapeIntervalMs := 50 }),
   .finish 0 true, .list, .refresh fun _ ↦ 5, .join 0 6]

theorem collector_schedules_sample : ∃ collector,
    Runs.after (step (fun _ ↦ true) (fun _ ↦ .ok ()) 4) sampleCollection (start sampleRepository) =
        some collector ∧
      collector.schedule = [(1000006, "source_1")] ∧
      collector.entryCount "source_1" + collector.taskCount "source_1" = 1 := by
  have hsample : (Runs.after (step (fun _ ↦ true) (fun _ ↦ .ok ()) 4) sampleCollection
      (start sampleRepository)).map (fun collector ↦ (collector.schedule, collector.log)) =
      some ([(1000006, "source_1")], [.saw (sampleSource "source_1"), .started "source_1",
        .saw { sampleSource "source_1" with scrapeIntervalMs := 50 }]) := by decide +kernel
  obtain ⟨collector, hafter, hviews⟩ := Option.map_eq_some_iff.mp hsample
  obtain ⟨hschedule, hlog⟩ := Prod.mk.inj hviews
  refine ⟨collector, hafter, hschedule, (collector_schedules hafter).1 "source_1" ?_⟩
  rw [hlog]
  exact ⟨[], sampleSource "source_1", _, rfl, rfl, by decide, by decide⟩

end Sample

end Collector

end Rvx.Registry
