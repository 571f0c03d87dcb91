import Rvx.Tracking.State

/-!
# Retained history

The history is a function of the commits: it merges every commit into the entry of its step or
appends one, then evicts from the front.  The invariants below hold of every replay of commits.
-/

namespace Rvx.Tracking

open Core Check

variable {floats : FloatText} {options : TrackerOptions}

namespace History

def init : History := ⟨[], 0, 0⟩

def steps (history : History) : List ℤ := history.entries.map fun entry ↦ entry.record.step

end History

/-- The history after a list of commits. -/
def replay (floats : FloatText) (options : TrackerOptions) (commits : List CommittedStep) :
    Except TrackerError History :=
  commits.foldlM (mergeHistory floats options) .init

/-- The right-biased union of the metrics of commits. -/
def unionMetrics (commits : List CommittedStep) : Metrics :=
  commits.foldl (fun metrics commit ↦ metrics.extend commit.metrics) .empty

theorem replay_snoc {commits : List CommittedStep} {record : CommittedStep}
    {history history' : History} (h : replay floats options commits = .ok history)
    (hmerge : mergeHistory floats options history record = .ok history') :
    replay floats options (commits ++ [record]) = .ok history' := by
  unfold replay at h ⊢
  rw [foldlM_append_eq_ok]
  exact ⟨history, h, by simpa using hmerge⟩

theorem unionMetrics_snoc (commits : List CommittedStep) (record : CommittedStep) :
    unionMetrics (commits ++ [record]) = (unionMetrics commits).extend record.metrics := by
  simp [unionMetrics]

/-! ## Eviction -/

/-- The bytes of a list of entries. -/
def entryBytes (entries : List HistoryEntry) : ℕ := (entries.map HistoryEntry.bytes).sum

/-- The eviction loop drops entries from the front, keeps the newest one and ends below both
budgets. -/
theorem evictHistory_spec {history : History} {front : List HistoryEntry} {newest : HistoryEntry}
    (hbytes : history.bytes = entryBytes (front ++ [newest]))
    (hsteps : 1 ≤ options.historySteps) (hfits : newest.bytes ≤ options.maxHistoryBytes) :
    ∃ dropped kept, front = dropped ++ kept ∧
      (evictHistory options history (front ++ [newest])).entries = kept ++ [newest] ∧
      (evictHistory options history (front ++ [newest])).bytes = entryBytes (kept ++ [newest]) ∧
      ¬ (evictHistory options history (front ++ [newest])).Overflows options := by
  induction front generalizing history with
  | nil =>
    have hstop : ¬ ({ history with entries := [newest] } : History).Overflows options := by
      simp only [History.Overflows, entryBytes, List.nil_append, List.map_cons, List.map_nil,
        List.sum_cons, List.sum_nil, List.length_singleton] at hbytes ⊢
      omega
    refine ⟨[], [], rfl, ?_⟩
    rw [List.nil_append, evictHistory, if_neg hstop]
    exact ⟨rfl, hbytes, hstop⟩
  | cons old rest ih =>
    rw [List.cons_append, evictHistory]
    by_cases hover : ({ history with entries := old :: (rest ++ [newest]) } : History).Overflows
        options
    · rw [if_pos hover]
      have hrest : history.bytes - old.bytes = entryBytes (rest ++ [newest]) := by
        simp only [entryBytes, List.cons_append, List.map_cons, List.sum_cons] at hbytes ⊢
        omega
      obtain ⟨dropped, kept, rfl, hentries, hsum, hstop⟩ :=
        @ih { history with
          bytes := history.bytes - old.bytes, evictedSteps := history.evictedSteps + 1 } hrest
      exact ⟨old :: dropped, kept, rfl, hentries, hsum, hstop⟩
    · rw [if_neg hover]
      exact ⟨[], old :: rest, rfl, rfl, hbytes, hover⟩

/-! ## Merging -/

theorem History.find?_eq_none {history : History} {step : ℤ} :
    history.find? step = none ↔ step ∉ history.steps := by
  simp only [find?, steps, List.find?_eq_none, decide_eq_true_eq, List.mem_map, not_exists, not_and]

theorem History.find?_eq_some {history : History} {step : ℤ} {entry : HistoryEntry}
    (h : history.find? step = some entry) :
    entry ∈ history.entries ∧ entry.record.step = step :=
  ⟨List.mem_of_find?_eq_some h, by simpa using List.find?_some h⟩

/-- Without the entry of a step, the others stay with their bytes. -/
theorem History.remove_spec {history : History} (hbytes : history.bytes = entryBytes history.entries)
    (hnodup : history.steps.Nodup) (step : ℤ) :
    (history.remove step).bytes = entryBytes (history.remove step).entries ∧
      (history.remove step).entries.Sublist history.entries ∧
      ∀ entry, entry ∈ (history.remove step).entries ↔
        entry ∈ history.entries ∧ entry.record.step ≠ step := by
  unfold remove
  cases hfind : history.find? step with
  | none =>
    refine ⟨hbytes, List.Sublist.refl _, fun entry ↦ ⟨fun hmem ↦ ⟨hmem, ?_⟩, And.left⟩⟩
    intro heq
    exact find?_eq_none.mp hfind (List.mem_map.mpr ⟨entry, hmem, heq⟩)
  | some old =>
    dsimp only
    obtain ⟨entries, bytes, evictedSteps⟩ := history
    dsimp only [find?, steps] at *
    subst hbytes
    clear evictedSteps
    induction entries with
    | nil => simp at hfind
    | cons entry rest ih =>
      rw [List.map_cons, List.nodup_cons] at hnodup
      by_cases hstep : entry.record.step = step
      · rw [List.find?_cons_of_pos (by simpa using hstep), Option.some.injEq] at hfind
        rw [List.eraseP_cons_of_pos (by simpa using hstep)]
        refine ⟨by simp [entryBytes, hfind], List.sublist_cons_self _ _, fun other ↦ ?_⟩
        constructor
        · intro hmem
          refine ⟨List.mem_cons_of_mem _ hmem, fun heq ↦ hnodup.1 ?_⟩
          exact List.mem_map.mpr ⟨other, hmem, heq.trans hstep.symm⟩
        · rintro ⟨hmem, hne⟩
          exact (List.mem_cons.mp hmem).resolve_left fun heq ↦ hne (heq ▸ hstep)
      · rw [List.find?_cons_of_neg (by simpa using hstep)] at hfind
        rw [List.eraseP_cons_of_neg (by simpa using hstep)]
        obtain ⟨hsum, hsublist, hiff⟩ := ih hnodup.2 hfind
        have hold : old.bytes ≤ entryBytes rest :=
          List.le_sum_of_mem (List.mem_map_of_mem (List.mem_of_find?_eq_some hfind))
        refine ⟨?_, hsublist.cons_cons entry, fun other ↦ ?_⟩
        · simp only [entryBytes, List.map_cons, List.sum_cons] at hsum hold ⊢
          omega
        · rw [List.mem_cons, hiff, List.mem_cons]
          constructor
          · rintro (rfl | ⟨hmem, hne⟩)
            · exact ⟨Or.inl rfl, hstep⟩
            · exact ⟨Or.inr hmem, hne⟩
          · rintro ⟨rfl | hmem, hne⟩
            · exact Or.inl rfl
            · exact Or.inr ⟨hmem, hne⟩

/-- The record a commit leaves in the history. -/
def mergedRecord (history : History) (record : CommittedStep) : CommittedStep :=
  (history.find? record.step).elim record fun entry ↦ entry.record.merge record

theorem step_mergedRecord (history : History) (record : CommittedStep) :
    (mergedRecord history record).step = record.step := by
  unfold mergedRecord
  cases hfind : history.find? record.step with
  | none => rfl
  | some entry => exact (History.find?_eq_some hfind).2

/-- The effect of a commit: the entries of other steps stay, save those evicted, and the merged
entry comes last. -/
structure Merges (floats : FloatText) (options : TrackerOptions) (history : History)
    (record : CommittedStep) (history' : History) : Prop where
  entries : ∃ dropped kept,
    (history.remove record.step).entries = dropped ++ kept ∧
      history'.entries = kept ++ [⟨mergedRecord history record,
        String.utf8Len ((mergedRecord history record).chars floats)⟩]
  bytes : history'.bytes = entryBytes history'.entries
  within : ¬ history'.Overflows options

theorem mergeHistory_ok {history history' : History} {record : CommittedStep}
    (hbytes : history.bytes = entryBytes history.entries) (hnodup : history.steps.Nodup)
    (hsteps : 1 ≤ options.historySteps)
    (h : mergeHistory floats options history record = .ok history') :
    Merges floats options history record history' := by
  simp only [mergeHistory, bind_eq_ok, reject_ok, exists_unit, not_lt, pure_eq_ok] at h
  obtain ⟨hfits, rfl⟩ := h
  have hremoved := (History.remove_spec hbytes hnodup record.step).1
  have hnew : ({ history.remove record.step with
      bytes := (history.remove record.step).bytes +
        String.utf8Len ((mergedRecord history record).chars floats) } : History).bytes =
      entryBytes ((history.remove record.step).entries ++ [⟨mergedRecord history record,
        String.utf8Len ((mergedRecord history record).chars floats)⟩]) := by
    simp [entryBytes, hremoved]
  obtain ⟨dropped, kept, hfront, hentries, hsum, hstop⟩ := evictHistory_spec hnew hsteps hfits
  exact ⟨⟨dropped, kept, hfront, hentries⟩, hsum.trans (congrArg entryBytes hentries.symm), hstop⟩

/-! ## The invariant of a replay -/

/-- An entry is the union of the commits to its step since the step last entered the history. -/
def Origin (floats : FloatText) (options : TrackerOptions) (commits : List CommittedStep)
    (entry : HistoryEntry) : Prop :=
  ∃ before first after, commits = before ++ first :: after ∧ first.step = entry.record.step ∧
    (∀ history, replay floats options before = .ok history →
      entry.record.step ∉ history.steps) ∧
    (∀ part rest history, after = part ++ rest →
      replay floats options (before ++ first :: part) = .ok history →
        entry.record.step ∈ history.steps) ∧
    entry.record.metrics =
      unionMetrics ((first :: after).filter fun commit ↦ commit.step = entry.record.step)

/-- What holds of the history after every replay. -/
structure Retained (floats : FloatText) (options : TrackerOptions) (commits : List CommittedStep)
    (history : History) : Prop where
  replayed : replay floats options commits = .ok history
  bytes : history.bytes = entryBytes history.entries
  sizes : ∀ entry ∈ history.entries, entry.bytes = String.utf8Len (entry.record.chars floats)
  bytes_le : history.bytes ≤ options.maxHistoryBytes
  length_le : history.entries.length ≤ options.historySteps
  nodup : history.steps.Nodup
  origin : ∀ entry ∈ history.entries, Origin floats options commits entry
  ascending : (commits.map CommittedStep.step).Pairwise (· ≤ ·) →
    history.steps.Pairwise (· < ·)

theorem retained_init : Retained floats options [] .init where
  replayed := rfl
  bytes := rfl
  sizes := by simp [History.init]
  bytes_le := by simp [History.init]
  length_le := by simp [History.init]
  nodup := by simp [History.init, History.steps]
  origin := by simp [History.init]
  ascending := by simp [History.init, History.steps]

section Merge

variable {commits : List CommittedStep} {history history' : History} {record : CommittedStep}

/-- The step of an entry was committed. -/
theorem Origin.step_mem {entry : HistoryEntry} (h : Origin floats options commits entry) :
    entry.record.step ∈ commits.map CommittedStep.step := by
  obtain ⟨before, first, after, rfl, hstep, -⟩ := h
  rw [← hstep]
  exact List.mem_map_of_mem (by simp)

/-- An entry that stays keeps its origin. -/
theorem Origin.snoc {entry : HistoryEntry} (h : Origin floats options commits entry)
    (hne : entry.record.step ≠ record.step)
    (hreplay : replay floats options (commits ++ [record]) = .ok history')
    (hmem : entry.record.step ∈ history'.steps) :
    Origin floats options (commits ++ [record]) entry := by
  obtain ⟨before, first, after, rfl, hfirst, hfresh, hstays, hmetrics⟩ := h
  refine ⟨before, first, after ++ [record], by simp, hfirst, hfresh, ?_, ?_⟩
  · intro part rest other hsplit hother
    cases rest using List.reverseRecOn with
    | nil =>
      rw [List.append_nil] at hsplit
      rw [← hsplit, ← List.cons_append, ← List.append_assoc, hreplay, Except.ok.injEq] at hother
      exact hother ▸ hmem
    | append_singleton rest last =>
      rw [← List.append_assoc] at hsplit
      exact hstays part rest other (List.append_inj' hsplit rfl).1 hother
  · rw [← List.cons_append, List.filter_append, hmetrics]
    have hlast : [record].filter (fun commit ↦ commit.step = entry.record.step) = [] := by
      simpa using Ne.symm hne
    rw [hlast, List.append_nil]

/-- A commit to a retained step extends the union of its entry. -/
theorem Origin.merge {entry entry' : HistoryEntry} (h : Origin floats options commits entry)
    (hstep : entry.record.step = record.step) (hstep' : entry'.record.step = record.step)
    (hreplay : replay floats options (commits ++ [record]) = .ok history')
    (hmem : record.step ∈ history'.steps)
    (hmetrics' : entry'.record.metrics = entry.record.metrics.extend record.metrics) :
    Origin floats options (commits ++ [record]) entry' := by
  obtain ⟨before, first, after, rfl, hfirst, hfresh, hstays, hmetrics⟩ := h
  rw [hstep] at hfirst hfresh hstays hmetrics
  refine ⟨before, first, after ++ [record], by simp, hfirst.trans hstep'.symm, ?_, ?_, ?_⟩
  · rw [hstep']
    exact hfresh
  · intro part rest other hsplit hother
    rw [hstep']
    cases rest using List.reverseRecOn with
    | nil =>
      rw [List.append_nil] at hsplit
      rw [← hsplit, ← List.cons_append, ← List.append_assoc, hreplay, Except.ok.injEq] at hother
      exact hother ▸ hmem
    | append_singleton rest last =>
      rw [← List.append_assoc] at hsplit
      exact hstays part rest other (List.append_inj' hsplit rfl).1 hother
  · have hlast : [record].filter (fun commit ↦ commit.step = record.step) = [record] := by simp
    rw [hmetrics', hmetrics, ← List.cons_append, List.filter_append, hstep', hlast,
      unionMetrics_snoc]

/-- A commit to a step that is not retained enters the history. -/
theorem origin_enter {entry' : HistoryEntry} (hold : replay floats options commits = .ok history)
    (hfresh : record.step ∉ history.steps) (hstep' : entry'.record.step = record.step)
    (hreplay : replay floats options (commits ++ [record]) = .ok history')
    (hmem : record.step ∈ history'.steps)
    (hmetrics' : entry'.record.metrics = record.metrics) :
    Origin floats options (commits ++ [record]) entry' := by
  refine ⟨commits, record, [], rfl, hstep'.symm, ?_, ?_, ?_⟩
  · intro other hother
    rw [hold, Except.ok.injEq] at hother
    rw [hstep', ← hother]
    exact hfresh
  · intro part rest other hsplit hother
    obtain ⟨rfl, rfl⟩ := List.append_eq_nil_iff.mp hsplit.symm
    rw [hreplay, Except.ok.injEq] at hother
    rw [hstep', ← hother]
    exact hmem
  · rw [hmetrics', hstep']
    simp [unionMetrics]

/-- The step lemma: a commit keeps the invariant of the replay. -/
theorem Retained.merge (h : Retained floats options commits history)
    (hsteps : 1 ≤ options.historySteps)
    (hmerge : mergeHistory floats options history record = .ok history') :
    Retained floats options (commits ++ [record]) history' := by
  have hreplay := replay_snoc h.replayed hmerge
  obtain ⟨⟨dropped, kept, hremoved, hentries⟩, hbytes, hwithin⟩ :=
    mergeHistory_ok h.bytes h.nodup hsteps hmerge
  obtain ⟨-, hsublist, hothers⟩ := History.remove_spec h.bytes h.nodup record.step
  have hkept (entry : HistoryEntry) (hmem : entry ∈ kept) :
      entry ∈ history.entries ∧ entry.record.step ≠ record.step :=
    (hothers entry).mp (hremoved ▸ List.mem_append_right _ hmem)
  have hkeptSublist : (kept.map fun entry ↦ entry.record.step).Sublist history.steps :=
    ((List.sublist_append_right dropped kept).trans (hremoved ▸ hsublist)).map _
  have hsteps' : history'.steps = (kept.map fun entry ↦ entry.record.step) ++ [record.step] := by
    rw [History.steps, hentries, List.map_append, List.map_singleton, step_mergedRecord]
  have hnewest : record.step ∈ history'.steps := by
    rw [hsteps']
    exact List.mem_append_right _ (List.mem_singleton_self _)
  simp only [History.Overflows, not_or, not_lt] at hwithin
  refine ⟨hreplay, hbytes, ?_, hwithin.2, hwithin.1, ?_, ?_, ?_⟩
  · intro entry hmem
    rw [hentries] at hmem
    rcases List.mem_append.mp hmem with hold | hnew
    · exact h.sizes entry (hkept entry hold).1
    · rw [List.mem_singleton.mp hnew]
  · rw [hsteps', List.nodup_append]
    refine ⟨h.nodup.sublist hkeptSublist, List.nodup_singleton _, ?_⟩
    intro step hmem other hother heq
    obtain ⟨entry, hentry, rfl⟩ := List.mem_map.mp hmem
    exact (hkept entry hentry).2 (heq.trans (List.mem_singleton.mp hother))
  · intro entry hmem
    rw [hentries] at hmem
    rcases List.mem_append.mp hmem with hold | hnew
    · have hstays : entry.record.step ∈ history'.steps := by
        rw [hsteps']
        exact List.mem_append_left _ (List.mem_map_of_mem hold)
      exact (h.origin entry (hkept entry hold).1).snoc (hkept entry hold).2 hreplay hstays
    · obtain rfl := List.mem_singleton.mp hnew
      have hstep := step_mergedRecord history record
      cases hfind : history.find? record.step with
      | none =>
        exact origin_enter h.replayed (History.find?_eq_none.mp hfind) hstep hreplay hnewest
          (by simp [mergedRecord, hfind])
      | some existing =>
        obtain ⟨hin, hsame⟩ := History.find?_eq_some hfind
        exact (h.origin existing hin).merge hsame hstep hreplay hnewest
          (by simp [mergedRecord, hfind, CommittedStep.merge])
  · intro hascending
    rw [List.map_append, List.pairwise_append] at hascending
    rw [hsteps', List.pairwise_append]
    refine ⟨(h.ascending hascending.1).sublist hkeptSublist, List.pairwise_singleton _ _, ?_⟩
    intro step hmem other hother
    obtain ⟨entry, hentry, rfl⟩ := List.mem_map.mp hmem
    rw [List.mem_singleton.mp hother]
    have hle := hascending.2.2 entry.record.step (h.origin entry (hkept entry hentry).1).step_mem
      record.step (by simp)
    exact lt_of_le_of_ne hle (hkept entry hentry).2

end Merge

end Rvx.Tracking
