import Rvx.Cli.TraceSort

/-!
# The exported trace is the stable sort of its events

Records are read back as they were written.  Every run file is a sorted run, merging keeps that, and
the runs together hold every record taken so far; the ordinals leave only one sorted arrangement.
-/

namespace Rvx.Cli

open Core Check LittleEndian RunMerging

/-! ## Reading back a record -/

namespace Record

/-- What `push` checks. -/
structure Sound (record : Record) : Prop where
  finite : record.timestamp.isFinite = true
  bounded : record.payload.length ≤ PAGE_BYTES

theorem readExact_append {count : ℕ} {taken rest : List UInt8} {truncated : String}
    (h : taken.length = count) : readExact count (taken ++ rest) truncated = .ok (taken, rest) := by
  rw [readExact_eq_ok, ← h]
  simp

theorem read_append {header rest : List UInt8} (h : header.length = 20) :
    read (header ++ rest) = (do
      let timestamp := Float.ofBits (UInt64.ofNat (ofBytes (header.take 8)))
      let ordinal := UInt64.ofNat (ofBytes ((header.drop 8).take 8))
      let length := ofBytes (header.drop 16)
      reject (timestamp.isFinite = false ∨ PAGE_BYTES < length)
        (.message "invalid trace sort record")
      let (payload, rest) ← readExact length rest "truncated trace sort payload"
      return some (⟨timestamp, ordinal, payload⟩, rest)) := by
  cases header with
  | nil => simp at h
  | cons first others =>
    rw [List.cons_append, read, readExact_append (by simpa using h)]
    rfl

theorem read_header {first second third rest : List UInt8} (hfirst : first.length = 8)
    (hsecond : second.length = 8) (hthird : third.length = 4) :
    read (first ++ second ++ third ++ rest) = (do
      let timestamp := Float.ofBits (UInt64.ofNat (ofBytes first))
      reject (timestamp.isFinite = false ∨ PAGE_BYTES < ofBytes third)
        (.message "invalid trace sort record")
      let (payload, rest) ← readExact (ofBytes third) rest "truncated trace sort payload"
      return some (⟨timestamp, UInt64.ofNat (ofBytes second), payload⟩, rest)) := by
  have htimestamp : (first ++ second ++ third).take 8 = first := by
    rw [List.append_assoc, List.take_left' hfirst]
  have hordinal : ((first ++ second ++ third).drop 8).take 8 = second := by
    rw [List.append_assoc, List.drop_left' hfirst, List.take_left' hsecond]
  have hlength : (first ++ second ++ third).drop 16 = third :=
    List.drop_left' (by rw [List.length_append, hfirst, hsecond])
  rw [read_append (by simp [hfirst, hsecond, hthird]), htimestamp, hordinal, hlength]

/-- A record is read back unchanged, and the reading stops at its end. -/
theorem read_write {record : Record} (h : record.Sound) (rest : List UInt8) :
    read (record.write ++ rest) = .ok (some (record, rest)) := by
  have hlength : record.payload.length % 2 ^ 32 = record.payload.length :=
    Nat.mod_eq_of_lt (lt_of_le_of_lt h.bounded (by decide))
  have hword (word : UInt64) : ofBytes (toBytes 8 word.toNat) = word.toNat :=
    ofBytes_toBytes_of_lt word.toNat_lt
  have hbytes : ofBytes (toBytes 4 record.payload.length) = record.payload.length :=
    ofBytes_toBytes_of_lt (lt_of_le_of_lt h.bounded (by decide))
  have hchecked : ¬ (record.timestamp.isFinite = false ∨ PAGE_BYTES < record.payload.length) := by
    simp [h.finite, h.bounded]
  rw [write, hlength, List.append_assoc, read_header (by simp) (by simp) (by simp), hword, hword,
    hbytes, UInt64.ofNat_toNat, UInt64.ofNat_toNat, FloatBits.ofBits_toBits]
  simp only [reject, if_neg hchecked, readExact_append rfl]
  rfl

theorem holds_write {run : List Record} (h : ∀ record ∈ run, record.Sound) :
    records.Holds (run.flatMap write) run := by
  induction run with
  | nil => exact .done rfl
  | cons record run ih =>
    rw [List.forall_mem_cons] at h
    exact .item (read_write h.1 _) (ih h.2)

/-- A run of sound records in order. -/
structure SortedRun (run : List Record) : Prop where
  sound : ∀ record ∈ run, record.Sound
  ordered : run.Pairwise fun a b ↦ rank a ≤ rank b

end Record

namespace SortedTrace

open Record

/-! ## Files -/

variable {trace : SortedTrace} {pass run start count : ℕ}

theorem directory_setFile (trace : SortedTrace) (file : Option (List UInt8))
    (pass run pass' run' : ℕ) : (trace.setFile pass run file).directory pass' run' =
      if pass' = pass ∧ run' = run then file else trace.directory pass' run' := rfl

theorem setFile_setFile (trace : SortedTrace) (file file' : Option (List UInt8)) (pass run : ℕ) :
    (trace.setFile pass run file).setFile pass run file' = trace.setFile pass run file' := by
  simp only [setFile, SortedTrace.mk.injEq, and_true]
  funext pass' run'
  split_ifs <;> rfl

theorem returns_openRun {file : List UInt8} (h : trace.directory pass run = some file) :
    (openRun pass run).Returns trace file trace := by
  simp [openRun, h]

theorem returns_createRun (h : trace.directory pass run = none) :
    (createRun pass run).Returns trace () (trace.setFile pass run (some [])) := by
  simp [createRun, h]

theorem returns_removeRun (h : (trace.directory pass run).isSome = true) :
    (removeRun pass run).Returns trace () (trace.setFile pass run none) := by
  rcases Option.isSome_iff_exists.mp h with ⟨file, hfile⟩
  simp only [removeRun, Script.returns_bind, Script.returns_modify]
  exact ⟨file, trace, returns_openRun hfile, rfl⟩

theorem returns_removeRuns
    (h : ∀ run, start ≤ run → run < start + count → (trace.directory pass run).isSome = true) :
    ∃ trace', (Script.forEach (List.range' start count) fun run ↦ removeRun pass run).Returns
        trace () trace' ∧
      ∀ pass' run', trace'.directory pass' run' =
        if pass' = pass ∧ start ≤ run' ∧ run' < start + count then none
        else trace.directory pass' run' := by
  induction count generalizing start trace with
  | zero =>
    refine ⟨trace, by simp [Script.forEach], fun pass' run' ↦ ?_⟩
    rw [if_neg (by omega)]
  | succ count ih =>
    have hrest : ∀ run, start + 1 ≤ run → run < start + 1 + count →
        ((trace.setFile pass start none).directory pass run).isSome = true := by
      intro run hle hlt
      have hne : ¬ (pass = pass ∧ run = start) := by omega
      rw [directory_setFile, if_neg hne]
      exact h run (by omega) (by omega)
    rcases ih hrest with ⟨trace', hreturns, hdirectory⟩
    refine ⟨trace', ?_, fun pass' run' ↦ ?_⟩
    · simp only [List.range'_succ, Script.forEach, Script.returns_bind]
      exact ⟨(), _, returns_removeRun (h start le_rfl (by omega)), hreturns⟩
    · rw [hdirectory]
      rw [directory_setFile]
      split_ifs <;> first | rfl | omega

/-- The files of a pass are the runs, and no later pass has begun. -/
structure Stored (trace : SortedTrace) (pass : ℕ) (runs : List (List Record)) : Prop where
  file : ∀ run, trace.directory pass run = runs[run]?.map fun run ↦ run.flatMap write
  later : ∀ pass' run, pass < pass' → trace.directory pass' run = none

/-- The first runs of a pass are merged into runs of the next pass. -/
structure Passing (trace : SortedTrace) (pass start : ℕ) (runs merged : List (List Record)) :
    Prop where
  left : ∀ run, start ≤ run →
    trace.directory pass run = runs[run]?.map fun run ↦ run.flatMap write
  stored : Stored trace (pass + 1) merged

theorem Stored.append {runs : List (List Record)} (h : Stored trace pass runs) (run : List Record) :
    Stored (trace.setFile pass runs.length (some (run.flatMap write))) pass (runs ++ [run]) where
  file place := by
    rw [directory_setFile]
    split_ifs with heq
    · simp [heq.2]
    · rw [h.file]
      cases lt_or_gt_of_ne fun hplace ↦ heq ⟨rfl, hplace⟩ with
      | inl hlt => rw [List.getElem?_append_left hlt]
      | inr hgt =>
        rw [List.getElem?_eq_none hgt.le, List.getElem?_eq_none]
        simpa using Nat.succ_le_of_lt hgt
  later pass' place hlt := by
    rw [directory_setFile, if_neg (by omega)]
    exact h.later pass' place hlt

theorem returns_starts {group : List (List Record)} (hgroup : ∀ run ∈ group, SortedRun run)
    (h : ∀ place run, group[place]? = some run →
      trace.directory pass (start + place) = some (run.flatMap write)) :
    ∃ starts, (Script.collect (List.range' start group.length) fun run ↦ do
        let input ← openRun pass run
        Script.check (records.first input)).Returns trace starts trace ∧
      List.Forall₂ (Reader.Started records) starts group := by
  induction group generalizing start with
  | nil => exact ⟨[], by simp [Script.collect], List.Forall₂.nil⟩
  | cons run group ih =>
    rw [List.forall_mem_cons] at hgroup
    have hopen := returns_openRun (h 0 run rfl)
    rcases (holds_write hgroup.1.sound).first_eq with ⟨rest, hfirst, hrest⟩
    have hothers : ∀ place run', group[place]? = some run' →
        trace.directory pass (start + 1 + place) = some (run'.flatMap write) := by
      intro place run' hplace
      rw [Nat.add_assoc, Nat.add_comm 1]
      exact h (place + 1) run' hplace
    rcases ih hgroup.2 hothers with ⟨starts, hstarts, hall⟩
    refine ⟨(run.head?, rest) :: starts, ?_, List.Forall₂.cons ⟨rfl, hrest⟩ hall⟩
    simp only [List.length_cons, List.range'_succ, Script.collect, Script.returns_bind,
      Script.returns_check, Script.returns_pure]
    exact ⟨_, trace, ⟨_, trace, hopen, hfirst, rfl⟩, starts, trace, hstarts, rfl, rfl⟩

/-- Merging sorted runs adds one sorted run to the next pass. -/
theorem returns_merge {group merged : List (List Record)} (hgroup : ∀ run ∈ group, SortedRun run)
    (h : ∀ place run, group[place]? = some run →
      trace.directory pass (start + place) = some (run.flatMap write))
    (hstored : Stored trace (pass + 1) merged) :
    ∃ run trace', (merge pass start (start + group.length) merged.length).Returns trace () trace' ∧
      SortedRun run ∧ run.Perm group.flatten ∧ Stored trace' (pass + 1) (merged ++ [run]) ∧
      trace'.directory pass = trace.directory pass := by
  rcases returns_starts hgroup h with ⟨starts, hstarts, hall⟩
  rcases Reader.merge_starts hall (fun run hrun ↦ (hgroup run hrun).ordered) with
    ⟨run, hmerge, hperm, hordered⟩
  have hfree : trace.directory (pass + 1) merged.length = none := by
    rw [hstored.file, List.getElem?_eq_none le_rfl]
    rfl
  refine ⟨run, _, ?_, ⟨?_, hordered⟩, hperm, hstored.append run, ?_⟩
  · simp only [merge, writeRun, Script.returns_bind, Script.returns_check, Script.returns_modify,
      Nat.add_sub_cancel_left]
    refine ⟨starts, trace, hstarts, (), _, returns_createRun hfree, run, _, ⟨hmerge, rfl⟩, ?_⟩
    exact setFile_setFile trace _ _ _ _
  · intro record hrecord
    rcases List.mem_flatten.mp (hperm.mem_iff.mp hrecord) with ⟨run', hrun', hmem⟩
    exact (hgroup run' hrun').sound record hmem
  · funext place
    rw [directory_setFile, if_neg (by omega)]

/-- One round of the inner loop. -/
theorem returns_group {runs merged group rest : List (List Record)}
    (hruns : ∀ run ∈ runs, SortedRun run) (h : Passing trace pass start runs merged)
    (hdrop : runs.drop start = group ++ rest) :
    ∃ run trace' trace'',
      (merge pass start (start + group.length) merged.length).Returns trace () trace' ∧
      (Script.forEach (List.range' start group.length) fun run ↦ removeRun pass run).Returns
        trace' () trace'' ∧
      SortedRun run ∧ run.Perm group.flatten ∧
      Passing trace'' pass (start + group.length) runs (merged ++ [run]) := by
  have hgroup : ∀ run ∈ group, SortedRun run := fun run hrun ↦
    hruns run (List.mem_of_mem_drop (hdrop ▸ List.mem_append_left rest hrun))
  have hfile : ∀ place run, group[place]? = some run →
      trace.directory pass (start + place) = some (run.flatMap write) := by
    intro place run hplace
    have hlt := (List.getElem?_eq_some_iff.mp hplace).1
    rw [h.left _ (Nat.le_add_right start place), ← List.getElem?_drop, hdrop,
      List.getElem?_append_left hlt, hplace]
    rfl
  rcases returns_merge hgroup hfile h.stored with
    ⟨run, trace', hmerge, hrun, hperm, hstored, hdirectory⟩
  have hexists : ∀ place, start ≤ place → place < start + group.length →
      (trace'.directory pass place).isSome = true := by
    intro place hle hlt
    have hplace := hfile (place - start) _ (List.getElem?_eq_getElem (by omega))
    rw [Nat.add_sub_cancel' hle] at hplace
    rw [hdirectory, hplace]
    rfl
  rcases returns_removeRuns hexists with ⟨trace'', hremove, hremoved⟩
  refine ⟨run, trace', trace'', hmerge, hremove, hrun, hperm, fun place hle ↦ ?_,
    fun place ↦ ?_, fun pass' place hpass ↦ ?_⟩
  · rw [hremoved, if_neg (by omega), hdirectory]
    exact h.left place (by omega)
  · rw [hremoved, if_neg (by omega)]
    exact hstored.file place
  · rw [hremoved, if_neg (by omega)]
    exact hstored.later pass' place hpass

/-- A pass stores every record again, in fewer runs. -/
theorem returns_mergeRuns {runs merged : List (List Record)} (hruns : ∀ run ∈ runs, SortedRun run)
    (hmerged : ∀ run ∈ merged, SortedRun run) (h : Passing trace pass start runs merged) :
    ∃ next trace', (mergeRuns pass runs.length start merged.length).Returns
        trace next.length trace' ∧
      (∀ run ∈ next, SortedRun run) ∧ Stored trace' (pass + 1) next ∧
      next.flatten.Perm (merged.flatten ++ (runs.drop start).flatten) ∧
      MERGE_FAN_IN * next.length <
        MERGE_FAN_IN * merged.length + (runs.length - start) + MERGE_FAN_IN := by
  induction hcount : runs.length - start using Nat.strong_induction_on
    generalizing start trace merged with
  | _ count ih =>
    rw [mergeRuns]
    split_ifs with hlt
    · have hdrop := (List.take_append_drop MERGE_FAN_IN (runs.drop start)).symm
      have hlength : ((runs.drop start).take MERGE_FAN_IN).length =
          min MERGE_FAN_IN (runs.length - start) := by
        rw [List.length_take, List.length_drop]
      generalize (runs.drop start).take MERGE_FAN_IN = group at hdrop hlength
      have hstop : min (start + MERGE_FAN_IN) runs.length = start + group.length := by omega
      have hpos : 0 < group.length := by
        simp only [MERGE_FAN_IN] at hlength
        omega
      rcases returns_group hruns h hdrop with
        ⟨run, trace', trace'', hmerge, hremove, hrun, hperm, hpassing⟩
      have hmerged' : ∀ run' ∈ merged ++ [run], SortedRun run' :=
        List.forall_mem_append.mpr ⟨hmerged, List.forall_mem_singleton.mpr hrun⟩
      rcases ih (runs.length - (start + group.length)) (by omega) hmerged' hpassing rfl with
        ⟨next, trace''', hnext, hsorted, hstored, hrest, hbound⟩
      refine ⟨next, trace''', ?_, hsorted, hstored, hrest.trans ?_, ?_⟩
      · simp only [Script.returns_bind, hstop, Nat.add_sub_cancel_left]
        rw [List.length_append] at hnext
        exact ⟨(), trace', hmerge, (), trace'', hremove, hnext⟩
      · rw [← List.drop_drop, hdrop, List.drop_left]
        simpa using (hperm.append_right _).append_left merged.flatten
      · rw [List.length_append, List.length_singleton] at hbound
        simp only [MERGE_FAN_IN] at hbound hlength ⊢
        omega
    · have hend : runs.drop start = [] := List.drop_eq_nil_of_le (by omega)
      refine ⟨merged, trace, by simp, hmerged, h.stored, by simp [hend], ?_⟩
      simp only [MERGE_FAN_IN]
      omega

/-- The passes end with at most one run, which holds every record. -/
theorem returns_mergePasses {passes : ℕ} {runs : List (List Record)}
    (hruns : ∀ run ∈ runs, SortedRun run) (h : Stored trace pass runs)
    (hpasses : runs.length ≤ passes + 1) :
    ∃ pass' last trace', (mergePasses passes pass runs.length).Returns
        trace (pass', last.length) trace' ∧
      last.length ≤ 1 ∧ (∀ run ∈ last, SortedRun run) ∧ Stored trace' pass' last ∧
      last.flatten.Perm runs.flatten := by
  induction passes generalizing pass trace runs with
  | zero =>
    refine ⟨pass, runs, trace, ?_, hpasses, hruns, h, List.Perm.refl _⟩
    rw [mergePasses, if_neg (by omega)]
    simp
  | succ passes ih =>
    rw [mergePasses]
    split_ifs with hlt
    · have hnone : Stored trace (pass + 1) [] :=
        ⟨fun run ↦ h.later _ run (by omega), fun pass' run hpass ↦ h.later pass' run (by omega)⟩
      have hpassing : Passing trace pass 0 runs [] := ⟨fun run _ ↦ h.file run, hnone⟩
      rcases returns_mergeRuns hruns (by simp) hpassing with
        ⟨next, trace', hnext, hsorted, hstored, hperm, hbound⟩
      have hfewer : next.length ≤ passes + 1 := by
        simp only [MERGE_FAN_IN, List.length_nil] at hbound
        omega
      rcases ih hsorted hstored hfewer with
        ⟨pass', last, trace'', hlast, hone, hsorted', hstored', hperm'⟩
      refine ⟨pass', last, trace'', ?_, hone, hsorted', hstored',
        hperm'.trans (by simpa using hperm)⟩
      simp only [Script.returns_bind]
      exact ⟨next.length, trace', hnext, hlast⟩
    · exact ⟨pass, runs, trace, by simp, by omega, hruns, h, List.Perm.refl _⟩

/-! ## Taking events -/

/-- The record of the event with the given ordinal. -/
def recordOf (event : Float × Value) (ordinal : ℕ) : Record :=
  ⟨event.1, UInt64.ofNat ordinal, utf8 event.2.print⟩

/-- The records of events taken in this order. -/
def numbered (taken : List (Float × Value)) : List Record :=
  taken.zipIdx.map fun event ↦ recordOf event.1 event.2

theorem numbered_append (taken : List (Float × Value)) (event : Float × Value) :
    numbered (taken ++ [event]) = numbered taken ++ [recordOf event taken.length] := by
  simp [numbered, List.zipIdx_append]

/-- The runs and the chunk hold a record of every event taken. -/
structure Spooled (trace : SortedTrace) (taken : List (Float × Value)) : Prop where
  runs : ∃ runs : List (List Record), trace.runs = runs.length ∧ Stored trace 0 runs ∧
    (∀ run ∈ runs, SortedRun run) ∧ (runs.flatten ++ trace.chunk).Perm (numbered taken)
  count : trace.count.toNat = taken.length
  sound : ∀ record ∈ numbered taken, record.Sound

theorem Stored.congr {trace' : SortedTrace} {runs : List (List Record)}
    (h : Stored trace pass runs) (heq : trace'.directory = trace.directory) :
    Stored trace' pass runs :=
  ⟨fun run ↦ by rw [heq, h.file], fun pass' run hlt ↦ by rw [heq, h.later pass' run hlt]⟩

theorem spooled_initial : Spooled .initial [] where
  runs := ⟨[], rfl, ⟨fun _ ↦ rfl, fun _ _ _ ↦ rfl⟩, by simp, List.Perm.refl _⟩
  count := rfl
  sound := by simp [numbered]

/-- The chunk becomes a run. -/
theorem Spooled.returns_flushRun {taken : List (Float × Value)} (h : Spooled trace taken) :
    ∃ trace', flushRun.Returns trace () trace' ∧ Spooled trace' taken ∧ trace'.chunk = [] := by
  rcases h.runs with ⟨runs, hlength, hstored, hsorted, hperm⟩
  simp only [flushRun, writeRun, Script.returns_bind, Script.returns_read, Script.returns_ite,
    Script.returns_modify, Script.returns_pure, true_and]
  by_cases hempty : trace.chunk = []
  · exact ⟨trace, ⟨trace, trace, ⟨rfl, rfl⟩, .inl (by simp [hempty])⟩, h, hempty⟩
  · let chunk := StableSort.sortOn rank trace.chunk
    have hmem : chunk.Perm trace.chunk := StableSort.perm_sortOn rank trace.chunk
    have hordered : chunk.Pairwise fun a b ↦ rank a ≤ rank b :=
      StableSort.pairwise_le_sortOn rank trace.chunk
    have hsound : ∀ record ∈ chunk, record.Sound := fun record hrecord ↦
      h.sound record (hperm.mem_iff.mp (List.mem_append_right _ (hmem.mem_iff.mp hrecord)))
    have hfree : trace.directory 0 runs.length = none := by
      rw [hstored.file, List.getElem?_eq_none le_rfl]
      rfl
    have hcreate : (createRun 0 trace.runs).Returns { trace with chunk := chunk } () _ :=
      returns_createRun (by rw [hlength]; exact hfree)
    refine ⟨_, ⟨trace, trace, ⟨rfl, rfl⟩, .inr ⟨by simpa using hempty, (), _, rfl, (), _, hcreate,
      (), _, rfl, rfl⟩⟩, ?_, rfl⟩
    rw [setFile_setFile, hlength]
    refine ⟨⟨runs ++ [chunk], ?_, (hstored.append chunk).congr rfl, ?_, ?_⟩, h.count, h.sound⟩
    · simp [setFile]
    · exact List.forall_mem_append.mpr ⟨hsorted, List.forall_mem_singleton.mpr ⟨hsound, hordered⟩⟩
    · simpa using (hmem.append_left runs.flatten).trans hperm

theorem Spooled.returns_flushWhen {taken : List (Float × Value)} (h : Spooled trace taken)
    (full : SortedTrace → Bool) :
    ∃ trace', (flushWhen full).Returns trace () trace' ∧ Spooled trace' taken := by
  rcases h.returns_flushRun with ⟨trace', hflush, hspooled, _⟩
  simp only [flushWhen, Script.returns_bind, Script.returns_read, Script.returns_ite,
    Script.returns_pure]
  cases hfull : full trace with
  | false => exact ⟨trace, ⟨false, trace, ⟨rfl, rfl⟩, .inr (by simp)⟩, h⟩
  | true => exact ⟨trace', ⟨true, trace, ⟨rfl, rfl⟩, .inl ⟨rfl, hflush⟩⟩, hspooled⟩

/-- What `push` accepts before it counts the event. -/
def Admissible (event : Float × Value) : Prop :=
  (utf8 event.2.print).length ≤ PAGE_BYTES ∧ event.1.isFinite = true

instance (event : Float × Value) : Decidable (Admissible event) :=
  inferInstanceAs (Decidable (_ ∧ _))

/-- An accepted event gets the next ordinal. -/
theorem Spooled.take {taken : List (Float × Value)} (h : Spooled trace taken) {event : Float × Value}
    (hevent : Admissible event) (hcount : taken.length + 1 < 2 ^ 64) (bytes : ℕ) :
    Spooled { trace with
      count := trace.count + 1
      chunk := trace.chunk ++ [⟨event.1, trace.count, utf8 event.2.print⟩]
      chunkBytes := bytes } (taken ++ [event]) := by
  have hordinal : trace.count = UInt64.ofNat taken.length := by
    rw [← h.count, UInt64.ofNat_toNat]
  rcases h.runs with ⟨runs, hlength, hstored, hsorted, hperm⟩
  constructor
  · refine ⟨runs, hlength, hstored.congr rfl, hsorted, ?_⟩
    rw [numbered_append, ← List.append_assoc, hordinal]
    exact hperm.append_right _
  · rw [UInt64.toNat_add, h.count, List.length_append]
    exact Nat.mod_eq_of_lt hcount
  · rw [numbered_append]
    exact List.forall_mem_append.mpr ⟨h.sound,
      List.forall_mem_singleton.mpr ⟨hevent.2, hevent.1⟩⟩

theorem Spooled.returns_push {taken : List (Float × Value)} (h : Spooled trace taken)
    {event : Float × Value} (hevent : Admissible event) (hcount : taken.length + 1 < 2 ^ 64) :
    ∃ trace', (push event.1 event.2).Returns trace () trace' ∧ Spooled trace' (taken ++ [event]) := by
  have hchecked : ¬ (PAGE_BYTES < (utf8 event.2.print).length ∨ event.1.isFinite = false) := by
    simp [hevent.1, hevent.2]
  rcases h.returns_flushWhen fun trace ↦
      CHUNK_BYTES < trace.chunkBytes + ((utf8 event.2.print).length + RECORD_BYTES) &&
        !trace.chunk.isEmpty with ⟨trace', hflush, hspooled⟩
  have hcounted : ¬ trace'.count.toNat + 1 = 2 ^ 64 := by
    rw [hspooled.count]
    omega
  have htake := hspooled.take hevent hcount
    (trace'.chunkBytes + ((utf8 event.2.print).length + RECORD_BYTES))
  rcases htake.returns_flushWhen fun trace ↦ CHUNK_BYTES ≤ trace.chunkBytes with
    ⟨trace'', hflush', hspooled'⟩
  refine ⟨trace'', ?_, hspooled'⟩
  simp only [push, Script.returns_bind, Script.returns_check, Script.returns_read,
    Script.returns_modify, reject_ok]
  exact ⟨(), trace, ⟨hchecked, rfl⟩, (), trace', hflush, _, _, ⟨rfl, rfl⟩, (), _, ⟨hcounted, rfl⟩,
    (), _, rfl, hflush'⟩

theorem bind_of_returns {α β : Type} {script : Call α} {next : α → Call β} {trace' : SortedTrace}
    {value : α} (h : script.Returns trace value trace') :
    (script >>= next) trace = next value trace' := by
  simp only [bind]
  rw [h]

theorem bind_check_error {α β : Type} {reason : TraceError} {next : α → Call β} :
    (Script.check (.error reason) >>= next) trace = (.error reason, trace) := rfl

/-- A refused event leaves the records as they are. -/
theorem Spooled.push_error {taken : List (Float × Value)} (h : Spooled trace taken)
    {event : Float × Value} (hevent : ¬ (Admissible event ∧ taken.length + 1 < 2 ^ 64)) :
    ∃ reason trace', push event.1 event.2 trace = (.error reason, trace') ∧
      Spooled trace' taken := by
  simp only [push]
  by_cases hadmissible : Admissible event
  · have hchecked : ¬ (PAGE_BYTES < (utf8 event.2.print).length ∨ event.1.isFinite = false) := by
      simp [hadmissible.1, hadmissible.2]
    rcases h.returns_flushWhen fun trace ↦
        CHUNK_BYTES < trace.chunkBytes + ((utf8 event.2.print).length + RECORD_BYTES) &&
          !trace.chunk.isEmpty with ⟨trace', hflush, hspooled⟩
    have hlast : trace'.count.toNat + 1 = 2 ^ 64 := by
      have hlt := trace'.count.toNat_lt
      rw [hspooled.count] at hlt ⊢
      have hfull : ¬ taken.length + 1 < 2 ^ 64 := fun hlt ↦ hevent ⟨hadmissible, hlt⟩
      omega
    have hcheck : (Script.check (reject (PAGE_BYTES < (utf8 event.2.print).length ∨
        event.1.isFinite = false) (.message
          "trace event exceeds its byte limit or has an invalid timestamp")) : Call Unit).Returns
        trace () trace := Script.returns_check.mpr ⟨reject_ok.mpr hchecked, rfl⟩
    refine ⟨.message "trace event count overflow", trace', ?_, hspooled⟩
    rw [bind_of_returns hcheck, bind_of_returns hflush,
      bind_of_returns (Script.returns_read.mpr ⟨rfl, rfl⟩), reject, if_pos hlast, bind_check_error]
  · have hchecked : PAGE_BYTES < (utf8 event.2.print).length ∨ event.1.isFinite = false := by
      by_contra hnot
      simp only [not_or, not_lt, Bool.not_eq_false] at hnot
      exact hadmissible hnot
    exact ⟨_, trace, by rw [reject, if_pos hchecked, bind_check_error], h⟩

/-! ## The document -/

theorem utf8_append (text text' : List Char) : utf8 (text ++ text') = utf8 text ++ utf8 text' :=
  List.flatMap_append

/-- Ordinals are places, so records of one rank are one record. -/
theorem numbered_ordinals {taken : List (Float × Value)} (hcount : taken.length < 2 ^ 64) :
    (numbered taken).Pairwise fun a b ↦ a.ordinal.toNat < b.ordinal.toNat := by
  have hplaces : taken.zipIdx.Pairwise fun a b ↦ a.2 < b.2 := by
    rw [← List.pairwise_map, List.zipIdx_map_snd]
    exact List.pairwise_lt_range'
  have hfits (event : (Float × Value) × ℕ) (hevent : event ∈ taken.zipIdx) :
      (UInt64.ofNat event.2).toNat = event.2 := by
    have hlt := List.snd_lt_of_mem_zipIdx hevent
    rw [UInt64.toNat_ofNat', Nat.mod_eq_of_lt (by omega)]
  refine List.pairwise_map.mpr (hplaces.imp_of_mem fun {a b} ha hb hlt ↦ ?_)
  simp only [recordOf]
  rwa [hfits a ha, hfits b hb]

theorem rank_le {a b : Record} (h : Double.totalKey a.timestamp < Double.totalKey b.timestamp ∨
    Double.totalKey a.timestamp = Double.totalKey b.timestamp ∧ a.ordinal.toNat < b.ordinal.toNat) :
    rank a ≤ rank b := by
  simp only [rank, Prod.Lex.toLex_le_toLex]
  exact Or.imp_right (And.imp_right Nat.le_of_lt) h

/-- The sorted arrangement of the records is the stable sort of the events. -/
theorem eq_sortOn {taken : List (Float × Value)} (hcount : taken.length < 2 ^ 64)
    {merged : List Record} (hperm : merged.Perm (numbered taken))
    (hordered : merged.Pairwise fun a b ↦ rank a ≤ rank b) :
    merged = StableSort.sortOn (fun record ↦ Double.totalKey record.timestamp) (numbered taken) := by
  have hordinals := numbered_ordinals hcount
  have hsorted := StableSort.pairwise_sortOn (fun record ↦ Double.totalKey record.timestamp) hordinals
  have hsame := StableSort.perm_sortOn (fun record ↦ Double.totalKey record.timestamp) (numbered taken)
  refine List.Perm.eq_of_pairwise ?_ hordered (hsorted.imp fun {a b} hab ↦ ?_)
    (hperm.trans hsame.symm)
  · intro a b ha hb hab hba
    have hrank : (Double.totalKey a.timestamp, a.ordinal.toNat) =
        (Double.totalKey b.timestamp, b.ordinal.toNat) := toLex.injective (le_antisymm hab hba)
    have hdistinct : ((numbered taken).map fun record ↦ record.ordinal.toNat).Nodup :=
      List.pairwise_map.mpr (hordinals.imp ne_of_lt)
    exact List.inj_on_of_nodup_map hdistinct (hperm.mem_iff.mp ha) (hsame.mem_iff.mp hb)
      (Prod.mk.inj hrank).2
  · exact rank_le hab

/-- `commaSeparated` puts a comma before every text but the first. -/
theorem commaSeparated_cons (text : List Char) (rest : List (List Char)) :
    Printer.commaSeparated (text :: rest) = text ++ rest.flatMap fun text ↦ ',' :: text := by
  induction rest generalizing text with
  | nil => simp [Printer.commaSeparated]
  | cons next rest ih => rw [Printer.commaSeparated, ih, List.flatMap_cons, List.cons_append]

theorem eventBytes_false {events : List Record} {texts : List (List Char)}
    (h : events.map payload = texts.map utf8) :
    eventBytes false events = utf8 (texts.flatMap fun text ↦ ',' :: text) := by
  induction texts generalizing events with
  | nil =>
    rw [List.map_nil, List.map_eq_nil_iff] at h
    rw [h]
    rfl
  | cons text texts ih =>
    rcases List.map_eq_cons_iff.mp h with ⟨record, rest, rfl, hpayload, hrest⟩
    rw [eventBytes, ih hrest, hpayload, List.flatMap_cons, utf8_append]
    simp [utf8]

theorem eventBytes_true {events : List Record} {texts : List (List Char)}
    (h : events.map payload = texts.map utf8) :
    eventBytes true events = utf8 (Printer.commaSeparated texts) := by
  cases texts with
  | nil =>
    rw [List.map_nil, List.map_eq_nil_iff] at h
    rw [h]
    rfl
  | cons text texts =>
    rcases List.map_eq_cons_iff.mp h with ⟨record, rest, rfl, hpayload, hrest⟩
    rw [eventBytes, eventBytes_false hrest, hpayload, commaSeparated_cons, utf8_append]
    simp

/-- The exported document of some events. -/
def document (events : List Value) : Value :=
  .object [("traceEvents", .array events), ("displayTimeUnit", .string "ms")]

theorem utf8_document (events : List Value) :
    utf8 "\x7b\"traceEvents\":[".toList ++ utf8 (Printer.commaSeparated (events.map Value.print)) ++
      utf8 "],\"displayTimeUnit\":\"ms\"\x7d".toList = utf8 (document events).print := by
  have hprint : (document events).print = "\x7b\"traceEvents\":[".toList ++
      Printer.commaSeparated (events.map Value.print) ++
        "],\"displayTimeUnit\":\"ms\"\x7d".toList := by
    simp only [document, Value.print, Value.printEntries, Value.printItems_eq, printObject,
      printArray, Printer.commaSeparated, member]
    have hopen : "\x7b\"traceEvents\":[".toList = '\x7b' :: (quote "traceEvents" ++ [':', '[']) := by
      decide
    have hclose : "],\"displayTimeUnit\":\"ms\"\x7d".toList =
        ']' :: ',' :: (quote "displayTimeUnit" ++ ':' :: (quote "ms" ++ ['\x7d'])) := by decide
    rw [hopen, hclose]
    simp
  rw [hprint, utf8_append, utf8_append]

/-- The events numbered as they came, in the order of their timestamps and, where these are equal,
of their numbers. -/
structure StablySorted (taken : List (Float × Value)) (sorted : List ((Float × Value) × ℕ)) :
    Prop where
  perm : sorted.Perm taken.zipIdx
  ordered : sorted.Pairwise fun a b ↦ Double.totalKey a.1.1 < Double.totalKey b.1.1 ∨
    Double.totalKey a.1.1 = Double.totalKey b.1.1 ∧ a.2 < b.2

/-- The sorted records are the records of the stably sorted events. -/
theorem stablySorted_of_perm {taken : List (Float × Value)} (hcount : taken.length < 2 ^ 64)
    {merged : List Record} (hperm : merged.Perm (numbered taken))
    (hordered : merged.Pairwise fun a b ↦ rank a ≤ rank b) :
    ∃ sorted, StablySorted taken sorted ∧
      merged = sorted.map fun event ↦ recordOf event.1 event.2 := by
  have hplaces : taken.zipIdx.Pairwise fun a b ↦ a.2 < b.2 := by
    rw [← List.pairwise_map, List.zipIdx_map_snd]
    exact List.pairwise_lt_range'
  refine ⟨StableSort.sortOn (fun event ↦ Double.totalKey event.1.1) taken.zipIdx,
    ⟨StableSort.perm_sortOn _ _, StableSort.pairwise_sortOn _ hplaces⟩, ?_⟩
  rw [eq_sortOn hcount hperm hordered, numbered]
  exact (StableSort.map_sortOn _ fun _ _ ↦ rfl).symm

theorem returns_lastRecords {last : List (List Record)} (hlast : ∀ run ∈ last, SortedRun run)
    (h : Stored trace pass last) (hone : last.length ≤ 1) :
    (lastRecords pass last.length).Returns trace last.flatten trace ∧
      last.flatten.Pairwise fun a b ↦ rank a ≤ rank b := by
  cases last with
  | nil => exact ⟨by simp [lastRecords], by simp⟩
  | cons run rest =>
    have hrest : rest = [] := List.eq_nil_of_length_eq_zero (by simpa using hone)
    rw [hrest] at hlast h ⊢
    have hrun := List.forall_mem_singleton.mp hlast
    have hall := (holds_write hrun.sound).all_eq
    refine ⟨?_, by simpa using hrun.ordered⟩
    rw [lastRecords, if_pos (by simp)]
    simp only [Script.returns_bind, Script.returns_check, List.flatten_cons, List.flatten_nil,
      List.append_nil]
    exact ⟨_, trace, returns_openRun (h.file 0), hall, rfl⟩

/-- `write_trace` writes the document of the stably sorted events. -/
theorem Spooled.returns_writeTrace {taken : List (Float × Value)} (h : Spooled trace taken) :
    ∃ sorted trace', StablySorted taken sorted ∧
      writeTrace.Returns trace
        (utf8 (document (sorted.map fun event ↦ event.1.2)).print) trace' := by
  rcases h.returns_flushRun with ⟨trace', hflush, hspooled, hchunk⟩
  rcases hspooled.runs with ⟨runs, hlength, hstored, hsorted, hperm⟩
  rw [hchunk, List.append_nil] at hperm
  rcases returns_mergePasses hsorted hstored (Nat.le_succ runs.length) with
    ⟨pass', last, trace'', hpasses, hone, hlast, hstored', hperm'⟩
  have hcount : taken.length < 2 ^ 64 := hspooled.count ▸ trace'.count.toNat_lt
  rcases returns_lastRecords hlast hstored' hone with ⟨hread, hordered⟩
  rcases stablySorted_of_perm hcount (hperm'.trans hperm) hordered with ⟨sorted, hstable, hmerged⟩
  have hbytes : eventBytes true last.flatten =
      utf8 (Printer.commaSeparated (sorted.map fun event ↦ event.1.2.print)) :=
    eventBytes_true (by rw [hmerged]; simp [recordOf])
  refine ⟨sorted, trace'', hstable, ?_⟩
  simp only [writeTrace, Script.returns_bind, Script.returns_read, Script.returns_pure]
  refine ⟨(), trace', hflush, _, _, ⟨rfl, rfl⟩, (pass', last.length), trace'', ?_, _, _, hread,
    ?_, rfl⟩
  · rw [hlength]
    exact hpasses
  · rw [hbytes, ← utf8_document, List.map_map]
    rfl

end SortedTrace

/-! ## Runs of the writer -/

namespace Export

open SortedTrace

/-- The first events that the writer can number. -/
def accepted (calls : List TraceCall) : List (Float × Value) :=
  ((calls.flatMap TraceCall.pushed).filter fun event ↦ Admissible event).take (2 ^ 64 - 1)

theorem take_concat {α : Type} (list : List α) (item : α) (count : ℕ) :
    (list ++ [item]).take count =
      if (list.take count).length < count then list.take count ++ [item] else list.take count := by
  rw [List.length_take]
  split_ifs with h
  · rw [List.take_of_length_le (by simp; omega), List.take_of_length_le (by omega)]
  · exact List.take_append_of_le_length (by omega)

theorem accepted_concat (calls : List TraceCall) (event : Float × Value) :
    accepted (calls ++ [.push event.1 event.2]) =
      if Admissible event ∧ (accepted calls).length + 1 < 2 ^ 64 then accepted calls ++ [event]
      else accepted calls := by
  have hpushed : accepted (calls ++ [.push event.1 event.2]) =
      ((calls.flatMap TraceCall.pushed).filter (fun event ↦ Admissible event) ++
        [event].filter fun event ↦ Admissible event).take (2 ^ 64 - 1) := by
    rw [accepted, List.flatMap_append, List.filter_append, List.flatMap_singleton]
    rfl
  rw [hpushed]
  by_cases h : Admissible event
  · rw [List.filter_cons_of_pos (by simpa using h), List.filter_nil, take_concat]
    refine if_congr ?_ rfl rfl
    simp only [h, true_and, accepted]
    omega
  · rw [List.filter_cons_of_neg (by simpa using h), List.filter_nil, List.append_nil,
      if_neg fun hand ↦ h hand.1]
    rfl

theorem run_concat (calls : List TraceCall) (call : TraceCall) :
    run (calls ++ [call]) = (run calls).after call := by
  rw [run, List.foldl_append]
  rfl

/-- After any calls the writer holds the records of exactly the accepted events. -/
theorem spooled_run (calls : List TraceCall) :
    Spooled (run calls).trace (run calls).taken ∧ (run calls).taken = accepted calls := by
  induction calls using List.reverseRecOn with
  | nil => exact ⟨spooled_initial, rfl⟩
  | append_singleton calls call ih =>
    rw [run_concat]
    cases call with
    | push timestamp event =>
      have haccepted := accepted_concat calls (timestamp, event)
      rw [← ih.2] at haccepted
      by_cases h : Admissible (timestamp, event) ∧ (run calls).taken.length + 1 < 2 ^ 64
      · rcases ih.1.returns_push h.1 h.2 with ⟨trace', hpush, hspooled⟩
        have hafter : (run calls).after (.push timestamp event) =
            ⟨trace', (run calls).taken ++ [(timestamp, event)]⟩ := by
          simp only [after, TraceCall.script]
          rw [hpush]
          rfl
        rw [haccepted, if_pos h, hafter]
        exact ⟨hspooled, rfl⟩
      · rcases ih.1.push_error h with ⟨reason, trace', hpush, hspooled⟩
        have hafter : (run calls).after (.push timestamp event) =
            ⟨trace', (run calls).taken⟩ := by
          simp only [after, TraceCall.script]
          rw [hpush]
        rw [haccepted, if_neg h, hafter]
        exact ⟨hspooled, rfl⟩
    | flushRun =>
      rcases ih.1.returns_flushRun with ⟨trace', hflush, hspooled, _⟩
      have hafter : (run calls).after .flushRun = ⟨trace', (run calls).taken⟩ := by
        simp only [after, TraceCall.script, TraceCall.pushed, List.append_nil]
        rw [hflush]
      have haccepted : accepted (calls ++ [.flushRun]) = accepted calls := by
        simp [accepted, TraceCall.pushed]
      rw [haccepted, hafter]
      exact ⟨hspooled, ih.2⟩

/-- Whatever is pushed, and whenever the chunk is flushed: the writer takes exactly the accepted
events, its output is the document of their stable sort by timestamp, and every record it writes is
read back unchanged. -/
theorem trace_stably_sorted (calls : List TraceCall) :
    (run calls).taken = accepted calls ∧
    (∃ sorted trace, StablySorted (accepted calls) sorted ∧
      writeTrace.Returns (run calls).trace
        (utf8 (document (sorted.map fun event ↦ event.1.2)).print) trace) ∧
    ∀ record : Record, record.Sound → ∀ rest,
      Record.read (record.write ++ rest) = .ok (some (record, rest)) := by
  have hrun := spooled_run calls
  rw [hrun.2] at hrun
  exact ⟨(spooled_run calls).2, hrun.1.returns_writeTrace, fun record h rest ↦ Record.read_write h rest⟩

end Export

end Rvx.Cli
