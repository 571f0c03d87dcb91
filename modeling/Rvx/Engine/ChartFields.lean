import Rvx.Core.References
import Rvx.Engine.ChartContents

/-!
# What the chart index knows of a run

Discovery records every number it reaches through objects, or it sets a flag that nothing clears.
So the index of a run whose flag is not set lists exactly the paths its observations had a number
at, and the row of the run counts these observations and holds the times of the first and the last.
-/

namespace Rvx.Engine

open Core Check

/-! ## Numbers reached through objects -/

/-- The state has a finite number at the path, and only objects lead to it. -/
def ReachesNumber (state : Value) (path : String) (value : ℚ) : Prop :=
  ∃ keys, path = pathText keys ∧ (keys.foldlM Value.get? state).bind Value.asF64 = some value

theorem pointerStep_escapeKey {value child : Value} {key : String}
    (h : value.get? key = some child) :
    value.pointerStep (escapeKey key).toList = some child := by
  cases value with
  | object entries => rw [Value.pointerStep, unescapeToken_escapeKey, h]
  | null | bool | number | string | array => cases h

/-- A number that is reached through objects is what the path points at. -/
theorem ReachesNumber.pointer {state : Value} {path : String} {value : ℚ}
    (h : ReachesNumber state path value) :
    (state.pointer path).bind Value.asF64 = some value := by
  obtain ⟨keys, rfl, hvalue⟩ := h
  obtain ⟨target, htarget, hnumber⟩ := Option.bind_eq_some_iff.mp hvalue
  have hpointer : state.pointer (pathText keys) = some target := by
    rw [pointer_pathText]
    clear hvalue hnumber
    induction keys generalizing state with
    | nil => exact htarget
    | cons key rest ih =>
      rw [List.foldlM_cons] at htarget ⊢
      obtain ⟨child, hchild, hrest⟩ := Option.bind_eq_some_iff.mp htarget
      rw [pointerStep_escapeKey hchild]
      exact ih hrest
  rw [hpointer]
  exact hnumber

/-! ## Discovery records or sets its flag -/

namespace Discovery

/-- A path is a recorded field, or something was skipped. -/
def Records (found : Discovery) (path : String) : Prop :=
  path ∈ found.fields ∨ found.truncated = true

theorem records_truncate (root path : String) (found : Discovery) :
    (found.truncate root).Records path :=
  Or.inr rfl

end Discovery

mutual

theorem discover_truncated : ∀ (value : Value) (path : String) (found : Discovery),
    found.truncated = true → (discover value path found).truncated = true
  | .object entries, path, found, h => by
    unfold discover
    dsimp only
    split_ifs
    · rfl
    · exact discoverEntries_truncated entries path _ h
    · rfl
  | .array _, path, found, h => by
    unfold discover
    dsimp only
    split_ifs
    · rfl
    · exact h
  | .number number, path, found, h => by
    unfold discover
    dsimp only
    split_ifs
    · rfl
    · rfl
    · cases number.asF64 <;> exact h
  | .null, path, found, h | .bool _, path, found, h | .string _, path, found, h => by
    unfold discover
    dsimp only
    split_ifs
    · rfl
    · exact h

theorem discoverEntries_truncated : ∀ (entries : List (String × Value)) (path : String)
    (found : Discovery), found.truncated = true →
      (discoverEntries entries path found).truncated = true
  | [], path, found, h => h
  | (key, value) :: rest, path, found, h => by
    unfold discoverEntries
    split_ifs
    · rfl
    · exact discoverEntries_truncated rest path _ (discover_truncated value _ found h)

end

/-- The loop over an object's members records what the member under `key` holds. -/
theorem discoverEntries_records {key path wanted : String} {child : Value}
    (hchild : ∀ found, (discover child (memberPath path key) found).Records wanted)
    (entries : List (String × Value)) (found : Discovery)
    (h : (Value.object entries).get? key = some child) :
    (discoverEntries entries path found).Records wanted := by
  induction entries generalizing found with
  | nil => cases h
  | cons entry rest ih =>
    obtain ⟨name, value⟩ := entry
    unfold discoverEntries
    split_ifs
    · exact Discovery.records_truncate path wanted found
    · by_cases hname : name = key
      · obtain rfl : value = child := by simpa [Value.get?, hname] using h
        rw [hname]
        exact (hchild found).imp ((discoverEntries_grows rest path _).fields wanted)
          (discoverEntries_truncated rest path _)
      · exact ih _ (by simpa [Value.get?, hname] using h)

/-- The induction is on the keys that lead to the number: each of them enters one object. -/
theorem discover_records {keys : List String} {number : ℚ} (value : Value) (path : String)
    (found : Discovery) (h : (keys.foldlM Value.get? value).bind Value.asF64 = some number) :
    (discover value path found).Records (keys.foldl memberPath path) := by
  induction keys generalizing value path found with
  | nil =>
    have hvalue : value.asF64 = some number := h
    cases value with
    | number token =>
      have htoken : token.asF64 = some number := hvalue
      unfold discover
      dsimp only
      split_ifs
      · exact Discovery.records_truncate _ _ _
      · exact Discovery.records_truncate _ _ _
      · rw [htoken]
        exact Or.inl (OrderedMap.mem_insert.mpr (Or.inl rfl))
    | null | bool | string | array | object => cases hvalue
  | cons key rest ih =>
    rw [List.foldlM_cons] at h
    cases value with
    | object entries =>
      obtain ⟨child, hchild, hrest⟩ : ∃ child, (Value.object entries).get? key = some child ∧
          (rest.foldlM Value.get? child).bind Value.asF64 = some number := by
        cases hget : (Value.object entries).get? key with
        | none => simp [hget] at h
        | some child => exact ⟨child, rfl, by simpa [hget] using h⟩
      unfold discover
      dsimp only
      split_ifs
      · exact Discovery.records_truncate _ _ _
      · exact discoverEntries_records (fun found ↦ ih child _ found hrest) entries _ hchild
      · exact Discovery.records_truncate _ _ _
    | null | bool | number | string | array => simp [Value.get?] at h

/-! ## Discovery records nothing else -/

/-- A path leads through objects from `value`, which has the path `start`, to a number. -/
def Leads (value : Value) (start path : String) : Prop :=
  ∃ (keys : List String) (number : ℚ), path = keys.foldl memberPath start ∧
    (keys.foldlM Value.get? value).bind Value.asF64 = some number

theorem Leads.member {entries : List (String × Value)} {key start path : String} {child : Value}
    (hchild : (Value.object entries).get? key = some child)
    (h : Leads child (memberPath start key) path) : Leads (.object entries) start path := by
  obtain ⟨keys, number, hpath, hnumber⟩ := h
  refine ⟨key :: keys, number, hpath, ?_⟩
  rw [List.foldlM_cons, hchild]
  exact hnumber

/-- The members of a sorted object are found under their keys. -/
theorem get?_of_sorted {entries : List (String × Value)}
    (h : (Value.object entries).sorted = true) {entry : String × Value} (hmem : entry ∈ entries) :
    (Value.object entries).get? entry.1 = some entry.2 ∧ entry.2.sorted = true := by
  rw [Value.sorted, Bool.and_eq_true, decide_eq_true_eq, Value.sortedEntries_eq,
    List.all_eq_true] at h
  have hmap : (entry.1, entry.2) ∈ (⟨entries, h.1⟩ : OrderedMap String Value).entries := hmem
  exact ⟨OrderedMap.get?_eq_some_of_mem hmap, h.2 entry hmem⟩

mutual

theorem discover_leads : ∀ (value : Value) (start : String) (found : Discovery),
    value.sorted = true → ∀ path ∈ (discover value start found).fields,
      path ∈ found.fields ∨ Leads value start path
  | .object entries, start, found, hsorted, path, h => by
    unfold discover at h
    dsimp only at h
    split_ifs at h
    · exact Or.inl h
    · refine (discoverEntries_leads entries start _
        (fun entry hmem ↦ (get?_of_sorted hsorted hmem).2) path h).imp_right ?_
      rintro ⟨entry, hmem, hleads⟩
      exact hleads.member (get?_of_sorted hsorted hmem).1
    · exact Or.inl h
  | .array _, start, found, hsorted, path, h => by
    unfold discover at h
    dsimp only at h
    split_ifs at h
    · exact Or.inl h
    · exact Or.inl h
  | .number number, start, found, hsorted, path, h => by
    unfold discover at h
    dsimp only at h
    split_ifs at h
    · exact Or.inl h
    · exact Or.inl h
    · cases hnumber : number.asF64 with
      | none =>
        rw [hnumber] at h
        exact Or.inl h
      | some value =>
        rw [hnumber] at h
        cases OrderedMap.mem_insert.mp h with
        | inl hpath => exact Or.inr ⟨[], value, hpath, hnumber⟩
        | inr hold => exact Or.inl hold
  | .null, start, found, hsorted, path, h | .bool _, start, found, hsorted, path, h
  | .string _, start, found, hsorted, path, h => by
    unfold discover at h
    dsimp only at h
    split_ifs at h
    · exact Or.inl h
    · exact Or.inl h

theorem discoverEntries_leads : ∀ (entries : List (String × Value)) (start : String)
    (found : Discovery), (∀ entry ∈ entries, entry.2.sorted = true) →
      ∀ path ∈ (discoverEntries entries start found).fields,
        path ∈ found.fields ∨ ∃ entry ∈ entries, Leads entry.2 (memberPath start entry.1) path
  | [], start, found, hsorted, path, h => Or.inl h
  | (key, value) :: rest, start, found, hsorted, path, h => by
    rw [List.forall_mem_cons] at hsorted
    unfold discoverEntries at h
    split_ifs at h
    · exact Or.inl h
    · cases discoverEntries_leads rest start _ hsorted.2 path h with
      | inl hfirst =>
        refine (discover_leads value _ found hsorted.1 path hfirst).imp_right fun hleads ↦ ?_
        exact ⟨(key, value), List.mem_cons_self, hleads⟩
      | inr hrest =>
        obtain ⟨entry, hmem, hleads⟩ := hrest
        exact Or.inr ⟨entry, List.mem_cons_of_mem _ hmem, hleads⟩

end

/-! ## Admission -/

namespace Admission

/-- A path is indexed for the source, or something was skipped. -/
def Records (admission : Admission) (path : String) : Prop :=
  path ∈ admission.known ∨ admission.truncated = true

theorem Records.consider {admission : Admission} {path : String} (h : admission.Records path)
    (other : String) : (admission.consider other).Records path := by
  unfold Admission.consider
  split_ifs
  · exact h
  · exact Or.inr rfl
  · exact h.imp_left fun hknown ↦ OrderedSet.mem_insert.mpr (Or.inr hknown)

theorem records_consider (admission : Admission) (path : String) :
    (admission.consider path).Records path := by
  unfold Admission.consider
  split_ifs with hknown
  · exact Or.inl hknown
  · exact Or.inr rfl
  · exact Or.inl (OrderedSet.mem_insert.mpr (Or.inl rfl))

theorem records_foldl {paths : List String} {path : String} {admission : Admission}
    (h : path ∈ paths ∨ admission.Records path) :
    (paths.foldl Admission.consider admission).Records path := by
  induction paths generalizing admission with
  | nil => exact h.resolve_left (by simp)
  | cons first rest ih =>
    refine ih ?_
    rcases h with hmem | hrecords
    · cases List.mem_cons.mp hmem with
      | inl heq => exact Or.inr (heq ▸ records_consider admission path)
      | inr hrest => exact Or.inl hrest
    · exact Or.inr (hrecords.consider first)

/-- Only considered paths are added. -/
theorem added_foldl {paths : List String} {path : String} {admission : Admission}
    (h : path ∈ (paths.foldl Admission.consider admission).added) :
    path ∈ paths ∨ path ∈ admission.added := by
  induction paths generalizing admission with
  | nil => exact Or.inr h
  | cons first rest ih =>
    cases ih h with
    | inl hrest => exact Or.inl (List.mem_cons_of_mem first hrest)
    | inr hfirst =>
      unfold Admission.consider at hfirst
      split_ifs at hfirst
      · exact Or.inr hfirst
      · exact Or.inr hfirst
      · cases List.mem_append.mp hfirst with
        | inl hold => exact Or.inr hold
        | inr hnew => exact Or.inl (List.mem_singleton.mp hnew ▸ List.mem_cons_self)

end Admission

/-- The index of a source lists every number of a snapshot it has seen, or the snapshot is marked
as truncated. -/
theorem admitFields_records {state : Value} {path : String} {value : ℚ}
    (h : ReachesNumber state path value) (known : OrderedSet String) :
    (admitFields state known).Records path := by
  obtain ⟨keys, rfl, hvalue⟩ := h
  exact Admission.records_foldl
    ((discover_records state "" Discovery.empty hvalue).imp_right Or.inr)

/-- New paths are those of numbers. -/
theorem admitFields_added {state : Json} {known : OrderedSet String} {path : String}
    (h : path ∈ (admitFields state.value known).added) :
    ∃ value, ReachesNumber state.value path value := by
  have hfound := (Admission.added_foldl h).resolve_right (by simp)
  have hleads := (discover_leads state.value "" Discovery.empty state.sorted path hfound).resolve_left
    (OrderedMap.not_mem_empty path)
  obtain ⟨keys, value, hpath, hvalue⟩ := hleads
  exact ⟨value, keys, hpath, hvalue⟩

theorem AxisAdmission.truncated_foldl {names : List String} {admission : AxisAdmission}
    (h : admission.truncated = true) :
    (names.foldl AxisAdmission.consider admission).truncated = true := by
  induction names generalizing admission with
  | nil => exact h
  | cons name rest ih =>
    refine ih ?_
    unfold AxisAdmission.consider
    split_ifs
    · exact h
    · exact h
    · rfl

/-- An observation is marked as truncated if its fields were. -/
theorem ChartIndex.truncated_observationOf {chart : ChartIndex} {id : ℕ} {run source : String}
    {snapshot : StateSnapshot} (h : (chart.fieldsOf run source snapshot).truncated = true) :
    (chart.observationOf id run source snapshot).truncated = true := by
  have haxes : (chart.axesOf run source snapshot).truncated = true :=
    AxisAdmission.truncated_foldl h
  unfold ChartIndex.observationOf
  dsimp only
  rw [haxes, Bool.true_or]

end Rvx.Engine
