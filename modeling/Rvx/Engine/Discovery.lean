import Mathlib.Data.List.TakeWhile
import Rvx.Core.Pointer
import Rvx.Engine.ChartIndex

/-!
# What discovery accounts for

Discovery gives up on arrays, on wide objects, on long paths and whenever a budget is used up.
Whichever of these happens, every number of the tree that a valid pointer selects is recorded as a
field or lies below a path that was recorded as skipped.
-/

namespace Rvx.Engine

open Core Check

/-! ## Subtrees -/

/-- `path` is `root` or the path of something below it. -/
def Below (root path : String) : Prop :=
  path = root ∨ ∃ rest, path.toList = root.toList ++ '/' :: rest

theorem Below.refl (path : String) : Below path path := Or.inl rfl

theorem Below.trans {root middle path : String} (h : Below root middle) (h' : Below middle path) :
    Below root path := by
  rcases h' with rfl | ⟨rest, hpath⟩
  · exact h
  · rcases h with rfl | ⟨start, hmiddle⟩
    · exact Or.inr ⟨rest, hpath⟩
    · refine Or.inr ⟨start ++ '/' :: rest, ?_⟩
      rw [hpath, hmiddle, List.append_assoc, List.cons_append]

/-- A pointer that is empty or starts with a slash lies below the root. -/
theorem below_root {path : String} (h : path = "" ∨ path.toList.head? = some '/') :
    Below "" path := by
  rcases h with rfl | hslash
  · exact Below.refl ""
  · cases hlist : path.toList with
    | nil => simp [hlist] at hslash
    | cons c rest =>
      have hc : c = '/' := by simpa [hlist] using hslash
      exact Or.inr ⟨rest, by rw [hlist, hc]; rfl⟩

/-- A path lies below its parent. -/
theorem below_parentPath {path : String} (h : path = "" ∨ path.toList.head? = some '/') :
    Below (parentPath path) path := by
  rcases h with rfl | hslash
  · exact Or.inl (by decide)
  · have hsplit := List.takeWhile_append_dropWhile (p := fun c ↦ decide (c ≠ '/'))
      (l := path.toList.reverse)
    have hmem : '/' ∈ path.toList.reverse :=
      List.mem_reverse.mpr (List.mem_of_mem_head? hslash)
    cases hdrop : path.toList.reverse.dropWhile (fun c ↦ decide (c ≠ '/')) with
    | nil =>
      have hall := List.dropWhile_eq_nil_iff.mp hdrop '/' hmem
      simp at hall
    | cons c rest =>
      have hc : c = '/' := by
        have hfirst := List.head?_dropWhile_not (fun c ↦ decide (c ≠ '/')) path.toList.reverse
        rw [hdrop] at hfirst
        simpa using hfirst
      refine Or.inr ⟨(path.toList.reverse.takeWhile fun c ↦ decide (c ≠ '/')).reverse, ?_⟩
      have hparent : (parentPath path).toList = rest.reverse := by
        rw [parentPath, String.toList_ofList, hdrop, List.drop_one, List.tail_cons]
      rw [hparent, ← List.reverse_reverse path.toList]
      nth_rewrite 1 [← hsplit]
      rw [hdrop, hc]
      simp

/-- The path that continues with the given tokens. -/
def extendPath (path : String) (tokens : List (List Char)) : String :=
  String.ofList (path.toList ++ tokens.flatMap fun token ↦ '/' :: token)

theorem extendPath_nil (path : String) : extendPath path [] = path := by
  simp [extendPath]

theorem below_extendPath (path : String) (tokens : List (List Char)) :
    Below path (extendPath path tokens) := by
  cases tokens with
  | nil => exact Or.inl (extendPath_nil path)
  | cons token rest =>
    exact Or.inr ⟨token ++ rest.flatMap fun token ↦ '/' :: token, by simp [extendPath]⟩

/-- A valid token continues a path with the member it selects. -/
theorem extendPath_cons {token : List Char} (hslash : '/' ∉ token)
    (hvalid : escapesValid token = true) (path : String) (rest : List (List Char)) :
    extendPath path (token :: rest) =
      extendPath (memberPath path (unescapeToken token)) rest := by
  have hkey := escapeKey_unescapeToken hslash hvalid
  simp [extendPath, memberPath, hkey]

theorem memberPath_head {path : String} (h : path = "" ∨ path.toList.head? = some '/')
    (key : String) : (memberPath path key).toList.head? = some '/' := by
  rcases h with rfl | hslash
  · simp [memberPath]
  · simp [memberPath, List.head?_append, hslash]

/-! ## Discovery only adds -/

namespace Discovery

/-- `found'` records everything `found` does. -/
structure Grows (found found' : Discovery) : Prop where
  fields : ∀ path ∈ found.fields, path ∈ found'.fields
  exclusions : ∀ path ∈ found.exclusions, path ∈ found'.exclusions

theorem Grows.refl (found : Discovery) : found.Grows found := ⟨fun _ h ↦ h, fun _ h ↦ h⟩

theorem Grows.trans {found found' found'' : Discovery} (h : found.Grows found')
    (h' : found'.Grows found'') : found.Grows found'' :=
  ⟨fun path hpath ↦ h'.fields path (h.fields path hpath),
    fun path hpath ↦ h'.exclusions path (h.exclusions path hpath)⟩

theorem grows_count (found : Discovery) : found.Grows { found with nodes := found.nodes + 1 } :=
  ⟨fun _ h ↦ h, fun _ h ↦ h⟩

theorem grows_exclude (path : String) (found : Discovery) : found.Grows (found.exclude path) :=
  ⟨fun _ h ↦ h, fun _ h ↦ OrderedSet.mem_insert.mpr (Or.inr h)⟩

theorem grows_truncate (path : String) (found : Discovery) : found.Grows (found.truncate path) :=
  ⟨fun _ h ↦ h, fun _ h ↦ OrderedSet.mem_insert.mpr (Or.inr h)⟩

/-- A path is accounted for: it is a recorded field, or lies below a skipped path. -/
def Covers (found : Discovery) (path : String) : Prop :=
  path ∈ found.fields ∨ ∃ root, root ∈ found.exclusions ∧ Below root path

theorem Covers.mono {found found' : Discovery} {path : String} (h : found.Covers path)
    (hgrows : found.Grows found') : found'.Covers path := by
  rcases h with hfield | ⟨root, hroot, hbelow⟩
  · exact Or.inl (hgrows.fields path hfield)
  · exact Or.inr ⟨root, hgrows.exclusions root hroot, hbelow⟩

theorem covers_exclude {root path : String} (found : Discovery) (h : Below root path) :
    (found.exclude root).Covers path :=
  Or.inr ⟨root, OrderedSet.mem_insert.mpr (Or.inl rfl), h⟩

theorem covers_truncate {root path : String} (found : Discovery) (h : Below root path) :
    (found.truncate root).Covers path :=
  Or.inr ⟨root, OrderedSet.mem_insert.mpr (Or.inl rfl), h⟩

end Discovery

mutual

theorem discover_grows : ∀ (value : Value) (path : String) (found : Discovery),
    found.Grows (discover value path found)
  | .object entries, path, found => by
    unfold discover
    dsimp only
    refine (Discovery.grows_count found).trans ?_
    split_ifs
    · exact Discovery.grows_truncate _ _
    · exact discoverEntries_grows entries path _
    · exact Discovery.grows_truncate _ _
  | .array _, path, found => by
    unfold discover
    dsimp only
    refine (Discovery.grows_count found).trans ?_
    split_ifs
    · exact Discovery.grows_truncate _ _
    · exact Discovery.grows_exclude _ _
  | .number number, path, found => by
    unfold discover
    dsimp only
    refine (Discovery.grows_count found).trans ?_
    split_ifs
    · exact Discovery.grows_truncate _ _
    · exact Discovery.grows_truncate _ _
    · cases number.asF64 with
      | none => exact ⟨fun _ h ↦ h, fun _ h ↦ h⟩
      | some value => exact ⟨fun _ h ↦ OrderedMap.mem_insert.mpr (Or.inr h), fun _ h ↦ h⟩
  | .null, path, found | .bool _, path, found | .string _, path, found => by
    unfold discover
    dsimp only
    refine (Discovery.grows_count found).trans ?_
    split_ifs
    · exact Discovery.grows_truncate _ _
    · exact ⟨fun _ h ↦ h, fun _ h ↦ h⟩

theorem discoverEntries_grows : ∀ (entries : List (String × Value)) (path : String)
    (found : Discovery), found.Grows (discoverEntries entries path found)
  | [], path, found => Discovery.Grows.refl found
  | (key, value) :: rest, path, found => by
    unfold discoverEntries
    split_ifs
    · exact Discovery.grows_truncate _ _
    · exact (discover_grows value _ found).trans (discoverEntries_grows rest path _)

end

/-! ## Every number is accounted for -/

/-- The loop over an object's members accounts for what the member found under `key` holds. -/
theorem discoverEntries_covers {key path wanted : String} {child : Value}
    (hbelow : Below path wanted)
    (hchild : ∀ found, (discover child (memberPath path key) found).Covers wanted)
    (entries : List (String × Value)) (found : Discovery)
    (h : (Value.object entries).get? key = some child) :
    (discoverEntries entries path found).Covers wanted := by
  induction entries generalizing found with
  | nil => simp [Value.get?] at h
  | cons entry rest ih =>
    obtain ⟨name, value⟩ := entry
    unfold discoverEntries
    split_ifs
    · exact Discovery.covers_truncate found hbelow
    · by_cases hname : name = key
      · obtain rfl : value = child := by simpa [Value.get?, hname] using h
        rw [hname]
        exact (hchild found).mono (discoverEntries_grows rest path _)
      · exact ih _ (by simpa [Value.get?, hname] using h)

/-- The induction is on the tokens of the pointer: each of them enters one object. -/
theorem discover_covers {tokens : List (List Char)} {number : Number}
    (htokens : ∀ token ∈ tokens, '/' ∉ token ∧ escapesValid token = true)
    (hfinite : number.asF64.isSome) (value : Value) (path : String) (found : Discovery)
    (hpath : path = "" ∨ path.toList.head? = some '/')
    (h : tokens.foldlM Value.pointerStep value = some (.number number)) :
    (discover value path found).Covers (extendPath path tokens) := by
  have hbelow := below_extendPath path tokens
  induction tokens generalizing value path found with
  | nil =>
    obtain rfl : value = .number number := by simpa using h
    obtain ⟨double, hdouble⟩ := Option.isSome_iff_exists.mp hfinite
    rw [extendPath_nil]
    unfold discover
    dsimp only
    split_ifs
    · exact Discovery.covers_truncate _ (below_parentPath hpath)
    · exact Discovery.covers_truncate _ (Below.refl path)
    · rw [hdouble]
      exact Or.inl (OrderedMap.mem_insert.mpr (Or.inl rfl))
  | cons token rest ih =>
    simp only [List.mem_cons, forall_eq_or_imp] at htokens
    obtain ⟨⟨hslash, hvalid⟩, hrest⟩ := htokens
    obtain ⟨child, hstep, hnumber⟩ : ∃ child, Value.pointerStep value token = some child ∧
        rest.foldlM Value.pointerStep child = some (.number number) := by
      simpa [List.foldlM_cons, Option.bind_eq_some_iff] using h
    cases value with
    | object entries =>
      unfold discover
      dsimp only
      split_ifs
      · exact Discovery.covers_truncate _ ((below_parentPath hpath).trans hbelow)
      · refine discoverEntries_covers hbelow (fun found ↦ ?_) entries _ hstep
        rw [extendPath_cons hslash hvalid]
        exact ih hrest child _ found (Or.inr (memberPath_head hpath _)) hnumber
          (below_extendPath _ _)
      · exact Discovery.covers_truncate _ hbelow
    | array items =>
      unfold discover
      dsimp only
      split_ifs
      · exact Discovery.covers_truncate _ ((below_parentPath hpath).trans hbelow)
      · exact Discovery.covers_exclude _ hbelow
    | null | bool | number | string => simp [Value.pointerStep] at hstep

/-- A number that a valid pointer selects is accounted for. -/
theorem discover_pointer {state : Value} {path : String} {number : Number}
    (hpath : validateSnapshotPointer path = .ok ()) (hfinite : number.asF64.isSome)
    (h : state.pointer path = some (.number number)) :
    (discover state "" Discovery.empty).Covers path := by
  obtain ⟨hstart, hescapes⟩ := validateSnapshotPointer_ok hpath
  unfold Value.pointer at h
  split_ifs at h with hempty hslash
  · subst hempty
    have hcovers := discover_covers (by simp) hfinite state "" Discovery.empty (Or.inl rfl)
      (by simpa using h : ([] : List (List Char)).foldlM Value.pointerStep state = _)
    rwa [extendPath_nil] at hcovers
  · obtain ⟨htext, htokens⟩ := Value.pointerTokens_spec hslash
    have hvalid := Value.pointerTokens_valid hslash hescapes
    have hcovers := discover_covers (fun token hmem ↦ ⟨htokens token hmem, hvalid token hmem⟩)
      hfinite state "" Discovery.empty (Or.inl rfl) h
    have hextend : extendPath "" (Value.pointerTokens path) = path := by
      rw [extendPath, String.toList_empty, List.nil_append, ← htext, String.ofList_toList]
    rwa [hextend] at hcovers

/-! ## Admission and collapse lose nothing -/

namespace Admission

/-- A path is indexed for the source, or lies below a skipped path. -/
def Covers (admission : Admission) (path : String) : Prop :=
  path ∈ admission.known ∨ ∃ root, root ∈ admission.exclusions ∧ Below root path

theorem Covers.consider {admission : Admission} {path : String} (h : admission.Covers path)
    (other : String) : (admission.consider other).Covers path := by
  unfold Admission.consider
  split_ifs
  · exact h
  · exact h.imp_right fun ⟨root, hroot, hbelow⟩ ↦
      ⟨root, OrderedSet.mem_insert.mpr (Or.inr hroot), hbelow⟩
  · exact h.imp_left fun hknown ↦ OrderedSet.mem_insert.mpr (Or.inr hknown)

theorem covers_consider (admission : Admission) (path : String) :
    (admission.consider path).Covers path := by
  unfold Admission.consider
  split_ifs with hknown
  · exact Or.inl hknown
  · exact Or.inr ⟨path, OrderedSet.mem_insert.mpr (Or.inl rfl), Below.refl path⟩
  · exact Or.inl (OrderedSet.mem_insert.mpr (Or.inl rfl))

theorem covers_foldl {paths : List String} {path : String} {admission : Admission}
    (h : path ∈ paths ∨ admission.Covers path) :
    (paths.foldl Admission.consider admission).Covers path := by
  induction paths generalizing admission with
  | nil => exact h.resolve_left (by simp)
  | cons first rest ih =>
    refine ih ?_
    rcases h with hmem | hcovers
    · cases List.mem_cons.mp hmem with
      | inl heq => exact Or.inr (heq ▸ covers_consider admission path)
      | inr hrest => exact Or.inl hrest
    · exact Or.inr (hcovers.consider first)

end Admission

/-- The index of a source accounts for every number of a snapshot it has seen. -/
theorem admitFields_covers {state : Value} {known : OrderedSet String} {path : String}
    {number : Number} (hpath : validateSnapshotPointer path = .ok ())
    (hfinite : number.asF64.isSome) (h : state.pointer path = some (.number number)) :
    (admitFields state known).Covers path := by
  refine Admission.covers_foldl ?_
  rcases discover_pointer hpath hfinite h with hfield | hskipped
  · exact Or.inl hfield
  · exact Or.inr (Or.inr hskipped)

/-- Collapsing writes a list that skips at least what was to be skipped. -/
theorem collapseExclusions_covers (exclusions : OrderedSet String) :
    ∃ roots, (collapseExclusions exclusions).1 = encodePaths roots ∧
      ∀ path root, validateSnapshotPointer path = .ok () → root ∈ exclusions → Below root path →
        ∃ root' ∈ roots, Below root' path := by
  unfold collapseExclusions
  dsimp only
  split_ifs
  · exact ⟨[""], rfl, fun path _ hpath _ _ ↦
      ⟨"", by simp, below_root (validateSnapshotPointer_ok hpath).1⟩⟩
  · exact ⟨exclusions.keys, rfl, fun path root _ hroot hbelow ↦ ⟨root, hroot, hbelow⟩⟩

end Rvx.Engine
