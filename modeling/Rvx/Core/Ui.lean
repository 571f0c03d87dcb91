import Rvx.Core.SnapshotViews

/-!
# Dashboard documents

The workspace and browser preference documents of the dashboard, the requests that replace them
and their validation.  Widths and chart bounds are finite doubles, given by their values.
-/

namespace Rvx.Core

open Check

def MAX_UI_REQUEST_BYTES : ℕ := 2 * 1024 * 1024

def MAX_UI_REVISION : ℕ := 9007199254740991

def MAX_WORKSPACE_SETS : ℕ := 100

def MAX_UI_ID_BYTES : ℕ := 256

def MAX_UI_RUN_COLORS : ℕ := 1000

def MAX_COLUMN_DECIMALS : ℕ := 20

inductive Theme where
  | light | dark
deriving DecidableEq

inductive PanelSize where
  | normal | quarter | third | half | twoThirds | threeQuarters | wide
deriving DecidableEq

inductive ChartStyle where
  | line | area
deriving DecidableEq

inductive ChartLegend where
  | auto | show | hide
deriving DecidableEq

inductive UiFilterOp where
  | contains | eq | gt | lt
deriving DecidableEq

inductive UiSortDirection where
  | asc | desc
deriving DecidableEq

inductive UiFilterDisplay where
  | select | radio
deriving DecidableEq

structure ChartPresentation where
  title : Option String
  style : Option ChartStyle
  lineWidth : Option ℚ
  points : Option Bool
  legend : Option ChartLegend
  yMin : Option ℚ
  yMax : Option ℚ
deriving DecidableEq

structure ColumnPreference where
  id : String
  hidden : Option Bool
  width : Option ℚ
  decimals : Option ℕ
deriving DecidableEq

structure UiFilterOption where
  label : String
  value : String
deriving DecidableEq

structure UiFilterGroup where
  id : String
  name : String
  path : String
  display : UiFilterDisplay
  options : List UiFilterOption
  selected : Option String
deriving DecidableEq

structure UiTableFilter where
  path : String
  op : UiFilterOp
  value : String
  enabled : Option Bool
deriving DecidableEq

structure TableSortPreference where
  path : String
  direction : UiSortDirection
deriving DecidableEq

structure TableQueryPreference where
  search : Option String
  filters : Option (List UiTableFilter)
  filterGroups : Option (List UiFilterGroup)
  sort : Option TableSortPreference
deriving DecidableEq

structure SectionSpec where
  id : String
  name : String
  collapsed : Bool
deriving DecidableEq

structure ChartPanel where
  id : String
  sectionId : String
  size : PanelSize
  path : String
  paths : Option (List String)
  presentation : Option ChartPresentation
deriving DecidableEq

structure MetricTablePanel where
  id : String
  sectionId : String
  size : PanelSize
  paths : List String
  title : Option String
  sourceIds : Option (List String)
  columns : Option (List ColumnPreference)
  query : Option TableQueryPreference
deriving DecidableEq

structure SnapshotTablePanel where
  id : String
  sectionId : String
  size : PanelSize
  path : String
  title : Option String
  sourceIds : Option (List String)
  columns : Option (List ColumnPreference)
  query : Option TableQueryPreference
  view : Option SnapshotView
deriving DecidableEq

inductive PanelSpec where
  | chart (panel : ChartPanel)
  | metricTable (panel : MetricTablePanel)
  | snapshotTable (panel : SnapshotTablePanel)
deriving DecidableEq

structure WorkspaceSet where
  id : String
  name : String
  experimentId : String
  panels : List PanelSpec
  sections : List SectionSpec
deriving DecidableEq

structure WorkspaceDocument where
  revision : ℕ
  sets : List WorkspaceSet
deriving DecidableEq

structure BrowserPreferences where
  revision : ℕ
  theme : Theme
  sidebarWidth : ℕ
  selected : OrderedMap String String
  runColors : OrderedMap String String
deriving DecidableEq

/-- `BrowserPreferences::default`. -/
def BrowserPreferences.default : BrowserPreferences := ⟨0, .light, 280, .empty, .empty⟩

structure SaveWorkspaces where
  revision : ℕ
  mutationId : String
  sets : List WorkspaceSet
deriving DecidableEq

structure SaveBrowserPreferences where
  revision : ℕ
  mutationId : String
  theme : Theme
  sidebarWidth : ℕ
  selected : OrderedMap String String
  runColors : OrderedMap String String
deriving DecidableEq

/-! ## Checks -/

/-- `check`. -/
def require (condition : Prop) [Decidable condition] (message : String) : Except String Unit :=
  if condition then .ok () else .error message

@[simp]
theorem require_ok {condition : Prop} [Decidable condition] {message : String} {value : Unit} :
    require condition message = .ok value ↔ condition := by
  unfold require
  split <;> simp_all

/-- `text`. -/
def boundedText (value : String) (maxChars : ℕ) : Bool :=
  value.utf8ByteSize ≤ 4096 && value.length ≤ maxChars && !containsNull value

def validUiId (value : String) : Bool :=
  value ≠ "" && value.utf8ByteSize ≤ MAX_UI_ID_BYTES && trim value = value &&
    !value.toList.any isControl

/-- `path`. -/
def boundedPath (value : String) (root : Bool) : Bool :=
  boundedText value 4096 && ((root && value = "") || value.toList.head? = some '/')

/-- `paths`. -/
def metricPaths (values : List String) : Bool :=
  values ≠ [] && values.length ≤ 64 && values.all (boundedPath · false) && values.Nodup

namespace PanelSpec

/-- The panel and its section. -/
def identity : PanelSpec → String × String
  | .chart panel => (panel.id, panel.sectionId)
  | .metricTable panel => (panel.id, panel.sectionId)
  | .snapshotTable panel => (panel.id, panel.sectionId)

def sourceIds : PanelSpec → List String
  | .chart _ => []
  | .metricTable panel => panel.sourceIds.getD []
  | .snapshotTable panel => panel.sourceIds.getD []

end PanelSpec

def ChartPresentation.validate (display : ChartPresentation) : Except String Unit := do
  display.title.toList.forM fun title ↦
    require (isBlank title = false ∧ boundedText title 120 = true) "invalid chart title"
  display.lineWidth.toList.forM fun width ↦
    require (1 / 2 ≤ width ∧ width ≤ 6) "lineWidth must be finite and from 0.5 through 6"
  match display.yMin, display.yMax with
  | some low, some high => require (low < high) "yMin must be less than yMax"
  | _, _ => pure ()

/-- One column, given the columns before it. -/
def ColumnPreference.validate (seen : List String) (column : ColumnPreference) :
    Except String Unit := do
  require (boundedText column.id 4096 = true ∧ column.id ∉ seen) "invalid or duplicate column ID"
  column.width.toList.forM fun width ↦
    require (70 ≤ width ∧ width ≤ 800) "column width must be finite and from 70 through 800"
  column.decimals.toList.forM fun decimals ↦
    require (decimals ≤ MAX_COLUMN_DECIMALS) "decimals must be an integer from 0 through 20"

/-- One filter group, given the groups before it. -/
def UiFilterGroup.validate (seen : List String) (group : UiFilterGroup) : Except String Unit := do
  require (validUiId group.id = true ∧ group.id ∉ seen ∧ isBlank group.name = false ∧
    boundedText group.name 120 = true ∧ boundedText group.path 4096 = true)
    "invalid or duplicate filter group"
  require (group.options ≠ [] ∧ group.options.length ≤ 32 ∧
    (∀ option ∈ group.options, isBlank option.label = false ∧ boundedText option.label 120 = true ∧
      isBlank option.value = false ∧ boundedText option.value 4096 = true) ∧
    (group.options.map UiFilterOption.value).Nodup)
    "filter groups require 1 to 32 uniquely valued, nonempty options"
  require (∀ selected ∈ group.selected, selected ∈ group.options.map UiFilterOption.value)
    "selected filter option is not defined"

/-- Check items in order, each knowing the identifiers of those before it. -/
def forDistinct {α : Type} (id : α → String) (check : List String → α → Except String Unit) :
    List String → List α → Except String Unit
  | _, [] => .ok ()
  | seen, item :: rest => do
    check seen item
    forDistinct id check (id item :: seen) rest

def TableQueryPreference.validate (query : TableQueryPreference) : Except String Unit := do
  require (∀ search ∈ query.search, boundedText search 4096 = true)
    "table search exceeds 4096 bytes"
  query.sort.toList.forM fun sort ↦
    require (boundedText sort.path 4096 = true) "sort path exceeds 4096 bytes"
  query.filters.toList.forM fun filters ↦
    require (filters.length ≤ 32 ∧ ∀ filter ∈ filters,
      boundedText filter.path 4096 = true ∧ boundedText filter.value 4096 = true)
      "at most 32 filters with 4096-byte strings are allowed"
  query.filterGroups.toList.forM fun groups ↦ do
    require (groups.length ≤ 16 ∧
      groups.length + (query.filters.map List.length).getD 0 ≤ 32)
      "at most 16 filter groups and 32 total filters are allowed"
    forDistinct UiFilterGroup.id UiFilterGroup.validate [] groups

def validateTable (title : Option String) (sources : Option (List String))
    (columns : Option (List ColumnPreference)) (query : Option TableQueryPreference) :
    Except String Unit := do
  title.toList.forM fun title ↦
    require (boundedText title 120 = true) "table title exceeds 120 characters"
  sources.toList.forM fun sources ↦
    require (sources.length ≤ 256 ∧ (∀ id ∈ sources, validUiId id = true) ∧ sources.Nodup)
      "invalid, duplicate, or excessive Source IDs"
  columns.toList.forM fun columns ↦ do
    require (columns.length ≤ 131) "at most 131 table columns are allowed"
    forDistinct ColumnPreference.id ColumnPreference.validate [] columns
  query.toList.forM TableQueryPreference.validate

def PanelSpec.validate : PanelSpec → Except String Unit
  | .chart panel => do
    require (boundedPath panel.path false = true) "invalid chart path"
    panel.paths.toList.forM fun metrics ↦
      require (metricPaths metrics = true ∧ panel.path ∈ metrics)
        "chart paths must be 1..64 unique metric paths including path"
    panel.presentation.toList.forM ChartPresentation.validate
  | .metricTable panel => do
    require (metricPaths panel.paths = true) "table paths must be 1..64 unique metric paths"
    validateTable panel.title panel.sourceIds panel.columns panel.query
  | .snapshotTable panel => do
    require (boundedPath panel.path true = true) "invalid snapshot-table path"
    validateTable panel.title panel.sourceIds panel.columns panel.query
    panel.view.toList.forM SnapshotView.validate

/-- One section, given the sections before it. -/
def SectionSpec.validate (seen : List String) (part : SectionSpec) : Except String Unit := do
  require (validUiId part.id = true ∧ part.id ∉ seen) "invalid or duplicate section ID"
  require (boundedText part.name 100 = true) "section name exceeds 100 characters"

/-- One panel of a set, given the panels before it. -/
def WorkspaceSet.validatePanel (set : WorkspaceSet) (seen : List String) (panel : PanelSpec) :
    Except String Unit := do
  require (validUiId panel.identity.1 = true ∧ panel.identity.1 ∉ seen)
    "invalid or duplicate panel ID"
  require (panel.identity.2 ∈ set.sections.map SectionSpec.id)
    "panel references an unknown section"
  panel.validate

/-- One set, given the sets before it. -/
def WorkspaceSet.validate (earlier : List WorkspaceSet) (set : WorkspaceSet) :
    Except String Unit := do
  require (validUiId set.id = true ∧ validUiId set.experimentId = true)
    "invalid workspace or experiment ID"
  require (∀ other ∈ earlier, other.id ≠ set.id) "duplicate workspace ID"
  require (set.name ≠ "" ∧ trim set.name = set.name ∧ boundedText set.name 80 = true)
    "workspace name must be trimmed, nonempty, and at most 80 characters"
  require (∀ other ∈ earlier, ¬ (other.experimentId = set.experimentId ∧ other.name = set.name))
    "duplicate workspace name in experiment"
  require (1 ≤ set.sections.length ∧ set.sections.length ≤ 24 ∧ set.panels.length ≤ 24)
    "workspace requires 1..24 sections and at most 24 panels"
  forDistinct SectionSpec.id SectionSpec.validate [] set.sections
  forDistinct (fun panel ↦ panel.identity.1) set.validatePanel [] set.panels

/-- The loop over the sets. -/
def validateSets : List WorkspaceSet → List WorkspaceSet → Except String Unit
  | _, [] => .ok ()
  | earlier, set :: rest => do
    set.validate earlier
    validateSets (set :: earlier) rest

def SaveWorkspaces.validate (input : SaveWorkspaces) : Except String Unit := do
  require (input.revision ≤ MAX_UI_REVISION) "revision exceeds JavaScript safe integer"
  require (validUiId input.mutationId = true) "mutation_id must contain 1..256 bounded bytes"
  require (input.sets.length ≤ MAX_WORKSPACE_SETS) "at most 100 workspace sets are allowed"
  validateSets [] input.sets

def SaveBrowserPreferences.validate (input : SaveBrowserPreferences) : Except String Unit := do
  require (input.revision ≤ MAX_UI_REVISION) "revision exceeds JavaScript safe integer"
  require (validUiId input.mutationId = true) "invalid mutation_id"
  require (220 ≤ input.sidebarWidth ∧ input.sidebarWidth ≤ 520)
    "sidebar_width must be an integer from 220 through 520"
  require (input.selected.size ≤ MAX_WORKSPACE_SETS) "at most 100 workspace selections are allowed"
  require (∀ entry ∈ input.selected.entries, validUiId entry.1 = true ∧ validUiId entry.2 = true)
    "invalid selection identifier"
  require (input.runColors.size ≤ MAX_UI_RUN_COLORS)
    "at most 1000 run_colors overrides are allowed; no overrides were evicted"
  require (∀ entry ∈ input.runColors.entries, validUiId entry.1 = true ∧ isHexColor entry.2 = true)
    "run_colors must map bounded Run IDs to six-digit #RRGGBB colors"

/-! ## What validation establishes -/

theorem validateSets_nodup {earlier sets : List WorkspaceSet}
    (h : validateSets earlier sets = .ok ()) :
    (sets.map WorkspaceSet.id).Nodup ∧
      ∀ set ∈ sets, ∀ other ∈ earlier, other.id ≠ set.id := by
  induction sets generalizing earlier with
  | nil => simp
  | cons set rest ih =>
    simp only [validateSets, WorkspaceSet.validate, bind_eq_ok, exists_unit, require_ok] at h
    obtain ⟨⟨-, hfresh, -⟩, hrest⟩ := h
    obtain ⟨hnodup, hlater⟩ := ih hrest
    constructor
    · rw [List.map_cons, List.nodup_cons, List.mem_map]
      refine ⟨?_, hnodup⟩
      rintro ⟨other, hother, heq⟩
      exact hlater other hother set (by simp) heq.symm
    · intro other hother old hold
      cases List.mem_cons.mp hother with
      | inl heq => exact heq ▸ hfresh old hold
      | inr hrest => exact hlater other hrest old (by simp [hold])

/-- The sets of an accepted request have distinct identifiers. -/
theorem SaveWorkspaces.validate_nodup {input : SaveWorkspaces} (h : input.validate = .ok ()) :
    (input.sets.map WorkspaceSet.id).Nodup := by
  simp only [SaveWorkspaces.validate, bind_eq_ok, exists_unit, require_ok] at h
  exact (validateSets_nodup h.2.2.2).1

end Rvx.Core
