import Rvx.Web.Script

/-!
# Documents as they are served

What the browser parses of the server's text of a dashboard document.  Fields carry the names the
server writes, and an optional field that is absent is not written.
-/

namespace Rvx.Web

open Core

/-! ## Enumerations -/

def themeName : Theme → String
  | .light => "light"
  | .dark => "dark"

def sizeName : PanelSize → String
  | .normal => "normal"
  | .quarter => "quarter"
  | .third => "third"
  | .half => "half"
  | .twoThirds => "two-thirds"
  | .threeQuarters => "three-quarters"
  | .wide => "wide"

def styleName : ChartStyle → String
  | .line => "line"
  | .area => "area"

def legendName : ChartLegend → String
  | .auto => "auto"
  | .show => "show"
  | .hide => "hide"

def filterOpName : UiFilterOp → String
  | .contains => "contains"
  | .eq => "eq"
  | .gt => "gt"
  | .lt => "lt"

def sortDirectionName : UiSortDirection → String
  | .asc => "asc"
  | .desc => "desc"

def filterDisplayName : UiFilterDisplay → String
  | .select => "select"
  | .radio => "radio"

def aggregationName : SnapshotAggregation → String
  | .count => "count"
  | .sum => "sum"
  | .min => "min"
  | .max => "max"

def orientationName : BarOrientation → String
  | .horizontal => "horizontal"
  | .vertical => "vertical"

def barLayoutName : BarLayout → String
  | .grouped => "grouped"
  | .stacked => "stacked"

def barOrderName : BarOrder → String
  | .valueDesc => "value-desc"
  | .valueAsc => "value-asc"
  | .label => "label"

def densityName : StatusDensity → String
  | .comfortable => "comfortable"
  | .compact => "compact"

def shadeScaleName : ShadeScale → String
  | .linear => "linear"
  | .log => "log"

def tableSortDirectionName : TableSortDirection → String
  | .asc => "asc"
  | .desc => "desc"

/-! ## Views -/

namespace Js

def ofNat (n : ℕ) : Js := .number n

def texts (list : List String) : Js := .array (list.map .string)

def ofMap (map : OrderedMap String String) : Js :=
  .object (map.entries.map fun entry ↦ (entry.1, .string entry.2))

end Js

def servedSort (sort : TableSort) : Js :=
  .record [("path", some (.string sort.path)),
    ("direction", some (.string (tableSortDirectionName sort.direction)))]

def servedBar (view : BarView) : Js :=
  .record [("type", some (.string "bar")), ("categoryPath", some (.string view.categoryPath)),
    ("valuePaths", some (.texts view.valuePaths)),
    ("aggregation", some (.string (aggregationName view.aggregation))),
    ("orientation", some (.string (orientationName view.orientation))),
    ("layout", some (.string (barLayoutName view.layout))),
    ("order", some (.string (barOrderName view.order))), ("limit", some (.ofNat view.limit)),
    ("decimals", view.decimals.map .ofNat), ("unit", view.unit.map .string)]

def servedStatusGrid (view : StatusGridView) : Js :=
  .record [("type", some (.string "status-grid")), ("idPaths", some (.texts view.idPaths)),
    ("statusPath", some (.string view.statusPath)), ("labelPath", view.labelPath.map .string),
    ("groupPath", view.groupPath.map .string), ("valuePath", view.valuePath.map .string),
    ("shadePath", view.shadePath.map .string),
    ("shadeScale", view.shadeScale.map fun scale ↦ .string (shadeScaleName scale)),
    ("density", some (.string (densityName view.density))), ("sort", view.sort.map servedSort),
    ("columns", view.columns.map .ofNat), ("cellSize", view.cellSize.map .ofNat),
    ("gap", view.gap.map .ofNat), ("colors", view.colors.map .ofMap)]

def servedView : SnapshotView → Js
  | .bar view => servedBar view
  | .statusGrid view => servedStatusGrid view

/-! ## Panels -/

def servedPresentation (display : ChartPresentation) : Js :=
  .record [("title", display.title.map .string),
    ("style", display.style.map fun style ↦ .string (styleName style)),
    ("lineWidth", display.lineWidth.map .number), ("points", display.points.map .bool),
    ("legend", display.legend.map fun legend ↦ .string (legendName legend)),
    ("yMin", display.yMin.map .number), ("yMax", display.yMax.map .number)]

def servedColumn (column : ColumnPreference) : Js :=
  .record [("id", some (.string column.id)), ("hidden", column.hidden.map .bool),
    ("width", column.width.map .number), ("decimals", column.decimals.map .ofNat)]

def servedFilter (filter : UiTableFilter) : Js :=
  .record [("path", some (.string filter.path)), ("op", some (.string (filterOpName filter.op))),
    ("value", some (.string filter.value)), ("enabled", filter.enabled.map .bool)]

def servedOption (option : UiFilterOption) : Js :=
  .record [("label", some (.string option.label)), ("value", some (.string option.value))]

def servedGroup (group : UiFilterGroup) : Js :=
  .record [("id", some (.string group.id)), ("name", some (.string group.name)),
    ("path", some (.string group.path)),
    ("display", some (.string (filterDisplayName group.display))),
    ("options", some (.array (group.options.map servedOption))),
    ("selected", group.selected.map .string)]

def servedQuerySort (sort : TableSortPreference) : Js :=
  .record [("path", some (.string sort.path)),
    ("direction", some (.string (sortDirectionName sort.direction)))]

def servedQuery (query : TableQueryPreference) : Js :=
  .record [("search", query.search.map .string),
    ("filters", query.filters.map fun filters ↦ .array (filters.map servedFilter)),
    ("filterGroups", query.filterGroups.map fun groups ↦ .array (groups.map servedGroup)),
    ("sort", query.sort.map servedQuerySort)]

def servedPanel : PanelSpec → Js
  | .chart panel =>
    .record [("kind", some (.string "chart")), ("id", some (.string panel.id)),
      ("sectionId", some (.string panel.sectionId)), ("size", some (.string (sizeName panel.size))),
      ("path", some (.string panel.path)), ("paths", panel.paths.map .texts),
      ("presentation", panel.presentation.map servedPresentation)]
  | .metricTable panel =>
    .record [("kind", some (.string "metric-table")), ("id", some (.string panel.id)),
      ("sectionId", some (.string panel.sectionId)), ("size", some (.string (sizeName panel.size))),
      ("paths", some (.texts panel.paths)), ("title", panel.title.map .string),
      ("sourceIds", panel.sourceIds.map .texts),
      ("columns", panel.columns.map fun columns ↦ .array (columns.map servedColumn)),
      ("query", panel.query.map servedQuery)]
  | .snapshotTable panel =>
    .record [("kind", some (.string "snapshot-table")), ("id", some (.string panel.id)),
      ("sectionId", some (.string panel.sectionId)), ("size", some (.string (sizeName panel.size))),
      ("path", some (.string panel.path)), ("title", panel.title.map .string),
      ("sourceIds", panel.sourceIds.map .texts),
      ("columns", panel.columns.map fun columns ↦ .array (columns.map servedColumn)),
      ("query", panel.query.map servedQuery), ("view", panel.view.map servedView)]

/-! ## Documents -/

def servedSection (part : SectionSpec) : Js :=
  .record [("id", some (.string part.id)), ("name", some (.string part.name)),
    ("collapsed", some (.bool part.collapsed))]

def servedSet (set : WorkspaceSet) : Js :=
  .record [("id", some (.string set.id)), ("name", some (.string set.name)),
    ("experimentId", some (.string set.experimentId)),
    ("panels", some (.array (set.panels.map servedPanel))),
    ("sections", some (.array (set.sections.map servedSection)))]

def servedWorkspaces (document : WorkspaceDocument) : Js :=
  .record [("revision", some (.ofNat document.revision)),
    ("sets", some (.array (document.sets.map servedSet)))]

def servedPreferences (preferences : BrowserPreferences) : Js :=
  .record [("revision", some (.ofNat preferences.revision)),
    ("theme", some (.string (themeName preferences.theme))),
    ("sidebar_width", some (.ofNat preferences.sidebarWidth)),
    ("selected", some (.ofMap preferences.selected)),
    ("run_colors", some (.ofMap preferences.runColors))]

end Rvx.Web
