import Rvx.Web.Script

/-!
# The browser's validators

What the browser checks of a document before it adopts it, on any parsed value.
-/

namespace Rvx.Web.Client

open Core Js

/-! ## Views -/

/-- `/~(?:[^01]|$)/`. -/
def badEscape : List Char → Bool
  | [] => false
  | c :: rest =>
    (c = '~' && (match rest with
      | d :: _ => d ≠ '0' && d ≠ '1'
      | [] => true)) || badEscape rest

def snapshotFieldPath (value : Js) : Bool :=
  value.isTrue fun path ↦
    path.utf8ByteSize ≤ 4096 && !containsNull path &&
      (path = "" || path = "$key" || path = "$value" || path.toList.head? = some '/') &&
      !badEscape path.toList

def validBar (value : Js) : Bool :=
  (value.entries.all fun entry ↦ entry.1 ∈ ["type", "categoryPath", "valuePaths", "aggregation",
    "orientation", "layout", "order", "limit", "decimals", "unit"]) &&
  (value.get "categoryPath").any snapshotFieldPath &&
  ((value.items "valuePaths").any fun paths ↦
    paths.all snapshotFieldPath && (paths.map text?).Nodup &&
      if value.text "aggregation" = some "count" then paths.isEmpty
      else !paths.isEmpty && paths.length ≤ 8) &&
  (value.get "aggregation").any (isOneOf ["count", "sum", "min", "max"]) &&
  (value.get "orientation").any (isOneOf ["horizontal", "vertical"]) &&
  (value.get "layout").any (isOneOf ["grouped", "stacked"]) &&
  (value.get "order").any (isOneOf ["value-desc", "value-asc", "label"]) &&
  (value.get "limit").any (isInteger 1 50) &&
  value.optional "decimals" (isInteger 0 20) &&
  value.optional "unit" fun unit ↦ unit.isTrue fun text ↦ text.length ≤ 40 && !containsNull text

def validSort (value : Js) : Bool :=
  value.isRecord && (value.entries.all fun entry ↦ entry.1 ∈ ["path", "direction"]) &&
    (value.get "path").any snapshotFieldPath && (value.get "direction").any (isOneOf ["asc", "desc"])

def validColors (value : Js) : Bool :=
  value.isRecord && value.entries.length ≤ 128 &&
    value.entries.all fun entry ↦ entry.1.utf8ByteSize ≤ 256 && !containsNull entry.1 &&
      entry.2.isTrue isHexColor

def validStatusGrid (value : Js) : Bool :=
  (value.entries.all fun entry ↦ entry.1 ∈ ["type", "idPaths", "statusPath", "labelPath",
    "groupPath", "valuePath", "shadePath", "shadeScale", "density", "colors", "sort", "columns",
    "cellSize", "gap"]) &&
  (value.get "statusPath").any snapshotFieldPath &&
  ((value.items "idPaths").any fun paths ↦ !paths.isEmpty && paths.length ≤ 4 &&
    paths.all snapshotFieldPath && (paths.map text?).Nodup) &&
  (["labelPath", "groupPath", "valuePath", "shadePath"].all fun key ↦
    value.optional key snapshotFieldPath) &&
  value.optional "shadeScale" (isOneOf ["linear", "log"]) &&
  (value.get "density").any (isOneOf ["comfortable", "compact"]) &&
  value.optional "sort" validSort &&
  value.optional "columns" (isInteger 1 64) && value.optional "cellSize" (isInteger 12 40) &&
  value.optional "gap" (isInteger 2 12) &&
  value.optional "colors" validColors

def validSnapshotView (value : Js) : Bool :=
  value.isRecord &&
    if value.text "type" = some "bar" then validBar value
    else if value.text "type" = some "status-grid" then validStatusGrid value
    else false

/-! ## Panels -/

/-- The `text` of `validFilterGroups`. -/
def groupText (limit : ℕ) (value : Js) : Bool :=
  value.isTrue fun text ↦ text.length ≤ limit && text.utf8ByteSize ≤ 4096 && !containsNull text

/-- A bounded text with something to see. -/
def shownText (limit : ℕ) (value : Js) : Bool :=
  groupText limit value && value.isTrue fun text ↦ trimmed text ≠ ""

def validGroupId (value : Js) : Bool :=
  value.isTrue fun id ↦ id ≠ "" && id.utf8ByteSize ≤ 256 && trimmed id = id &&
    !id.toList.any isControl

def validFilterOption (value : Js) : Bool :=
  value.isRecord && (value.get "label").any (shownText 120) && (value.get "value").any (shownText 4096)

def validFilterGroup (value : Js) : Bool :=
  value.isRecord && (value.get "id").any validGroupId && (value.get "name").any (shownText 120) &&
    (value.get "path").any (groupText 4096) &&
    (value.get "display").any (isOneOf ["select", "radio"]) &&
    (value.items "options").any fun options ↦
      !options.isEmpty && options.length ≤ 32 && options.all validFilterOption &&
        (options.map (Js.text · "value")).Nodup &&
        value.optional "selected" fun selected ↦
          selected.isTrue fun text ↦ some text ∈ options.map (Js.text · "value")

def validFilterGroups (value : Js) : Bool :=
  value.items?.any fun groups ↦ groups.length ≤ 16 && (groups.map (Js.text · "id")).Nodup &&
    groups.all validFilterGroup

def validPanelSize (value : Js) : Bool :=
  value.isOneOf ["normal", "quarter", "third", "half", "two-thirds", "three-quarters", "wide"]

def startsWithSlash (text : String) : Bool := text.toList.head? = some '/'

/-- A nonempty selection of distinct metric paths. -/
def validPaths (paths : List Js) : Bool :=
  !paths.isEmpty && paths.length ≤ 64 && paths.all (isTrue · startsWithSlash) &&
    (paths.map text?).Nodup

def validPresentation (display : Js) : Bool :=
  display.isRecord &&
  (display.entries.all fun entry ↦
    entry.1 ∈ ["title", "style", "lineWidth", "points", "legend", "yMin", "yMax"]) &&
  (display.optional "title" fun title ↦
    title.isTrue fun text ↦ trimmed text ≠ "" && codeUnits text ≤ 120) &&
  display.optional "style" (isOneOf ["line", "area"]) &&
  display.optional "lineWidth" (isNumber (1 / 2) 6) && display.optional "points" isBool &&
  display.optional "legend" (isOneOf ["auto", "show", "hide"]) &&
  (["yMin", "yMax"].all fun key ↦ display.optional key fun value ↦ value.number?.isSome) &&
  !(((display.get "yMin").bind number?).any fun low ↦
    ((display.get "yMax").bind number?).any fun high ↦ high ≤ low)

def validChartSpec (value : Js) : Bool :=
  value.isRecord && (value.get "path").any (isTrue · startsWithSlash) &&
    (value.get "size").any validPanelSize &&
    (value.optional "paths" fun paths ↦ paths.items?.any fun items ↦
      validPaths items && value.text "path" ∈ items.map text?) &&
    value.optional "presentation" validPresentation

def validFilter (value : Js) : Bool :=
  value.isRecord && (value.text "path").isSome && (value.text "value").isSome &&
    (value.get "op").any (isOneOf ["contains", "eq", "gt", "lt"]) && value.optional "enabled" isBool

def validQuerySort (value : Js) : Bool :=
  value.isRecord && (value.text "path").isSome &&
    (value.get "direction").any (isOneOf ["asc", "desc"])

def validQuery (query : Js) : Bool :=
  query.isRecord && (query.optional "search" fun search ↦ search.text?.isSome) &&
    query.optional "sort" validQuerySort &&
    (query.optional "filters" fun filters ↦ filters.items?.any fun items ↦
      items.length ≤ 32 && items.all validFilter) &&
    query.optional "filterGroups" fun groups ↦ validFilterGroups groups &&
      groups.items?.any fun items ↦
        ((query.items "filters").map List.length).getD 0 + items.length ≤ 32

def validColumn (value : Js) : Bool :=
  value.isRecord && (value.text "id").isSome && value.optional "hidden" isBool &&
    value.optional "decimals" (isInteger 0 20) && value.optional "width" (isNumber 70 800)

def validTable (value : Js) : Bool :=
  (value.optional "title" fun title ↦ title.isTrue fun text ↦ codeUnits text ≤ 120) &&
  (value.optional "sourceIds" fun sources ↦ sources.items?.any fun items ↦
    items.length ≤ 256 && (items.all fun id ↦ id.text?.isSome) && (items.map text?).Nodup) &&
  value.optional "query" validQuery &&
  value.optional "columns" fun columns ↦ columns.items?.any fun items ↦
    items.length ≤ 131 && items.all validColumn && (items.map (Js.text · "id")).Nodup

def validPanel (value : Js) : Bool :=
  value.isRecord && (value.text "id").isSome && (value.text "sectionId").isSome &&
  (value.get "size").any validPanelSize &&
  (value.optional "view" fun view ↦
    value.text "kind" = some "snapshot-table" && validSnapshotView view) &&
  if value.text "kind" = some "chart" then validChartSpec value
  else if value.text "kind" = some "metric-table" then
    validTable value && (value.items "paths").any validPaths
  else if value.text "kind" = some "snapshot-table" then
    validTable value && (value.text "path").any fun path ↦ path = "" || startsWithSlash path
  else false

/-! ## Documents -/

def validSection (value : Js) : Bool :=
  value.isRecord && (value.text "id").isSome && (value.text "name").any (codeUnits · ≤ 100) &&
    (value.get "collapsed").any isBool

def validLayout (value : Js) : Bool :=
  value.isRecord &&
    (value.items "sections").any fun sections ↦
      (value.items "panels").any fun panels ↦
        !sections.isEmpty && sections.length ≤ 24 && panels.length ≤ 24 &&
        sections.all validSection && (sections.map (Js.text · "id")).Nodup &&
        (panels.all fun panel ↦ validPanel panel &&
          panel.text "sectionId" ∈ sections.map (Js.text · "id")) &&
        (panels.map (Js.text · "id")).Nodup

def validSet (value : Js) : Bool :=
  value.isRecord && (value.text "id").any (· ≠ "") &&
    ((value.text "name").any fun name ↦ trimmed name ≠ "" && codeUnits name ≤ 80) &&
    (value.text "experimentId").isSome && validLayout value

/-- A safe integer that is not negative. -/
def revision (value : Js) : Bool := value.isInteger 0 MAX_UI_REVISION

def validWorkspaceDocument (value : Js) : Bool :=
  value.isRecord && (value.get "revision").any revision &&
    (value.items "sets").any fun sets ↦ sets.length ≤ 100 && sets.all validSet &&
      (sets.map (Js.text · "id")).Nodup

def validBrowserPreferences (value : Js) : Bool :=
  value.isRecord && (value.get "revision").any revision &&
    (value.get "theme").any (isOneOf ["light", "dark"]) &&
    (value.get "sidebar_width").any (isInteger 220 520) &&
    ((value.get "selected").any fun selected ↦
      selected.isRecord && selected.entries.all fun entry ↦ entry.2.text?.isSome) &&
    (value.get "run_colors").any fun colors ↦
      colors.isRecord && colors.entries.length ≤ 1000 &&
        colors.entries.all fun entry ↦ entry.2.isTrue isHexColor

end Rvx.Web.Client
