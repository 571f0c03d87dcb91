import Rvx.Core.Snapshots
import Rvx.Core.Text

/-!
# Configured snapshot views

The presentation a snapshot table can be configured with, and the checks on it.  Numbers are the
decoded ones, so a `u8` field is at most `255`.
-/

namespace Rvx.Core

open Check

inductive SnapshotAggregation where
  | count | sum | min | max
deriving DecidableEq

inductive BarOrientation where
  | horizontal | vertical
deriving DecidableEq

inductive BarLayout where
  | grouped | stacked
deriving DecidableEq

inductive BarOrder where
  | valueDesc | valueAsc | label
deriving DecidableEq

inductive StatusDensity where
  | comfortable | compact
deriving DecidableEq

inductive ShadeScale where
  | linear | log
deriving DecidableEq

inductive TableSortDirection where
  | asc | desc
deriving DecidableEq

structure TableSort where
  path : String
  direction : TableSortDirection
deriving DecidableEq

structure BarView where
  categoryPath : String
  valuePaths : List String
  aggregation : SnapshotAggregation
  orientation : BarOrientation
  layout : BarLayout
  order : BarOrder
  limit : ℕ
  decimals : Option ℕ
  unit : Option String
deriving DecidableEq

structure StatusGridView where
  idPaths : List String
  statusPath : String
  labelPath : Option String
  groupPath : Option String
  valuePath : Option String
  shadePath : Option String
  shadeScale : Option ShadeScale
  density : StatusDensity
  sort : Option TableSort
  columns : Option ℕ
  cellSize : Option ℕ
  gap : Option ℕ
  colors : Option (OrderedMap String String)
deriving DecidableEq

inductive SnapshotView where
  | bar (view : BarView)
  | statusGrid (view : StatusGridView)
deriving DecidableEq

/-- `contains('\0')`. -/
def containsNull (text : String) : Bool := text.toList.any fun c ↦ c.toNat = 0

def validateSnapshotField (path : String) : Except String Unit := do
  reject (containsNull path = true) "snapshot field paths must not contain null characters"
  if path = "$key" ∨ path = "$value" then
    pure ()
  else
    (validateSnapshotPointer path).mapError ProtocolError.message

def viewPaths (values : List String) (min max : ℕ) : Except String Unit := do
  reject (values.length < min ∨ max < values.length ∨ ¬ values.Nodup)
    ("field paths require " ++ toString min ++ ".." ++ toString max ++ " unique entries")
  values.forM validateSnapshotField

/-- Six hexadecimal digits after a `#`. -/
def isHexColor (color : String) : Bool :=
  match color.toList with
  | '#' :: digits => digits.length = 6 && digits.all isHexDigit
  | _ => false

def outside (low high : ℕ) (value : Option ℕ) : Prop := ∃ n ∈ value, n < low ∨ high < n

instance (low high : ℕ) : ∀ value, Decidable (outside low high value)
  | none => .isFalse (by simp [outside])
  | some n => decidable_of_iff (n < low ∨ high < n) (by simp [outside])

def BarView.validate (view : BarView) : Except String Unit := do
  validateSnapshotField view.categoryPath
  viewPaths view.valuePaths (if view.aggregation = .count then 0 else 1)
    (if view.aggregation = .count then 0 else 8)
  reject (view.limit < 1 ∨ 50 < view.limit ∨ outside 0 20 view.decimals)
    "bar limit must be 1..50 and decimals must be 0..20"
  reject (view.unit.any fun unit ↦ 40 < unit.length || containsNull unit)
    "bar unit must contain at most 40 characters"

def StatusGridView.validate (view : StatusGridView) : Except String Unit := do
  viewPaths view.idPaths 1 4
  validateSnapshotField view.statusPath
  [view.labelPath, view.groupPath, view.valuePath, view.shadePath].reduceOption.forM
    validateSnapshotField
  view.sort.toList.forM fun sort ↦ validateSnapshotField sort.path
  reject (outside 1 64 view.columns ∨ outside 12 40 view.cellSize ∨ outside 2 12 view.gap)
    "status grid columns must be 1..64, cell size 12..40, and gap 2..12"
  reject (view.colors.any fun colors ↦ 128 < colors.size || colors.entries.any fun entry ↦
      256 < entry.1.utf8ByteSize || containsNull entry.1 || !isHexColor entry.2)
    "status colors require at most 128 bounded state keys and #RRGGBB values"

def SnapshotView.validate : SnapshotView → Except String Unit
  | .bar view => view.validate
  | .statusGrid view => view.validate

end Rvx.Core
