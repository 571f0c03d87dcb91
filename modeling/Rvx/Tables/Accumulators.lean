import Rvx.Lib.Grouping
import Rvx.Tables.Aggregates
import Rvx.Tables.Matching

/-!
# What an accumulator knows

The state of an accumulator describes the cells that were added to it, in a way that does not depend
on their order: how many cells there are of each class, the exact bounds of the numbers, and their
sum as long as all are integers of 64 bits.
-/

namespace Rvx.Tables

open Core Engine Grouping

/-! ## Classes of cells -/

inductive CellClass where
  | counted | missing | nonNumeric
deriving DecidableEq

/-- The cell is there to be measured, but holds nothing. -/
def isAbsent : Option Cell → Bool
  | some .missing => true
  | some (.value .null) => true
  | _ => false

def numberOf : Option Cell → Option Number
  | some (.value (.number number)) => some number
  | _ => none

/-- How a measure treats a cell. -/
def classify (measure : SnapshotMeasure) (cell : Option Cell) : CellClass :=
  if measure.op = .count then if isAbsent cell then .missing else .counted
  else if (numberOf cell).isSome then .counted
  else if isAbsent cell || cell.isNone then .missing
  else .nonNumeric

def numbers (cells : List (Option Cell)) : List Number := cells.filterMap numberOf

theorem numbers_concat (cells : List (Option Cell)) (cell : Option Cell) :
    numbers (cells ++ [cell]) = numbers cells ++ (numberOf cell).toList := by
  rw [numbers, List.filterMap_append, List.filterMap_cons]
  cases numberOf cell with
  | none => rfl
  | some number => rfl

theorem numbers_perm {cells cells' : List (Option Cell)} (h : cells'.Perm cells) :
    (numbers cells').Perm (numbers cells) :=
  h.filterMap _

/-- Every cell is of one class. -/
theorem countP_classify (measure : SnapshotMeasure) (cells : List (Option Cell)) :
    (cells.countP fun cell ↦ classify measure cell = .counted) +
        (cells.countP fun cell ↦ classify measure cell = .missing) +
        (cells.countP fun cell ↦ classify measure cell = .nonNumeric) = cells.length := by
  induction cells with
  | nil => rfl
  | cons cell rest ih =>
    simp only [List.countP_cons, List.length_cons]
    cases classify measure cell <;> simp <;> omega

/-- A numeric measure counts the numbers. -/
theorem countP_counted {measure : SnapshotMeasure} (hop : measure.op ≠ .count)
    (cells : List (Option Cell)) :
    (cells.countP fun cell ↦ classify measure cell = .counted) = (numbers cells).length := by
  have hclass (cell : Option Cell) :
      (classify measure cell = .counted) ↔ (numberOf cell).isSome = true := by
    rw [classify, if_neg hop]
    split_ifs with hsome hmissing
    · simp [hsome]
    · simp [hsome]
    · simp [hsome]
  simp only [hclass]
  rw [numbers, List.length_filterMap_eq_countP]
  apply List.countP_congr
  intro cell _
  simp

theorem eq_of_numberOf {cell : Option Cell} {number : Number} (h : numberOf cell = some number) :
    cell = some (Cell.value (.number number)) := by
  unfold numberOf at h
  split at h
  · rw [Option.some.inj h]
  · cases h

/-! ## Bounds -/

/-- A number in memory. -/
abbrev Number.Fits (number : Number) : Prop := number.chars.length < 2 ^ 63

/-- The rational numbers in descending order. -/
def descending (number : Number) : ℚᵒᵈ := OrderDual.toDual number.toRat

theorem abs_digits_eq_nil {number : Number} (h : Number.Fits number) :
    (NumericKey.new number).abs.digits = [] ↔ number.toRat = 0 := by
  obtain ⟨hdigits, hzero⟩ | ⟨digits, exponent, hne, -, hne', hhead, -, hvalue⟩ :=
    (NumericKey.new_denotes h).form
  · exact iff_of_true hdigits hzero
  · refine iff_of_false hne ?_
    rw [hvalue]
    exact value_ne_zero _ hne' hhead exponent

/-- The numbers that have a magnitude. -/
def nonzero (known : List Number) : List Number := known.filter fun number ↦ number.toRat ≠ 0

namespace Accumulator

variable {state : Accumulator} {known : List Number} {number : Number}

theorem addBound_least (hfits : ∀ other ∈ known, Number.Fits other) (hnumber : Number.Fits number)
    (h : Least Number.toRat known state.bound) :
    Least Number.toRat (known ++ [number]) (state.addBound .lt number).bound := by
  have hconcat := h.concat number
  have hiff : (state.bound.all fun current ↦ decide
      ((NumericKey.new number).compare (NumericKey.new current) = .lt)) = true ↔
      ∀ a ∈ state.bound, number.toRat < a.toRat := by
    rw [Option.all_eq_true]
    refine forall₂_congr fun a ha ↦ ?_
    rw [decide_eq_true_eq, compare_new hnumber (hfits a (h.least a ha).1), compare_lt_iff_lt]
  unfold addBound
  split_ifs with hreplace
  · rwa [if_pos (hiff.mp hreplace)] at hconcat
  · rwa [if_neg (mt hiff.mpr hreplace)] at hconcat

theorem addBound_greatest (hfits : ∀ other ∈ known, Number.Fits other)
    (hnumber : Number.Fits number) (h : Least descending known state.bound) :
    Least descending (known ++ [number]) (state.addBound .gt number).bound := by
  have hconcat := h.concat number
  have hiff : (state.bound.all fun current ↦ decide
      ((NumericKey.new number).compare (NumericKey.new current) = .gt)) = true ↔
      ∀ a ∈ state.bound, descending number < descending a := by
    rw [Option.all_eq_true]
    refine forall₂_congr fun a ha ↦ ?_
    rw [decide_eq_true_eq, compare_new hnumber (hfits a (h.least a ha).1), compare_gt_iff_gt,
      descending, descending, OrderDual.toDual_lt_toDual]
  unfold addBound
  split_ifs with hreplace
  · rwa [if_pos (hiff.mp hreplace)] at hconcat
  · rwa [if_neg (mt hiff.mpr hreplace)] at hconcat

theorem addMagnitude_least (hfits : ∀ other ∈ known, Number.Fits other)
    (hnumber : Number.Fits number)
    (h : Least (fun number ↦ |Number.toRat number|) (nonzero known) state.minimumMagnitude) :
    Least (fun number ↦ |Number.toRat number|) (nonzero (known ++ [number]))
      (state.addMagnitude number).minimumMagnitude := by
  have hsplit : nonzero (known ++ [number]) =
      nonzero known ++ if number.toRat = 0 then [] else [number] := by
    rw [nonzero, List.filter_append, List.filter_singleton]
    by_cases hzero : number.toRat = 0 <;> simp [hzero, nonzero]
  rw [hsplit]
  by_cases hzero : number.toRat = 0
  · rw [if_pos hzero, List.append_nil, addMagnitude,
      if_neg fun hreplace ↦ hreplace.1 ((abs_digits_eq_nil hnumber).mpr hzero)]
    exact h
  · have hconcat := h.concat number
    have hkey {other : Number} (hother : Number.Fits other) :
        (NumericKey.new number).abs.compare (NumericKey.new other).abs =
          Ord.compare |number.toRat| |other.toRat| :=
      NumericKey.compare_denotes (NumericKey.new_denotes hnumber).abs
        (NumericKey.new_denotes hother).abs
    have hiff : ((NumericKey.new number).abs.digits ≠ [] ∧ (state.minimumMagnitude.all
        fun current ↦ decide ((NumericKey.new number).abs.compare (NumericKey.new current).abs =
          .lt)) = true) ↔ ∀ a ∈ state.minimumMagnitude, |number.toRat| < |a.toRat| := by
      rw [Ne, abs_digits_eq_nil hnumber, and_iff_right hzero, Option.all_eq_true]
      refine forall₂_congr fun a ha ↦ ?_
      rw [decide_eq_true_eq, hkey (hfits a (List.mem_of_mem_filter (h.least a ha).1)),
        compare_lt_iff_lt]
    rw [if_neg hzero]
    unfold addMagnitude
    split_ifs with hreplace
    · rwa [if_pos (hiff.mp hreplace)] at hconcat
    · rwa [if_neg (mt hiff.mpr hreplace)] at hconcat

/-- What the other parts of a state are after a bound was added. -/
theorem addBound_same (state : Accumulator) (wanted : Ordering) (number : Number) :
    ∃ bound, state.addBound wanted number = { state with bound := bound } := by
  unfold addBound
  split_ifs
  · exact ⟨some number, rfl⟩
  · exact ⟨state.bound, rfl⟩

theorem addMagnitude_same (state : Accumulator) (number : Number) :
    ∃ minimum, state.addMagnitude number = { state with minimumMagnitude := minimum } := by
  unfold addMagnitude
  split_ifs
  · exact ⟨some number, rfl⟩
  · exact ⟨state.minimumMagnitude, rfl⟩

variable {measure : SnapshotMeasure} {cell : Option Cell}

theorem add_count (hop : measure.op = .count) : state.add measure cell =
    pure (if isAbsent cell then { state with missing := state.missing + 1 }
      else { state with count := state.count + 1 }) := by
  unfold add
  rw [if_pos hop]
  rcases cell with _ | _ | _ | _ | _ <;> rfl

theorem add_other (hop : measure.op ≠ .count) (hcell : numberOf cell = none) :
    state.add measure cell =
      pure (if isAbsent cell || cell.isNone then { state with missing := state.missing + 1 }
        else { state with nonNumeric := state.nonNumeric + 1 }) := by
  unfold add
  rw [if_neg hop]
  rcases cell with _ | _ | _ | _ | _ | number | _ | _ | _
  case some.value.number => cases hcell
  all_goals rfl

/-- How many cells there were of a class. -/
def tally (state : Accumulator) : CellClass → ℕ
  | .counted => state.count
  | .missing => state.missing
  | .nonNumeric => state.nonNumeric

end Accumulator

/-! ## The state after some cells -/

/-- The state describes these cells. -/
structure Accumulated (measure : SnapshotMeasure) (cells : List (Option Cell))
    (state : Accumulator) : Prop where
  tally : ∀ kind, state.tally kind = cells.countP fun cell ↦ classify measure cell = kind
  fits : measure.op ≠ .count → ∀ number ∈ numbers cells, Number.Fits number
  exact : measure.op = .sum → state.floatSum = none →
    state.integerSum = ((numbers cells).filterMap NumericKey.wideInteger).sum
  inexact : state.floatSum.isSome ↔
    measure.op = .sum ∧ ∃ number ∈ numbers cells, NumericKey.wideInteger number = none
  minimum : measure.op = .min → Least Number.toRat (numbers cells) state.bound
  maximum : measure.op = .max → Least descending (numbers cells) state.bound
  magnitude : measure.op = .min →
    Least (fun number ↦ |Number.toRat number|) (nonzero (numbers cells)) state.minimumMagnitude

namespace Accumulated

variable {measure : SnapshotMeasure} {cells : List (Option Cell)} {state state' : Accumulator}
  {budget budget' : WorkBudget}

theorem nil (measure : SnapshotMeasure) : Accumulated measure [] Accumulator.empty := by
  refine ⟨?_, ?_, ?_, ?_, ?_, ?_, ?_⟩
  · rintro (_ | _ | _) <;> rfl
  · simp [numbers]
  · simp [numbers, Accumulator.empty]
  · simp [numbers, Accumulator.empty]
  · exact fun _ ↦ least_nil
  · exact fun _ ↦ least_nil
  · exact fun _ ↦ least_nil

/-- A cell that is no number, or whose number does not matter. -/
theorem step_other (h : Accumulated measure cells state) {cell : Option Cell}
    (hcell : measure.op = .count ∨ numberOf cell = none)
    (htally : ∀ kind, state'.tally kind =
      state.tally kind + if classify measure cell = kind then 1 else 0)
    (hsame : state'.floatSum = state.floatSum ∧ state'.integerSum = state.integerSum ∧
      state'.bound = state.bound ∧ state'.minimumMagnitude = state.minimumMagnitude) :
    Accumulated measure (cells ++ [cell]) state' := by
  obtain ⟨hfloat, hinteger, hbound, hmagnitude⟩ := hsame
  have hnumbers (hop : measure.op ≠ .count) : numbers (cells ++ [cell]) = numbers cells := by
    rw [numbers_concat, hcell.resolve_left hop]
    exact List.append_nil _
  refine ⟨fun kind ↦ ?_, fun hop ↦ ?_, fun hop ↦ ?_, ?_, fun hop ↦ ?_, fun hop ↦ ?_, fun hop ↦ ?_⟩
  · rw [htally, h.tally, List.countP_append, List.countP_singleton]
    simp only [decide_eq_true_eq]
  · rw [hnumbers hop]
    exact h.fits hop
  · rw [hnumbers (by simp [hop]), hfloat, hinteger]
    exact h.exact hop
  · rw [hfloat, h.inexact]
    refine and_congr_right fun hop ↦ ?_
    rw [hnumbers (by simp [hop])]
  · rw [hnumbers (by simp [hop]), hbound]
    exact h.minimum hop
  · rw [hnumbers (by simp [hop]), hbound]
    exact h.maximum hop
  · rw [hnumbers (by simp [hop]), hmagnitude]
    exact h.magnitude hop

/-- A number that is counted. -/
theorem of_number (h : Accumulated measure cells state) (hop : measure.op ≠ .count)
    {number : Number} (hnumber : Number.Fits number)
    (htally : ∀ kind, state'.tally kind =
      ({ state with count := state.count + 1 } : Accumulator).tally kind)
    (exact : measure.op = .sum → state'.floatSum = none →
      state'.integerSum = ((numbers cells ++ [number]).filterMap NumericKey.wideInteger).sum)
    (inexact : state'.floatSum.isSome ↔ measure.op = .sum ∧
      ∃ other ∈ numbers cells ++ [number], NumericKey.wideInteger other = none)
    (minimum : measure.op = .min → Least Number.toRat (numbers cells ++ [number]) state'.bound)
    (maximum : measure.op = .max → Least descending (numbers cells ++ [number]) state'.bound)
    (magnitude : measure.op = .min → Least (fun number ↦ |Number.toRat number|)
      (nonzero (numbers cells ++ [number])) state'.minimumMagnitude) :
    Accumulated measure (cells ++ [some (Cell.value (.number number))]) state' := by
  have hnumbers : numbers (cells ++ [some (Cell.value (.number number))]) =
      numbers cells ++ [number] := numbers_concat cells _
  have hclass : classify measure (some (Cell.value (.number number))) = .counted := by
    rw [classify, if_neg hop]
    rfl
  rw [← hnumbers] at exact inexact minimum maximum magnitude
  refine ⟨fun kind ↦ ?_, fun _ ↦ ?_, exact, inexact, minimum, maximum, magnitude⟩
  · rw [htally, List.countP_append, List.countP_singleton, hclass, ← h.tally]
    cases kind <;> rfl
  · rw [hnumbers]
    intro other hother
    obtain hother | hother := List.mem_append.mp hother
    · exact h.fits hop other hother
    · rw [List.mem_singleton.mp hother]
      exact hnumber

/-- Only a sum can be inexact. -/
theorem floatSum_eq_none (h : Accumulated measure cells state) (hop : measure.op ≠ .sum) :
    state.floatSum = none := by
  rw [← Option.not_isSome_iff_eq_none, h.inexact]
  exact fun hsum ↦ hop hsum.1

theorem step_sum (h : Accumulated measure cells state) (hop : measure.op = .sum)
    {number : Number} (hnumber : Number.Fits number)
    (hadd : ({ state with count := state.count + 1 } : Accumulator).addSum number = .ok state') :
    Accumulated measure (cells ++ [some (Cell.value (.number number))]) state' := by
  have hcount : measure.op ≠ .count := by simp [hop]
  have hmin : measure.op ≠ .min := by simp [hop]
  have hmax : measure.op ≠ .max := by simp [hop]
  have hinexact := h.inexact
  unfold Accumulator.addSum at hadd
  cases hfloat : state.floatSum with
  | some sum =>
    rw [hfloat] at hadd hinexact
    simp only [Check.bind_eq_ok, Check.pure_eq_ok] at hadd
    obtain ⟨value, -, rfl⟩ := hadd
    refine h.of_number hcount hnumber ?_ (by simp) ?_ (absurd · hmin) (absurd · hmax)
      (absurd · hmin)
    · rintro (_ | _ | _) <;> rfl
    · obtain ⟨-, other, hother, hwide⟩ := hinexact.mp rfl
      exact iff_of_true rfl ⟨hop, other, List.mem_append_left _ hother, hwide⟩
  | none =>
    rw [hfloat] at hadd hinexact
    cases hwide : NumericKey.wideInteger number with
    | some integer =>
      rw [hwide] at hadd
      simp only [Check.bind_eq_ok, Check.pure_eq_ok] at hadd
      obtain ⟨_, -, rfl⟩ := hadd
      refine h.of_number hcount hnumber ?_ (fun _ _ ↦ ?_) ?_ (absurd · hmin) (absurd · hmax)
        (absurd · hmin)
      · rintro (_ | _ | _) <;> rfl
      · rw [List.filterMap_append, List.sum_append, ← h.exact hop hfloat, List.filterMap_cons, hwide]
        simp
      · refine iff_of_false (by simp) ?_
        rintro ⟨-, other, hother, hnone⟩
        obtain hother | hother := List.mem_append.mp hother
        · exact absurd (hinexact.mpr ⟨hop, other, hother, hnone⟩) (by simp)
        · rw [List.mem_singleton.mp hother, hwide] at hnone
          cases hnone
    | none =>
      rw [hwide] at hadd
      simp only [Check.bind_eq_ok, Check.pure_eq_ok] at hadd
      obtain ⟨value, -, rfl⟩ := hadd
      refine h.of_number hcount hnumber ?_ (by simp) ?_ (absurd · hmin) (absurd · hmax)
        (absurd · hmin)
      · rintro (_ | _ | _) <;> rfl
      · exact iff_of_true rfl ⟨hop, number, by simp, hwide⟩

theorem step_max (h : Accumulated measure cells state) (hop : measure.op = .max)
    {number : Number} (hnumber : Number.Fits number) :
    Accumulated measure (cells ++ [some (Cell.value (.number number))])
      (Accumulator.addBound { state with count := state.count + 1 } .gt number) := by
  have hcount : measure.op ≠ .count := by simp [hop]
  have hgreatest := @Accumulator.addBound_greatest { state with count := state.count + 1 } _ number
    (h.fits hcount) hnumber (h.maximum hop)
  obtain ⟨bound, hbound⟩ :=
    Accumulator.addBound_same { state with count := state.count + 1 } .gt number
  rw [hbound] at hgreatest ⊢
  refine h.of_number hcount hnumber ?_ (by simp [hop]) ?_ (by simp [hop]) (fun _ ↦ hgreatest)
    (by simp [hop])
  · rintro (_ | _ | _) <;> rfl
  · simp [hop, h.floatSum_eq_none]

theorem step_min (h : Accumulated measure cells state) (hop : measure.op = .min)
    {number : Number} (hnumber : Number.Fits number) :
    Accumulated measure (cells ++ [some (Cell.value (.number number))])
      ((Accumulator.addMagnitude { state with count := state.count + 1 } number).addBound .lt
        number) := by
  have hcount : measure.op ≠ .count := by simp [hop]
  have hmagnitude := @Accumulator.addMagnitude_least { state with count := state.count + 1 } _
    number (h.fits hcount) hnumber (h.magnitude hop)
  obtain ⟨minimum, hminimum⟩ :=
    Accumulator.addMagnitude_same { state with count := state.count + 1 } number
  rw [hminimum] at hmagnitude ⊢
  have hleast := @Accumulator.addBound_least
    { state with count := state.count + 1, minimumMagnitude := minimum } _ number
    (h.fits hcount) hnumber (h.minimum hop)
  obtain ⟨bound, hbound⟩ := Accumulator.addBound_same
    { state with count := state.count + 1, minimumMagnitude := minimum } .lt number
  rw [hbound] at hleast ⊢
  refine h.of_number hcount hnumber ?_ (by simp [hop]) ?_ (fun _ ↦ hleast) (by simp [hop])
    (fun _ ↦ hmagnitude)
  · rintro (_ | _ | _) <;> rfl
  · simp [hop, h.floatSum_eq_none]

theorem step (h : Accumulated measure cells state) {cell : Option Cell}
    (hadd : (state.add measure cell).Returns budget state' budget') :
    Accumulated measure (cells ++ [cell]) state' := by
  by_cases hop : measure.op = .count
  · rw [Accumulator.add_count hop, Script.returns_pure] at hadd
    obtain ⟨rfl, -⟩ := hadd
    refine h.step_other (Or.inl hop) (fun kind ↦ ?_) ?_
    · rw [classify, if_pos hop]
      cases isAbsent cell <;> cases kind <;> rfl
    · cases isAbsent cell <;> exact ⟨rfl, rfl, rfl, rfl⟩
  cases hnumber : numberOf cell with
  | none =>
    rw [Accumulator.add_other hop hnumber, Script.returns_pure] at hadd
    obtain ⟨rfl, -⟩ := hadd
    have hclass : classify measure cell =
        if isAbsent cell || cell.isNone then .missing else .nonNumeric := by
      rw [classify, if_neg hop, hnumber]
      rfl
    refine h.step_other (Or.inr hnumber) (fun kind ↦ ?_) ?_
    · rw [hclass]
      cases isAbsent cell || cell.isNone <;> cases kind <;> rfl
    · cases isAbsent cell || cell.isNone <;> exact ⟨rfl, rfl, rfl, rfl⟩
  | some number =>
    obtain rfl := eq_of_numberOf hnumber
    unfold Accumulator.add at hadd
    rw [if_neg hop] at hadd
    simp only [Accumulator.addNumber, Script.returns_bind] at hadd
    obtain ⟨_, _, htext, hadd⟩ := hadd
    have hfits : Number.Fits number := by
      have hbytes := WorkBudget.text_le htext
      have hlength := length_le_utf8Len number.chars
      unfold MAX_TEXT_WORK at hbytes
      unfold Number.Fits
      omega
    cases hmeasure : measure.op with
    | count => exact absurd hmeasure hop
    | sum =>
      rw [hmeasure] at hadd
      exact h.step_sum hmeasure hfits (Script.returns_check.mp hadd).1
    | min =>
      rw [hmeasure] at hadd
      obtain ⟨_, _, -, hadd⟩ := Script.returns_bind.mp hadd
      rw [← (Script.returns_pure.mp hadd).1]
      exact h.step_min hmeasure hfits
    | max =>
      rw [hmeasure] at hadd
      rw [← (Script.returns_pure.mp hadd).1]
      exact h.step_max hmeasure hfits

theorem count_eq (h : Accumulated measure cells state) (hop : measure.op ≠ .count) :
    state.count = (numbers cells).length :=
  (h.tally .counted).trans (countP_counted hop cells)

end Accumulated

/-! ## Results -/

/-- The rational number a cell shows. -/
def cellValue (cell : TableCell) : Option ℚ :=
  if cell.kind = .number then (Number.read cell.text.toList).map Number.toRat else none

theorem cellValue_number (number : Number) : cellValue (numericCell number.chars) = some number.toRat := by
  unfold cellValue numericCell
  dsimp only
  rw [if_pos rfl, String.toList_ofList, Number.read_chars]
  rfl

theorem chars_ofInt (z : ℤ) : (Number.ofInt z).chars = printInt z := by
  cases z with
  | ofNat n =>
    rw [printInt, printNat_eq]
    simp [Number.chars, Number.ofInt]
  | negSucc n =>
    rw [printInt, printNat_eq]
    simp [Number.chars, Number.ofInt]

theorem cellValue_int (z : ℤ) : cellValue (numericCell (printInt z)) = some (z : ℚ) := by
  rw [← chars_ofInt, cellValue_number, Number.toRat_of_isInteger ⟨rfl, rfl⟩,
    Number.integerValue_ofInt]

/-- A number without its sign. -/
def unsigned (number : Number) : Number := { number with negative := false }

theorem digitChar_ne_minus (digit : Fin 10) : digitChar digit ≠ '-' := by
  revert digit
  decide

theorem chars_unsigned (number : Number) :
    (number.chars.dropWhile fun c ↦ c = '-') = (unsigned number).chars := by
  obtain ⟨first, rest, hdigits⟩ := List.exists_cons_of_ne_nil number.integer_ne_nil
  have hfirst : digitChar first ≠ '-' := digitChar_ne_minus first
  cases hnegative : number.negative <;>
    simp [Number.chars, unsigned, hnegative, hdigits, hfirst]

theorem toRat_unsigned (number : Number) : (unsigned number).toRat = |number.toRat| := by
  unfold Number.toRat unsigned
  dsimp only
  rw [if_neg Bool.false_ne_true]
  split_ifs
  · rw [abs_neg, abs_of_nonneg (by positivity)]
  · rw [abs_of_nonneg (by positivity)]

theorem cellValue_magnitude (number : Number) :
    cellValue (numericCell (number.chars.dropWhile fun c ↦ c = '-')) = some |number.toRat| := by
  rw [chars_unsigned, cellValue_number, toRat_unsigned]

theorem cellValue_missing : cellValue (preview .missing) = none := rfl

/-- A value is what the measure is of these cells, whatever their order.  A sum of integers and
bounds are exact; where there is no number, none is shown. -/
structure Describes (measure : SnapshotMeasure) (cells : List (Option Cell))
    (value : SnapshotAggregateValue) : Prop where
  count : value.count = cells.countP fun cell ↦ classify measure cell = .counted
  missing : value.missing = cells.countP fun cell ↦ classify measure cell = .missing
  nonNumeric : value.nonNumeric = cells.countP fun cell ↦ classify measure cell = .nonNumeric
  approximate : value.approximate = true ↔
    measure.op = .sum ∧ ∃ number ∈ numbers cells, NumericKey.wideInteger number = none
  counts : measure.op = .count → cellValue value.value = some (value.count : ℚ)
  sum : measure.op = .sum → value.approximate = false → cellValue value.value =
    if numbers cells = [] then none
    else some (((numbers cells).map Number.toRat).sum)
  minimum : measure.op = .min → ∃ found, Least Number.toRat (numbers cells) found ∧
    cellValue value.value = found.map Number.toRat
  maximum : measure.op = .max → ∃ found, Least descending (numbers cells) found ∧
    cellValue value.value = found.map Number.toRat
  magnitude : measure.op = .min → ∃ found,
    Least (fun number ↦ |Number.toRat number|) (nonzero (numbers cells)) found ∧
    value.minimumMagnitude.bind cellValue = found.map fun number ↦ |number.toRat|
  unmeasured : measure.op ≠ .min → value.minimumMagnitude = none

theorem sum_toRat_wide {known : List Number}
    (h : ∀ number ∈ known, NumericKey.wideInteger number ≠ none) :
    (known.map Number.toRat).sum = ((known.filterMap NumericKey.wideInteger).sum : ℤ) := by
  induction known with
  | nil => simp
  | cons number rest ih =>
    rw [List.forall_mem_cons] at h
    obtain ⟨integer, hinteger⟩ := Option.ne_none_iff_exists'.mp h.1
    rw [List.map_cons, List.sum_cons, ih h.2, List.filterMap_cons, hinteger, List.sum_cons,
      NumericKey.wideInteger_eq hinteger]
    push_cast
    rfl

theorem Accumulated.finish {measure : SnapshotMeasure} {cells : List (Option Cell)}
    {state : Accumulator} {value : SnapshotAggregateValue} {runtime : Runtime}
    (h : Accumulated measure cells state) (hfinish : state.finish runtime measure = .ok value) :
    Describes measure cells value := by
  simp only [Accumulator.finish, Check.bind_eq_ok, Check.pure_eq_ok] at hfinish
  obtain ⟨cell, hresult, rfl⟩ := hfinish
  unfold Accumulator.result at hresult
  have hempty (hop : measure.op ≠ .count) : state.count = 0 ↔ numbers cells = [] := by
    rw [h.count_eq hop, List.length_eq_zero_iff]
  have hbound (hop : measure.op ≠ .count) (hop' : measure.op ≠ .sum)
      (hnone : state.bound = none ↔ numbers cells = []) :
      cellValue cell = state.bound.map Number.toRat := by
    rw [if_neg hop] at hresult
    split_ifs at hresult with hzero
    · rw [← Except.ok.inj hresult, hnone.mpr ((hempty hop).mp hzero)]
      rfl
    · obtain ⟨number, hnumber⟩ := Option.ne_none_iff_exists'.mp
        (mt hnone.mp (mt (hempty hop).mpr hzero))
      rw [← Except.ok.inj hresult, hnumber, Option.elim_some, cellValue_number]
      rfl
  refine ⟨h.tally .counted, h.tally .missing, h.tally .nonNumeric, h.inexact, fun hop ↦ ?_,
    fun hop hexact ↦ ?_, fun hop ↦ ⟨state.bound, h.minimum hop, ?_⟩,
    fun hop ↦ ⟨state.bound, h.maximum hop, ?_⟩, fun hop ↦ ⟨_, h.magnitude hop, ?_⟩,
    fun hop ↦ if_neg hop⟩
  · rw [if_pos hop] at hresult
    rw [← Except.ok.inj hresult]
    exact cellValue_int state.count
  · have hcount : measure.op ≠ .count := by simp [hop]
    have hfloat : state.floatSum = none := Option.not_isSome_iff_eq_none.mp (by simpa using hexact)
    rw [if_neg hcount, if_pos hop, hfloat] at hresult
    have hwide : ∀ number ∈ numbers cells, NumericKey.wideInteger number ≠ none := by
      intro number hnumber hnone
      have hsome := h.inexact.mpr ⟨hop, number, hnumber, hnone⟩
      rw [hfloat] at hsome
      cases hsome
    by_cases hzero : state.count = 0
    · rw [if_pos hzero] at hresult
      rw [if_pos ((hempty hcount).mp hzero), ← Except.ok.inj hresult]
      exact cellValue_missing
    · rw [if_neg hzero] at hresult
      rw [if_neg (mt (hempty hcount).mpr hzero), ← Except.ok.inj hresult, h.exact hop hfloat,
        sum_toRat_wide hwide]
      exact cellValue_int _
  · exact hbound (by simp [hop]) (by simp [hop]) (h.minimum hop).none_iff
  · exact hbound (by simp [hop]) (by simp [hop]) (h.maximum hop).none_iff
  · rw [if_pos hop, Option.bind_some]
    cases state.minimumMagnitude with
    | none => rfl
    | some number => exact cellValue_magnitude number

/-- A number that was found, in its own spelling. -/
def foundCell (found : Option Number) : TableCell :=
  found.elim (preview .missing) fun number ↦ numericCell number.chars

/-- A count and the bounds are shown as texts of digits, a bound in the spelling of its cell. -/
structure Spelled (measure : SnapshotMeasure) (cells : List (Option Cell))
    (value : SnapshotAggregateValue) : Prop where
  counts : measure.op = .count → value.value = numericCell (printNat value.count)
  minimum : measure.op = .min → ∃ found, Least Number.toRat (numbers cells) found ∧
    value.value = foundCell found
  maximum : measure.op = .max → ∃ found, Least descending (numbers cells) found ∧
    value.value = foundCell found
  magnitude : measure.op = .min → ∃ found,
    Least (fun number ↦ |Number.toRat number|) (nonzero (numbers cells)) found ∧
    value.minimumMagnitude = some (foundCell (found.map unsigned))

theorem Accumulated.spelled {measure : SnapshotMeasure} {cells : List (Option Cell)}
    {state : Accumulator} {value : SnapshotAggregateValue} {runtime : Runtime}
    (h : Accumulated measure cells state) (hfinish : state.finish runtime measure = .ok value) :
    Spelled measure cells value := by
  simp only [Accumulator.finish, Check.bind_eq_ok, Check.pure_eq_ok] at hfinish
  obtain ⟨cell, hresult, rfl⟩ := hfinish
  unfold Accumulator.result at hresult
  have hbound (hop : measure.op ≠ .count) (hop' : measure.op ≠ .sum)
      (hnone : state.bound = none ↔ numbers cells = []) : cell = foundCell state.bound := by
    have hempty : state.count = 0 ↔ state.bound = none := by
      rw [h.count_eq hop, List.length_eq_zero_iff, hnone]
    rw [if_neg hop] at hresult
    split_ifs at hresult with hzero
    · rw [← Except.ok.inj hresult, hempty.mp hzero]
      rfl
    · obtain ⟨number, hnumber⟩ := Option.ne_none_iff_exists'.mp (mt hempty.mpr hzero)
      rw [← Except.ok.inj hresult, hnumber]
      rfl
  refine ⟨fun hop ↦ ?_, fun hop ↦ ⟨state.bound, h.minimum hop, ?_⟩,
    fun hop ↦ ⟨state.bound, h.maximum hop, ?_⟩,
    fun hop ↦ ⟨state.minimumMagnitude, h.magnitude hop, ?_⟩⟩
  · rw [if_pos hop] at hresult
    exact (Except.ok.inj hresult).symm
  · exact hbound (by simp [hop]) (by simp [hop]) (h.minimum hop).none_iff
  · exact hbound (by simp [hop]) (by simp [hop]) (h.maximum hop).none_iff
  · rw [if_pos hop]
    cases state.minimumMagnitude with
    | none => rfl
    | some number =>
      rw [Option.elim_some, chars_unsigned]
      rfl

/-- The values show the same numbers, though perhaps in other spellings; a sum of doubles depends on
the order of its terms. -/
structure SameValue (value value' : SnapshotAggregateValue) : Prop where
  count : value.count = value'.count
  missing : value.missing = value'.missing
  nonNumeric : value.nonNumeric = value'.nonNumeric
  approximate : value.approximate = value'.approximate
  exact : value.approximate = false → cellValue value.value = cellValue value'.value
  magnitude : value.minimumMagnitude.bind cellValue = value'.minimumMagnitude.bind cellValue

namespace Describes

variable {measure : SnapshotMeasure} {cells cells' : List (Option Cell)}
  {value value' : SnapshotAggregateValue}

theorem perm (h : Describes measure cells value) (hperm : cells'.Perm cells) :
    Describes measure cells' value := by
  have hnumbers := numbers_perm hperm
  have hnonzero : (nonzero (numbers cells')).Perm (nonzero (numbers cells)) := hnumbers.filter _
  refine ⟨h.count.trans (hperm.countP_eq _).symm, h.missing.trans (hperm.countP_eq _).symm,
    h.nonNumeric.trans (hperm.countP_eq _).symm, ?_, h.counts, fun hop hexact ↦ ?_,
    fun hop ↦ ?_, fun hop ↦ ?_, fun hop ↦ ?_, h.unmeasured⟩
  · rw [h.approximate]
    simp only [hnumbers.mem_iff]
  · rw [h.sum hop hexact, (hnumbers.map Number.toRat).sum_eq]
    by_cases hnil : numbers cells = []
    · rw [if_pos hnil, if_pos (hnil ▸ hnumbers).eq_nil]
    · rw [if_neg hnil, if_neg fun hnil' ↦ hnil (hnil' ▸ hnumbers).symm.eq_nil]
  · obtain ⟨found, hleast, hvalue⟩ := h.minimum hop
    exact ⟨found, hleast.perm hnumbers, hvalue⟩
  · obtain ⟨found, hleast, hvalue⟩ := h.maximum hop
    exact ⟨found, hleast.perm hnumbers, hvalue⟩
  · obtain ⟨found, hleast, hvalue⟩ := h.magnitude hop
    exact ⟨found, hleast.perm hnonzero, hvalue⟩

/-- What is shown of the same cells is the same. -/
theorem same (h : Describes measure cells value) (h' : Describes measure cells value') :
    SameValue value value' := by
  have hcount : value.count = value'.count := h.count.trans h'.count.symm
  have happroximate : value.approximate = value'.approximate := by
    rw [Bool.eq_iff_iff, h.approximate, h'.approximate]
  refine ⟨hcount, h.missing.trans h'.missing.symm, h.nonNumeric.trans h'.nonNumeric.symm,
    happroximate, fun hexact ↦ ?_, ?_⟩
  · cases hop : measure.op with
    | count => rw [h.counts hop, h'.counts hop, hcount]
    | sum => rw [h.sum hop hexact, h'.sum hop (happroximate ▸ hexact)]
    | min =>
      obtain ⟨found, hleast, hvalue⟩ := h.minimum hop
      obtain ⟨found', hleast', hvalue'⟩ := h'.minimum hop
      rw [hvalue, hvalue', hleast.key_eq hleast']
    | max =>
      obtain ⟨found, hleast, hvalue⟩ := h.maximum hop
      obtain ⟨found', hleast', hvalue'⟩ := h'.maximum hop
      rw [hvalue, hvalue']
      exact hleast.key_eq hleast'
  · by_cases hop : measure.op = .min
    · obtain ⟨found, hleast, hvalue⟩ := h.magnitude hop
      obtain ⟨found', hleast', hvalue'⟩ := h'.magnitude hop
      rw [hvalue, hvalue']
      exact hleast.key_eq hleast'
    · rw [h.unmeasured hop, h'.unmeasured hop]

/-- Every cell is counted once. -/
theorem total (h : Describes measure cells value) :
    value.count + value.missing + value.nonNumeric = cells.length := by
  rw [h.count, h.missing, h.nonNumeric, countP_classify]

end Describes

end Rvx.Tables
