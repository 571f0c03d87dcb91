import Rvx.Lib.StableSort

/-!
# Paging

A listing that is read page by page.  A page is cut by a count, or before the first row that does
not fit its budget; the cursor of the next page is the last row listed.  As long as new rows enter
the listing ahead of all others, the pages that follow one another list every row once and in order.
-/

namespace Rvx.Paging

open StableSort

variable {ρ β γ κ ε : Type}

/-! ## One page -/

/-- Fill a page with rows.  `accept` turns a row into its item and the budget used up with it, or
into nothing when it does not fit.  The flag tells whether rows were left out. -/
def fill (accept : ℕ → ρ → Except ε (Option (β × ℕ))) (tooLarge : ε) (limit : ℕ) :
    ℕ → List β → List ρ → Except ε (List β × Bool)
  | _, items, [] => .ok (items, false)
  | used, items, row :: rest =>
    if items.length = limit then .ok (items, true)
    else match accept used row with
      | .error error => .error error
      | .ok none => if items.isEmpty then .error tooLarge else .ok (items, true)
      | .ok (some (item, used)) => fill accept tooLarge limit used (items ++ [item]) rest

/-- The rows become their items, and each of them fits a page of its own. -/
structure Accepts (accept : ℕ → ρ → Except ε (Option (β × ℕ))) (start : ℕ) (item : ρ → β)
    (rows : List ρ) : Prop where
  sound : ∀ row ∈ rows, ∀ used,
    accept used row = .ok none ∨ ∃ used', accept used row = .ok (some (item row, used'))
  fits : ∀ row ∈ rows, ∃ used', accept start row = .ok (some (item row, used'))

variable {accept : ℕ → ρ → Except ε (Option (β × ℕ))} {limit start : ℕ} {item : ρ → β}

/-- A page that holds some items takes a part of the rows from the front. -/
theorem fill_take {rows : List ρ} (h : Accepts accept start item rows) (tooLarge : ε)
    (hlimit : 0 < limit) {used : ℕ} (items : List β) (hitems : items.length ≤ limit)
    (hstart : items = [] → used = start) :
    ∃ count, (items = [] → rows ≠ [] → 0 < count) ∧
      fill accept tooLarge limit used items (rows.take (limit + 1 - items.length)) =
        .ok (items ++ (rows.take count).map item, decide (count < rows.length)) := by
  induction rows generalizing used items with
  | nil => exact ⟨0, fun _ hne ↦ absurd rfl hne, by simp [fill]⟩
  | cons row rest ih =>
    have htake : limit + 1 - items.length = limit - items.length + 1 := by omega
    rw [htake, List.take_succ_cons, fill]
    by_cases hfull : items.length = limit
    · refine ⟨0, fun hempty ↦ ?_, by simp [hfull]⟩
      rw [hempty, List.length_nil] at hfull
      omega
    · rw [if_neg hfull]
      rcases h.sound row List.mem_cons_self used with hnone | ⟨used', hsome⟩
      · have hne : items ≠ [] := by
          intro hempty
          obtain ⟨used', hfits⟩ := h.fits row List.mem_cons_self
          rw [hstart hempty, hfits] at hnone
          simp at hnone
        refine ⟨0, fun hempty ↦ absurd hempty hne, ?_⟩
        simp [hnone, hne]
      · have hrest : Accepts accept start item rest :=
          ⟨fun other hother ↦ h.sound other (List.mem_cons_of_mem row hother),
            fun other hother ↦ h.fits other (List.mem_cons_of_mem row hother)⟩
        have hlength : (items ++ [item row]).length ≤ limit := by
          rw [List.length_append, List.length_singleton]
          omega
        obtain ⟨count, -, hcount⟩ := @ih hrest used' (items ++ [item row]) hlength (by simp)
        refine ⟨count + 1, fun _ _ ↦ Nat.succ_pos count, ?_⟩
        have hleft : limit + 1 - (items ++ [item row]).length = limit - items.length := by
          rw [List.length_append, List.length_singleton]
          omega
        rw [hleft] at hcount
        simp [hsome, hcount]

/-- A page lists a nonempty part of the rows from the front, and tells whether there are more. -/
theorem fill_spec {rows : List ρ} (h : Accepts accept start item rows) (tooLarge : ε)
    (hlimit : 0 < limit) :
    ∃ count, (rows ≠ [] → 0 < count) ∧
      fill accept tooLarge limit start [] (rows.take (limit + 1)) =
        .ok ((rows.take count).map item, decide (count < rows.length)) := by
  obtain ⟨count, hpos, hfill⟩ :=
    fill_take h tooLarge hlimit [] (Nat.zero_le limit) fun _ ↦ rfl
  exact ⟨count, hpos rfl, by simpa using hfill⟩

/-! ## Walks -/

/-- The items of all pages from a cursor on; the page number `n` is read by `read n`. -/
inductive Walk (read : ℕ → Option γ → Except ε (List β × Option γ)) :
    ℕ → Option γ → List β → Prop
  | last {n : ℕ} {cursor : Option γ} {items : List β} :
    read n cursor = .ok (items, none) → Walk read n cursor items
  | more {n : ℕ} {cursor : Option γ} {items later : List β} {next : γ} :
    read n cursor = .ok (items, some next) → Walk read (n + 1) (some next) later →
      Walk read n cursor (items ++ later)

theorem Walk.unique {read : ℕ → Option γ → Except ε (List β × Option γ)} {n : ℕ}
    {cursor : Option γ} {items items' : List β} (h : Walk read n cursor items)
    (h' : Walk read n cursor items') : items = items' := by
  induction h generalizing items' with
  | last hread =>
    cases h' with
    | last hread' => simpa [hread] using hread'
    | more hread' _ => simp [hread] at hread'
  | more hread _ ih =>
    cases h' with
    | last hread' => simp [hread] at hread'
    | more hread' hrest =>
      simp only [hread, Except.ok.injEq, Prod.mk.injEq, Option.some.injEq] at hread'
      obtain ⟨rfl, rfl⟩ := hread'
      rw [ih hrest]

/-! ## Ordered listings -/

/-- What the read number `n` lists from a cursor on: the matching rows after the cursor in the order
of their keys.  Matching rows stay, and a row that starts to match comes before those that matched
already. -/
structure Listing [LinearOrder κ] (key : ρ → κ) (after : γ → ρ → Prop) (cursorOf : ρ → γ)
    (matching : ℕ → ρ → Prop) (full : ℕ → Option γ → List ρ) : Prop where
  ordered : ∀ n cursor, (full n cursor).Pairwise fun row other ↦ key row < key other
  mem : ∀ n cursor row, row ∈ full n cursor ↔ matching n row ∧ ∀ c ∈ cursor, after c row
  after_cursorOf : ∀ n last row, matching n last → (after (cursorOf last) row ↔ key last < key row)
  after_trans : ∀ c row later, after c row → key row < key later → after c later
  stays : ∀ n row, matching n row → matching (n + 1) row
  ahead : ∀ n row later, matching n row → matching (n + 1) later → key row < key later →
    matching n later

section Listing

variable [LinearOrder κ] {key : ρ → κ} {after : γ → ρ → Prop} {cursorOf : ρ → γ}
  {matching : ℕ → ρ → Prop} {full : ℕ → Option γ → List ρ}

/-- After the last row of a page comes, in the next read, what was left. -/
theorem Listing.next (h : Listing key after cursorOf matching full) {n : ℕ} {cursor : Option γ}
    {page later : List ρ} {last : ρ} (hsplit : full n cursor = page ++ last :: later) :
    full (n + 1) (some (cursorOf last)) = later := by
  have hordered := h.ordered n cursor
  rw [hsplit, List.pairwise_append, List.pairwise_cons] at hordered
  obtain ⟨-, ⟨hlast, hlater⟩, hpage⟩ := hordered
  have hmatches : matching n last := by
    have hmem : last ∈ full n cursor := by simp [hsplit]
    exact ((h.mem n cursor last).mp hmem).1
  apply eq_of_ordered (h.ordered (n + 1) _) hlater
  intro row
  simp only [h.mem, Option.mem_some_iff, forall_eq', h.after_cursorOf n last row hmatches]
  constructor
  · rintro ⟨hmatching, hafter⟩
    have hcursor : ∀ c ∈ cursor, after c row := by
      intro c hc
      have hmem : last ∈ full n cursor := by simp [hsplit]
      exact h.after_trans c last row (((h.mem n cursor last).mp hmem).2 c hc) hafter
    have hmem : row ∈ full n cursor :=
      (h.mem n cursor row).mpr ⟨h.ahead n last row hmatches hmatching hafter, hcursor⟩
    rw [hsplit, List.mem_append, List.mem_cons] at hmem
    rcases hmem with hin | rfl | hin
    · exact absurd (hpage row hin last List.mem_cons_self) (lt_asymm hafter)
    · exact absurd hafter (lt_irrefl _)
    · exact hin
  · intro hin
    have hmem : row ∈ full n cursor := by simp [hsplit, hin]
    exact ⟨h.stays n row ((h.mem n cursor row).mp hmem).1, hlast row hin⟩

/-- A read answers with a part of the listing from the front, not empty unless the listing is, and
with the cursor of the last row when there are more. -/
def Answers (cursorOf : ρ → γ) (item : ρ → β) (rows : List ρ)
    (answer : Except ε (List β × Option γ)) : Prop :=
  ∃ count, (rows ≠ [] → 0 < count) ∧ answer = .ok ((rows.take count).map item,
    if count < rows.length then (rows.take count).getLast?.map cursorOf else none)

/-- The pages that follow one another list every row once and in order. -/
theorem Listing.walk_iff (h : Listing key after cursorOf matching full) {valid : γ → Prop}
    (hvalid : ∀ n row, matching n row → valid (cursorOf row))
    {read : ℕ → Option γ → Except ε (List β × Option γ)}
    (hread : ∀ n cursor, (∀ c ∈ cursor, valid c) →
      Answers cursorOf item (full n cursor) (read n cursor))
    {n : ℕ} {cursor : Option γ} (hcursor : ∀ c ∈ cursor, valid c) {items : List β} :
    Walk read n cursor items ↔ items = (full n cursor).map item := by
  -- the walk goes down in the number of rows that are left
  have hwalk : ∀ length n cursor, (∀ c ∈ cursor, valid c) → (full n cursor).length = length →
      Walk read n cursor ((full n cursor).map item) := by
    intro length
    induction length using Nat.strong_induction_on with
    | _ length ih =>
      intro n cursor hcursor hlength
      obtain ⟨count, hpos, hanswer⟩ := hread n cursor hcursor
      by_cases hmore : count < (full n cursor).length
      · have hne : full n cursor ≠ [] := List.ne_nil_of_length_pos (by omega)
        have hpage : (full n cursor).take count ≠ [] := by
          apply List.ne_nil_of_length_pos
          rw [List.length_take]
          have := hpos hne
          omega
        obtain ⟨page, last, hlast⟩ : ∃ page last, (full n cursor).take count = page ++ [last] :=
          ⟨_, _, (List.dropLast_append_getLast hpage).symm⟩
        have hsplit : full n cursor = page ++ last :: (full n cursor).drop count := by
          calc
            _ = (full n cursor).take count ++ (full n cursor).drop count :=
              (List.take_append_drop count _).symm
            _ = _ := by rw [hlast, List.append_assoc, List.singleton_append]
        have hnext := h.next hsplit
        have hmem : last ∈ full n cursor := by
          rw [hsplit]
          simp
        have hlater : (full (n + 1) (some (cursorOf last))).length < length := by
          rw [hnext, List.length_drop]
          have := hpos hne
          omega
        have hrest := ih _ hlater (n + 1) (some (cursorOf last)) (by
          intro c hc
          rw [Option.mem_some_iff] at hc
          exact hc ▸ hvalid n last ((h.mem n cursor last).mp hmem).1) rfl
        rw [if_pos hmore, hlast, List.getLast?_concat, Option.map_some] at hanswer
        have hitems : (full n cursor).map item = (page ++ [last]).map item ++
            (full (n + 1) (some (cursorOf last))).map item := by
          rw [hnext, ← hlast, ← List.map_append, List.take_append_drop]
        rw [hitems]
        exact .more hanswer hrest
      · rw [if_neg hmore, List.take_of_length_le (not_lt.mp hmore)] at hanswer
        exact .last hanswer
  constructor
  · exact fun hother ↦ hother.unique (hwalk _ n cursor hcursor rfl)
  · rintro rfl
    exact hwalk _ n cursor hcursor rfl

end Listing

/-! ## Complete pagination -/

/-- The pages from a cursor on come to an end, and list the matching items, each once and every one
before those that are later. -/
def ListsOnce (read : ℕ → Option γ → Except ε (List β × Option γ)) (cursor : Option γ)
    (before : β → β → Prop) (matching : β → Prop) : Prop :=
  ∃ items, (∀ items', Walk read 0 cursor items' ↔ items' = items) ∧ items.Pairwise before ∧
    ∀ item, item ∈ items ↔ matching item

/-- Pages whose items are the images of some rows list them once. -/
theorem listsOnce_of_map {read : ℕ → Option γ → Except ε (List β × Option γ)} {cursor : Option γ}
    {before : β → β → Prop} {matching : β → Prop} {rows : List ρ} {item : ρ → β}
    (hwalk : ∀ items, Walk read 0 cursor items ↔ items = rows.map item)
    (hordered : rows.Pairwise fun row other ↦ before (item row) (item other))
    (hmatching : ∀ value, (∃ row ∈ rows, item row = value) ↔ matching value) :
    ListsOnce read cursor before matching := by
  refine ⟨rows.map item, hwalk, List.pairwise_map.mpr hordered, fun value ↦ ?_⟩
  rw [List.mem_map, hmatching]

end Rvx.Paging
