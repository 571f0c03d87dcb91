import Mathlib.Algebra.BigOperators.Group.List.Basic
import Mathlib.Algebra.GroupWithZero.Nat
import Mathlib.Data.List.Basic
import Mathlib.Data.List.Perm.Basic
import Mathlib.Order.MinMax

/-!
# Round robin

Lists take turns: in every round each list gives its next element, and an exhausted list is skipped.
A queue that puts a list back behind the others after every turn gives the same listing.
-/

namespace Rvx.RoundRobin

variable {α : Type}

/-- What the lists give in a round. -/
def turn (lists : List (List α)) (round : ℕ) : List α := lists.filterMap fun list ↦ list[round]?

/-- What the lists give in `count` rounds from `first` on. -/
def turns (lists : List (List α)) (first count : ℕ) : List α :=
  (List.range' first count).flatMap (turn lists)

/-- The length of the longest list. -/
def longest (lists : List (List α)) : ℕ := (lists.map List.length).foldr max 0

/-- The lists take turns until all are exhausted. -/
def listing (lists : List (List α)) : List α := turns lists 0 (longest lists)

theorem length_le_longest {lists : List (List α)} {list : List α} (h : list ∈ lists) :
    list.length ≤ longest lists := by
  induction lists with
  | nil => cases h
  | cons first rest ih =>
    cases List.mem_cons.mp h with
    | inl heq => exact heq ▸ le_max_left _ _
    | inr hmem => exact (ih hmem).trans (le_max_right _ _)

theorem longest_le {lists : List (List α)} {bound : ℕ} :
    longest lists ≤ bound ↔ ∀ list ∈ lists, list.length ≤ bound := by
  induction lists with
  | nil => simp [longest]
  | cons first rest ih =>
    rw [List.forall_mem_cons, ← ih]
    exact max_le_iff

theorem turn_cons (list : List α) (rest : List (List α)) (round : ℕ) :
    turn (list :: rest) round = list[round]?.toList ++ turn rest round := by
  rw [turn, List.filterMap_cons]
  cases list[round]? <;> rfl

theorem turn_eq_nil {lists : List (List α)} {round : ℕ} (h : longest lists ≤ round) :
    turn lists round = [] := by
  rw [turn, List.filterMap_eq_nil_iff]
  exact fun list hlist ↦ List.getElem?_eq_none ((longest_le.mp h) list hlist)

/-- Taking turns commutes with a map. -/
theorem listing_map {β : Type} (f : α → β) (lists : List (List α)) :
    listing (lists.map (List.map f)) = (listing lists).map f := by
  have hturn (round : ℕ) : turn (lists.map (List.map f)) round = (turn lists round).map f := by
    rw [turn, turn, List.filterMap_map, List.map_filterMap]
    apply congrArg (List.filterMap · lists)
    funext list
    simp
  have hlongest : longest (lists.map (List.map f)) = longest lists := by
    simp [longest, Function.comp_def]
  rw [listing, listing, hlongest, turns, turns, List.map_flatMap]
  apply congrArg (List.flatMap · (List.range' 0 (longest lists)))
  funext round
  exact hturn round

/-! ## Lengths -/

theorem length_turn (lists : List (List α)) (count : ℕ) :
    (lists.map fun list ↦ min list.length count).sum + (turn lists count).length =
      (lists.map fun list ↦ min list.length (count + 1)).sum := by
  induction lists with
  | nil => rfl
  | cons list rest ih =>
    rw [turn_cons, List.length_append, List.map_cons, List.map_cons, List.sum_cons, List.sum_cons,
      ← ih]
    have hturn : list[count]?.toList.length = if count < list.length then 1 else 0 := by
      split_ifs with hless
      · rw [List.getElem?_eq_getElem hless]
        rfl
      · rw [List.getElem?_eq_none (by omega)]
        rfl
    rw [hturn]
    split_ifs <;> omega

theorem turns_succ (lists : List (List α)) (first count : ℕ) :
    turns lists first (count + 1) = turns lists first count ++ turn lists (first + count) := by
  rw [turns, turns, List.range'_concat, List.flatMap_append, Nat.one_mul]
  simp

theorem turns_congr {lists lists' : List (List α)} {first count : ℕ}
    (h : ∀ round < count, turn lists round = turn lists' (first + round)) :
    turns lists 0 count = turns lists' first count := by
  induction count with
  | zero => rfl
  | succ count ih =>
    rw [turns_succ, turns_succ, ih fun round hround ↦ h round (by omega), Nat.zero_add,
      h count (Nat.lt_succ_self count)]

theorem turns_append (lists : List (List α)) (first count more : ℕ) :
    turns lists first count ++ turns lists (first + count) more =
      turns lists first (count + more) := by
  rw [turns, turns, turns, ← List.flatMap_append, List.range'_append_1]

/-- A list gives one element in each round until it is exhausted. -/
theorem length_turns (lists : List (List α)) (count : ℕ) :
    (turns lists 0 count).length = (lists.map fun list ↦ min list.length count).sum := by
  induction count with
  | zero => simp [turns]
  | succ count ih =>
    rw [turns_succ, List.length_append, ih, Nat.zero_add]
    exact length_turn lists count

/-- Further rounds give nothing. -/
theorem turns_of_longest_le {lists : List (List α)} {count : ℕ} (h : longest lists ≤ count) :
    turns lists 0 count = listing lists := by
  obtain ⟨more, rfl⟩ := Nat.exists_eq_add_of_le h
  rw [← turns_append, Nat.zero_add]
  have hnone : turns lists (longest lists) more = [] := by
    rw [turns, List.flatMap_eq_nil_iff]
    exact fun round hround ↦ turn_eq_nil (List.mem_range'_1.mp hround).1
  rw [hnone, List.append_nil]
  rfl

theorem own_turns (list : List α) (count : ℕ) :
    ((List.range' 0 count).flatMap fun round ↦ list[round]?.toList) = list.take count := by
  induction count with
  | zero => simp
  | succ count ih =>
    rw [List.range'_concat, List.flatMap_append, ih, List.take_add_one]
    simp

/-- Every element has its turn. -/
theorem perm_listing (lists : List (List α)) : (listing lists).Perm lists.flatten := by
  suffices h : ∀ count, longest lists ≤ count → (turns lists 0 count).Perm lists.flatten from
    h _ le_rfl
  induction lists with
  | nil => simp [turns, turn]
  | cons list rest ih =>
    intro count hcount
    obtain ⟨hlist, hrest⟩ := List.forall_mem_cons.mp (longest_le.mp hcount)
    have hown := own_turns list count
    rw [List.take_of_length_le hlist] at hown
    have hperm := List.flatMap_append_perm (List.range' 0 count)
      (fun round ↦ list[round]?.toList) (turn rest)
    rw [hown] at hperm
    rw [turns, List.flatten_cons, funext (turn_cons list rest)]
    exact hperm.symm.trans ((ih count (longest_le.mpr hrest)).append_left list)

/-! ## The queue -/

/-- A list that is not exhausted: its next element and the rest. -/
def waiting : List α → Option (α × List α)
  | [] => none
  | item :: rest => some (item, rest)

/-- The first list gives its next element and goes to the end of the queue. -/
def serve : List (α × List α) → List α
  | [] => []
  | (item, rest) :: queue => item :: serve (queue ++ (waiting rest).toList)
termination_by queue => (queue.map fun list ↦ list.2.length + 1).sum
decreasing_by
  cases rest with
  | nil => simp [waiting]
  | cons next others =>
    simp [waiting]
    omega

/-- One round of a queue. -/
theorem serve_append (current later : List (α × List α)) :
    serve (current ++ later) = current.map Prod.fst ++
      serve (later ++ current.filterMap fun list ↦ waiting list.2) := by
  induction current generalizing later with
  | nil => simp
  | cons list rest ih =>
    obtain ⟨item, others⟩ := list
    rw [List.cons_append, serve, List.append_assoc, ih, List.map_cons, List.cons_append,
      List.append_assoc, List.filterMap_cons]
    cases waiting others <;> simp

theorem turn_zero (lists : List (List α)) :
    (lists.filterMap waiting).map Prod.fst = turn lists 0 := by
  rw [List.map_filterMap, turn]
  congr
  funext list
  cases list <;> rfl

theorem turn_tail (lists : List (List α)) (round : ℕ) :
    turn (lists.map List.tail) round = turn lists (round + 1) := by
  rw [turn, turn, List.filterMap_map]
  congr
  funext list
  cases list <;> simp

theorem waiting_tail (lists : List (List α)) :
    (lists.filterMap waiting).filterMap (fun list ↦ waiting list.2) =
      (lists.map List.tail).filterMap waiting := by
  rw [List.filterMap_filterMap, List.filterMap_map]
  congr
  funext list
  cases list <;> rfl

/-- The queue serves the listing. -/
theorem serve_eq {lists : List (List α)} {count : ℕ} (h : longest lists ≤ count) :
    serve (lists.filterMap waiting) = turns lists 0 count := by
  induction count generalizing lists with
  | zero =>
    have hempty : lists.filterMap waiting = [] := by
      rw [List.filterMap_eq_nil_iff]
      intro list hlist
      rw [List.eq_nil_of_length_eq_zero (Nat.le_zero.mp (longest_le.mp h list hlist))]
      rfl
    rw [hempty, serve]
    rfl
  | succ count ih =>
    have hshort : longest (lists.map List.tail) ≤ count := longest_le.mpr fun list hlist ↦ by
      obtain ⟨old, hold, rfl⟩ := List.mem_map.mp hlist
      rw [List.length_tail]
      have hle := longest_le.mp h old hold
      omega
    have hround := serve_append (lists.filterMap waiting) []
    rw [List.append_nil, List.nil_append, turn_zero, waiting_tail, ih hshort] at hround
    have htails : turns (lists.map List.tail) 0 count = turns lists 1 count :=
      turns_congr fun round _ ↦ by rw [turn_tail, Nat.add_comm]
    have hfirst : turns lists 0 1 = turn lists 0 := by
      rw [turns]
      simp
    rw [hround, htails, ← hfirst, Nat.add_comm count 1]
    exact turns_append lists 0 1 count

/-! ## Windows -/

/-- Windows of the lists give the turns of some rounds. -/
theorem turns_window (lists : List (List α)) (first count : ℕ) :
    turns (lists.map fun list ↦ (list.drop first).take count) 0 count =
      turns lists first count := by
  refine turns_congr fun round hround ↦ ?_
  rw [turn, turn, List.filterMap_map]
  congr
  funext list
  simp [hround]

/-- A slice of the listing lies in the rounds around it. -/
theorem slice_listing {lists : List (List α)} {offset stop first count : ℕ}
    (hoffset : (turns lists 0 first).length ≤ offset)
    (hstop : stop ≤ (turns lists 0 (first + count)).length) :
    ((turns lists first count).take (stop - (turns lists 0 first).length)).drop
        (offset - (turns lists 0 first).length) =
      ((listing lists).take stop).drop offset := by
  have hwhole : listing lists = turns lists 0 first ++ turns lists first count ++
      turns lists (first + count) (longest lists) := by
    have hjoin := turns_append lists 0 first count
    rw [Nat.zero_add] at hjoin
    rw [hjoin]
    have hmore := turns_append lists 0 (first + count) (longest lists)
    rw [Nat.zero_add] at hmore
    rw [hmore, turns_of_longest_le (Nat.le_add_left _ _)]
  have hlength : (turns lists 0 (first + count)).length =
      (turns lists 0 first).length + (turns lists first count).length := by
    rw [← turns_append, Nat.zero_add, List.length_append]
  rw [hlength] at hstop
  generalize turns lists 0 first = before at *
  generalize turns lists first count = middle at *
  have hskipped : (before.take stop).drop offset = [] :=
    List.drop_eq_nil_of_le (by rw [List.length_take]; omega)
  rw [hwhole, List.append_assoc, List.take_append, List.drop_append,
    List.take_append_of_le_length (by omega), List.length_take, hskipped, List.nil_append]
  rcases Nat.le_total before.length stop with hinside | hshort
  · rw [Nat.min_eq_right hinside]
  · rw [Nat.sub_eq_zero_of_le hshort, List.take_zero, List.drop_nil, List.drop_nil]

end Rvx.RoundRobin
