import Rvx.Engine.Query
import Rvx.Lib.Sampling

/-!
# Sampled positions

The positions a series is sampled at ascend, end with the last point, and have a missing number
between two numbers whenever the points between them miss one.
-/

namespace Rvx.Engine

open StableSort

/-! ## Sampling everything -/

theorem filterMap_range_getElem? {α : Type} (list : List α) :
    (List.range list.length).filterMap (fun position ↦ list[position]?) = list := by
  induction list using List.reverseRecOn with
  | nil => rfl
  | append_singleton list last ih =>
    have hold : (List.range list.length).filterMap (fun position ↦ (list ++ [last])[position]?) =
        (List.range list.length).filterMap fun position ↦ list[position]? := by
      apply List.filterMap_congr
      intro position hposition
      exact List.getElem?_append_left (List.mem_range.mp hposition)
    rw [List.length_append, List.length_singleton, List.range_succ, List.filterMap_append, hold, ih]
    simp

/-! ## Retaining gaps -/

/-- Where the left one of two neighbours goes. -/
def moved (missing : ℕ → Bool) (left right : ℕ) : ℕ :=
  if !missing left && !missing right then
    ((List.range' (left + 1) (right - (left + 1))).reverse.find? missing).getD left
  else left

/-- The loop as a recursion from the last position backwards. -/
def retainGaps (missing : ℕ → Bool) : List ℕ → List ℕ
  | [] => []
  | left :: rest =>
    match retainGaps missing rest with
    | [] => [left]
    | right :: later => moved missing left right :: right :: later

theorem retainGap_cons (missing : ℕ → Bool) (front : List ℕ) (left right : ℕ) (later : List ℕ) :
    retainGap missing (front ++ left :: right :: later) (front.length + 1) =
      front ++ moved missing left right :: right :: later := by
  have hleft : (front ++ left :: right :: later).getD front.length 0 = left := by simp
  have hright : (front ++ left :: right :: later).getD (front.length + 1) 0 = right := by simp
  rw [retainGap, Nat.add_sub_cancel, hleft, hright, moved]
  split_ifs
  · cases (List.range' (left + 1) (right - (left + 1))).reverse.find? missing <;> simp
  · rfl

theorem retainGaps_ne_nil (missing : ℕ → Bool) (left : ℕ) (rest : List ℕ) :
    retainGaps missing (left :: rest) ≠ [] := by
  rw [retainGaps]
  split <;> simp

theorem foldl_retainGap (missing : ℕ → Bool) (front positions : List ℕ) :
    (List.range' (front.length + 1) (positions.length - 1)).reverse.foldl (retainGap missing)
      (front ++ positions) = front ++ retainGaps missing positions := by
  induction positions generalizing front with
  | nil => rfl
  | cons left rest ih =>
    cases rest with
    | nil => simp [retainGaps]
    | cons next rest =>
      have hrest := ih (front ++ [left])
      rw [List.length_append, List.length_singleton, List.append_assoc, List.append_assoc] at hrest
      rw [List.length_cons, Nat.add_sub_cancel, List.length_cons, List.range'_succ,
        List.reverse_cons, List.foldl_append]
      rw [List.length_cons, Nat.add_sub_cancel] at hrest
      rw [show front ++ left :: next :: rest = front ++ ([left] ++ next :: rest) from rfl, hrest]
      cases htail : retainGaps missing (next :: rest) with
      | nil => exact absurd htail (retainGaps_ne_nil missing next rest)
      | cons right later =>
        have hstep : retainGaps missing (left :: next :: rest) =
            moved missing left right :: right :: later := by rw [retainGaps, htail]
        rw [hstep, List.singleton_append, List.foldl_cons, List.foldl_nil, retainGap_cons]

/-- A neighbour moves at most up to a gap before the next position. -/
theorem moved_spec (missing : ℕ → Bool) {left right : ℕ} (h : left < right) :
    left ≤ moved missing left right ∧ moved missing left right < right ∧
      (moved missing left right = left ∨ missing (moved missing left right) = true) ∧
      (missing (moved missing left right) = false → missing right = false →
        ∀ position, moved missing left right < position → position < right →
          missing position = false) := by
  unfold moved
  split_ifs with hboth
  · cases hfind : (List.range' (left + 1) (right - (left + 1))).reverse.find? missing with
    | none =>
      refine ⟨le_rfl, h, Or.inl rfl, fun _ _ position hlow hhigh ↦ ?_⟩
      rw [List.find?_eq_none] at hfind
      have hmem : position ∈ (List.range' (left + 1) (right - (left + 1))).reverse := by
        rw [List.mem_reverse, List.mem_range'_1]
        rw [Option.getD_none] at hlow
        omega
      simpa using hfind position hmem
    | some gap =>
      have hmem := List.mem_of_find?_eq_some hfind
      have hgap := List.find?_some hfind
      rw [List.mem_reverse, List.mem_range'_1] at hmem
      rw [Option.getD_some]
      exact ⟨by omega, by omega, Or.inr hgap, fun hnone ↦ by simp [hgap] at hnone⟩
  · refine ⟨le_rfl, h, Or.inl rfl, fun hleft hright ↦ ?_⟩
    simp [hleft, hright] at hboth

/-- No number is missing between two neighbours, unless at one of them. -/
def Bridges (missing : ℕ → Bool) (left right : ℕ) : Prop :=
  missing left = false → missing right = false → ∀ position, left < position → position < right →
    missing position = false

/-- The loop keeps the ascending order and the last position. -/
theorem retainGaps_spec (missing : ℕ → Bool) {positions : List ℕ}
    (h : positions.Pairwise (· < ·)) :
    (retainGaps missing positions).Pairwise (· < ·) ∧
      (retainGaps missing positions).length = positions.length ∧
      (retainGaps missing positions).getLast? = positions.getLast? ∧
      (retainGaps missing positions).IsChain (Bridges missing) ∧
      ∀ first ∈ (retainGaps missing positions).head?, ∀ old ∈ positions.head?,
        old ≤ first ∧ (first = old ∨ missing first = true) := by
  induction positions with
  | nil => simp [retainGaps]
  | cons left rest ih =>
    rw [List.pairwise_cons] at h
    obtain ⟨hordered, hlength, hlast, hchain, hhead⟩ := ih h.2
    rw [retainGaps]
    cases htail : retainGaps missing rest with
    | nil =>
      rw [htail] at hlength hlast
      have hrest : rest = [] := List.length_eq_zero_iff.mp hlength.symm
      simp [hrest]
    | cons right later =>
      rw [htail] at hordered hlength hlast hchain hhead
      dsimp only
      obtain ⟨next, rest, rfl⟩ : ∃ next others, rest = next :: others := by
        cases rest with
        | nil => simp at hlength
        | cons next others => exact ⟨next, others, rfl⟩
      have hlt : left < right := lt_of_lt_of_le (h.1 next List.mem_cons_self)
        (hhead right rfl next rfl).1
      obtain ⟨hlow, hhigh, hsame, hjoins⟩ := moved_spec missing hlt
      refine ⟨?_, by simpa using hlength, ?_, ?_, ?_⟩
      · refine List.pairwise_cons.mpr ⟨fun position hposition ↦ ?_, hordered⟩
        rcases List.mem_cons.mp hposition with rfl | hmem
        · exact hhigh
        · exact hhigh.trans ((List.pairwise_cons.mp hordered).1 position hmem)
      · rw [List.getLast?_cons_cons, hlast, List.getLast?_cons_cons]
      · exact List.IsChain.cons_cons hjoins hchain
      · intro first hfirst old hold
        obtain rfl : moved missing left right = first := by simpa using hfirst
        obtain rfl : left = old := by simpa using hold
        exact ⟨hlow, hsame⟩

/-! ## The positions -/

/-- The positions before gaps are retained. -/
def evenly (length count : ℕ) : List ℕ :=
  (List.range count).map fun index ↦
    if count = 1 then length - 1 else index * (length - 1) / (count - 1)

theorem samplePositions_eq (length count : ℕ) (missing : ℕ → Bool) :
    samplePositions length count missing = retainGaps missing (evenly length count) :=
  foldl_retainGap missing [] (evenly length count)

/-- Evenly spread positions ascend to the last point. -/
theorem evenly_spec {length count : ℕ} (hcount : 0 < count) (hle : count ≤ length) :
    (evenly length count).Pairwise (· < ·) ∧ (evenly length count).getLast? = some (length - 1) ∧
      (2 ≤ count → (evenly length count).head? = some 0) := by
  have hpositions (index : ℕ) (hindex : index + 1 < count) :
      index * (length - 1) / (count - 1) < (index + 1) * (length - 1) / (count - 1) := by
    have hmore : index * (length - 1) + (count - 1) ≤ (index + 1) * (length - 1) := by
      rw [Nat.add_mul, Nat.one_mul]
      omega
    calc
      index * (length - 1) / (count - 1) <
          (index * (length - 1) + (count - 1)) / (count - 1) := by
        rw [Nat.add_div_right _ (by omega)]
        exact Nat.lt_succ_self _
      _ ≤ (index + 1) * (length - 1) / (count - 1) := Nat.div_le_div_right hmore
  refine ⟨?_, ?_, fun htwo ↦ ?_⟩
  · rw [evenly, List.pairwise_map]
    refine List.pairwise_lt_range.imp_of_mem fun {left right} _ hright hlt ↦ ?_
    rw [List.mem_range] at hright
    rw [if_neg (by omega), if_neg (by omega)]
    calc
      left * (length - 1) / (count - 1) < (left + 1) * (length - 1) / (count - 1) :=
        hpositions left (by omega)
      _ ≤ right * (length - 1) / (count - 1) :=
        Nat.div_le_div_right (Nat.mul_le_mul_right _ hlt)
  · obtain ⟨last, rfl⟩ : ∃ last, count = last + 1 := ⟨count - 1, by omega⟩
    rw [evenly, List.range_succ, List.map_append, List.map_singleton, List.getLast?_concat,
      Nat.add_sub_cancel]
    split_ifs with hone
    · rfl
    · rw [Nat.mul_div_cancel_left _ (by omega)]
  · obtain ⟨last, rfl⟩ : ∃ last, count = last + 1 := ⟨count - 1, by omega⟩
    rw [evenly, List.range_succ_eq_map, List.map_cons, List.head?_cons, if_neg (by omega)]
    simp

/-- What a series is sampled at. -/
structure Positions (length : ℕ) (missing : ℕ → Bool) (positions : List ℕ) : Prop where
  ascending : positions.Pairwise (· < ·)
  last : positions.getLast? = some (length - 1)
  joins : positions.IsChain (Bridges missing)

theorem samplePositions_spec {length count : ℕ} (hcount : 0 < count) (hle : count ≤ length)
    (missing : ℕ → Bool) :
    Positions length missing (samplePositions length count missing) ∧
      (samplePositions length count missing).length = count ∧
      (2 ≤ count → ∀ first ∈ (samplePositions length count missing).head?,
        first = 0 ∨ missing first = true) := by
  obtain ⟨hascending, hlast, hfirst⟩ := evenly_spec hcount hle
  obtain ⟨hordered, hlength, hend, hchain, hhead⟩ := retainGaps_spec missing hascending
  rw [samplePositions_eq]
  refine ⟨⟨hordered, hend.trans hlast, hchain⟩, ?_, fun htwo first hmem ↦ ?_⟩
  · rw [hlength, evenly, List.length_map, List.length_range]
  · exact (hhead first hmem 0 (hfirst htwo)).2

/-- Every position is one of a point. -/
theorem Positions.lt {length : ℕ} {missing : ℕ → Bool} {positions : List ℕ}
    (h : Positions length missing positions) (hlength : 0 < length) :
    ∀ position ∈ positions, position < length := by
  intro position hposition
  obtain ⟨before, hsplit⟩ := List.getLast?_eq_some_iff.mp h.last
  have hascending := h.ascending
  rw [hsplit] at hposition hascending
  rcases List.mem_append.mp hposition with hmem | hmem
  · have hlt := (List.pairwise_append.mp hascending).2.2 position hmem (length - 1) (by simp)
    omega
  · rw [List.mem_singleton.mp hmem]
    omega

/-! ## The points at the positions -/

section Points

variable {α κ : Type} [LinearOrder κ] {key : α → κ} {gap : α → Prop} {full : List α}

/-- The items at some positions. -/
def pick (full : List α) (positions : List ℕ) : List α :=
  positions.filterMap fun position ↦ full[position]?

theorem pick_sublist {positions : List ℕ} (hascending : positions.Pairwise (· < ·))
    (hbound : ∀ position ∈ positions, position < full.length) :
    (pick full positions).Sublist full := by
  have hrange : positions.Sublist (List.range full.length) := by
    apply List.sublist_of_subperm_of_pairwise _ hascending List.pairwise_lt_range
    refine List.subperm_of_subset (hascending.imp fun hlt ↦ hlt.ne) fun position hposition ↦ ?_
    exact List.mem_range.mpr (hbound position hposition)
  have hpick := hrange.filterMap fun position ↦ full[position]?
  rwa [filterMap_range_getElem?] at hpick

theorem length_pick {positions : List ℕ} (hbound : ∀ position ∈ positions, position < full.length) :
    (pick full positions).length = positions.length := by
  induction positions with
  | nil => rfl
  | cons position rest ih =>
    obtain ⟨hlt, hrest⟩ := List.forall_mem_cons.mp hbound
    rw [pick, List.filterMap_cons, List.getElem?_eq_getElem hlt]
    exact congrArg (· + 1) (ih hrest)

theorem isChain_pick {positions : List ℕ} {joins : ℕ → ℕ → Prop} {joinable : α → α → Prop}
    (hbound : ∀ position ∈ positions, position < full.length)
    (hjoin : ∀ left right first second, full[left]? = some first → full[right]? = some second →
      joins left right → joinable first second)
    (h : positions.IsChain joins) : (pick full positions).IsChain joinable := by
  induction positions with
  | nil => exact List.isChain_nil
  | cons position rest ih =>
    obtain ⟨hlt, hrest⟩ := List.forall_mem_cons.mp hbound
    have hfirst : full[position]? = some full[position] := List.getElem?_eq_getElem hlt
    rw [pick, List.filterMap_cons, hfirst]
    cases rest with
    | nil => exact List.isChain_singleton _
    | cons next rest =>
      have hlater : next < full.length := hrest next List.mem_cons_self
      have hnext : full[next]? = some full[next] := List.getElem?_eq_getElem hlater
      rw [List.isChain_cons_cons] at h
      have htail := ih hrest h.2
      rw [pick, List.filterMap_cons, hnext] at htail
      dsimp only
      rw [List.filterMap_cons, hnext]
      exact List.IsChain.cons_cons (hjoin _ _ _ _ hfirst hnext h.1) htail

/-- Points sampled at the positions are a sample of the points. -/
theorem sample_pick (hordered : Ordered key full) {missing : ℕ → Bool}
    (hmissing : ∀ position point, full[position]? = some point →
      (missing position = true ↔ gap point))
    {count : ℕ} (hcount : 0 < count) (hle : count ≤ full.length) :
    Sample key gap full (pick full (samplePositions full.length count missing)) := by
  obtain ⟨⟨hascending, hlast, hjoins⟩, -, -⟩ := samplePositions_spec hcount hle missing
  have hbound := Positions.lt ⟨hascending, hlast, hjoins⟩ (hcount.trans_le hle)
  have hindex {left right : ℕ} {first second : α} (hfirst : full[left]? = some first)
      (hsecond : full[right]? = some second) (hlt : key first < key second) : left < right := by
    obtain ⟨hl, rfl⟩ := List.getElem?_eq_some_iff.mp hfirst
    obtain ⟨hr, rfl⟩ := List.getElem?_eq_some_iff.mp hsecond
    by_contra hle
    rcases (Nat.le_of_not_lt hle).lt_or_eq with hbefore | hsame
    · exact absurd (List.pairwise_iff_getElem.mp hordered _ _ hr hl hbefore) hlt.not_gt
    · subst hsame
      exact absurd hlt (lt_irrefl _)
  refine ⟨pick_sublist hascending hbound, ?_, isChain_pick hbound ?_ hjoins⟩
  · obtain ⟨before, hsplit⟩ := List.getLast?_eq_some_iff.mp hlast
    have hlt : full.length - 1 < full.length := by omega
    have hend : full[full.length - 1]? = some full[full.length - 1] := List.getElem?_eq_getElem hlt
    rw [hsplit, pick, List.filterMap_append, List.filterMap_cons, hend, List.filterMap_nil,
      List.getLast?_concat, List.getLast?_eq_getElem?, hend]
  · intro left right first second hfirst hsecond hjoin hgapl hgapr item hitem hlow hhigh hgap
    obtain ⟨position, hposition⟩ := List.mem_iff_getElem?.mp hitem
    have hnone := hjoin (by simpa [hgapl] using hmissing left first hfirst)
      (by simpa [hgapr] using hmissing right second hsecond) position
      (hindex hfirst hposition hlow) (hindex hposition hsecond hhigh)
    rw [(hmissing position item hposition).mpr hgap] at hnone
    exact absurd hnone (by simp)

/-- With two positions or more, or a single point, no gap is left out before the first position. -/
theorem leading_pick (hordered : Ordered key full) {missing : ℕ → Bool}
    (hmissing : ∀ position point, full[position]? = some point →
      (missing position = true ↔ gap point))
    {count : ℕ} (hcount : 0 < count) (hle : count ≤ full.length)
    (htwo : 2 ≤ count ∨ full.length = 1) :
    Leading key gap full (pick full (samplePositions full.length count missing)) := by
  obtain ⟨hpositions, hlength, hhead⟩ := samplePositions_spec hcount hle missing
  have hbound := hpositions.lt (hcount.trans_le hle)
  intro first hfirst hgap item hitem hbefore
  cases hlist : samplePositions full.length count missing with
  | nil => simp [hlist] at hlength; omega
  | cons position rest =>
    have hlt := hbound position (by simp [hlist])
    have hpoint : full[position]? = some full[position] := List.getElem?_eq_getElem hlt
    rw [hlist, pick, List.filterMap_cons, hpoint] at hfirst
    obtain rfl : full[position] = first := by simpa using hfirst
    obtain rfl : position = 0 := by
      rcases htwo with htwo | hone
      · refine (hhead htwo position (by simp [hlist])).resolve_right fun hnone ↦ ?_
        exact hgap ((hmissing position _ hpoint).mp hnone)
      · omega
    obtain ⟨index, hindex, rfl⟩ := List.mem_iff_getElem.mp hitem
    rcases Nat.eq_zero_or_pos index with rfl | hpos
    · exact absurd hbefore (lt_irrefl _)
    · exact absurd (List.pairwise_iff_getElem.mp hordered _ _ hlt hindex hpos) hbefore.not_gt

theorem pick_map {β : Type} (f : α → β) (list : List α) (positions : List ℕ) :
    pick (list.map f) positions = (pick list positions).map f := by
  rw [pick, pick, List.map_filterMap]
  simp only [List.getElem?_map]

end Points

end Rvx.Engine
