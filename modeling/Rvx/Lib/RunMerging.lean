import Mathlib.Algebra.GroupWithZero.Nat
import Mathlib.Data.List.Flatten
import Mathlib.Data.List.Forall2
import Mathlib.Data.Prod.Lex
import Mathlib.Order.Nat

/-!
# Merging sorted runs

Items are read one at a time from sources that give them in order.  A heap holds the next item of
every source that still has one; taking its least entry again and again merges the sources.  What
comes out is a sorted rearrangement of everything the sources held.
-/

namespace Rvx.RunMerging

variable {ε α β σ κ : Type} [LinearOrder κ]

/-- Reads one item after the other from a source that gets smaller with each of them. -/
structure Reader (ε α σ : Type) where
  next : σ → Except ε (Option (α × σ))
  size : σ → ℕ
  size_lt : ∀ {source rest : σ} {item : α},
    next source = .ok (some (item, rest)) → size rest < size source

/-- Take the entry of least rank out of a heap. -/
def popLeast (rank : β → κ) : List β → Option (β × List β)
  | [] => none
  | entry :: rest =>
    match popLeast rank rest with
    | none => some (entry, [])
    | some (least, others) =>
      if rank entry ≤ rank least then some (entry, rest) else some (least, entry :: others)

theorem popLeast_eq_none {rank : β → κ} {heap : List β} : popLeast rank heap = none ↔ heap = [] := by
  cases heap with
  | nil => simp [popLeast]
  | cons entry rest =>
    rw [popLeast]
    split
    · simp
    · split_ifs <;> simp

theorem popLeast_eq_some {rank : β → κ} {heap others : List β} {least : β}
    (h : popLeast rank heap = some (least, others)) :
    heap.Perm (least :: others) ∧ ∀ entry ∈ heap, rank least ≤ rank entry := by
  induction heap generalizing least others with
  | nil => simp [popLeast] at h
  | cons entry rest ih =>
    rw [popLeast] at h
    split at h
    · rename_i hnone
      rw [popLeast_eq_none] at hnone
      simp only [Option.some.injEq, Prod.mk.injEq] at h
      rw [hnone, ← h.1, ← h.2]
      simp
    · rename_i least' others' hsome
      have hrest := ih hsome
      split_ifs at h with hle
      · simp only [Option.some.injEq, Prod.mk.injEq] at h
        rw [← h.1, ← h.2]
        refine ⟨List.Perm.refl _, List.forall_mem_cons.mpr ⟨le_rfl, fun other hother ↦ ?_⟩⟩
        exact hle.trans (hrest.2 other hother)
      · simp only [Option.some.injEq, Prod.mk.injEq] at h
        rw [← h.1, ← h.2]
        refine ⟨(hrest.1.cons entry).trans (List.Perm.swap _ _ _), ?_⟩
        exact List.forall_mem_cons.mpr ⟨(not_le.mp hle).le, hrest.2⟩

namespace Reader

variable (reader : Reader ε α σ)

/-- The source holds exactly these items. -/
inductive Holds : σ → List α → Prop
  | done {source : σ} (h : reader.next source = .ok none) : Holds source []
  | item {source rest : σ} {first : α} {items : List α}
      (h : reader.next source = .ok (some (first, rest))) (hrest : Holds rest items) :
      Holds source (first :: items)

/-- Read a source to its end. -/
def all (source : σ) : Except ε (List α) :=
  match _h : reader.next source with
  | .error reason => .error reason
  | .ok none => .ok []
  | .ok (some (item, rest)) => (all rest).map (item :: ·)
termination_by reader.size source
decreasing_by exact reader.size_lt _h

variable {reader} in
theorem Holds.all_eq {source : σ} {items : List α} (h : reader.Holds source items) :
    reader.all source = .ok items := by
  induction h with
  | done h =>
    rw [all]
    split <;> simp_all
  | item h hrest ih =>
    rw [all]
    split <;> simp_all [Except.map]

/-- The first item of a source, and what is left of the source. -/
def first (source : σ) : Except ε (Option α × σ) :=
  (reader.next source).map fun
    | none => (none, source)
    | some (item, rest) => (some item, rest)

variable {reader} in
theorem Holds.first_eq {source : σ} {items : List α} (h : reader.Holds source items) :
    ∃ rest, reader.first source = .ok (items.head?, rest) ∧ reader.Holds rest items.tail := by
  cases h with
  | done h => exact ⟨source, by simp [first, h, Except.map], Holds.done h⟩
  | item h hrest => exact ⟨_, by simp [first, h, Except.map], hrest⟩

/-- Read the next item of one of several sources. -/
def nextOf (sources : List σ) (index : ℕ) : Except ε (Option (α × List σ)) :=
  match sources[index]? with
  | none => .ok none
  | some source => (reader.next source).map fun found ↦
      found.map fun read ↦ (read.1, sources.set index read.2)

def totalSize (sources : List σ) : ℕ := (sources.map reader.size).sum

theorem totalSize_set {sources : List σ} {index : ℕ} {source rest : σ}
    (h : sources[index]? = some source) (hlt : reader.size rest < reader.size source) :
    reader.totalSize (sources.set index rest) < reader.totalSize sources := by
  induction sources generalizing index with
  | nil => simp at h
  | cons other sources ih =>
    cases index with
    | zero =>
      simp only [List.getElem?_cons_zero, Option.some.injEq] at h
      rw [← h] at hlt
      simpa [totalSize] using hlt
    | succ index =>
      have hih := ih (by simpa using h)
      simpa [totalSize] using hih

theorem totalSize_nextOf {sources sources' : List σ} {index : ℕ} {item : α}
    (h : reader.nextOf sources index = .ok (some (item, sources'))) :
    reader.totalSize sources' < reader.totalSize sources := by
  unfold nextOf at h
  split at h
  · simp at h
  · rename_i source hsource
    cases hnext : reader.next source with
    | error reason => simp [hnext, Except.map] at h
    | ok found =>
      cases found with
      | none => simp [hnext, Except.map] at h
      | some read =>
        simp only [hnext, Except.map, Option.map_some, Except.ok.injEq, Option.some.injEq,
          Prod.mk.injEq] at h
        rw [← h.2]
        exact reader.totalSize_set hsource (reader.size_lt hnext)

/-- Entries are ranked by their item, then by their source. -/
def entryRank (rank : α → κ) (entry : α × ℕ) : κ ×ₗ ℕ := toLex (rank entry.1, entry.2)

theorem rank_le_of_entryRank {rank : α → κ} {entry entry' : α × ℕ}
    (h : entryRank rank entry ≤ entryRank rank entry') : rank entry.1 ≤ rank entry'.1 :=
  Prod.Lex.monotone_fst _ _ h

/-- Give out the least entry of the heap and refill the heap from its source, to the end. -/
def merge (rank : α → κ) (heap : List (α × ℕ)) (sources : List σ) : Except ε (List α) :=
  match _hpop : popLeast (entryRank rank) heap with
  | none => .ok []
  | some ((item, index), others) =>
    match _hnext : reader.nextOf sources index with
    | .error reason => .error reason
    | .ok none => (merge rank others sources).map (item :: ·)
    | .ok (some (next, sources')) =>
      (merge rank ((next, index) :: others) sources').map (item :: ·)
termination_by heap.length + reader.totalSize sources
decreasing_by
  · have hlength := (popLeast_eq_some _hpop).1.length_eq
    simp only [List.length_cons] at hlength
    omega
  · have hlength := (popLeast_eq_some _hpop).1.length_eq
    have hsize := reader.totalSize_nextOf _hnext
    simp only [List.length_cons] at hlength ⊢
    omega

variable {reader} {rank : α → κ} {heap others : List (α × ℕ)} {sources sources' : List σ}
  {item next : α} {index : ℕ}

theorem merge_nil : reader.merge rank [] sources = .ok [] := by
  rw [merge]
  rfl

theorem merge_last (hpop : popLeast (entryRank rank) heap = some ((item, index), others))
    (hnext : reader.nextOf sources index = .ok none) :
    reader.merge rank heap sources = (reader.merge rank others sources).map (item :: ·) := by
  rw [merge]
  split <;> simp_all
  split <;> simp_all

theorem merge_more (hpop : popLeast (entryRank rank) heap = some ((item, index), others))
    (hnext : reader.nextOf sources index = .ok (some (next, sources'))) :
    reader.merge rank heap sources =
      (reader.merge rank ((next, index) :: others) sources').map (item :: ·) := by
  rw [merge]
  split <;> simp_all
  split <;> simp_all

/-! ## The merged items -/

/-- The heap holds an item of every source that is not at its end, ahead of what follows. -/
structure Merging (reader : Reader ε α σ) (rank : α → κ) (heap : List (α × ℕ)) (sources : List σ)
    (contents : List (List α)) : Prop where
  holds : List.Forall₂ reader.Holds sources contents
  sorted : ∀ items ∈ contents, items.Pairwise fun a b ↦ rank a ≤ rank b
  ahead : ∀ entry ∈ heap, ∃ items, contents[entry.2]? = some items ∧
    ∀ other ∈ items, rank entry.1 ≤ rank other
  covered : ∀ index items, contents[index]? = some items → items ≠ [] →
    ∃ entry ∈ heap, entry.2 = index

variable {contents : List (List α)}

theorem nextOf_holds (h : List.Forall₂ reader.Holds sources contents) {items : List α}
    (hitems : contents[index]? = some items) :
    (items = [] → reader.nextOf sources index = .ok none) ∧
      ∀ first rest, items = first :: rest → ∃ sources',
        reader.nextOf sources index = .ok (some (first, sources')) ∧
          List.Forall₂ reader.Holds sources' (contents.set index rest) := by
  induction h generalizing index with
  | nil => simp at hitems
  | @cons source run sources runs hrun hruns ih =>
    cases index with
    | zero =>
      simp only [List.getElem?_cons_zero, Option.some.injEq] at hitems
      subst hitems
      cases hrun with
      | done hdone => simp [nextOf, hdone, Except.map]
      | @item _ source' first rest hnext hrest =>
        refine ⟨by simp, fun first' rest' heq ↦ ⟨source' :: sources, ?_, ?_⟩⟩
        · simp only [List.cons.injEq] at heq
          simp [nextOf, hnext, Except.map, heq.1]
        · simp only [List.cons.injEq] at heq
          rw [← heq.2]
          exact List.Forall₂.cons hrest hruns
    | succ index =>
      have hnext : reader.nextOf (source :: sources) (index + 1) =
          (reader.nextOf sources index).map fun found ↦
            found.map fun read ↦ (read.1, source :: read.2) := by
        simp only [nextOf, List.getElem?_cons_succ, List.set_cons_succ]
        split
        · rfl
        · cases reader.next _ with
          | error reason => rfl
          | ok found => cases found <;> rfl
      have hih := ih (by simpa using hitems)
      refine ⟨fun hnil ↦ ?_, fun first rest heq ↦ ?_⟩
      · rw [hnext, hih.1 hnil]
        rfl
      · rcases hih.2 first rest heq with ⟨sources', hread, hholds⟩
        exact ⟨source :: sources', by rw [hnext, hread]; rfl, List.Forall₂.cons hrun hholds⟩

theorem perm_flatten_set {items : List α} (h : contents[index]? = some (item :: items)) :
    contents.flatten.Perm (item :: (contents.set index items).flatten) := by
  induction contents generalizing index with
  | nil => simp at h
  | cons run runs ih =>
    cases index with
    | zero =>
      simp only [List.getElem?_cons_zero, Option.some.injEq] at h
      simp [h]
    | succ index =>
      have hih := ih (by simpa using h)
      simp only [List.flatten_cons, List.set_cons_succ]
      exact (hih.append_left run).trans List.perm_middle

namespace Merging

/-- What is taken out comes before everything that is left. -/
theorem least_le (h : Merging reader rank heap sources contents)
    (hpop : popLeast (entryRank rank) heap = some ((item, index), others)) :
    ∀ other ∈ others.map Prod.fst ++ contents.flatten, rank item ≤ rank other := by
  have hleast := popLeast_eq_some hpop
  have hheap : ∀ entry ∈ heap, rank item ≤ rank entry.1 := fun entry hentry ↦
    rank_le_of_entryRank (hleast.2 entry hentry)
  intro other hother
  cases List.mem_append.mp hother with
  | inl hothers =>
    rcases List.mem_map.mp hothers with ⟨entry, hentry, heq⟩
    exact heq ▸ hheap entry (hleast.1.mem_iff.mpr (List.mem_cons_of_mem _ hentry))
  | inr hcontents =>
    rcases List.mem_flatten.mp hcontents with ⟨items, hitems, hmem⟩
    rcases List.getElem?_of_mem hitems with ⟨place, hplace⟩
    rcases h.covered place items hplace (List.ne_nil_of_mem hmem) with ⟨entry, hentry, heq⟩
    rcases h.ahead entry hentry with ⟨items', hitems', hle⟩
    rw [heq, hplace, Option.some.injEq] at hitems'
    exact (hheap entry hentry).trans (hle other (hitems' ▸ hmem))

/-- A source at its end leaves the heap. -/
theorem last (h : Merging reader rank heap sources contents)
    (hpop : popLeast (entryRank rank) heap = some ((item, index), others))
    (hnil : contents[index]? = some []) : Merging reader rank others sources contents where
  holds := h.holds
  sorted := h.sorted
  ahead entry hentry := h.ahead entry
    ((popLeast_eq_some hpop).1.mem_iff.mpr (List.mem_cons_of_mem _ hentry))
  covered place items hplace hne := by
    rcases h.covered place items hplace hne with ⟨entry, hentry, heq⟩
    cases List.mem_cons.mp ((popLeast_eq_some hpop).1.mem_iff.mp hentry) with
    | inl hfirst =>
      rw [hfirst] at heq
      rw [← heq, hnil, Option.some.injEq] at hplace
      exact absurd hplace.symm hne
    | inr hothers => exact ⟨entry, hothers, heq⟩

/-- A source with another item keeps its place in the heap. -/
theorem more {items : List α} (h : Merging reader rank heap sources contents)
    (hpop : popLeast (entryRank rank) heap = some ((item, index), others))
    (hitems : contents[index]? = some (next :: items))
    (hholds : List.Forall₂ reader.Holds sources' (contents.set index items)) :
    Merging reader rank ((next, index) :: others) sources' (contents.set index items) := by
  have hnext := h.sorted _ (List.mem_of_getElem? hitems)
  rw [List.pairwise_cons] at hnext
  have hlt : index < contents.length := (List.getElem?_eq_some_iff.mp hitems).1
  constructor
  · exact hholds
  · intro run hrun
    cases List.mem_or_eq_of_mem_set hrun with
    | inl hold => exact h.sorted run hold
    | inr heq => exact heq ▸ hnext.2
  · intro entry hentry
    cases List.mem_cons.mp hentry with
    | inl hfirst => exact ⟨items, by simp [hfirst, hlt], by rw [hfirst]; exact hnext.1⟩
    | inr hother =>
      have hmem := (popLeast_eq_some hpop).1.mem_iff.mpr (List.mem_cons_of_mem _ hother)
      rcases h.ahead entry hmem with ⟨run, hrun, hle⟩
      by_cases heq : index = entry.2
      · rw [← heq, hitems, Option.some.injEq] at hrun
        refine ⟨items, by simp [← heq, hlt], fun other hmem' ↦ hle other ?_⟩
        exact hrun ▸ List.mem_cons_of_mem next hmem'
      · exact ⟨run, by rwa [List.getElem?_set_ne heq], hle⟩
  · intro place run hplace hne
    by_cases heq : index = place
    · exact ⟨(next, index), List.mem_cons_self, heq⟩
    · rw [List.getElem?_set_ne heq] at hplace
      rcases h.covered place run hplace hne with ⟨entry, hentry, hentry'⟩
      refine ⟨entry, List.mem_cons_of_mem _ ?_, hentry'⟩
      refine (List.mem_cons.mp ((popLeast_eq_some hpop).1.mem_iff.mp hentry)).resolve_left fun hfirst ↦ ?_
      exact heq (by rw [← hentry', hfirst])

/-- With an empty heap every source is at its end. -/
theorem flatten_eq_nil (h : Merging reader rank [] sources contents) : contents.flatten = [] := by
  rw [List.flatten_eq_nil_iff]
  intro items hitems
  rcases List.getElem?_of_mem hitems with ⟨place, hplace⟩
  by_contra hne
  rcases h.covered place items hplace hne with ⟨entry, hentry, _⟩
  simp at hentry

theorem perm_of_pop (hpop : popLeast (entryRank rank) heap = some ((item, index), others)) :
    (heap.map Prod.fst).Perm (item :: others.map Prod.fst) :=
  (popLeast_eq_some hpop).1.map Prod.fst

/-- The merge gives out everything once, in order. -/
theorem merge_eq (h : Merging reader rank heap sources contents) :
    ∃ merged, reader.merge rank heap sources = .ok merged ∧
      merged.Perm (heap.map Prod.fst ++ contents.flatten) ∧
      merged.Pairwise fun a b ↦ rank a ≤ rank b := by
  induction hcount : heap.length + contents.flatten.length generalizing heap sources contents with
  | zero =>
    have hheap : heap = [] := List.eq_nil_of_length_eq_zero (by omega)
    have hcontents : contents.flatten = [] := List.eq_nil_of_length_eq_zero (by omega)
    exact ⟨[], by rw [hheap, merge_nil], by rw [hheap, hcontents]; rfl, List.Pairwise.nil⟩
  | succ count ih =>
    rcases hpop : popLeast (entryRank rank) heap with - | ⟨⟨item, index⟩, others⟩
    · rw [popLeast_eq_none] at hpop
      rw [hpop] at h hcount
      simp [h.flatten_eq_nil] at hcount
    · have hleast := h.least_le hpop
      have hperm := perm_of_pop hpop
      have hlength := hperm.length_eq
      simp only [List.length_map, List.length_cons] at hlength
      rcases h.ahead (item, index) ((popLeast_eq_some hpop).1.mem_iff.mpr List.mem_cons_self) with
        ⟨items, hitems, _⟩
      have hnext := nextOf_holds h.holds hitems
      cases items with
      | nil =>
        rcases ih (h.last hpop hitems) (by omega) with ⟨merged, hmerged, hrest, hsorted⟩
        refine ⟨item :: merged, ?_, ?_, List.pairwise_cons.mpr ⟨fun other hother ↦ ?_, hsorted⟩⟩
        · rw [merge_last hpop (hnext.1 rfl), hmerged]
          rfl
        · exact (hrest.cons item).trans (hperm.append_right _).symm
        · exact hleast other (hrest.mem_iff.mp hother)
      | cons next rest =>
        rcases hnext.2 next rest rfl with ⟨sources', hread, hholds⟩
        have hset := perm_flatten_set hitems
        have hset' := hset.length_eq
        simp only [List.length_cons] at hset'
        have hall : (((next, index) :: others).map Prod.fst ++ (contents.set index rest).flatten).Perm
            (others.map Prod.fst ++ contents.flatten) :=
          List.perm_middle.symm.trans (hset.symm.append_left _)
        rcases ih (h.more hpop hitems hholds) (by simp only [List.length_cons]; omega) with
          ⟨merged, hmerged, hrest, hsorted⟩
        refine ⟨item :: merged, ?_, ?_, List.pairwise_cons.mpr ⟨fun other hother ↦ ?_, hsorted⟩⟩
        · rw [merge_more hpop hread, hmerged]
          rfl
        · exact ((hrest.trans hall).cons item).trans (hperm.append_right _).symm
        · exact hleast other ((hrest.trans hall).mem_iff.mp hother)

end Merging

/-! ## From the start -/

/-- The heap over the first items of the sources. -/
def heapOf (starts : List (Option α × σ)) : List (α × ℕ) :=
  starts.zipIdx.filterMap fun start ↦ start.1.1.map (·, start.2)

theorem mem_heapOf {starts : List (Option α × σ)} {entry : α × ℕ} :
    entry ∈ heapOf starts ↔ ∃ rest, starts[entry.2]? = some (some entry.1, rest) := by
  simp only [heapOf, List.mem_filterMap, Option.map_eq_some_iff]
  constructor
  · rintro ⟨⟨start, place⟩, hmem, first, hfirst, heq⟩
    rw [List.mem_zipIdx_iff_getElem?] at hmem
    exact ⟨start.2, by rw [← heq, ← hfirst]; exact hmem⟩
  · rintro ⟨rest, hrest⟩
    exact ⟨((some entry.1, rest), entry.2), List.mem_zipIdx_iff_getElem?.mpr hrest, entry.1, rfl, rfl⟩

theorem map_heapOf (starts : List (Option α × σ)) :
    (heapOf starts).map Prod.fst = starts.filterMap Prod.fst := by
  rw [heapOf, List.map_filterMap]
  have hindex (start : (Option α × σ) × ℕ) :
      (start.1.1.map (·, start.2)).map Prod.fst = start.1.1 := by cases start.1.1 <;> rfl
  have hcompose : (fun start : (Option α × σ) × ℕ ↦ start.1.1) = Prod.fst ∘ Prod.fst := rfl
  simp only [hindex]
  rw [hcompose, ← List.filterMap_map, List.zipIdx_map_fst]

theorem exists_getElem? {γ δ : Type} {related : γ → δ → Prop} {list : List γ} {list' : List δ}
    (h : List.Forall₂ related list list') {place : ℕ} {a : γ} (ha : list[place]? = some a) :
    ∃ b, list'[place]? = some b ∧ related a b := by
  induction h generalizing place with
  | nil => simp at ha
  | cons hfirst hrest ih =>
    cases place with
    | zero =>
      simp only [List.getElem?_cons_zero, Option.some.injEq] at ha
      exact ⟨_, rfl, ha ▸ hfirst⟩
    | succ place => exact ih (by simpa using ha)

/-- The first item of a source has been taken off. -/
structure Started (reader : Reader ε α σ) (start : Option α × σ) (items : List α) : Prop where
  first : start.1 = items.head?
  rest : reader.Holds start.2 items.tail

theorem perm_started {starts : List (Option α × σ)}
    (h : List.Forall₂ (Started reader) starts contents) :
    (starts.filterMap Prod.fst ++ (contents.map List.tail).flatten).Perm contents.flatten := by
  induction h with
  | nil => rfl
  | @cons start items starts contents hstart hrest ih =>
    have hfirst := hstart.first
    cases items with
    | nil => simpa [List.filterMap_cons, hfirst] using ih
    | cons first items =>
      simp only [List.filterMap_cons, hfirst, List.head?_cons, List.map_cons, List.tail_cons,
        List.flatten_cons, List.cons_append]
      exact ((List.perm_append_comm_assoc _ items _).trans (ih.append_left items)).cons first

theorem merging_heapOf {starts : List (Option α × σ)}
    (h : List.Forall₂ (Started reader) starts contents)
    (hsorted : ∀ items ∈ contents, items.Pairwise fun a b ↦ rank a ≤ rank b) :
    Merging reader rank (heapOf starts) (starts.map Prod.snd) (contents.map List.tail) where
  holds := by
    rw [List.forall₂_map_left_iff, List.forall₂_map_right_iff]
    exact h.imp fun _ _ hstart ↦ hstart.rest
  sorted items hitems := by
    rcases List.mem_map.mp hitems with ⟨run, hrun, heq⟩
    exact heq ▸ (hsorted run hrun).tail
  ahead entry hentry := by
    rcases mem_heapOf.mp hentry with ⟨rest, hrest⟩
    rcases exists_getElem? h hrest with ⟨items, hitems, hstart⟩
    have hcons : items = entry.1 :: items.tail := (List.cons_head?_tail hstart.first.symm).symm
    have hordered := hsorted items (List.mem_of_getElem? hitems)
    rw [hcons, List.pairwise_cons] at hordered
    exact ⟨items.tail, by rw [List.getElem?_map, hitems]; rfl, hordered.1⟩
  covered place tail hplace hne := by
    rw [List.getElem?_map, Option.map_eq_some_iff] at hplace
    rcases hplace with ⟨items, hitems, heq⟩
    rcases exists_getElem? h.flip hitems with ⟨⟨start, rest⟩, hrest, hstart⟩
    cases items with
    | nil => exact absurd heq.symm hne
    | cons first items =>
      have hfirst : start = some first := hstart.first
      exact ⟨(first, place), mem_heapOf.mpr ⟨rest, by rw [hrest, hfirst]⟩, rfl⟩

/-- Merging sorted sources gives everything they hold, sorted. -/
theorem merge_starts {starts : List (Option α × σ)}
    (h : List.Forall₂ (Started reader) starts contents)
    (hsorted : ∀ items ∈ contents, items.Pairwise fun a b ↦ rank a ≤ rank b) :
    ∃ merged, reader.merge rank (heapOf starts) (starts.map Prod.snd) = .ok merged ∧
      merged.Perm contents.flatten ∧ merged.Pairwise fun a b ↦ rank a ≤ rank b := by
  rcases (merging_heapOf h hsorted).merge_eq with ⟨merged, hmerged, hperm, hordered⟩
  rw [map_heapOf] at hperm
  exact ⟨merged, hmerged, hperm.trans (perm_started h), hordered⟩

end Reader

end Rvx.RunMerging
