import Mathlib.Data.List.Count

/-!
# Hits in windows

A counter with fixed windows opens a window at a hit and counts the hits of the next `length` units
of time in it.  Windows that are at least their length apart bound the hits of every interval of
that length, wherever it lies: it meets at most two windows, and of the earlier one it misses the
hit that opened it.
-/

namespace Rvx.Windows

/-- A hit, counted in the window that began at `start`. -/
structure Hit where
  start : ℕ
  time : ℕ
deriving DecidableEq

/-- Windows of a length with at most `most` hits each. -/
structure Spaced (length most : ℕ) (hits : List Hit) : Prop where
  inside : ∀ hit ∈ hits, hit.start ≤ hit.time ∧ hit.time < hit.start + length
  apart : ∀ hit ∈ hits, ∀ other ∈ hits, hit.start = other.start ∨
    hit.start + length ≤ other.start ∨ other.start + length ≤ hit.start
  opened : ∀ hit ∈ hits, ∃ first ∈ hits, first.start = hit.start ∧ first.time = hit.start
  few : ∀ start, (hits.countP fun hit ↦ hit.start = start) ≤ most

variable {length most : ℕ} {hits : List Hit}

theorem spaced_nil : Spaced length most [] := by
  refine ⟨?_, ?_, ?_, ?_⟩ <;> simp

/-- A hit in a window that has room. -/
theorem Spaced.concat (h : Spaced length most hits) {start time : ℕ} (hle : start ≤ time)
    (hlt : time < start + length) (hopened : start = time ∨ ∃ hit ∈ hits, hit.start = start)
    (hroom : (hits.countP fun hit ↦ hit.start = start) < most)
    (hapart : ∀ hit ∈ hits, hit.start = start ∨ hit.start + length ≤ start) :
    Spaced length most (hits ++ [⟨start, time⟩]) := by
  constructor
  · intro hit hhit
    obtain hhit | hhit := List.mem_append.mp hhit
    · exact h.inside hit hhit
    · obtain rfl := List.mem_singleton.mp hhit
      exact ⟨hle, hlt⟩
  · intro hit hhit other hother
    obtain hhit | hhit := List.mem_append.mp hhit <;>
      obtain hother | hother := List.mem_append.mp hother
    · exact h.apart hit hhit other hother
    · obtain rfl := List.mem_singleton.mp hother
      exact (hapart hit hhit).imp_right Or.inl
    · obtain rfl := List.mem_singleton.mp hhit
      exact (hapart other hother).elim (fun heq ↦ Or.inl heq.symm) fun hle ↦ Or.inr (Or.inr hle)
    · rw [List.mem_singleton.mp hhit, List.mem_singleton.mp hother]
      exact Or.inl rfl
  · intro hit hhit
    obtain hhit | hhit := List.mem_append.mp hhit
    · obtain ⟨first, hfirst, hsame⟩ := h.opened hit hhit
      exact ⟨first, List.mem_append_left _ hfirst, hsame⟩
    · obtain rfl := List.mem_singleton.mp hhit
      obtain rfl | ⟨other, hother, rfl⟩ := hopened
      · exact ⟨⟨start, start⟩, by simp, rfl, rfl⟩
      · obtain ⟨first, hfirst, hsame⟩ := h.opened other hother
        exact ⟨first, List.mem_append_left _ hfirst, hsame⟩
  · intro other
    rw [List.countP_append, List.countP_singleton]
    by_cases heq : start = other
    · subst heq
      rw [if_pos (by simp)]
      omega
    · rw [if_neg (by simpa using heq)]
      exact h.few other

/-- Hits in one window that miss a hit of it. -/
theorem countP_lt {p q : Hit → Bool} (hpq : ∀ hit ∈ hits, p hit = true → q hit = true)
    {missed : Hit} (hmissed : missed ∈ hits) (hq : q missed = true) (hp : p missed = false) :
    hits.countP p < hits.countP q := by
  induction hits with
  | nil => cases hmissed
  | cons hit rest ih =>
    rw [List.forall_mem_cons] at hpq
    have hrest : rest.countP p ≤ rest.countP q := List.countP_mono_left hpq.2
    rw [List.countP_cons, List.countP_cons]
    obtain rfl | hmem := List.mem_cons.mp hmissed
    · rw [if_pos hq, if_neg (by simp [hp])]
      omega
    · have hless := ih hpq.2 hmem
      by_cases hhit : p hit = true
      · rw [if_pos hhit, if_pos (hpq.1 hhit)]
        omega
      · rw [if_neg hhit]
        omega

theorem countP_le_add {p q r : Hit → Bool}
    (h : ∀ hit ∈ hits, p hit = true → q hit = true ∨ r hit = true) :
    hits.countP p ≤ hits.countP q + hits.countP r := by
  induction hits with
  | nil => simp
  | cons hit rest ih =>
    rw [List.forall_mem_cons] at h
    have hrest := ih h.2
    simp only [List.countP_cons]
    by_cases hhit : p hit = true
    · rw [if_pos hhit]
      obtain hq | hr := h.1 hhit
      · rw [if_pos hq]
        omega
      · rw [if_pos hr]
        omega
    · rw [if_neg hhit]
      omega

/-- The hits since `origin` in windows that began since then are those of one window. -/
theorem Spaced.countP_late (h : Spaced length most hits) (origin : ℕ) :
    (hits.countP fun hit ↦ hit.time < origin + length ∧ origin ≤ hit.start) ≤ most := by
  by_cases hnone : ∃ hit ∈ hits, hit.time < origin + length ∧ origin ≤ hit.start
  · obtain ⟨hit, hhit, htime, hstart⟩ := hnone
    refine Nat.le_trans (List.countP_mono_left fun other hother hlate ↦ ?_) (h.few hit.start)
    rw [decide_eq_true_eq] at hlate ⊢
    have hinside := h.inside hit hhit
    have hinside' := h.inside other hother
    have hapart := h.apart hit hhit other hother
    omega
  · rw [List.countP_eq_zero.mpr]
    · exact Nat.zero_le _
    · intro hit hhit hlate
      exact hnone ⟨hit, hhit, of_decide_eq_true hlate⟩

/-- Of a window that began before, the hit that opened it is missed. -/
theorem Spaced.countP_early (h : Spaced length most hits) (origin : ℕ) :
    (hits.countP fun hit ↦ origin ≤ hit.time ∧ hit.start < origin) ≤ most - 1 := by
  by_cases hnone : ∃ hit ∈ hits, origin ≤ hit.time ∧ hit.start < origin
  · obtain ⟨hit, hhit, htime, hstart⟩ := hnone
    obtain ⟨first, hfirst, hsame, hopens⟩ := h.opened hit hhit
    have hless : (hits.countP fun hit ↦ origin ≤ hit.time ∧ hit.start < origin) <
        hits.countP fun other ↦ other.start = hit.start := by
      refine countP_lt (fun other hother hearly ↦ ?_) hfirst (decide_eq_true hsame)
        (decide_eq_false ?_)
      · rw [decide_eq_true_eq] at hearly ⊢
        have hinside := h.inside hit hhit
        have hinside' := h.inside other hother
        have hapart := h.apart hit hhit other hother
        omega
      · omega
    have hfew := h.few hit.start
    omega
  · rw [List.countP_eq_zero.mpr]
    · exact Nat.zero_le _
    · intro hit hhit hearly
      exact hnone ⟨hit, hhit, of_decide_eq_true hearly⟩

/-- Any interval as long as a window has fewer hits than two full windows. -/
theorem Spaced.sliding (h : Spaced length most hits) (hmost : 0 < most) (origin : ℕ) :
    (hits.countP fun hit ↦ origin ≤ hit.time ∧ hit.time < origin + length) ≤ 2 * most - 1 := by
  have hlate := h.countP_late origin
  have hearly := h.countP_early origin
  have hsplit : (hits.countP fun hit ↦ origin ≤ hit.time ∧ hit.time < origin + length) ≤
      (hits.countP fun hit ↦ hit.time < origin + length ∧ origin ≤ hit.start) +
        hits.countP fun hit ↦ origin ≤ hit.time ∧ hit.start < origin := by
    refine countP_le_add fun hit hhit hboth ↦ ?_
    rw [decide_eq_true_eq] at hboth
    by_cases hstart : origin ≤ hit.start
    · exact Or.inl (decide_eq_true ⟨hboth.2, hstart⟩)
    · exact Or.inr (decide_eq_true ⟨hboth.1, Nat.not_le.mp hstart⟩)
  omega

end Rvx.Windows
