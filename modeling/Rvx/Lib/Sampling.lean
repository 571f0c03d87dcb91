import Mathlib.Data.List.Chain
import Mathlib.Data.List.Nodup
import Mathlib.Order.Lattice

/-!
# Samples that keep gaps

A sample of a list in the order of a key that ends where the list ends and does not join two items
across a gap of the list.  Samples of consecutive parts make a sample of the whole, and a sample of
a sample is one of the list it was taken from.
-/

namespace Rvx

variable {α κ : Type} [LinearOrder κ]

/-- No gap lies between two items, or one of them is a gap itself. -/
def Joinable (key : α → κ) (gap : α → Prop) (full : List α) (left right : α) : Prop :=
  ¬ gap left → ¬ gap right → ∀ item ∈ full, key left < key item → key item < key right → ¬ gap item

/-- A sample of a list. -/
structure Sample (key : α → κ) (gap : α → Prop) (full kept : List α) : Prop where
  sublist : kept.Sublist full
  last : kept.getLast? = full.getLast?
  joinable : kept.IsChain (Joinable key gap full)

/-- A sample does not start behind a gap, unless with a gap. -/
def Leading (key : α → κ) (gap : α → Prop) (full kept : List α) : Prop :=
  ∀ first ∈ kept.head?, ¬ gap first → ∀ item ∈ full, key item < key first → ¬ gap item

/-- The items ascend strictly by their keys. -/
def Ordered (key : α → κ) (full : List α) : Prop := full.Pairwise fun left right ↦ key left < key right

variable {key : α → κ} {gap : α → Prop} {full middle kept : List α}

theorem Ordered.eq_of_key (h : Ordered key full) {left right : α} (hleft : left ∈ full)
    (hright : right ∈ full) (hsame : key left = key right) : left = right := by
  have hnodup : (full.map key).Nodup := List.pairwise_map.mpr (h.imp fun hlt ↦ hlt.ne)
  exact List.inj_on_of_nodup_map hnodup hleft hright hsame

/-- Between two items that may be joined no item is a gap, themselves included. -/
theorem Joinable.closed {left right : α} (h : Joinable key gap full left right)
    (hordered : Ordered key full) (hleft : left ∈ full) (hright : right ∈ full)
    (hgapl : ¬ gap left) (hgapr : ¬ gap right) :
    ∀ item ∈ full, key left ≤ key item → key item ≤ key right → ¬ gap item := by
  intro item hitem hlow hhigh
  rcases hlow.lt_or_eq with hlow | hlow
  · rcases hhigh.lt_or_eq with hhigh | hhigh
    · exact h hgapl hgapr item hitem hlow hhigh
    · rwa [hordered.eq_of_key hitem hright hhigh]
  · rwa [← hordered.eq_of_key hleft hitem hlow]

namespace Sample

theorem nil : Sample key gap [] [] := ⟨List.Sublist.refl _, rfl, List.isChain_nil⟩

/-- Gaps need only be the same ones in the list. -/
theorem congr {gap' : α → Prop} (hgap : ∀ item ∈ full, gap item ↔ gap' item)
    (h : Sample key gap full kept) : Sample key gap' full kept where
  sublist := h.sublist
  last := h.last
  joinable := by
    refine h.joinable.imp_of_mem_imp fun left right hleft hright hjoin hgapl hgapr ↦ ?_
    rw [← hgap left (h.sublist.subset hleft)] at hgapl
    rw [← hgap right (h.sublist.subset hright)] at hgapr
    intro item hitem hlow hhigh
    rw [← hgap item hitem]
    exact hjoin hgapl hgapr item hitem hlow hhigh

/-- A sample is empty when there is nothing to sample. -/
theorem eq_nil_iff (h : Sample key gap full kept) : kept = [] ↔ full = [] := by
  rw [← List.getLast?_eq_none_iff, h.last, List.getLast?_eq_none_iff]

/-- Consecutive items of an ordered list have nothing between them. -/
theorem between_of_ordered {before after : List α} {left right item : α}
    (hordered : Ordered key (before ++ left :: right :: after))
    (hitem : item ∈ before ++ left :: right :: after) :
    key item ≤ key left ∨ key right ≤ key item := by
  unfold Ordered at hordered
  rw [List.pairwise_append, List.pairwise_cons, List.pairwise_cons] at hordered
  obtain ⟨-, ⟨-, hright, -⟩, hbefore⟩ := hordered
  rcases List.mem_append.mp hitem with hmem | hmem
  · exact Or.inl (hbefore item hmem left List.mem_cons_self).le
  · rcases List.mem_cons.mp hmem with rfl | hmem
    · exact Or.inl le_rfl
    · rcases List.mem_cons.mp hmem with rfl | hmem
      · exact Or.inr le_rfl
      · exact Or.inr (hright item hmem).le

/-- Two consecutive items of a list enclose every key between two of its items. -/
theorem exists_enclosing {list : List α} {low high : κ} (hordered : Ordered key list)
    {left right : α} (hleft : left ∈ list) (hright : right ∈ list) (hlow : key left = low)
    (hhigh : key right = high) {bound : κ} (hfrom : low < bound) (hto : bound < high)
    (hfresh : ∀ item ∈ list, key item ≠ bound) :
    ∃ before first second after, list = before ++ first :: second :: after ∧
      low ≤ key first ∧ key first < bound ∧ bound < key second ∧ key second ≤ high := by
  induction list generalizing left low with
  | nil => simp at hleft
  | cons item rest ih =>
    unfold Ordered at hordered
    rw [List.pairwise_cons] at hordered
    rcases List.mem_cons.mp hleft with rfl | hmem
    · cases rest with
      | nil =>
        obtain rfl : right = left := by simpa using hright
        exact absurd (hfrom.trans hto) (by rw [← hlow, ← hhigh]; exact lt_irrefl _)
      | cons second rest =>
        rcases lt_or_gt_of_ne (hfresh second (by simp)) with hbelow | habove
        · have hin : right ∈ second :: rest := by
            rcases List.mem_cons.mp hright with rfl | hmem
            · exact absurd (hfrom.trans hto) (by rw [← hlow, ← hhigh]; exact lt_irrefl _)
            · exact hmem
          obtain ⟨before, first, other, after, hsplit, hge, hlt, hgt, hle⟩ :=
            ih hordered.2 List.mem_cons_self hin rfl hbelow
              fun item hitem ↦ hfresh item (List.mem_cons_of_mem _ hitem)
          refine ⟨left :: before, first, other, after, by rw [hsplit]; rfl, ?_, hlt, hgt, hle⟩
          exact hlow ▸ (hordered.1 second List.mem_cons_self).le.trans hge
        · refine ⟨[], left, second, rest, rfl, hlow.ge, hlow ▸ hfrom, habove, ?_⟩
          rcases List.mem_cons.mp hright with rfl | hmem
          · exact absurd (hfrom.trans hto) (by rw [← hlow, ← hhigh]; exact lt_irrefl _)
          · rcases List.mem_cons.mp hmem with rfl | hmem
            · exact hhigh.le
            · exact hhigh ▸ ((List.pairwise_cons.mp hordered.2).1 right hmem).le
    · have hin : right ∈ rest := by
        rcases List.mem_cons.mp hright with rfl | hin
        · have hlt := hordered.1 left hmem
          rw [hlow, hhigh] at hlt
          exact absurd (hfrom.trans hto) hlt.not_gt
        · exact hin
      obtain ⟨before, first, second, after, hsplit, hrest⟩ :=
        ih hordered.2 hmem hin hlow hfrom fun item hitem ↦
          hfresh item (List.mem_cons_of_mem _ hitem)
      exact ⟨item :: before, first, second, after, by rw [hsplit]; rfl, hrest⟩

/-- A sample of a sample. -/
theorem trans (hordered : Ordered key full) (h : Sample key gap full middle)
    (hkept : Sample key gap middle kept) : Sample key gap full kept where
  sublist := hkept.sublist.trans h.sublist
  last := hkept.last.trans h.last
  joinable := by
    have hmiddle : Ordered key middle := hordered.sublist h.sublist
    refine hkept.joinable.imp_of_mem_imp fun left right hleft hright hjoin hgapl hgapr ↦ ?_
    have hinleft := hkept.sublist.subset hleft
    have hinright := hkept.sublist.subset hright
    have hclosed := hjoin.closed hmiddle hinleft hinright hgapl hgapr
    intro item hitem hfrom hto hgap
    by_cases hin : item ∈ middle
    · exact hclosed item hin hfrom.le hto.le hgap
    · -- the item was left out between two neighbours of the sample in the middle
      have hfresh : ∀ other ∈ middle, key other ≠ key item := by
        intro other hother hsame
        exact hin (hordered.eq_of_key (h.sublist.subset hother) hitem hsame ▸ hother)
      obtain ⟨before, first, second, after, hsplit, hge, hlt, hgt, hle⟩ :=
        exists_enclosing hmiddle hinleft hinright rfl rfl hfrom hto hfresh
      have hfirst : first ∈ middle := by simp [hsplit]
      have hsecond : second ∈ middle := by simp [hsplit]
      have hchain := List.isChain_iff_forall_rel_of_append_cons_cons.mp h.joinable hsplit
      exact hchain (hclosed first hfirst hge (hlt.trans hto).le)
        (hclosed second hsecond (hfrom.trans hgt).le hle) item hitem hlt hgt hgap

/-- A list is a sample of itself. -/
theorem refl (hordered : Ordered key full) : Sample key gap full full where
  sublist := List.Sublist.refl full
  last := rfl
  joinable := by
    rw [List.isChain_iff_forall_rel_of_append_cons_cons]
    intro left right before after hsplit _ _ item hitem hfrom hto
    subst hsplit
    exact absurd (between_of_ordered hordered hitem) (not_or.mpr ⟨hfrom.not_ge, hto.not_ge⟩)

/-- Samples of two parts, the second one leading, make a sample of both. -/
theorem append {later keptLater : List α} (hordered : Ordered key (full ++ later))
    (h : Sample key gap full kept) (hlater : Sample key gap later keptLater)
    (hleading : Leading key gap later keptLater) :
    Sample key gap (full ++ later) (kept ++ keptLater) where
  sublist := h.sublist.append hlater.sublist
  last := by rw [List.getLast?_append, List.getLast?_append, h.last, hlater.last]
  joinable := by
    obtain ⟨hfull, hrest, hacross⟩ := List.pairwise_append.mp hordered
    refine (h.joinable.imp_of_mem_imp fun left right hleft hright hjoin hgapl hgapr ↦ ?_).append
      (hlater.joinable.imp_of_mem_imp fun left right hleft hright hjoin hgapl hgapr ↦ ?_) ?_
    · intro item hitem hfrom hto
      refine hjoin hgapl hgapr item ((List.mem_append.mp hitem).resolve_right fun hmem ↦ ?_) hfrom hto
      exact absurd (hacross right (h.sublist.subset hright) item hmem) hto.not_gt
    · intro item hitem hfrom hto
      refine hjoin hgapl hgapr item ((List.mem_append.mp hitem).resolve_left fun hmem ↦ ?_) hfrom hto
      exact absurd (hacross item hmem left (hlater.sublist.subset hleft)) hfrom.not_gt
    · intro left hleft right hright hgapl hgapr item hitem hfrom hto
      rcases List.mem_append.mp hitem with hmem | hmem
      · -- nothing of the first part comes after its last item
        rw [h.last] at hleft
        obtain ⟨before, rfl⟩ := List.getLast?_eq_some_iff.mp hleft
        rcases List.mem_append.mp hmem with hbefore | hlast
        · exact absurd ((List.pairwise_append.mp hfull).2.2 item hbefore left (by simp)) hfrom.not_gt
        · rw [List.mem_singleton.mp hlast] at hfrom
          exact absurd hfrom (lt_irrefl _)
      · exact hleading right hright hgapr item hmem hto

/-- The samples of consecutive parts, each of them leading, make a leading sample of the whole. -/
theorem flatMap {ι : Type} {parts : List ι} {full kept : ι → List α}
    (hordered : Ordered key (parts.flatMap full))
    (h : ∀ part ∈ parts, Sample key gap (full part) (kept part) ∧
      Leading key gap (full part) (kept part)) :
    Sample key gap (parts.flatMap full) (parts.flatMap kept) ∧
      Leading key gap (parts.flatMap full) (parts.flatMap kept) := by
  induction parts with
  | nil => exact ⟨nil, by simp [Leading]⟩
  | cons part rest ih =>
    rw [List.flatMap_cons] at hordered ⊢
    rw [List.flatMap_cons]
    obtain ⟨⟨hpart, hlead⟩, hothers⟩ := List.forall_mem_cons.mp h
    obtain ⟨-, hrest, hacross⟩ := List.pairwise_append.mp hordered
    obtain ⟨hsample, hleading⟩ := ih hrest hothers
    refine ⟨hpart.append hordered hsample hleading, ?_⟩
    intro first hfirst hgap item hitem hto
    cases hkept : kept part with
    | nil =>
      rw [hkept, List.nil_append] at hfirst
      rw [hpart.eq_nil_iff.mp hkept, List.nil_append] at hitem
      exact hleading first hfirst hgap item hitem hto
    | cons head tail =>
      have hhead : first ∈ (kept part).head? := by
        rw [hkept] at hfirst ⊢
        exact hfirst
      rcases List.mem_append.mp hitem with hmem | hmem
      · exact hlead first hhead hgap item hmem hto
      · have hin := hpart.sublist.subset (List.mem_of_mem_head? hhead)
        exact absurd (hacross first hin item hmem) hto.not_gt

end Sample

end Rvx
