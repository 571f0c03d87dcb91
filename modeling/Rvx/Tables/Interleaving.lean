import Mathlib.Data.List.FinRange
import Mathlib.Data.List.Lex
import Mathlib.Data.String.Basic
import Mathlib.Data.Sum.Order
import Rvx.Lib.RoundRobin
import Rvx.Lib.Selection

/-!
# Interleaved record pages

Without a sort, records are listed source by source in turns, and within a source by identity.  A
page finds the rounds it lies in from the sizes of the sources alone and sorts of each source only
the identities of those rounds; it is a slice of the whole listing.
-/

namespace Rvx.Tables

open Selection StableSort RoundRobin

inductive IdentityPart where
  | number (value : ℤ)
  | string (text : String)
deriving DecidableEq

/-- A record's identity in its scope, the index of its source. -/
structure Identity where
  scope : ℕ
  parts : List IdentityPart
  full : String

/-- `IdentityPart::cmp`: numbers come before strings. -/
def IdentityPart.compare : IdentityPart → IdentityPart → Ordering
  | .number a, .number b => Ord.compare a b
  | .number _, .string _ => .lt
  | .string _, .number _ => .gt
  | .string a, .string b => Ord.compare a b

/-- `Vec<IdentityPart>::cmp`. -/
def compareParts : List IdentityPart → List IdentityPart → Ordering
  | [], [] => .eq
  | [], _ :: _ => .lt
  | _ :: _, [] => .gt
  | a :: as, b :: bs => (a.compare b).then (compareParts as bs)

/-! ## The page -/

/-- How many identities come before a round. -/
def beforeRound (counts : List ℕ) (round : ℕ) : ℕ := (counts.map fun count ↦ min count round).sum

/-- The binary search of `identityRound`. -/
def searchRound (counts : List ℕ) (position low high : ℕ) : ℕ :=
  if low < high then
    let middle := low + (high - low + 1) / 2
    if beforeRound counts middle ≤ position then searchRound counts position middle high
    else searchRound counts position low (middle - 1)
  else low
termination_by high - low

/-- The round of a position. -/
def identityRound (counts : List ℕ) (position : ℕ) : ℕ :=
  searchRound counts position 0 (counts.foldr max 0)

/-- The loop over the queue of windows, none of which is exhausted. -/
def drain {α : Type} (offset stop : ℕ) : (position : ℕ) → List (α × List α) → List α
  | _, [] => []
  | position, (index, rest) :: queue =>
    let result := if position ≥ offset then [index] else []
    if position + 1 = stop then result
    else result ++ drain offset stop (position + 1) (queue ++ (waiting rest).toList)
termination_by _ queue => (queue.map fun window ↦ window.2.length + 1).sum
decreasing_by
  cases rest with
  | nil => simp [waiting]
  | cons next others =>
    simp [waiting]
    omega

/-- The indices of the identities of every scope. -/
def buckets (identities : List Identity) (scopes : ℕ) : List (List (Fin identities.length)) :=
  (List.range scopes).map fun scope ↦
    (List.finRange identities.length).filter fun index ↦ (identities.get index).scope = scope

def interleavedIdentityPage (ops : SliceOps) (identities : List Identity)
    (scopes offset limit : ℕ) : List (Fin identities.length) :=
  if offset ≥ identities.length then []
  else
    let stop := min (offset + limit) identities.length
    let buckets := buckets identities scopes
    let counts := buckets.map List.length
    let firstRound := identityRound counts offset
    let lastRound := identityRound counts (stop - 1)
    let windows := buckets.map (selectPage ops
      (fun a b ↦ compareParts (identities.get a).parts (identities.get b).parts) firstRound
      (lastRound - firstRound + 1))
    drain offset stop (beforeRound counts firstRound) (windows.filterMap waiting)

/-! ## The order of identities -/

/-- Where a part stands among numbers and strings. -/
def IdentityPart.key : IdentityPart → ℤ ⊕ₗ String
  | .number value => Sum.inlₗ value
  | .string text => Sum.inrₗ text

theorem IdentityPart.key_injective : Function.Injective IdentityPart.key := by
  intro a b h
  cases a <;> cases b <;> simp_all [IdentityPart.key]

/-- The order of keys; lists of keys compare in more than one way. -/
def compareKeys {κ : Type} [LinearOrder κ] (a b : κ) : Ordering := Ord.compare a b

section CompareKeys

variable {κ κ' : Type} [LinearOrder κ] [LinearOrder κ']

theorem compareKeys_self (a : κ) : compareKeys a a = .eq := compare_eq_iff_eq.mpr rfl

theorem compareKeys_of_lt {a b : κ} (h : a < b) : compareKeys a b = .lt := compare_lt_iff_lt.mpr h

theorem compareKeys_of_gt {a b : κ} (h : b < a) : compareKeys a b = .gt := compare_gt_iff_gt.mpr h

theorem compareKeys_map {f : κ → κ'} (hf : StrictMono f) (a b : κ) :
    compareKeys (f a) (f b) = compareKeys a b := by
  rcases lt_trichotomy a b with h | rfl | h
  · rw [compareKeys_of_lt h, compareKeys_of_lt (hf h)]
  · rw [compareKeys_self, compareKeys_self]
  · rw [compareKeys_of_gt h, compareKeys_of_gt (hf h)]

/-- Lists compare by their first elements, then by the rest. -/
theorem compareKeys_cons (a b : κ) (as bs : List κ) :
    compareKeys (a :: as) (b :: bs) = (compareKeys a b).then (compareKeys as bs) := by
  rcases lt_trichotomy a b with h | rfl | h
  · rw [compareKeys_of_lt h]
    exact compareKeys_of_lt (List.cons_lt_cons_iff.mpr (Or.inl h))
  · have hmono : StrictMono fun list : List κ ↦ a :: list := fun _ _ hless ↦
      List.cons_lt_cons_iff.mpr (Or.inr ⟨rfl, hless⟩)
    rw [compareKeys_self]
    exact compareKeys_map hmono as bs
  · rw [compareKeys_of_gt h]
    exact compareKeys_of_gt (List.cons_lt_cons_iff.mpr (Or.inl h))

end CompareKeys

theorem IdentityPart.compare_eq (a b : IdentityPart) :
    a.compare b = compareKeys a.key b.key := by
  symm
  cases a with
  | number a =>
    cases b with
    | number b => exact compareKeys_map Sum.Lex.inl_strictMono a b
    | string b => exact compareKeys_of_lt (Sum.Lex.inl_lt_inr a b)
  | string a =>
    cases b with
    | number b => exact compareKeys_of_gt (Sum.Lex.inl_lt_inr b a)
    | string b => exact compareKeys_map Sum.Lex.inr_strictMono a b

/-- The identities of a scope are ordered by their parts. -/
def Identity.key (identity : Identity) : List (ℤ ⊕ₗ String) :=
  identity.parts.map IdentityPart.key

theorem compareParts_eq (as bs : List IdentityPart) :
    compareParts as bs = compareKeys (as.map IdentityPart.key) (bs.map IdentityPart.key) := by
  induction as generalizing bs with
  | nil =>
    cases bs with
    | nil => exact (compareKeys_self _).symm
    | cons b bs => exact (compareKeys_of_lt (List.nil_lt_cons _ _)).symm
  | cons a as ih =>
    cases bs with
    | nil => exact (compareKeys_of_gt (List.nil_lt_cons _ _)).symm
    | cons b bs =>
      rw [compareParts, IdentityPart.compare_eq, ih, List.map_cons, List.map_cons, compareKeys_cons]

/-! ## Rounds -/

theorem beforeRound_mono {counts : List ℕ} {round round' : ℕ} (h : round ≤ round') :
    beforeRound counts round ≤ beforeRound counts round' := by
  induction counts with
  | nil => exact le_rfl
  | cons count rest ih =>
    simp only [beforeRound, List.map_cons, List.sum_cons] at ih ⊢
    omega

/-- The last round up to `high` that the position has reached. -/
structure RoundOf (counts : List ℕ) (position high round : ℕ) : Prop where
  le_high : round ≤ high
  reached : beforeRound counts round ≤ position
  last : round = high ∨ position < beforeRound counts (round + 1)

theorem searchRound_spec {counts : List ℕ} {position low high bound : ℕ} (hle : low ≤ high)
    (hhigh : high ≤ bound) (hlow : beforeRound counts low ≤ position)
    (hlast : high = bound ∨ position < beforeRound counts (high + 1)) :
    RoundOf counts position bound (searchRound counts position low high) := by
  fun_induction searchRound counts position low high with
  | case1 low high hless middle hreached ih =>
    exact ih (by omega) hhigh hreached hlast
  | case2 low high hless middle hover ih =>
    refine ih (by omega) (by omega) hlow (Or.inr ?_)
    rw [Nat.sub_add_cancel (by omega)]
    exact not_le.mp hover
  | case3 low high hdone =>
    obtain rfl : low = high := by omega
    exact ⟨hhigh, hlow, hlast⟩

theorem identityRound_spec (counts : List ℕ) (position : ℕ) :
    RoundOf counts position (counts.foldr max 0) (identityRound counts position) :=
  searchRound_spec (Nat.zero_le _) le_rfl (by simp [beforeRound]) (Or.inl rfl)

/-! ## The listing -/

section Listing

variable {identities : List Identity} {scopes : ℕ}

theorem mem_buckets {bucket : List (Fin identities.length)}
    (h : bucket ∈ buckets identities scopes) :
    ∃ scope < scopes, bucket = (List.finRange identities.length).filter
      fun index ↦ (identities.get index).scope = scope := by
  obtain ⟨scope, hscope, rfl⟩ := List.mem_map.mp h
  exact ⟨scope, List.mem_range.mp hscope, rfl⟩

/-- Every identity is in one bucket. -/
theorem perm_buckets (hscopes : ∀ identity ∈ identities, identity.scope < scopes) :
    (buckets identities scopes).flatten.Perm (List.finRange identities.length) := by
  refine (List.perm_ext_iff_of_nodup ?_ (List.nodup_finRange _)).mpr fun index ↦ ?_
  · rw [List.nodup_flatten]
    refine ⟨fun bucket hbucket ↦ ?_, List.pairwise_map.mpr ?_⟩
    · obtain ⟨scope, -, rfl⟩ := mem_buckets hbucket
      exact (List.nodup_finRange _).filter _
    · refine List.nodup_range.imp fun hne index hindex hindex' ↦ hne ?_
      have hscope := List.of_mem_filter hindex
      have hscope' := List.of_mem_filter hindex'
      rw [decide_eq_true_eq] at hscope hscope'
      exact hscope.symm.trans hscope'
  · refine ⟨fun _ ↦ List.mem_finRange index, fun _ ↦ List.mem_flatten.mpr ?_⟩
    have hscope := hscopes _ (List.get_mem identities index)
    exact ⟨_, List.mem_map.mpr ⟨_, List.mem_range.mpr hscope, rfl⟩,
      List.mem_filter.mpr ⟨List.mem_finRange index, decide_eq_true rfl⟩⟩

/-- The identities of every scope in order, one from each scope in turn. -/
def identityListing (identities : List Identity) (scopes : ℕ) : List (Fin identities.length) :=
  listing ((buckets identities scopes).map (sortOn fun index ↦ (identities.get index).key))

theorem perm_identityListing (hscopes : ∀ identity ∈ identities, identity.scope < scopes) :
    (identityListing identities scopes).Perm (List.finRange identities.length) := by
  refine ((perm_listing _).trans ?_).trans (perm_buckets hscopes)
  induction buckets identities scopes with
  | nil => exact List.Perm.refl _
  | cons bucket rest ih =>
    rw [List.map_cons, List.flatten_cons, List.flatten_cons]
    exact (perm_sortOn _ bucket).append ih

/-- In a bucket no two identities have the same parts. -/
theorem nodup_keys_bucket
    (hdistinct : identities.Pairwise fun a b ↦ a.scope = b.scope → a.parts ≠ b.parts)
    {bucket : List (Fin identities.length)} (h : bucket ∈ buckets identities scopes) :
    (bucket.map fun index ↦ (identities.get index).key).Nodup := by
  obtain ⟨scope, -, rfl⟩ := mem_buckets h
  refine ((List.nodup_finRange _).filter _).map_on fun index hindex index' hindex' heq ↦ ?_
  have hscope := List.of_mem_filter hindex
  have hscope' := List.of_mem_filter hindex'
  rw [decide_eq_true_eq] at hscope hscope'
  have hparts := IdentityPart.key_injective.list_map heq
  rw [List.pairwise_iff_get] at hdistinct
  rcases lt_trichotomy index index' with hless | hsame | hless
  · exact absurd hparts (hdistinct index index' hless (hscope.trans hscope'.symm))
  · exact hsame
  · exact absurd hparts.symm (hdistinct index' index hless (hscope'.trans hscope.symm))

/-- Served from a position on, the queue gives a slice. -/
theorem drain_eq {α : Type} {offset stop position : ℕ} {queue : List (α × List α)}
    (h : position < stop) :
    drain offset stop position queue =
      ((serve queue).take (stop - position)).drop (offset - position) := by
  fun_induction drain offset stop position queue with
  | case1 position => simp [serve]
  | case2 position index rest queue result hstop =>
    have hone : stop - position = 1 := by omega
    rw [serve, hone, List.take_succ_cons, List.take_zero]
    by_cases hposition : position ≥ offset
    · simp [result, hposition]
    · have hpositive : 1 ≤ offset - position := by omega
      simp [result, hposition, List.drop_eq_nil_of_le, hpositive]
  | case3 position index rest queue result hstop ih =>
    rw [ih (by omega), serve]
    have hcount : stop - position = stop - (position + 1) + 1 := by omega
    rw [hcount, List.take_succ_cons]
    by_cases hposition : position ≥ offset
    · have hnone : offset - position = 0 := by omega
      have hnone' : offset - (position + 1) = 0 := by omega
      simp [result, hposition, hnone, hnone']
    · have hsome : offset - position = offset - (position + 1) + 1 := by omega
      simp [result, hposition, hsome]

/-- The buckets, each in the order of its identities. -/
def orderedBuckets (identities : List Identity) (scopes : ℕ) :
    List (List (Fin identities.length)) :=
  (buckets identities scopes).map (sortOn fun index ↦ (identities.get index).key)

/-- The identities before a round, counted from the sizes of the buckets. -/
theorem length_turns_ordered (round : ℕ) :
    (turns (orderedBuckets identities scopes) 0 round).length =
      beforeRound ((buckets identities scopes).map List.length) round := by
  rw [length_turns, beforeRound, orderedBuckets, List.map_map, List.map_map]
  refine congrArg List.sum (List.map_congr_left fun bucket _ ↦ ?_)
  rw [Function.comp_apply, length_sortOn, Function.comp_apply]

theorem longest_ordered :
    longest (orderedBuckets identities scopes) =
      ((buckets identities scopes).map List.length).foldr max 0 := by
  rw [longest, orderedBuckets, List.map_map]
  refine congrArg (List.foldr max 0) (List.map_congr_left fun bucket _ ↦ ?_)
  rw [Function.comp_apply, length_sortOn]

/-- What the page serves are the identities of its rounds. -/
theorem serve_windows (ops : SliceOps)
    (hdistinct : identities.Pairwise fun a b ↦ a.scope = b.scope → a.parts ≠ b.parts)
    (first count : ℕ) :
    serve (((buckets identities scopes).map (selectPage ops
      (fun a b ↦ compareParts (identities.get a).parts (identities.get b).parts) first
      count)).filterMap waiting) = turns (orderedBuckets identities scopes) first count := by
  have hpages : (buckets identities scopes).map (selectPage ops
      (fun a b ↦ compareParts (identities.get a).parts (identities.get b).parts) first count) =
      (orderedBuckets identities scopes).map fun list ↦ (list.drop first).take count := by
    rw [orderedBuckets, List.map_map]
    refine List.map_congr_left fun bucket hbucket ↦ ?_
    exact selectPage_eq ops first count (fun _ _ _ _ ↦ compareParts_eq _ _)
      (nodup_keys_bucket hdistinct hbucket)
  rw [hpages, ← turns_window]
  refine serve_eq (longest_le.mpr fun list hlist ↦ ?_)
  obtain ⟨whole, -, rfl⟩ := List.mem_map.mp hlist
  exact List.length_take_le _ _

theorem interleavedIdentityPage_eq (ops : SliceOps)
    (hscopes : ∀ identity ∈ identities, identity.scope < scopes)
    (hdistinct : identities.Pairwise fun a b ↦ a.scope = b.scope → a.parts ≠ b.parts)
    (offset limit : ℕ) (hlimit : 1 ≤ limit) :
    interleavedIdentityPage ops identities scopes offset limit =
      ((identityListing identities scopes).drop offset).take limit := by
  have hlength : (identityListing identities scopes).length = identities.length := by
    rw [(perm_identityListing hscopes).length_eq, List.length_finRange]
  unfold interleavedIdentityPage
  split
  · rename_i hover
    rw [List.drop_eq_nil_of_le (by omega), List.take_nil]
  rename_i hinside
  dsimp only
  generalize hstop : min (offset + limit) identities.length = stop
  generalize hcounts : (buckets identities scopes).map List.length = counts
  have hfirst := identityRound_spec counts offset
  have hlast := identityRound_spec counts (stop - 1)
  generalize identityRound counts offset = first at hfirst ⊢
  generalize identityRound counts (stop - 1) = last at hlast ⊢
  have hbefore (round : ℕ) : (turns (orderedBuckets identities scopes) 0 round).length =
      beforeRound counts round := hcounts ▸ length_turns_ordered round
  have hrounds : first ≤ last := by
    by_contra hless
    have hmono := @beforeRound_mono counts (last + 1) first (by omega)
    have hreached := hfirst.reached
    have hhigh := hfirst.le_high
    rcases hlast.last with hend | hnext <;> omega
  -- the last round ends behind the page
  have hend : stop ≤ (turns (orderedBuckets identities scopes) 0
      (first + (last - first + 1))).length := by
    have hcount : first + (last - first + 1) = last + 1 := by omega
    rw [hcount]
    rcases hlast.last with hhigh | hnext
    · have hlongest : longest (orderedBuckets identities scopes) ≤ last + 1 := by
        rw [longest_ordered, hcounts, ← hhigh]
        exact Nat.le_succ last
      have hall : (listing (orderedBuckets identities scopes)).length = identities.length := hlength
      rw [turns_of_longest_le hlongest, hall]
      omega
    · rw [hbefore]
      omega
  have hslice := slice_listing ((hbefore first).le.trans hfirst.reached) hend
  rw [hbefore] at hslice
  have hposition : beforeRound counts first < stop := by
    have hreached := hfirst.reached
    omega
  rw [drain_eq hposition, serve_windows ops hdistinct, hslice]
  have hwhole : listing (orderedBuckets identities scopes) = identityListing identities scopes := rfl
  rw [hwhole, List.drop_take]
  rcases Nat.le_total (offset + limit) identities.length with hle | hle
  · congr 1
    omega
  · rw [List.take_of_length_le (by rw [List.length_drop]; omega),
      List.take_of_length_le (by rw [List.length_drop]; omega)]

/-- A page is the slice of the round-robin listing, and the pages list every identity once. -/
theorem interleaved_identity_page_exact (ops : SliceOps) (identities : List Identity) (scopes : ℕ)
    (hscopes : ∀ identity ∈ identities, identity.scope < scopes)
    (hdistinct : identities.Pairwise fun a b ↦ a.scope = b.scope → a.parts ≠ b.parts) :
    (∀ offset limit, 1 ≤ limit →
      interleavedIdentityPage ops identities scopes offset limit =
        ((identityListing identities scopes).drop offset).take limit) ∧
    (identityListing identities scopes).Perm (List.finRange identities.length) ∧
    ∀ limit pages, 1 ≤ limit → identities.length ≤ pages * limit →
      ((List.range pages).flatMap fun page ↦
        interleavedIdentityPage ops identities scopes (page * limit) limit) =
          identityListing identities scopes := by
  have hslice := fun offset limit hlimit ↦
    interleavedIdentityPage_eq ops hscopes hdistinct offset limit hlimit
  refine ⟨hslice, perm_identityListing hscopes, fun limit pages hlimit hpages ↦ ?_⟩
  have hall (count : ℕ) : ((List.range count).flatMap fun page ↦
      interleavedIdentityPage ops identities scopes (page * limit) limit) =
        (identityListing identities scopes).take (count * limit) := by
    induction count with
    | zero => simp
    | succ count ih =>
      rw [List.range_succ, List.flatMap_append, ih, List.flatMap_singleton, hslice _ _ hlimit,
        Nat.succ_mul, List.take_add]
  rw [hall, List.take_of_length_le]
  rw [(perm_identityListing hscopes).length_eq, List.length_finRange]
  exact hpages

end Listing

/-- Three sources, of which one is exhausted in the first round. -/
def sampleIdentities : List Identity :=
  [⟨0, [.number 3], "a"⟩, ⟨0, [.number 1], "b"⟩, ⟨1, [.string "x"], "c"⟩, ⟨2, [.number 2], "d"⟩,
    ⟨2, [.string "1"], "e"⟩]

theorem interleaved_identity_page_exact_sample :
    (∀ offset limit, 1 ≤ limit →
      interleavedIdentityPage .stable sampleIdentities 3 offset limit =
        ((identityListing sampleIdentities 3).drop offset).take limit) ∧
    (identityListing sampleIdentities 3).map Fin.val = [1, 2, 3, 0, 4] := by
  refine ⟨(interleaved_identity_page_exact .stable sampleIdentities 3 ?_ ?_).1, ?_⟩
  · decide
  · decide
  · decide +kernel

end Rvx.Tables
