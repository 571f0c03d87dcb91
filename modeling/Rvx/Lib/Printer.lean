import Mathlib.Algebra.GroupWithZero.Nat
import Mathlib.Data.List.Basic
import Mathlib.Data.String.Basic

/-!
# Unambiguous printers

A printer is unambiguous at a value when the printed text, followed by anything that may follow
it, determines both the value and the rest.  The rules compose: runs of a character class,
sequences of self-delimiting pieces closed by a terminator, and comma-separated lists.
-/

namespace Rvx.Printer

variable {α : Type}

/-- Text printed for `value` is never text printed for another value, whatever follows. -/
def UnambiguousAt (print : α → List Char) (stop : List Char → Prop) (value : α) : Prop :=
  ∀ ⦃other : α⦄ ⦃rest rest' : List Char⦄, stop rest → stop rest' →
    print value ++ rest = print other ++ rest' → value = other ∧ rest = rest'

/-- The rest does not start with a character of the class. -/
def Avoids (member : Char → Prop) (rest : List Char) : Prop := ∀ c ∈ rest.head?, ¬ member c

@[simp]
theorem avoids_nil {member : Char → Prop} : Avoids member [] := by simp [Avoids]

@[simp]
theorem avoids_cons {member : Char → Prop} {c : Char} {rest : List Char} :
    Avoids member (c :: rest) ↔ ¬ member c := by simp [Avoids]

/-- A maximal run of one character class is split off uniquely. -/
theorem append_inj_of_class {member : Char → Prop} {run run' rest rest' : List Char}
    (hrun : ∀ c ∈ run, member c) (hrun' : ∀ c ∈ run', member c)
    (hrest : Avoids member rest) (hrest' : Avoids member rest')
    (h : run ++ rest = run' ++ rest') : run = run' ∧ rest = rest' := by
  induction run generalizing run' with
  | nil =>
    cases run' with
    | nil => exact ⟨rfl, by simpa using h⟩
    | cons c run' =>
      simp only [List.nil_append, List.cons_append] at h
      exact absurd (hrun' c (by simp)) (by simpa [h] using hrest)
  | cons c run ih =>
    cases run' with
    | nil =>
      simp only [List.nil_append, List.cons_append] at h
      exact absurd (hrun c (by simp)) (by simpa [← h] using hrest')
    | cons c' run' =>
      simp only [List.cons_append, List.cons.injEq] at h
      have htail := ih (fun d hd ↦ hrun d (by simp [hd])) (fun d hd ↦ hrun' d (by simp [hd])) h.2
      exact ⟨by rw [h.1, htail.1], htail.2⟩

/-- A reader that undoes the printer makes it unambiguous. -/
theorem unambiguousAt_of_read {print : α → List Char} {stop : List Char → Prop}
    {read : List Char → Option (α × List Char)}
    (h : ∀ value rest, stop rest → read (print value ++ rest) = some (value, rest)) (value : α) :
    UnambiguousAt print stop value := by
  intro other rest rest' hrest hrest' heq
  have hread := h value rest hrest
  rw [heq, h other rest' hrest'] at hread
  simpa [eq_comm] using hread

/-- Self-delimiting pieces followed by a terminator no piece starts with. -/
theorem unambiguousAt_flatMap {print : α → List Char} {close : Char}
    (hpiece : ∀ value, UnambiguousAt print (fun _ ↦ True) value)
    (hstart : ∀ value, ∃ c text, print value = c :: text ∧ c ≠ close) (values : List α) :
    UnambiguousAt (fun values ↦ values.flatMap print ++ [close]) (fun _ ↦ True) values := by
  intro others rest rest' _ _ h
  induction values generalizing others with
  | nil =>
    cases others with
    | nil => exact ⟨rfl, by simpa using h⟩
    | cons other others =>
      obtain ⟨c, text, hprint, hne⟩ := hstart other
      simp only [List.flatMap_nil, List.flatMap_cons, hprint, List.nil_append, List.cons_append,
        List.cons.injEq] at h
      exact absurd h.1.symm hne
  | cons value values ih =>
    cases others with
    | nil =>
      obtain ⟨c, text, hprint, hne⟩ := hstart value
      simp only [List.flatMap_nil, List.flatMap_cons, hprint, List.nil_append, List.cons_append,
        List.cons.injEq] at h
      exact absurd h.1 hne
    | cons other others =>
      simp only [List.flatMap_cons, List.append_assoc] at h
      obtain ⟨rfl, hrest⟩ := hpiece value trivial trivial h
      have htail := ih (by simpa using hrest)
      exact ⟨by rw [htail.1], htail.2⟩

/-! ## Comma-separated lists -/

/-- The texts joined by commas. -/
def commaSeparated : List (List Char) → List Char
  | [] => []
  | [text] => text
  | text :: next :: rest => text ++ ',' :: commaSeparated (next :: rest)

theorem utf8Len_commaSeparated_le (texts : List (List Char)) :
    String.utf8Len (commaSeparated texts) ≤ (texts.map fun text ↦ String.utf8Len text + 1).sum := by
  induction texts with
  | nil => simp [commaSeparated]
  | cons text rest ih =>
    cases rest with
    | nil => simp [commaSeparated]
    | cons next rest =>
      have hcomma : Char.utf8Size ',' = 1 := by decide
      simp only [commaSeparated, String.utf8Len_append, String.utf8Len_cons, hcomma,
        List.map_cons, List.sum_cons] at ih ⊢
      omega

/-- A list of unambiguous items, joined by commas and closed by a bracket. -/
theorem unambiguousAt_commaSeparated {print : α → List Char} {stop : List Char → Prop}
    {close : Char} {values : List α}
    (hitem : ∀ value ∈ values, UnambiguousAt print stop value)
    (hcomma : ∀ rest, stop (',' :: rest)) (hclose : ∀ rest, stop (close :: rest))
    (hne : close ≠ ',')
    (hstart : ∀ value, ∃ c text, print value = c :: text ∧ c ≠ close) :
    UnambiguousAt (fun values ↦ commaSeparated (values.map print) ++ [close]) (fun _ ↦ True)
      values := by
  intro others rest rest' _ _ h
  induction values generalizing others with
  | nil =>
    cases others with
    | nil => exact ⟨rfl, by simpa [commaSeparated] using h⟩
    | cons other others =>
      obtain ⟨c, text, hprint, hother⟩ := hstart other
      cases others <;>
        simp only [List.map_nil, List.map_cons, commaSeparated, hprint, List.nil_append,
          List.cons_append, List.cons.injEq] at h <;> exact absurd h.1.symm hother
  | cons value values ih =>
    cases others with
    | nil =>
      obtain ⟨c, text, hprint, hvalue⟩ := hstart value
      cases values <;>
        simp only [List.map_nil, List.map_cons, commaSeparated, hprint, List.nil_append,
          List.cons_append, List.cons.injEq] at h <;> exact absurd h.1 hvalue
    | cons other others =>
      have hhead := hitem value (by simp)
      cases values with
      | nil =>
        cases others with
        | nil =>
          obtain ⟨rfl, hrest⟩ := hhead (hclose rest) (hclose rest')
            (by simpa [commaSeparated] using h)
          exact ⟨rfl, by simpa using hrest⟩
        | cons next others =>
          obtain ⟨rfl, hrest⟩ := hhead (hclose rest)
            (hcomma (commaSeparated ((next :: others).map print) ++ close :: rest'))
            (by simpa [commaSeparated] using h)
          simp [hne] at hrest
      | cons next values =>
        cases others with
        | nil =>
          obtain ⟨rfl, hrest⟩ := hhead
            (hcomma (commaSeparated ((next :: values).map print) ++ close :: rest))
            (hclose rest') (by simpa [commaSeparated] using h)
          simp [hne.symm] at hrest
        | cons next' others =>
          obtain ⟨rfl, hrest⟩ := hhead
            (hcomma (commaSeparated ((next :: values).map print) ++ close :: rest))
            (hcomma (commaSeparated ((next' :: others).map print) ++ close :: rest'))
            (by simpa [commaSeparated] using h)
          have hrest' : commaSeparated ((next :: values).map print) ++ [close] ++ rest =
              commaSeparated ((next' :: others).map print) ++ [close] ++ rest' := by
            simpa using hrest
          have htail := ih (fun item hmem ↦ hitem item (by simp [hmem])) hrest'
          exact ⟨by rw [htail.1], htail.2⟩

end Rvx.Printer
