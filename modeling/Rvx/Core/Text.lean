import Mathlib.Data.List.TakeWhile
import Rvx.Core.Protocol

/-!
# Text

The string operations the identifier and text checks use.
-/

namespace Rvx.Core

/-- `str::trim`. -/
def trim (text : String) : String :=
  String.ofList ((text.toList.dropWhile isWhitespace).reverse.dropWhile isWhitespace).reverse

/-- Everything is removed from both ends. -/
theorem strip_eq_nil {p : Char → Bool} {text : List Char} :
    ((text.dropWhile p).reverse.dropWhile p).reverse = [] ↔ ∀ c ∈ text, p c = true := by
  rw [List.reverse_eq_nil_iff, List.dropWhile_eq_nil_iff]
  constructor
  · intro h
    have hnone : text.dropWhile p = [] := by
      cases hrest : text.dropWhile p with
      | nil => rfl
      | cons c rest =>
        have hkept : p c = false := by simpa [hrest] using List.head?_dropWhile_not p text
        have hlast := h c (by simp [hrest])
        rw [hkept] at hlast
        cases hlast
    exact List.dropWhile_eq_nil_iff.mp hnone
  · intro h c hc
    exact h c ((List.dropWhile_suffix p).subset (List.mem_reverse.mp hc))

theorem trim_eq_empty {text : String} : trim text = "" ↔ isBlank text = true := by
  rw [isBlank, List.all_eq_true, ← strip_eq_nil, trim, ← String.toList_inj, String.toList_ofList]
  rfl

theorem length_le_utf8Len (text : List Char) : text.length ≤ String.utf8Len text := by
  induction text with
  | nil => exact le_rfl
  | cons c rest ih =>
    have hpos := c.utf8Size_pos
    rw [List.length_cons, String.utf8Len_cons]
    omega

/-- `char::is_control`: the general category `Cc`. -/
def isControl (c : Char) : Bool := c.toNat < 0x20 || (0x7f ≤ c.toNat && c.toNat < 0xa0)

/-- `u8::is_ascii_hexdigit`, on a character. -/
def isHexDigit (c : Char) : Bool :=
  ('0' ≤ c && c ≤ '9') || ('a' ≤ c && c ≤ 'f') || ('A' ≤ c && c ≤ 'F')

end Rvx.Core
