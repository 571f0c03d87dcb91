import Rvx.Core.JsonText
import Rvx.Core.Pointer

/-!
# Editing by reference

A reference path is a list of tokens; its text escapes them, and the text determines the tokens.  An
edit replaces, adds or removes the value a path refers to: a member of an object by its key, an
element of an array by its index.
-/

namespace Rvx.Core

open Printer

/-! ## Texts of paths -/

/-- The text of a path. -/
def pathText (tokens : List String) : String :=
  tokens.foldl (fun path token ↦ path ++ "/" ++ escapeKey token) ""

/-- The tokens of a text, unescaped. -/
def referenceTokens (path : String) : Option (List String) :=
  if path = "" then some []
  else if path.toList.head? = some '/' then some ((Value.pointerTokens path).map unescapeToken)
  else none

theorem escapeKey_cons (c : Char) (rest : List Char) :
    (escapeKey (String.ofList (c :: rest))).toList =
      (if c = '~' then ['~', '0'] else if c = '/' then ['~', '1'] else [c]) ++
        (escapeKey (String.ofList rest)).toList := by
  simp only [escapeKey, String.toList_ofList, replaceChar, List.flatMap_cons, List.flatMap_append]
  congr 1
  by_cases htilde : c = '~'
  · subst htilde
    decide
  · by_cases hslash : c = '/' <;> simp [htilde, hslash]

theorem escapeKey_slash (key : String) : '/' ∉ (escapeKey key).toList := by
  rw [← String.ofList_toList (s := key)]
  induction key.toList with
  | nil => decide
  | cons c rest ih =>
    rw [escapeKey_cons, List.mem_append, not_or]
    refine ⟨?_, ih⟩
    split_ifs with htilde hslash
    · decide
    · decide
    · simpa using Ne.symm hslash

theorem unescapeToken_escapeKey (key : String) : unescapeToken (escapeKey key).toList = key := by
  suffices h : replacePair '~' '0' '~' (replacePair '~' '1' '/' (escapeKey key).toList) =
      key.toList by rw [unescapeToken, h, String.ofList_toList]
  rw [← String.ofList_toList (s := key), String.toList_ofList]
  induction key.toList with
  | nil => decide
  | cons c rest ih =>
    rw [escapeKey_cons]
    split_ifs with htilde hslash
    · subst htilde
      rw [List.cons_append, List.singleton_append, unescape_escaped _ _ (Or.inl rfl), ih]
      rfl
    · subst hslash
      rw [List.cons_append, List.singleton_append, unescape_escaped _ _ (Or.inr rfl), ih]
      rfl
    · rw [List.singleton_append, unescape_plain c _ htilde, ih]

theorem pathText_append (tokens : List String) (token : String) :
    pathText (tokens ++ [token]) = pathText tokens ++ "/" ++ escapeKey token := by
  rw [pathText, List.foldl_append]
  rfl

theorem pathText_toList (tokens : List String) :
    (pathText tokens).toList = tokens.flatMap fun token ↦ '/' :: (escapeKey token).toList := by
  induction tokens using List.reverseRecOn with
  | nil => rfl
  | append_singleton tokens token ih =>
    rw [pathText_append, String.toList_append, String.toList_append, ih, List.flatMap_append]
    simp

/-- Texts without slashes, each after a slash, are determined by what they make together. -/
theorem slashed_injective {texts texts' : List (List Char)} (h : ∀ text ∈ texts, '/' ∉ text)
    (h' : ∀ text ∈ texts', '/' ∉ text)
    (heq : (texts.flatMap fun text ↦ '/' :: text) = texts'.flatMap fun text ↦ '/' :: text) :
    texts = texts' := by
  have hplain {text : List Char} (hslash : '/' ∉ text) : ∀ c ∈ text, c ≠ '/' := by
    rintro c hc rfl
    exact hslash hc
  have hstop (texts : List (List Char)) :
      Avoids (fun c ↦ c ≠ '/') (texts.flatMap fun text ↦ '/' :: text) := by
    cases texts <;> simp
  induction texts generalizing texts' with
  | nil =>
    cases texts' with
    | nil => rfl
    | cons text' texts' => simp at heq
  | cons text texts ih =>
    cases texts' with
    | nil => simp at heq
    | cons text' texts' =>
      rw [List.forall_mem_cons] at h h'
      simp only [List.flatMap_cons, List.cons_append, List.cons.injEq, true_and] at heq
      obtain ⟨rfl, hrest⟩ := append_inj_of_class (hplain h.1) (hplain h'.1) (hstop texts)
        (hstop texts') heq
      rw [ih h.2 h'.2 hrest]

/-- The text of a path begins with a slash, and splits into the escaped tokens. -/
theorem pointerTokens_pathText {tokens : List String} (htokens : tokens ≠ []) :
    (pathText tokens).toList.head? = some '/' ∧
      Value.pointerTokens (pathText tokens) = tokens.map fun token ↦ (escapeKey token).toList := by
  have htext := pathText_toList tokens
  have hhead : (pathText tokens).toList.head? = some '/' := by
    obtain ⟨token, rest, rfl⟩ := List.exists_cons_of_ne_nil htokens
    rw [htext]
    rfl
  obtain ⟨hsplit, hslash⟩ := Value.pointerTokens_spec hhead
  refine ⟨hhead, slashed_injective hslash ?_ ?_⟩
  · intro text htext
    obtain ⟨key, -, rfl⟩ := List.mem_map.mp htext
    exact escapeKey_slash key
  · rw [← hsplit, htext, List.flatMap_map]

theorem pathText_ne_empty {tokens : List String} (htokens : tokens ≠ []) : pathText tokens ≠ "" := by
  intro hempty
  have hhead := (pointerTokens_pathText htokens).1
  rw [hempty] at hhead
  cases hhead

/-- The text of a path refers to its tokens. -/
theorem referenceTokens_pathText (tokens : List String) :
    referenceTokens (pathText tokens) = some tokens := by
  unfold referenceTokens
  cases tokens with
  | nil => rfl
  | cons token rest =>
    have htokens : token :: rest ≠ [] := List.cons_ne_nil token rest
    obtain ⟨hhead, hsame⟩ := pointerTokens_pathText htokens
    rw [if_neg (pathText_ne_empty htokens), if_pos hhead, hsame, List.map_map]
    have hid : unescapeToken ∘ (fun token ↦ (escapeKey token).toList) = id :=
      funext unescapeToken_escapeKey
    rw [hid, List.map_id]

/-- Looking up the text of a path follows its tokens. -/
theorem pointer_pathText (value : Value) (tokens : List String) :
    value.pointer (pathText tokens) =
      tokens.foldlM (fun value token ↦ value.pointerStep (escapeKey token).toList) value := by
  unfold Value.pointer
  cases tokens with
  | nil => rfl
  | cons token rest =>
    have htokens : token :: rest ≠ [] := List.cons_ne_nil token rest
    obtain ⟨hhead, hsame⟩ := pointerTokens_pathText htokens
    rw [if_neg (pathText_ne_empty htokens), if_pos hhead, hsame, List.foldlM_map]

/-- The member of an object, one key further. -/
theorem pointer_pathText_concat {value : Value} {tokens : List String}
    {entries : List (String × Value)} (h : value.pointer (pathText tokens) = some (.object entries))
    (key : String) :
    value.pointer (pathText (tokens ++ [key])) = (Value.object entries).get? key := by
  rw [pointer_pathText] at h
  rw [pointer_pathText, List.foldlM_append, h]
  simp [Value.pointerStep, unescapeToken_escapeKey]

/-! ## Indices -/

/-- The text of an index. -/
def indexToken (index : ℕ) : String := String.ofList (printNat index)

/-- The index a token is the decimal text of. -/
def arrayIndex (token : String) : Option ℕ :=
  let index := Nat.ofDigitChars 10 token.toList 0
  if indexToken index = token then some index else none

theorem arrayIndex_indexToken (index : ℕ) : arrayIndex (indexToken index) = some index := by
  have hvalue : Nat.ofDigitChars 10 (indexToken index).toList 0 = index := by
    rw [indexToken, String.toList_ofList, printNat]
    exact Nat.ofDigitChars_toDigits (by decide) (by decide)
  simp only [arrayIndex, hvalue, if_true]

theorem indexToken_injective : Function.Injective indexToken := fun index index' h ↦
  Option.some.inj ((arrayIndex_indexToken index).symm.trans (h ▸ arrayIndex_indexToken index'))

theorem replaceChar_of_not_mem {wanted : Char} (replacement : List Char) {text : List Char}
    (h : wanted ∉ text) : replaceChar wanted replacement text = text := by
  have hplain : ∀ c ∈ text, (if c = wanted then replacement else [c]) = [c] := by
    intro c hc
    rw [if_neg]
    rintro rfl
    exact h hc
  rw [replaceChar, List.flatMap_congr hplain, List.flatMap_singleton']

theorem escapeKey_indexToken (index : ℕ) : escapeKey (indexToken index) = indexToken index := by
  have hdigits : ∀ c ∈ printNat index, c.isDigit = true := fun c hc ↦
    Nat.isDigit_of_mem_toDigits (by decide) (by decide) hc
  have hfree {c : Char} (hc : c.isDigit = false) : c ∉ (indexToken index).toList := by
    rw [indexToken, String.toList_ofList]
    intro hmem
    exact absurd (hdigits c hmem) (by simp [hc])
  rw [escapeKey, replaceChar_of_not_mem _ (hfree (c := '~') (by decide)),
    replaceChar_of_not_mem _ (hfree (c := '/') (by decide)), String.ofList_toList]

/-! ## Edits -/

namespace Value

def putEntry (key : String) (child : Option Value) (entries : List (String × Value)) :
    List (String × Value) :=
  match child with
  | some value => OrderedMap.insertEntry key value entries
  | none => entries.filter fun entry ↦ entry.1 ≠ key

/-- The element at an index is replaced or removed, and one more may be appended. -/
def putItem (index : ℕ) (child : Option Value) (items : List Value) : Option (List Value) :=
  match child with
  | some value =>
    if index < items.length then some (items.set index value)
    else if index = items.length then some (items ++ [value]) else none
  | none => if index < items.length then some (items.eraseIdx index) else none

/-- Edit what a path refers to; nothing is there where it is `none`. -/
def edit (change : Option Value → Option (Option Value)) :
    List String → Option Value → Option (Option Value)
  | [], current => change current
  | token :: rest, some (.object entries) => do
    let child ← edit change rest ((object entries).get? token)
    return some (.object (putEntry token child entries))
  | token :: rest, some (.array items) => do
    let index ← arrayIndex token
    let child ← edit change rest items[index]?
    let items ← putItem index child items
    return some (.array items)
  | _ :: _, _ => none

/-- Put a value where the path refers to. -/
def setAt (value : Value) (path : List String) : Option Value → Option (Option Value) :=
  edit (fun _ ↦ some (some value)) path

/-- Remove the value the path refers to. -/
def removeAt (path : List String) : Option Value → Option (Option Value) :=
  edit (fun current ↦ current.map fun _ ↦ none) path

/-! ## What an edit leaves -/

/-- The keys of an object ascend. -/
abbrev Ascending (entries : List (String × Value)) : Prop :=
  (entries.map Prod.fst).Pairwise (· < ·)

theorem get?_object {entries : List (String × Value)} (h : Ascending entries) (key : String) :
    (object entries).get? key = (OrderedMap.mk entries h).get? key := rfl

theorem ascending_putEntry {entries : List (String × Value)} (h : Ascending entries) (key : String)
    (child : Option Value) : Ascending (putEntry key child entries) := by
  cases child with
  | some value => exact OrderedMap.ascending_insertEntry h
  | none => exact h.sublist (List.filter_sublist.map Prod.fst)

theorem get?_putEntry {entries : List (String × Value)} (h : Ascending entries) (key : String)
    (child : Option Value) (other : String) :
    (object (putEntry key child entries)).get? other =
      if other = key then child else (object entries).get? other := by
  cases child with
  | some value => exact @OrderedMap.get?_insert _ _ _ key other value ⟨entries, h⟩
  | none =>
    have hretain := fun value ↦ @OrderedMap.get?_retain _ _ _ (fun k _ ↦ decide (k ≠ key))
      ⟨entries, h⟩ other value
    apply Option.ext
    intro value
    refine (hretain value).trans ?_
    rw [decide_eq_true_eq]
    split_ifs with heq
    · simp [heq]
    · simp [heq, get?_object h]

/-- Objects with the same members are equal. -/
theorem object_ext {entries entries' : List (String × Value)} (h : Ascending entries)
    (h' : Ascending entries')
    (hget : ∀ key, (object entries).get? key = (object entries').get? key) : entries = entries' :=
  congrArg OrderedMap.entries (@OrderedMap.ext_get? _ _ _ ⟨entries, h⟩ ⟨entries', h'⟩ hget)

theorem putItem_some {index : ℕ} {items : List Value} (h : index ≤ items.length) (value : Value) :
    ∃ items', putItem index (some value) items = some items' ∧
      ∀ other, items'[other]? = if other = index then some value else items[other]? := by
  rcases h.eq_or_lt with rfl | hless
  · refine ⟨items ++ [value], by simp [putItem], fun other ↦ ?_⟩
    rw [List.getElem?_append]
    split_ifs with hother heq heq
    · omega
    · rfl
    · simp [heq]
    · rw [List.getElem?_eq_none (by simp; omega), List.getElem?_eq_none (by omega)]
  · refine ⟨items.set index value, by simp [putItem, hless], fun other ↦ ?_⟩
    rw [List.getElem?_set]
    by_cases heq : index = other
    · simp [heq, heq ▸ hless]
    · simp [heq, Ne.symm heq]

/-- The last element is removed without moving another one. -/
theorem putItem_none {index : ℕ} {items : List Value} (h : index + 1 = items.length) :
    ∃ items', putItem index none items = some items' ∧
      ∀ other, items'[other]? = if other = index then none else items[other]? := by
  refine ⟨items.eraseIdx index, by simp [putItem]; omega, fun other ↦ ?_⟩
  rw [List.getElem?_eraseIdx]
  split_ifs with hother heq heq
  · omega
  · rfl
  · rw [List.getElem?_eq_none (by omega)]
  · rw [List.getElem?_eq_none (by omega), List.getElem?_eq_none (by omega)]

end Value

end Rvx.Core
