import Rvx.Core.Value

/-!
# JSON pointers

`Value.pointer` follows the JSON library's pointer lookup.  A path is split at its slashes and
every token is unescaped before it selects a member or an index.  On tokens whose escapes are
well formed, escaping undoes unescaping, so the path written for a key is the only valid spelling
of that key.
-/

namespace Rvx.Core

/-! ## Escapes -/

/-- `str::replace` of a single character. -/
def replaceChar (wanted : Char) (replacement text : List Char) : List Char :=
  text.flatMap fun c ↦ if c = wanted then replacement else [c]

/-- `str::replace` of a two-character pattern. -/
def replacePair (first second replacement : Char) : List Char → List Char
  | [] => []
  | [c] => [c]
  | c :: d :: rest =>
    if c = first ∧ d = second then replacement :: replacePair first second replacement rest
    else c :: replacePair first second replacement (d :: rest)

/-- `key.replace('~', "~0").replace('/', "~1")`. -/
def escapeKey (key : String) : String :=
  String.ofList (replaceChar '/' ['~', '1'] (replaceChar '~' ['~', '0'] key.toList))

/-- `token.replace("~1", "/").replace("~0", "~")`. -/
def unescapeToken (token : List Char) : String :=
  String.ofList (replacePair '~' '0' '~' (replacePair '~' '1' '/' token))

/-- Every `~` is followed by `0` or `1`. -/
def escapesValid : List Char → Bool
  | [] => true
  | ['~'] => false
  | '~' :: d :: rest => (d = '0' ∨ d = '1') && escapesValid rest
  | _ :: rest => escapesValid rest

theorem escapesValid_cons {c : Char} (hc : c ≠ '~') (rest : List Char) :
    escapesValid (c :: rest) = escapesValid rest := by
  cases rest <;> simp [escapesValid, hc]

/-- Well-formed escapes split at a slash. -/
theorem escapesValid_append_slash {token rest : List Char} (hslash : '/' ∉ token)
    (h : escapesValid (token ++ '/' :: rest) = true) :
    escapesValid token = true ∧ escapesValid rest = true := by
  fun_induction escapesValid token with
  | case1 => simpa [escapesValid_cons] using h
  | case2 => simp [escapesValid] at h
  | case3 d tail ih =>
    simp only [List.cons_append, escapesValid, Bool.and_eq_true] at h ⊢
    simp only [List.mem_cons, not_or] at hslash
    exact ⟨⟨h.1, (ih hslash.2.2 h.2).1⟩, (ih hslash.2.2 h.2).2⟩
  | case4 c tail hne hne' ih =>
    simp only [List.mem_cons, not_or] at hslash
    have hc : c ≠ '~' := by
      rintro rfl
      cases tail with
      | nil => exact hne rfl rfl
      | cons d tail => exact hne' d tail rfl rfl
    rw [List.cons_append, escapesValid_cons hc] at h
    exact ih hslash.2 h

theorem unescape_escaped (d : Char) (rest : List Char) (hd : d = '0' ∨ d = '1') :
    replacePair '~' '0' '~' (replacePair '~' '1' '/' ('~' :: d :: rest)) =
      (if d = '0' then '~' else '/') ::
        replacePair '~' '0' '~' (replacePair '~' '1' '/' rest) := by
  have hplain (c : Char) (hc : c ≠ '~') (a b : Char) (text : List Char) :
      replacePair '~' a b (c :: text) = c :: replacePair '~' a b text := by
    cases text <;> simp [replacePair, hc]
  cases hd with
  | inl h0 => simp [h0, replacePair, hplain]
  | inr h1 => simp [h1, replacePair, hplain]

theorem unescape_plain (c : Char) (rest : List Char) (hc : c ≠ '~') :
    replacePair '~' '0' '~' (replacePair '~' '1' '/' (c :: rest)) =
      c :: replacePair '~' '0' '~' (replacePair '~' '1' '/' rest) := by
  have hplain (a b : Char) (text : List Char) :
      replacePair '~' a b (c :: text) = c :: replacePair '~' a b text := by
    cases text <;> simp [replacePair, hc]
  rw [hplain, hplain]

/-- A valid token is the escaped form of the key it selects. -/
theorem escapeKey_unescapeToken {token : List Char} (hslash : '/' ∉ token)
    (h : escapesValid token = true) : (escapeKey (unescapeToken token)).toList = token := by
  simp only [escapeKey, unescapeToken, String.toList_ofList]
  fun_induction escapesValid token with
  | case1 => rfl
  | case2 => simp at h
  | case3 d tail ih =>
    simp only [Bool.and_eq_true, decide_eq_true_eq] at h
    simp only [List.mem_cons, not_or] at hslash
    have htail := ih hslash.2.2 h.2
    rw [unescape_escaped d tail h.1]
    cases h.1 with
    | inl h0 => simpa [replaceChar, h0] using htail
    | inr h1 => simpa [replaceChar, h1] using htail
  | case4 c tail hne hne' ih =>
    simp only [List.mem_cons, not_or] at hslash
    have hc : c ≠ '~' := by
      rintro rfl
      cases tail with
      | nil => exact hne rfl rfl
      | cons d tail => exact hne' d tail rfl rfl
    rw [unescape_plain c tail hc]
    have htail := ih hslash.2 h
    simpa [replaceChar, hc, Ne.symm hslash.1] using htail

/-! ## Lookup -/

/-- `parse_index`: a decimal index without sign or leading zeros. -/
def parseIndex (token : String) : Option ℕ :=
  if token.toList.head? = some '+' ∨ (token.toList.head? = some '0' ∧ token.toList.length ≠ 1) then
    none
  else if token.toList ≠ [] ∧ token.toList.all Char.isDigit ∧
      Nat.ofDigitChars 10 token.toList 0 < 2 ^ 64 then
    some (Nat.ofDigitChars 10 token.toList 0)
  else none

namespace Value

/-- One token of a pointer. -/
def pointerStep (target : Value) (token : List Char) : Option Value :=
  match target with
  | .object _ => target.get? (unescapeToken token)
  | .array items => (parseIndex (unescapeToken token)).bind fun index ↦ items[index]?
  | _ => none

/-- The tokens after the leading slash. -/
def pointerTokens (path : String) : List (List Char) := (path.toList.splitOn '/').tail

def pointer (value : Value) (path : String) : Option Value :=
  if path = "" then some value
  else if path.toList.head? = some '/' then (pointerTokens path).foldlM pointerStep value
  else none

theorem pointerTokens_spec {path : String} (h : path.toList.head? = some '/') :
    path.toList = (pointerTokens path).flatMap (fun token ↦ '/' :: token) ∧
      ∀ token ∈ pointerTokens path, '/' ∉ token := by
  obtain ⟨rest, hrest⟩ : ∃ rest, path.toList = '/' :: rest := by
    cases hpath : path.toList with
    | nil => simp [hpath] at h
    | cons c rest => exact ⟨rest, by simpa [hpath] using h⟩
  have htokens : pointerTokens path = rest.splitOn '/' := by
    simp [pointerTokens, hrest, List.splitOn_cons_eq_if_modifyHead]
  rw [htokens, hrest]
  clear * -
  have hsplit (text : List Char) : '/' :: text =
      (text.splitOn '/').flatMap (fun token ↦ '/' :: token) ∧
        ∀ token ∈ text.splitOn '/', '/' ∉ token := by
    induction text with
    | nil => simp
    | cons c text ih =>
      rw [List.splitOn_cons_eq_if_modifyHead]
      split
      · rename_i hc
        have hc' : c = '/' := by simpa using hc
        refine ⟨by simp [← ih.1, hc'], ?_⟩
        intro token htoken
        cases List.mem_cons.mp htoken with
        | inl hnil => simp [hnil]
        | inr hmem => exact ih.2 token hmem
      · rename_i hc
        have hc' : c ≠ '/' := by simpa using hc
        cases hparts : text.splitOn '/' with
        | nil => exact absurd hparts (List.splitOn_ne_nil _ _)
        | cons token tokens =>
          rw [hparts] at ih
          obtain ⟨heq, hnone⟩ := ih
          simp only [List.flatMap_cons, List.cons_append, List.cons.injEq, true_and] at heq
          refine ⟨by simp [heq], ?_⟩
          intro other hother
          rw [List.modifyHead_cons] at hother
          cases List.mem_cons.mp hother with
          | inl hfirst =>
            rw [hfirst, List.mem_cons, not_or]
            exact ⟨Ne.symm hc', hnone token (by simp)⟩
          | inr hmem => exact hnone other (by simp [hmem])
  exact hsplit rest

/-- The tokens of a path with well-formed escapes have well-formed escapes. -/
theorem pointerTokens_valid {path : String} (h : path.toList.head? = some '/')
    (hvalid : escapesValid path.toList = true) :
    ∀ token ∈ pointerTokens path, escapesValid token = true := by
  obtain ⟨htext, hslash⟩ := pointerTokens_spec h
  rw [htext] at hvalid
  revert hvalid hslash
  generalize pointerTokens path = tokens
  clear * -
  intro hvalid hslash
  induction tokens with
  | nil => simp
  | cons token rest ih =>
    rw [List.flatMap_cons, List.cons_append, escapesValid_cons (by decide)] at hvalid
    have htoken := hslash token (by simp)
    have hrest := fun other hother ↦ hslash other (List.mem_cons_of_mem token hother)
    cases rest with
    | nil => simpa using hvalid
    | cons next rest =>
      rw [List.flatMap_cons, List.cons_append] at hvalid
      obtain ⟨hfirst, htail⟩ := escapesValid_append_slash htoken hvalid
      have hall := ih (by
        rw [List.flatMap_cons, List.cons_append, escapesValid_cons (by decide)]
        exact htail) hrest
      intro other hother
      cases List.mem_cons.mp hother with
      | inl heq => exact heq ▸ hfirst
      | inr hmem => exact hall other hmem

end Value

end Rvx.Core
