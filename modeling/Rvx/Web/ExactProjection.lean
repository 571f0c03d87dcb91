import Rvx.Web.ExactJson
import Rvx.Web.Preferences

/-!
# Projections are decoded one trace at a time

A large projection is not parsed exactly as a whole: its series is found in the text, and every
object at the top of the series is parsed on its own.  Where the series is spelled once, this gives
the series that parsing the whole text gives.
-/

namespace Rvx.Web.ExactJson

open Core StableSort

/-! ## The start of the series -/

def axisKey : List ℕ := ['a', 'x', 'i', 's'].map Char.toNat

def seriesKey : List ℕ := ['s', 'e', 'r', 'i', 'e', 's'].map Char.toNat

/-- What follows a character after the white space of a script. -/
def afterSpace (wanted : Char) (text : List Char) : Option (List Char) :=
  match text.dropWhile isSpace with
  | [] => none
  | c :: rest => if c = wanted then some rest else none

/-- What follows `/"series"\s*:\s*\[/` at the start of a text. -/
def mark? (text : List Char) : Option (List Char) :=
  match text with
  | c₀ :: 's' :: 'e' :: 'r' :: 'i' :: 'e' :: 's' :: c₇ :: rest =>
    if c₀ = quoteChar ∧ c₇ = quoteChar then (afterSpace ':' rest).bind (afterSpace '[') else none
  | _ => none

/-- What follows each match; a match does not start inside the one before, of which `skip`
characters are left. -/
def seriesMarks : ℕ → List Char → List (List Char)
  | _, [] => []
  | skip + 1, _ :: rest => seriesMarks skip rest
  | 0, c :: rest =>
    match mark? (c :: rest) with
    | some after => after :: seriesMarks (rest.length - after.length) rest
    | none => seriesMarks 0 rest

/-! ## Traces -/

/-- `slice` of a string; a negative start counts from its end. -/
def slice (text : List Char) (start : ℤ) (stop : ℕ) : List Char :=
  let first := if start < 0 then (text.length + start).toNat else start.toNat
  (text.take stop).drop first

/-- The loop over the characters of the series. -/
structure Scan (ν : Type) where
  inString : Bool
  escaped : Bool
  depth : ℤ
  objectStart : ℤ
  traces : List (JsValue ν)

section Projections

variable {ν : Type} (numerals : Numerals ν) (native : Native)

/-- `aborted` tells, for each time it is asked, whether the signal has been given. -/
def scan (aborted : ℕ → Bool) (text : List Char) :
    ℕ → Scan ν → List Char → Except ExactError (List (JsValue ν))
  | _, state, [] => .ok state.traces
  | cursor, state, c :: rest =>
    if state.inString then
      if state.escaped then scan aborted text (cursor + 1) { state with escaped := false } rest
      else if c = '\\' then scan aborted text (cursor + 1) { state with escaped := true } rest
      else if c = quoteChar then
        scan aborted text (cursor + 1) { state with inString := false } rest
      else scan aborted text (cursor + 1) state rest
    else if c = quoteChar then scan aborted text (cursor + 1) { state with inString := true } rest
    else if c = '{' then
      scan aborted text (cursor + 1)
        { state with
          depth := state.depth + 1
          objectStart := if state.depth = 0 then cursor else state.objectStart } rest
    else if c = '}' then
      if state.depth - 1 = 0 then
        if aborted state.traces.length then .error .aborted
        else do
          let trace ← parseExactJson numerals native (slice text state.objectStart (cursor + 1))
          scan aborted text (cursor + 1)
            { state with depth := state.depth - 1, traces := state.traces ++ [trace] } rest
      else scan aborted text (cursor + 1) { state with depth := state.depth - 1 } rest
    else if c = ']' ∧ state.depth = 0 then .ok state.traces
    else scan aborted text (cursor + 1) state rest

/-- The series of a response that has an axis. -/
def seriesOf? (response : JsValue ν) : Option (List (JsValue ν)) :=
  match (property response axisKey).1, (property response seriesKey).1 with
  | some (.string _), some (.array series _) => some series
  | _, _ => none

/-- A response with another series. -/
def withSeries (series : List (JsValue ν)) : JsValue ν → JsValue ν
  | .object entries sources => .object (setProperty seriesKey (.array series []) entries) sources
  | response => response

def parseExactProjection (aborted : ℕ → Bool) (text : List Char) :
    Except ExactError (JsValue ν) := do
  let datum ← parseJson text
  let response := revive numerals false datum
  match seriesOf? response with
  | none => .error (.message "Invalid chart projection response.")
  | some series =>
    match seriesMarks 0 text with
    | [start] => do
      let traces ← scan numerals native aborted text (text.length - start.length)
        ⟨false, false, 0, -1, []⟩ start
      if traces.length ≠ series.length then .error (.message "Invalid projection trace.")
      else if aborted traces.length then .error .aborted
      else return withSeries traces response
    | _ => .error (.message "Invalid projection series array.")

end Projections

/-! ## The series is marked -/

theorem isSpace_of_blank {blank : List Char} (h : Blank blank) : ∀ c ∈ blank, isSpace c = true := by
  have hblanks : ∀ c ∈ blanks, isSpace c = true := by simp [blanks, isSpace]
  exact fun c hc ↦ hblanks c (h c hc)

theorem afterSpace_append {wanted c : Char} {space : List Char}
    (hspace : ∀ c ∈ space, isSpace c = true) (hc : isSpace c = false) (rest : List Char) :
    afterSpace wanted (space ++ c :: rest) = if c = wanted then some rest else none := by
  unfold afterSpace
  rw [List.dropWhile_append_of_pos hspace, List.dropWhile_cons_of_neg (by simp [hc])]

theorem afterSpace_eq_some {wanted : Char} {text rest : List Char}
    (h : afterSpace wanted text = some rest) :
    ∃ space, (∀ c ∈ space, isSpace c = true) ∧ text = space ++ wanted :: rest := by
  have hparts := (List.takeWhile_append_dropWhile (p := isSpace) (l := text)).symm
  unfold afterSpace at h
  split at h
  · cases h
  · rename_i c rest' hrest
    obtain ⟨rfl, rfl⟩ := Option.ite_none_right_eq_some.mp h |>.imp_right Option.some.inj
    rw [hrest] at hparts
    exact ⟨text.takeWhile isSpace, fun c hc ↦ List.mem_takeWhile_imp hc, hparts⟩

def seriesChars : List Char := ['s', 'e', 'r', 'i', 'e', 's']

/-- The key of the series as it must be spelled. -/
def seriesPieces : List Piece := seriesChars.map pieceOf

theorem quoted_seriesPieces : quoted seriesPieces = quoteChar :: (seriesChars ++ [quoteChar]) := rfl

theorem mark?_quoted (rest : List Char) :
    mark? (quoted seriesPieces ++ rest) = (afterSpace ':' rest).bind (afterSpace '[') := by
  change (if quoteChar = quoteChar ∧ quoteChar = quoteChar then
    (afterSpace ':' rest).bind (afterSpace '[') else none) = _
  rw [if_pos ⟨rfl, rfl⟩]

theorem mark?_eq_some {text after : List Char} (h : mark? text = some after) :
    ∃ rest, text = quoted seriesPieces ++ rest ∧
      (afterSpace ':' rest).bind (afterSpace '[') = some after := by
  unfold mark? at h
  split at h
  · rename_i c₀ c₇ rest
    obtain ⟨⟨rfl, rfl⟩, h⟩ := Option.ite_none_right_eq_some.mp h
    exact ⟨rest, rfl, h⟩
  · cases h

/-- What follows the key in a match holds no quotation mark. -/
theorem mark_tail {rest after : List Char}
    (h : (afterSpace ':' rest).bind (afterSpace '[') = some after) :
    ∃ c tail, rest = c :: tail ++ after ∧ quoteChar ∉ c :: tail ∧ c ≠ 's' := by
  obtain ⟨rest', hcolon, hbracket⟩ := Option.bind_eq_some_iff.mp h
  obtain ⟨space, hspace, rfl⟩ := afterSpace_eq_some hcolon
  obtain ⟨space', hspace', rfl⟩ := afterSpace_eq_some hbracket
  have hquote (text : List Char) (htext : ∀ c ∈ text, isSpace c = true) : quoteChar ∉ text :=
    fun hmem ↦ absurd (htext _ hmem) (by simp [isSpace, quoteChar])
  have hmarks : quoteChar ≠ ':' ∧ quoteChar ≠ '[' := by decide
  have hspaces := hquote space' hspace'
  cases space with
  | nil =>
    refine ⟨':', space' ++ ['['], by simp, ?_, by decide⟩
    simp [hspaces, hmarks.1, hmarks.2]
  | cons c space =>
    refine ⟨c, space ++ ':' :: (space' ++ ['[']), by simp, ?_, ?_⟩
    · have hfirst := hquote (c :: space) hspace
      rw [List.mem_cons, not_or] at hfirst
      simp [hfirst.1, hfirst.2, hspaces, hmarks.1, hmarks.2]
    · rintro rfl
      exact absurd (hspace 's' List.mem_cons_self) (by simp [isSpace])

/-- A quotation mark after the first one closes the key of a match. -/
theorem closes_key {before tail more : List Char} (hquote : quoteChar ∉ tail) (hne : before ≠ [])
    (h : quoted seriesPieces ++ tail = before ++ quoteChar :: more) : tail = more := by
  have hletters : quoteChar ∉ seriesChars := by decide
  obtain ⟨first, before, rfl⟩ := List.exists_cons_of_ne_nil hne
  rw [quoted_seriesPieces, List.cons_append, List.cons_append, List.cons.injEq, List.append_assoc,
    List.singleton_append] at h
  obtain ⟨found, hbefore, hrest⟩ | ⟨found, hchars, hrest⟩ := List.append_eq_append_iff.mp h.2
  · cases found with
    | nil => exact (List.cons.inj hrest).2
    | cons c found =>
      -- the mark would stand in the tail
      obtain rfl := (List.cons.inj hrest).2
      exact absurd (by simp) hquote
  · cases found with
    | nil => exact (List.cons.inj hrest).2.symm
    | cons c found =>
      -- the mark would stand in the key
      obtain rfl := (List.cons.inj hrest).1
      exact absurd (by simp [hchars]) hletters

/-- No match begins inside another one. -/
theorem length_le_of_marks {before text after after' : List Char} (hne : before ≠ [])
    (h : mark? text = some after) (h' : mark? (before ++ text) = some after') :
    text.length ≤ after'.length := by
  obtain ⟨rest, rfl, -⟩ := mark?_eq_some h
  obtain ⟨rest', htext, hrest'⟩ := mark?_eq_some h'
  obtain ⟨c, tail, rfl, hquote, hc⟩ := mark_tail hrest'
  have htext : before ++ (quoted seriesPieces ++ rest) =
      (quoted seriesPieces ++ c :: tail) ++ after' := by rw [htext, List.append_assoc]
  obtain ⟨found, hfound, hsuffix⟩ | ⟨found, -, rfl⟩ := List.append_eq_append_iff.mp htext
  · cases found with
    | nil => rw [hsuffix, List.nil_append]
    | cons first found =>
      obtain ⟨rfl, hkey⟩ := List.cons.inj hsuffix
      obtain rfl := closes_key hquote hne hfound
      exact absurd (List.cons.inj hkey).1.symm hc
  · simp only [List.length_append]
    omega

/-- Every place that matches is a match. -/
theorem mem_seriesMarks {text after : List Char} (h : mark? text = some after) (before : List Char)
    {skip : ℕ} (hskip : skip ≤ before.length) : after ∈ seriesMarks skip (before ++ text) := by
  induction before generalizing skip with
  | nil =>
    obtain rfl := Nat.le_zero.mp hskip
    cases text with
    | nil => cases h
    | cons c text =>
      rw [List.nil_append, seriesMarks, h]
      exact List.mem_cons_self
  | cons c before ih =>
    rw [List.cons_append]
    cases skip with
    | succ skip => exact ih (Nat.le_of_succ_le_succ hskip)
    | zero =>
      rw [seriesMarks]
      cases hmark : mark? (c :: (before ++ text)) with
      | none => exact ih (Nat.zero_le _)
      | some after' =>
        have hle := length_le_of_marks (List.cons_ne_nil c before) h hmark
        refine List.mem_cons_of_mem _ (ih ?_)
        rw [List.length_append]
        omega

/-- The only match is the member that is spelled as one. -/
theorem seriesMarks_eq {before middle next rest : List Char} (hmiddle : Blank middle)
    (hnext : Blank next)
    (h : (seriesMarks 0
      (before ++ (quoted seriesPieces ++ (middle ++ ':' :: (next ++ '[' :: rest))))).length = 1) :
    seriesMarks 0 (before ++ (quoted seriesPieces ++ (middle ++ ':' :: (next ++ '[' :: rest)))) =
      [rest] := by
  have hmark : mark? (quoted seriesPieces ++ (middle ++ ':' :: (next ++ '[' :: rest))) =
      some rest := by
    rw [mark?_quoted, afterSpace_append (isSpace_of_blank hmiddle) (by simp [isSpace]), if_pos rfl,
      Option.bind_some, afterSpace_append (isSpace_of_blank hnext) (by simp [isSpace]), if_pos rfl]
  obtain ⟨mark, hmarks⟩ := List.length_eq_one_iff.mp h
  have hmem := mem_seriesMarks hmark before (Nat.zero_le _)
  rw [hmarks, List.mem_singleton] at hmem
  rw [hmarks, hmem]

/-! ## The loop -/

section Loop

variable {ν : Type} {numerals : Numerals ν} {native : Native} {aborted : ℕ → Bool}
  {text : List Char}

/-- The loop between two tokens. -/
def Scan.between (depth objectStart : ℤ) (traces : List (JsValue ν)) : Scan ν :=
  ⟨false, false, depth, objectStart, traces⟩

/-- The loop inside a string. -/
def Scan.within (depth objectStart : ℤ) (traces : List (JsValue ν)) : Scan ν :=
  ⟨true, false, depth, objectStart, traces⟩

theorem scan_letters {letters : List Char} (h : ∀ c ∈ letters, c ≠ quoteChar ∧ c ≠ '\\')
    (cursor : ℕ) (depth objectStart : ℤ) (traces : List (JsValue ν)) (rest : List Char) :
    scan numerals native aborted text cursor (.within depth objectStart traces) (letters ++ rest) =
      scan numerals native aborted text (cursor + letters.length)
        (.within depth objectStart traces) rest := by
  induction letters generalizing cursor with
  | nil => rfl
  | cons c letters ih =>
    rw [List.forall_mem_cons] at h
    have hletter : scan numerals native aborted text cursor (.within depth objectStart traces)
        (c :: (letters ++ rest)) =
        scan numerals native aborted text (cursor + 1) (.within depth objectStart traces)
          (letters ++ rest) := by
      simp [scan, Scan.within, h.1.1, h.1.2]
    rw [List.cons_append, hletter, ih h.2, List.length_cons, Nat.add_assoc, Nat.add_comm 1]

theorem scan_escaped (c : Char) (cursor : ℕ) (depth objectStart : ℤ) (traces : List (JsValue ν))
    (rest : List Char) :
    scan numerals native aborted text cursor (.within depth objectStart traces)
        ('\\' :: c :: rest) =
      scan numerals native aborted text (cursor + 2) (.within depth objectStart traces) rest := by
  simp [scan, Scan.within]

theorem scan_piece (piece : Piece) (cursor : ℕ) (depth objectStart : ℤ)
    (traces : List (JsValue ν)) (rest : List Char) :
    scan numerals native aborted text cursor (.within depth objectStart traces)
        (piece.chars ++ rest) =
      scan numerals native aborted text (cursor + piece.chars.length)
        (.within depth objectStart traces) rest := by
  cases piece with
  | plain c h => exact scan_letters (List.forall_mem_singleton.mpr ⟨h.1, h.2.1⟩) cursor _ _ _ rest
  | letter c h => exact scan_escaped c cursor _ _ _ rest
  | code digits hlength h =>
    have hdigits : ∀ c ∈ digits, c ≠ quoteChar ∧ c ≠ '\\' := by
      intro c hc
      constructor
      · rintro rfl
        exact absurd (h _ hc) (by decide)
      · rintro rfl
        exact absurd (h _ hc) (by decide)
    rw [Piece.chars, List.cons_append, List.cons_append, scan_escaped, scan_letters hdigits,
      List.length_cons, List.length_cons]
    congr 1
    omega

theorem scan_spelling (pieces : List Piece) (cursor : ℕ) (depth objectStart : ℤ)
    (traces : List (JsValue ν)) (rest : List Char) :
    scan numerals native aborted text cursor (.within depth objectStart traces)
        (spelling pieces ++ quoteChar :: rest) =
      scan numerals native aborted text (cursor + (spelling pieces).length + 1)
        (.between depth objectStart traces) rest := by
  induction pieces generalizing cursor with
  | nil =>
    have hmark : quoteChar ≠ '\\' := by decide
    simp [spelling, scan, Scan.within, Scan.between, hmark]
  | cons piece pieces ih =>
    rw [spelling, List.flatMap_cons, ← spelling, List.append_assoc, scan_piece, ih,
      List.length_append, Nat.add_assoc cursor]

/-! ## Outside of strings -/

/-- Scanning these characters between two tokens changes nothing. -/
def Skipped (numerals : Numerals ν) (native : Native) (aborted : ℕ → Bool) (text : List Char)
    (depth : ℤ) (part : List Char) : Prop :=
  ∀ cursor objectStart traces rest,
    scan numerals native aborted text cursor (.between depth objectStart traces) (part ++ rest) =
      scan numerals native aborted text (cursor + part.length)
        (.between depth objectStart traces) rest

theorem Skipped.nil {depth : ℤ} : Skipped numerals native aborted text depth [] :=
  fun _ _ _ _ ↦ rfl

theorem Skipped.append {depth : ℤ} {first second : List Char}
    (hfirst : Skipped numerals native aborted text depth first)
    (hsecond : Skipped numerals native aborted text depth second) :
    Skipped numerals native aborted text depth (first ++ second) := by
  intro cursor objectStart traces rest
  rw [List.append_assoc, hfirst, hsecond, List.length_append, Nat.add_assoc]

/-- A character that is no token of the loop. -/
abbrev IsOther (depth : ℤ) (c : Char) : Prop :=
  c ≠ quoteChar ∧ c ≠ '{' ∧ c ≠ '}' ∧ ¬ (c = ']' ∧ depth = 0)

theorem Skipped.char {depth : ℤ} {c : Char} (h : IsOther depth c) :
    Skipped numerals native aborted text depth [c] := by
  intro cursor objectStart traces rest
  rw [List.singleton_append]
  obtain ⟨hquote, hopen, hclose, hend⟩ := h
  simp [scan, Scan.between, hquote, hopen, hclose, hend]

theorem Skipped.of_forall {depth : ℤ} {part : List Char} (h : ∀ c ∈ part, IsOther depth c) :
    Skipped numerals native aborted text depth part := by
  induction part with
  | nil => exact .nil
  | cons c part ih =>
    rw [List.forall_mem_cons] at h
    exact (Skipped.char h.1).append (ih h.2)

theorem Skipped.quoted {depth : ℤ} (pieces : List Piece) :
    Skipped numerals native aborted text depth (quoted pieces) := by
  intro cursor objectStart traces rest
  have hopen : scan numerals native aborted text cursor (.between depth objectStart traces)
      (quoteChar :: (spelling pieces ++ quoteChar :: rest)) =
      scan numerals native aborted text (cursor + 1) (.within depth objectStart traces)
        (spelling pieces ++ quoteChar :: rest) := by
    simp [scan, Scan.between, Scan.within]
  rw [Core.quoted, List.cons_append, List.append_assoc, List.singleton_append, hopen,
    scan_spelling, List.length_cons, List.length_append, List.length_singleton]
  congr 1
  omega

theorem isOther_of_isNumberChar {c : Char} (h : isNumberChar c = true) (depth : ℤ) :
    IsOther depth c := by
  have hne {d : Char} (hd : ¬ isNumberChar d = true) : c ≠ d := fun heq ↦ hd (heq ▸ h)
  refine ⟨hne (by decide), hne (by decide), hne (by decide), fun hend ↦ hne ?_ hend.1⟩
  decide

theorem Skipped.blank {depth : ℤ} {blank : List Char} (h : Blank blank) :
    Skipped numerals native aborted text depth blank := by
  have hblanks : ∀ c ∈ blanks, c ≠ quoteChar ∧ c ≠ '{' ∧ c ≠ '}' ∧ c ≠ ']' := by
    simp [blanks, quoteChar]
  refine .of_forall fun c hc ↦ ?_
  obtain ⟨hquote, hopen, hclose, hend⟩ := hblanks c (h c hc)
  exact ⟨hquote, hopen, hclose, fun h ↦ hend h.1⟩

theorem scan_open (cursor : ℕ) (depth objectStart : ℤ) (traces : List (JsValue ν))
    (rest : List Char) :
    scan numerals native aborted text cursor (.between depth objectStart traces) ('{' :: rest) =
      scan numerals native aborted text (cursor + 1)
        (.between (depth + 1) (if depth = 0 then cursor else objectStart) traces) rest :=
  rfl

/-- Braces come in pairs, so the loop comes back to the depth it left. -/
theorem Skipped.braces {depth : ℤ} {part : List Char} (hdepth : 1 ≤ depth)
    (h : Skipped numerals native aborted text (depth + 1) part) :
    Skipped numerals native aborted text depth ('{' :: (part ++ ['}'])) := by
  intro cursor objectStart traces rest
  have hne : depth ≠ 0 := by omega
  have hclose (stop : ℕ) :
      scan numerals native aborted text stop (.between (depth + 1) objectStart traces)
          ('}' :: rest) =
        scan numerals native aborted text (stop + 1) (.between depth objectStart traces) rest := by
    simp [scan, Scan.between, quoteChar, hne]
  rw [List.cons_append, List.append_assoc, List.singleton_append, scan_open, if_neg hne, h, hclose,
    List.length_cons, List.length_append, List.length_singleton]
  congr 1
  omega

theorem Skipped.between {depth : ℤ} {first last : Char} {part : List Char}
    (hfirst : IsOther depth first) (hlast : IsOther depth last)
    (h : Skipped numerals native aborted text depth part) :
    Skipped numerals native aborted text depth (first :: (part ++ [last])) := by
  have hparts := (Skipped.char hfirst).append (h.append (.char hlast))
  rwa [List.singleton_append] at hparts

theorem isOther_of_depth {depth : ℤ} (hdepth : 1 ≤ depth) {c : Char}
    (h : c ≠ quoteChar ∧ c ≠ '{' ∧ c ≠ '}') : IsOther depth c :=
  ⟨h.1, h.2.1, h.2.2, fun hend ↦ absurd hend.2 (by omega)⟩

theorem Skipped.word {depth : ℤ} {word : List Char} (hdepth : 1 ≤ depth)
    (h : quoteChar ∉ word ∧ '{' ∉ word ∧ '}' ∉ word) :
    Skipped numerals native aborted text depth word := by
  refine .of_forall fun c hc ↦ isOther_of_depth hdepth ⟨?_, ?_, ?_⟩
  · rintro rfl
    exact h.1 hc
  · rintro rfl
    exact h.2.1 hc
  · rintro rfl
    exact h.2.2 hc

/-- Within an object the loop passes over everything that spells a part. -/
theorem skipped_of_spells {part : Part} {lexeme : List Char} (h : Spells part lexeme) {depth : ℤ}
    (hdepth : 1 ≤ depth) : Skipped numerals native aborted text depth lexeme := by
  induction h generalizing depth with
  | null => exact .word hdepth (by decide)
  | bool value => cases value <;> exact .word hdepth (by decide)
  | number token =>
    exact .of_forall fun c hc ↦ isOther_of_isNumberChar (isNumberChar_chars token c hc) depth
  | string pieces => exact .quoted pieces
  | emptyArray hblank =>
    exact .between (isOther_of_depth hdepth (by decide)) (isOther_of_depth hdepth (by decide))
      (.blank hblank)
  | array hne hitems ih =>
    exact .between (isOther_of_depth hdepth (by decide)) (isOther_of_depth hdepth (by decide))
      (ih hdepth)
  | emptyObject hblank => exact .braces hdepth (.blank hblank)
  | object hne hmembers ih => exact .braces hdepth (ih (by omega))
  | lastItem hbefore hafter hitem ih =>
    exact (Skipped.blank hbefore).append ((ih hdepth).append (.blank hafter))
  | item hbefore hafter hitem hne hitems ih ihrest =>
    have hcomma : Skipped numerals native aborted text depth [','] :=
      .char (isOther_of_depth hdepth (by decide))
    exact (Skipped.blank hbefore).append ((ih hdepth).append
      ((Skipped.blank hafter).append (hcomma.append (ihrest hdepth))))
  | @lastMember key value before middle next text' after hbefore hmiddle hnext hafter hvalue ih =>
    have hcolon : Skipped numerals native aborted text depth [':'] :=
      .char (isOther_of_depth hdepth (by decide))
    exact (Skipped.blank hbefore).append ((Skipped.quoted key).append
      ((Skipped.blank hmiddle).append (hcolon.append ((Skipped.blank hnext).append
        ((ih hdepth).append (.blank hafter))))))
  | @member key value members before middle next text' after rest hbefore hmiddle hnext hafter
      hvalue hne hmembers ih ihrest =>
    have hcolon : Skipped numerals native aborted text depth [':'] :=
      .char (isOther_of_depth hdepth (by decide))
    have hcomma : Skipped numerals native aborted text depth [','] :=
      .char (isOther_of_depth hdepth (by decide))
    exact (Skipped.blank hbefore).append ((Skipped.quoted key).append
      ((Skipped.blank hmiddle).append (hcolon.append ((Skipped.blank hnext).append
        ((ih hdepth).append ((Skipped.blank hafter).append (hcomma.append (ihrest hdepth))))))))

/-! ## Traces are parsed as they are spelled -/

theorem slice_lexeme {cursor : ℕ} {lexeme rest : List Char}
    (h : text.drop cursor = lexeme ++ rest) :
    slice text cursor (cursor + lexeme.length) = lexeme := by
  rw [slice, if_neg (by omega), Int.toNat_natCast, List.drop_take, h, Nat.add_sub_cancel_left,
    List.take_left]

/-- What native parsing and the loop find of a trace. -/
def exactTrace (numerals : Numerals ν) (tree : JsonTree) : JsValue ν :=
  revive numerals true (meaning tree)

def IsObject (tree : JsonTree) : Prop := ∃ members, tree = .object members

theorem exists_inner {tree : JsonTree} {lexeme : List Char} (hobject : IsObject tree)
    (h : Spells (.value tree) lexeme) : ∃ inner, lexeme = '{' :: (inner ++ ['}']) ∧
      Skipped numerals native aborted text 1 inner := by
  obtain ⟨members, rfl⟩ := hobject
  cases h with
  | emptyObject hblank => exact ⟨_, rfl, .blank hblank⟩
  | object hne hmembers => exact ⟨_, rfl, skipped_of_spells hmembers le_rfl⟩

theorem scan_close (cursor : ℕ) (objectStart : ℤ) (traces : List (JsValue ν)) (rest : List Char) :
    scan numerals native aborted text cursor (.between 1 objectStart traces) ('}' :: rest) =
      if aborted traces.length then .error .aborted
      else parseExactJson numerals native (slice text objectStart (cursor + 1)) >>= fun trace ↦
        scan numerals native aborted text (cursor + 1)
          (.between 0 objectStart (traces ++ [trace])) rest := by
  simp [scan, Scan.between, quoteChar]

theorem scan_end (cursor : ℕ) (objectStart : ℤ) (traces : List (JsValue ν)) (rest : List Char) :
    scan numerals native aborted text cursor (.between 0 objectStart traces) (']' :: rest) =
      .ok traces := by
  simp [scan, Scan.between, quoteChar]

theorem scan_trace (hsource : native.sourceContext = true) (hraw : native.rawJson = true)
    {tree : JsonTree} {lexeme rest : List Char} (hobject : IsObject tree)
    (h : Spells (.value tree) lexeme) {cursor : ℕ} (htext : text.drop cursor = lexeme ++ rest)
    (objectStart : ℤ) (traces : List (JsValue ν)) :
    scan numerals native aborted text cursor (.between 0 objectStart traces) (lexeme ++ rest) =
      if aborted traces.length then .error .aborted
      else scan numerals native aborted text (cursor + lexeme.length)
        (.between 0 cursor (traces ++ [exactTrace numerals tree])) rest := by
  have hparse : parseExactJson numerals native lexeme = .ok (exactTrace numerals tree) := by
    refine parseExactJson_eq_ok.mpr ⟨hsource, hraw, meaning tree, parseJson_of_spells h, ?_, rfl⟩
    obtain ⟨members, rfl⟩ := hobject
    trivial
  have hslice := slice_lexeme htext
  obtain ⟨inner, rfl, hinner⟩ :=
    @exists_inner ν numerals native aborted text tree lexeme hobject h
  have hlength : cursor + 1 + inner.length + 1 =
      cursor + ('{' :: (inner ++ ['}'])).length := by
    rw [List.length_cons, List.length_append, List.length_singleton]
    omega
  have hparsed : parseExactJson numerals native
      (slice text cursor (cursor + 1 + inner.length + 1)) = .ok (exactTrace numerals tree) := by
    rw [hlength, hslice, hparse]
  rw [List.cons_append, List.append_assoc, List.singleton_append, scan_open, if_pos rfl, zero_add,
    hinner, scan_close, hparsed, hlength]
  rfl

/-- The loop ends after the last trace, unless the signal was given before one of them. -/
theorem scan_traces (hsource : native.sourceContext = true) (hraw : native.rawJson = true)
    {trees : List JsonTree} {lexeme rest : List Char} (hobjects : ∀ tree ∈ trees, IsObject tree)
    (h : Spells (.items trees) lexeme) {cursor : ℕ}
    (htext : text.drop cursor = lexeme ++ ']' :: rest) (objectStart : ℤ)
    (traces : List (JsValue ν)) :
    scan numerals native aborted text cursor (.between 0 objectStart traces)
        (lexeme ++ ']' :: rest) =
      if (List.range' traces.length trees.length).any aborted then .error .aborted
      else .ok (traces ++ trees.map (exactTrace numerals)) := by
  induction trees generalizing lexeme cursor objectStart traces with
  | nil => cases h
  | cons tree trees ih =>
    rw [List.forall_mem_cons] at hobjects
    have hdrop {start : ℕ} {blank lexeme rest : List Char}
        (h : text.drop start = blank ++ (lexeme ++ rest)) :
        text.drop (start + blank.length) = lexeme ++ rest := by
      rw [← List.drop_drop, h, List.drop_left]
    cases h with
    | lastItem hbefore hafter hitem =>
      rw [List.append_assoc, List.append_assoc] at htext ⊢
      rw [Skipped.blank hbefore, scan_trace hsource hraw hobjects.1 hitem (hdrop htext),
        Skipped.blank hafter]
      rw [scan_end, List.length_singleton, List.range'_one, List.any_cons, List.any_nil,
        Bool.or_false]
      rfl
    | @item _ _ before lexeme' after rest' hbefore hafter hitem hne hitems =>
      have hcomma : Skipped numerals native aborted text 0 [','] := .char (by decide)
      rw [List.append_assoc, List.append_assoc, List.append_assoc, List.cons_append] at htext ⊢
      rw [← List.singleton_append] at htext ⊢
      have hitem' := hdrop htext
      have hcommaDrop := hdrop (hdrop hitem')
      rw [Skipped.blank hbefore, scan_trace hsource hraw hobjects.1 hitem hitem',
        Skipped.blank hafter, hcomma, ih hobjects.2 hitems (hdrop hcommaDrop),
        List.length_append, List.length_singleton, List.length_cons, List.range'_succ,
        List.any_cons, List.map_cons, List.append_assoc, List.singleton_append]
      cases aborted traces.length with
      | true => rfl
      | false => rfl

theorem scan_series (hsource : native.sourceContext = true) (hraw : native.rawJson = true)
    {trees : List JsonTree} {lexeme : List Char} (hobjects : ∀ tree ∈ trees, IsObject tree)
    (h : Spells (.value (.array trees)) lexeme) :
    ∃ inner, lexeme = '[' :: (inner ++ [']']) ∧
      ∀ cursor rest, text.drop cursor = inner ++ ']' :: rest →
        scan numerals native aborted text cursor (.between 0 (-1) []) (inner ++ ']' :: rest) =
          if (List.range trees.length).any aborted then .error .aborted
          else .ok (trees.map (exactTrace numerals)) := by
  cases h with
  | @emptyArray inner hblank =>
    refine ⟨inner, rfl, fun cursor rest htext ↦ ?_⟩
    rw [Skipped.blank hblank, scan_end]
    rfl
  | @array _ inner hne hitems =>
    refine ⟨inner, rfl, fun cursor rest htext ↦ ?_⟩
    rw [scan_traces hsource hraw hobjects hitems htext, List.length_nil, List.nil_append,
      List.range_eq_range']

end Loop

/-! ## Members -/

theorem meaningMembers_eq_map (members : List (List Piece × JsonTree)) :
    meaningMembers members = members.map fun member ↦ (decode member.1, meaning member.2) := by
  induction members with
  | nil => rfl
  | cons member members ih => rw [meaningMembers, ih, List.map_cons]

theorem reviveItems_meaningItems {ν : Type} (numerals : Numerals ν) (exact : Bool)
    (trees : List JsonTree) :
    reviveItems numerals exact (meaningItems trees) =
      trees.map fun tree ↦ revive numerals exact (meaning tree) := by
  induction trees with
  | nil => rfl
  | cons tree trees ih => rw [meaningItems, reviveItems, ih, List.map_cons]

theorem member_spelled {members : List (List Piece × JsonTree)} {lexeme : List Char}
    (h : Spells (.members members) lexeme) {key : List Piece} {value : JsonTree}
    (hmem : (key, value) ∈ members) :
    ∃ before middle next spelled after, Blank middle ∧ Blank next ∧ Spells (.value value) spelled ∧
      lexeme = before ++ (quoted key ++ (middle ++ ':' :: (next ++ (spelled ++ after)))) := by
  induction members generalizing lexeme with
  | nil => cases hmem
  | cons member members ih =>
    cases h with
    | lastMember _ hmiddle hnext _ hvalue =>
      obtain ⟨rfl, rfl⟩ := Prod.mk.inj (List.mem_singleton.mp hmem)
      exact ⟨_, _, _, _, _, hmiddle, hnext, hvalue, rfl⟩
    | @member first _ _ before middle next text after rest _ hmiddle hnext _ hvalue hne hmembers =>
      obtain heq | hrest := List.mem_cons.mp hmem
      · obtain ⟨rfl, rfl⟩ := Prod.mk.inj heq
        exact ⟨_, _, _, _, _, hmiddle, hnext, hvalue, rfl⟩
      · obtain ⟨before', middle', next', spelled, after', hmiddle', hnext', hspelled, rfl⟩ :=
          ih hmembers hrest
        refine ⟨before ++ (quoted first ++ (middle ++ ':' :: (next ++ (text ++ (after ++ ',' ::
          before'))))), middle', next', spelled, after', hmiddle', hnext', hspelled, ?_⟩
        simp only [List.append_assoc, List.cons_append]

/-! ## Projections -/

/-- The members of a projection: its series holds traces and is spelled as the server spells it. -/
structure IsProjection (members : List (List Piece × JsonTree)) (traces : List JsonTree) :
    Prop where
  axis : ∃ units, child axisKey (meaning (.object members)) = some (.string units)
  series : (seriesPieces, .array traces) ∈ members
  unique : ∀ member ∈ members, decode member.1 = seriesKey → member.2 = .array traces
  objects : ∀ trace ∈ traces, IsObject trace

section Exact

variable {ν : Type} {numerals : Numerals ν} {native : Native} {text : List Char}
  {members : List (List Piece × JsonTree)} {traces : List JsonTree}

theorem IsProjection.child_series (h : IsProjection members traces) :
    child seriesKey (meaning (.object members)) = some (.array (meaningItems traces)) := by
  have hmember : (seriesKey, Datum.array (meaningItems traces)) ∈ meaningMembers members := by
    rw [meaningMembers_eq_map]
    exact List.mem_map.mpr ⟨_, h.series, rfl⟩
  refine lookup_properties hmember fun other hother ↦ ?_
  rw [meaningMembers_eq_map] at hother
  obtain ⟨member, hmem, heq⟩ := List.mem_map.mp hother
  obtain ⟨hkey, rfl⟩ := Prod.mk.inj heq
  rw [h.unique member hmem hkey]
  rfl

theorem IsProjection.seriesOf?_revive (h : IsProjection members traces) (exact : Bool) :
    seriesOf? (revive numerals exact (meaning (.object members))) =
      some (traces.map fun trace ↦ revive numerals exact (meaning trace)) := by
  obtain ⟨units, haxis⟩ := h.axis
  have hseries := h.child_series
  rw [meaning, child] at haxis hseries
  rw [meaning, revive, seriesOf?, property, property, lookup_reviveEntries, lookup_reviveEntries,
    haxis, hseries, Option.map_some, Option.map_some, revive, revive, reviveItems_meaningItems]

theorem IsProjection.series_spelled (h : IsProjection members traces)
    (hread : readText text = some (.object members)) :
    ∃ before middle next lexeme after, Blank middle ∧ Blank next ∧
      Spells (.value (.array traces)) lexeme ∧
      text = before ++ (quoted seriesPieces ++ (middle ++ ':' :: (next ++ (lexeme ++ after)))) := by
  obtain ⟨blank, object, blank', -, -, rfl, hspells⟩ := readText_eq_some.mp hread
  cases hspells with
  | emptyObject => cases h.series
  | object hne hmembers =>
    obtain ⟨before, middle, next, lexeme, after, hmiddle, hnext, hlexeme, rfl⟩ :=
      member_spelled hmembers h.series
    refine ⟨blank ++ '{' :: before, middle, next, lexeme, after ++ '}' :: blank', hmiddle, hnext,
      hlexeme, ?_⟩
    simp only [List.append_assoc, List.cons_append, List.nil_append]

/-- The loop from the only match on. -/
theorem IsProjection.scan_marked (h : IsProjection members traces)
    (hread : readText text = some (.object members)) (hsource : native.sourceContext = true)
    (hraw : native.rawJson = true) (hmark : (seriesMarks 0 text).length = 1)
    (aborted : ℕ → Bool) :
    ∃ start, seriesMarks 0 text = [start] ∧
      scan numerals native aborted text (text.length - start.length) ⟨false, false, 0, -1, []⟩
          start =
        if (List.range traces.length).any aborted then .error .aborted
        else .ok (traces.map (exactTrace numerals)) := by
  obtain ⟨before, middle, next, lexeme, after, hmiddle, hnext, hlexeme, htext⟩ :=
    h.series_spelled hread
  obtain ⟨inner, rfl, hscan⟩ :=
    @scan_series ν numerals native aborted text hsource hraw traces lexeme h.objects hlexeme
  rw [List.cons_append, List.append_assoc, List.singleton_append] at htext
  refine ⟨inner ++ ']' :: after, ?_, hscan _ after ?_⟩
  · rw [htext] at hmark ⊢
    exact seriesMarks_eq hmiddle hnext hmark
  · have hsuffix : text = (before ++ (quoted seriesPieces ++ (middle ++ ':' :: (next ++ ['['])))) ++
        (inner ++ ']' :: after) := by
      simp only [htext, List.append_assoc, List.cons_append, List.nil_append]
    rw [hsuffix, List.length_append, Nat.add_sub_cancel, List.drop_left]

/-- A projection that is decoded one trace at a time has the series that parsing its whole text
exactly gives, unless the signal was given before a trace or at the end. -/
theorem projection_exact {value : JsValue ν}
    (h : parseExactJson numerals native text = .ok value)
    (hread : readText text = some (.object members)) (hprojection : IsProjection members traces)
    (aborted : ℕ → Bool) :
    ∃ series, seriesOf? value = some series ∧
      parseExactProjection numerals native aborted text =
        if (seriesMarks 0 text).length ≠ 1 then
          .error (.message "Invalid projection series array.")
        else if (List.range (series.length + 1)).any aborted then .error .aborted
        else .ok (withSeries series (revive numerals false (meaning (.object members)))) := by
  obtain ⟨hsource, hraw, datum, hparse, -, rfl⟩ := parseExactJson_eq_ok.mp h
  have hmeaning : parseJson text = .ok (meaning (.object members)) := by rw [parseJson, hread]
  obtain rfl := Except.ok.inj (hparse.symm.trans hmeaning)
  refine ⟨_, hprojection.seriesOf?_revive true, ?_⟩
  have hsteps : parseExactProjection numerals native aborted text =
      match seriesMarks 0 text with
      | [start] => do
        let found ← scan numerals native aborted text (text.length - start.length)
          ⟨false, false, 0, -1, []⟩ start
        if found.length ≠ traces.length then .error (.message "Invalid projection trace.")
        else if aborted found.length then .error .aborted
        else return withSeries found (revive numerals false (meaning (.object members)))
      | _ => .error (.message "Invalid projection series array.") := by
    unfold parseExactProjection
    rw [hmeaning]
    dsimp only [bind, Except.bind]
    rw [hprojection.seriesOf?_revive false]
    dsimp only
    rw [List.length_map]
  rw [hsteps, List.length_map]
  by_cases hmark : (seriesMarks 0 text).length = 1
  · obtain ⟨start, hstart, hscan⟩ :=
      @IsProjection.scan_marked ν numerals native text members traces hprojection hread hsource hraw
        hmark aborted
    rw [if_neg (not_not.mpr hmark), hstart]
    dsimp only
    rw [hscan, List.range_succ, List.any_append, List.any_cons, List.any_nil, Bool.or_false]
    cases (List.range traces.length).any aborted with
    | true => rfl
    | false =>
      dsimp only [bind, Except.bind]
      rw [if_neg Bool.noConfusion]
      dsimp only
      rw [List.length_map, if_neg (not_not.mpr rfl), Bool.false_or]
      rfl
  · rw [if_pos hmark]
    split
    · rename_i start hstart
      exact absurd (by rw [hstart]; rfl) hmark
    · rfl

end Exact

def axisPieces : List Piece := ['a', 'x', 'i', 's'].map pieceOf

/-- A projection of one trace, which holds a number that is no double. -/
def wideMembers : List (List Piece × JsonTree) :=
  [(axisPieces, .string idPieces), (seriesPieces, .array [wideTree])]

def wideProjection : List Char :=
  '{' :: (quoted axisPieces ++ ':' :: (quoted idPieces ++ ',' ::
    (quoted seriesPieces ++ ':' :: ' ' :: '[' :: (wideText ++ [']', '}']))))

theorem readText_wideProjection : readText wideProjection = some (.object wideMembers) := by
  have hseries : Spells (.value (.array [wideTree])) ('[' :: (wideText ++ [']'])) :=
    .array (List.cons_ne_nil _ _) (@Spells.lastItem wideTree [] wideText [] blank_nil blank_nil
      spells_wideText)
  have hlast := @Spells.lastMember seriesPieces _ [] [] [' '] _ [] blank_nil blank_nil blank_space
    blank_nil hseries
  have hmembers := @Spells.member axisPieces _ _ [] [] [] _ [] _ blank_nil blank_nil blank_nil
    blank_nil (.string idPieces) (List.cons_ne_nil _ _) hlast
  exact readText_eq_some.mpr ⟨[], wideProjection, [], blank_nil, blank_nil, rfl,
    .object (List.cons_ne_nil _ _) hmembers⟩

theorem isProjection_wideMembers : IsProjection wideMembers [wideTree] where
  axis := by
    refine ⟨decode idPieces, lookup_properties List.mem_cons_self fun other hother ↦ ?_⟩
    have hkeys : axisKey ≠ decode seriesPieces := by decide
    obtain heq | hrest := List.mem_cons.mp hother
    · exact (Prod.mk.inj heq).2
    · exact absurd (Prod.mk.inj (List.mem_singleton.mp hrest)).1 hkeys
  series := List.mem_cons_of_mem _ List.mem_cons_self
  unique := by
    have hkeys : decode axisPieces ≠ seriesKey := by decide
    intro member hmember hkey
    obtain rfl | hrest := List.mem_cons.mp hmember
    · exact absurd hkey hkeys
    · rw [List.mem_singleton.mp hrest]
  objects := List.forall_mem_singleton.mpr ⟨_, rfl⟩

theorem projection_exact_sample :
    (seriesMarks 0 wideProjection).length = 1 ∧
      ∃ series, seriesOf? (revive roundedNumerals true (meaning (.object wideMembers))) =
          some series ∧
        parseExactProjection roundedNumerals ⟨true, true⟩ (fun _ ↦ false) wideProjection =
          if (seriesMarks 0 wideProjection).length ≠ 1 then
            .error (.message "Invalid projection series array.")
          else if (List.range (series.length + 1)).any (fun _ ↦ false) then .error .aborted
          else .ok (withSeries series
            (revive roundedNumerals false (meaning (.object wideMembers)))) :=
  have hparse : parseExactJson roundedNumerals ⟨true, true⟩ wideProjection =
      .ok (revive roundedNumerals true (meaning (.object wideMembers))) :=
    parseExactJson_eq_ok.mpr ⟨rfl, rfl, meaning (.object wideMembers),
      by rw [parseJson, readText_wideProjection], trivial, rfl⟩
  ⟨rfl, projection_exact hparse readText_wideProjection isProjection_wideMembers _⟩

end Rvx.Web.ExactJson
