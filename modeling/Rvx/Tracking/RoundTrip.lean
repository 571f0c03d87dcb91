import Rvx.Tracking.Rendering

/-!
# Alert expressions survive being written and parsed

An accepted text is used up and its tree is one of the language; together with the readings of
rendered expressions this gives the round trip.  The lexer counts the end of the input as a token.
-/

namespace Rvx.Tracking

open Core Check Descent

namespace Parser

/-! ## Accepted expressions -/

def Known (token : Token) : Prop := token = .finish ∨ token.Spelled

def Taken (token : Token) : Prop := token ≠ .finish

theorem spelled_of_known {token : Token} (h : Known token) (hne : token ≠ .finish) : token.Spelled :=
  h.resolve_left hne

theorem yields_window (text : List Token) :
    Yields Known Taken Window.InLanguage text (window text) := by
  unfold window
  split
  · rename_i value rest
    refine .cons Token.noConfusion fun hknown ↦ ?_
    split_ifs with hpoints
    · exact .of_ok fun _ ↦ ⟨value, spelled_of_known hknown Token.noConfusion, hpoints.1,
        hpoints.2, rfl⟩
    · exact .of_error ⟨_, rfl⟩
  · rename_i value rest
    refine .cons Token.noConfusion fun hknown ↦ ?_
    split_ifs with hpositive
    · exact .of_ok fun _ ↦ ⟨spelled_of_known hknown Token.noConfusion, hpositive⟩
    · exact .of_error ⟨_, rfl⟩
  · exact .of_error ⟨_, rfl⟩

theorem yields_expect {γ : Type} {good : γ → Prop} {token : Token} (htoken : token ≠ .finish)
    {next : List Token → Except TrackerError (γ × List Token)}
    (h : ∀ rest, Yields Known Taken good rest (next rest)) (text : List Token) :
    Yields Known Taken good text (expect token text >>= next) := by
  cases text with
  | nil => exact .of_error ⟨_, rfl⟩
  | cons first rest =>
    by_cases heq : first = token
    · subst heq
      refine .cons htoken fun _ ↦ ?_
      have hok : expect first (first :: rest) = .ok rest := if_pos rfl
      rw [hok]
      exact h rest
    · have herror : expect token (first :: rest) = .error .unexpectedToken := if_neg heq
      rw [herror]
      exact .of_error ⟨_, rfl⟩

theorem yields_withWindow {tree : Expr} (h : tree.InLanguage) (text : List Token) :
    Yields Known Taken Expr.InLanguage text (withWindow tree text) := by
  unfold withWindow
  split
  · refine .cons Token.noConfusion fun _ ↦ ?_
    refine (yields_window _).bind fun w rest hw ↦ ?_
    refine yields_expect Token.noConfusion (fun rest ↦ ?_) rest
    split
    · refine .of_ok fun _ ↦ ?_
      rw [Expr.InLanguage] at h ⊢
      exact ⟨h.1, by simpa using hw⟩
    · exact .of_error ⟨_, rfl⟩
  · exact .of_ok fun _ ↦ h

/-- What every reader returns with some fuel. -/
structure Sound (fuel : ℕ) : Prop where
  primary : ∀ text, Yields Known Taken Expr.InLanguage text (primary fuel text)
  arguments : ∀ text, Yields Known Taken Expr.AllInLanguage text (callArguments fuel text)
  readers : ∀ level ≤ 6, ∀ text, Yields Known Taken Expr.InLanguage text (reader level fuel text)
  loops : ∀ level, IsLoop level → ∀ tree text, tree.InLanguage →
    Yields Known Taken Expr.InLanguage text (loop level fuel tree text)
  comparisons : ∀ expression previous text, (∀ e ∈ expression, e.InLanguage) →
    previous.InLanguage →
    Yields Known Taken Expr.InLanguage text (comparisonLoop fuel expression previous text)

theorem inLanguage_binary {operation : BinaryOp} {left right : Expr} (h : left.InLanguage)
    (h' : right.InLanguage) : (Expr.binary operation left right).InLanguage := by
  rw [Expr.InLanguage]
  exact ⟨h, h'⟩

theorem taken_of_operatorAt {level : ℕ} {token : Token} (h : (token.operatorAt level).isSome) :
    Taken token := by
  rintro rfl
  cases h

theorem Sound.lastReader {fuel : ℕ} (h : Sound fuel) (text : List Token) :
    Yields Known Taken Expr.InLanguage text (reader 7 fuel text) :=
  (h.primary text).bind fun _ rest htree ↦ yields_withWindow htree rest

theorem sound_zero : Sound 0 where
  primary _ := .of_error ⟨_, rfl⟩
  arguments _ := .of_error ⟨_, rfl⟩
  readers level hlevel text := by
    refine .of_error ⟨.unexpectedToken, ?_⟩
    obtain rfl | rfl | rfl | rfl | rfl | rfl | rfl : level = 0 ∨ level = 1 ∨ level = 2 ∨
      level = 3 ∨ level = 4 ∨ level = 5 ∨ level = 6 := by omega
    all_goals rfl
  loops level hloop tree text := (leftAssoc hloop).loop_yields_zero tree text
  comparisons expression previous text hexpression hprevious := by
    cases hhead : text.head?.bind comparisonOp with
    | none =>
      rw [comparisonLoop_stop hhead]
      refine .of_ok fun _ ↦ ?_
      cases expression with
      | none => exact hprevious
      | some e => exact hexpression e rfl
    | some operation =>
      refine .of_error ⟨.unexpectedToken, ?_⟩
      cases text with
      | nil => cases hhead
      | cons token rest => cases token <;> first | rfl | cases hhead

theorem Sound.primary_succ {fuel : ℕ} (h : Sound fuel) (text : List Token) :
    Yields Known Taken Expr.InLanguage text (Parser.primary (fuel + 1) text) := by
  have hname {name : String} (hknown : Known (.ident name)) :
      (Token.ident (asciiLower name)).Spelled ∧ asciiLower (asciiLower name) = asciiLower name :=
    ⟨(spelled_of_known hknown Token.noConfusion).lower, asciiLower_asciiLower name⟩
  unfold Parser.primary
  split
  · exact .of_error ⟨_, rfl⟩
  · refine .cons Token.noConfusion fun hknown ↦ .of_ok fun _ ↦ ?_
    rw [Expr.InLanguage]
    exact spelled_of_known hknown Token.noConfusion
  · refine .cons Token.noConfusion fun hknown ↦ .of_ok fun _ ↦ ?_
    rw [Expr.InLanguage]
    exact spelled_of_known hknown Token.noConfusion
  · refine .cons Token.noConfusion fun hknown ↦ .cons Token.noConfusion fun _ ↦
      .cons Token.noConfusion fun _ ↦ .of_ok fun _ ↦ ?_
    rw [Expr.InLanguage, Expr.AllInLanguage]
    exact ⟨hname hknown, trivial⟩
  · rename_i previous name tokens hlater heq
    obtain rfl := Nat.succ.inj heq
    refine .cons Token.noConfusion fun hknown ↦ .cons Token.noConfusion fun _ ↦ ?_
    refine (h.arguments tokens).bind fun arguments rest harguments ↦ .of_ok fun _ ↦ ?_
    rw [Expr.InLanguage]
    exact ⟨hname hknown, harguments⟩
  · refine .cons Token.noConfusion fun hknown ↦ .of_ok fun _ ↦ ?_
    rw [Expr.InLanguage]
    exact ⟨spelled_of_known hknown Token.noConfusion, by simp⟩
  · rename_i previous tokens heq
    obtain rfl := Nat.succ.inj heq
    refine .cons Token.noConfusion fun _ ↦ ?_
    refine (h.readers 0 (by decide) tokens).bind fun tree rest htree ↦ ?_
    exact yields_expect Token.noConfusion (fun rest ↦ .of_ok fun _ ↦ htree) rest
  · exact .of_error ⟨_, rfl⟩

theorem Sound.arguments_succ {fuel : ℕ} (h : Sound fuel) (text : List Token) :
    Yields Known Taken Expr.AllInLanguage text (callArguments (fuel + 1) text) := by
  unfold callArguments
  refine (h.readers 0 (by decide) text).bind fun argument rest hargument ↦ ?_
  dsimp only
  split
  · refine .cons Token.noConfusion fun _ ↦ .of_ok fun _ ↦ ?_
    rw [Expr.AllInLanguage, Expr.AllInLanguage]
    exact ⟨hargument, trivial⟩
  · refine yields_expect Token.noConfusion (fun rest ↦ ?_) rest
    refine (h.arguments rest).bind fun arguments rest harguments ↦ .of_ok fun _ ↦ ?_
    rw [Expr.AllInLanguage]
    exact ⟨hargument, harguments⟩

theorem Sound.comparisons_succ {fuel : ℕ} (h : Sound fuel) (expression : Option Expr)
    (previous : Expr) (text : List Token) (hexpression : ∀ e ∈ expression, e.InLanguage)
    (hprevious : previous.InLanguage) :
    Yields Known Taken Expr.InLanguage text
      (comparisonLoop (fuel + 1) expression previous text) := by
  cases hhead : text.head?.bind comparisonOp with
  | none =>
    rw [comparisonLoop_stop hhead]
    refine .of_ok fun _ ↦ ?_
    cases expression with
    | none => exact hprevious
    | some e => exact hexpression e rfl
  | some operation =>
    cases text with
    | nil => cases hhead
    | cons token rest =>
      rw [comparisonOp_eq, List.head?_cons, Option.bind_some] at hhead
      obtain ⟨htoken, hlevel⟩ : token = operation.token ∧ operation.level = 3 := by
        cases token <;> cases hhead <;> exact ⟨rfl, rfl⟩
      subst htoken
      rw [comparisonLoop_succ hlevel]
      refine .cons (taken_of_operatorAt (Option.isSome_of_eq_some hhead)) fun _ ↦ ?_
      refine (h.readers 4 (by decide) rest).bind fun right rest' hright ↦ ?_
      refine h.comparisons _ _ _ ?_ hright
      cases expression with
      | none => simpa using inLanguage_binary hprevious hright
      | some e =>
        simpa using inLanguage_binary (hexpression e rfl) (inLanguage_binary hprevious hright)

theorem Sound.readers_succ {fuel : ℕ} (h : Sound fuel) (level : ℕ) (hlevel : level ≤ 6)
    (text : List Token) :
    Yields Known Taken Expr.InLanguage text (reader level (fuel + 1) text) := by
  by_cases hloop : IsLoop level
  · have hoperand (text : List Token) :
        Yields Known Taken Expr.InLanguage text (reader (level + 1) fuel text) := by
      refine h.readers (level + 1) ?_ text
      unfold IsLoop at hloop
      omega
    exact (leftAssoc hloop).yields_succ hoperand (h.loops level hloop) text
  have hcases : level = 2 ∨ level = 3 ∨ level = 6 := by
    unfold IsLoop at hloop
    omega
  rcases hcases with rfl | rfl | rfl
  · change Yields Known Taken Expr.InLanguage text (notExpression (fuel + 1) text)
    unfold notExpression
    split
    · rename_i heq
      cases heq
    · rename_i heq
      obtain rfl := Nat.succ.inj heq
      refine .cons Token.noConfusion fun _ ↦ ?_
      refine (h.readers 2 (by decide) _).bind fun tree rest htree ↦ .of_ok fun _ ↦ ?_
      rwa [Expr.InLanguage]
    · rename_i heq _
      obtain rfl := Nat.succ.inj heq
      exact h.readers 3 (by decide) _
  · refine (h.readers 4 (by decide) text).bind fun previous rest hprevious ↦ ?_
    exact h.comparisons none previous rest (by simp) hprevious
  · change Yields Known Taken Expr.InLanguage text (unary (fuel + 1) text)
    unfold unary
    split
    · rename_i heq
      cases heq
    · rename_i heq
      obtain rfl := Nat.succ.inj heq
      refine .cons Token.noConfusion fun _ ↦ ?_
      refine (h.readers 6 (by decide) _).bind fun tree rest htree ↦ .of_ok fun _ ↦ ?_
      rwa [Expr.InLanguage]
    · rename_i heq
      obtain rfl := Nat.succ.inj heq
      refine .cons Token.noConfusion fun _ ↦ ?_
      refine (h.readers 6 (by decide) _).bind fun tree rest htree ↦ .of_ok fun _ ↦ ?_
      rwa [Expr.InLanguage]
    · rename_i heq _ _
      obtain rfl := Nat.succ.inj heq
      exact h.lastReader _

theorem sound (fuel : ℕ) : Sound fuel := by
  induction fuel with
  | zero => exact sound_zero
  | succ fuel ih =>
    refine ⟨ih.primary_succ, ih.arguments_succ, ih.readers_succ, fun level hloop ↦ ?_,
      ih.comparisons_succ⟩
    have hoperand (text : List Token) :
        Yields Known Taken Expr.InLanguage text (reader (level + 1) fuel text) := by
      refine ih.readers (level + 1) ?_ text
      unfold IsLoop at hloop
      omega
    exact (leftAssoc hloop).loop_yields_succ (fun _ ↦ taken_of_operatorAt)
      (fun _ _ _ ↦ inLanguage_binary) hoperand (ih.loops level hloop)

theorem orExpression_yields (fuel : ℕ) (text : List Token) :
    Yields Known Taken Expr.InLanguage text (orExpression fuel text) :=
  (sound fuel).readers 0 (by decide) text

/-- What the parser accepts. -/
theorem parse_sound {input : String} {e : Expr} (h : parse input = .ok e) :
    e.InLanguage ∧ ∃ tokens fuel, Lexer.tokens input = .ok (tokens ++ [.finish]) ∧
      orExpression fuel (tokens ++ [.finish]) = .ok (e, [.finish]) := by
  unfold parse at h
  simp only [bind_eq_ok, exists_unit] at h
  obtain ⟨-, tokens, htokens, ⟨tree, rest⟩, hread, htrailing, hresult⟩ := h
  obtain rfl := pure_eq_ok.mp hresult
  obtain ⟨front, rfl, hfront⟩ := Lexer.tokens_spelled htokens
  have hknown : ∀ token ∈ front ++ [Token.finish], Known token := by
    intro token htoken
    rcases List.mem_append.mp htoken with hmem | hmem
    · exact Or.inr (hfront token hmem).2
    · exact Or.inl (List.mem_singleton.mp hmem)
  obtain ⟨hlanguage, taken, hsplit, htaken⟩ := orExpression_yields _ _ hknown hread
  suffices hrest : rest = [.finish] from ⟨hlanguage, front, _, htokens, hrest ▸ hread⟩
  rcases List.append_eq_append_iff.mp hsplit with ⟨last, rfl, hlast⟩ | ⟨last, rfl, rfl⟩
  · cases last with
    | nil => exact hlast.symm
    | cons token last =>
      rw [List.cons_append] at hlast
      have htoken := htaken token (by simp)
      exact absurd (List.cons.inj hlast).1.symm htoken
  · cases last with
    | nil => rfl
    | cons token last =>
      have htoken := (hfront token (by simp)).1
      simp [htoken] at htrailing

/-! ## The language has a text for each tree -/

theorem spelled_sign {token : Token} (h : token ∈ SIGNS.map fun sign ↦ sign.2.1) :
    token.Spelled := by
  obtain ⟨⟨text, _, follow⟩, hmem, rfl⟩ := List.mem_map.mp h
  exact ⟨text, _, .sign text _ follow hmem⟩

theorem spelled_operandText {least level : ℕ} {text : List Token}
    (h : ∀ token ∈ text, token.Spelled) : ∀ token ∈ operandText least level text, token.Spelled := by
  unfold operandText parenthesized
  split_ifs
  · simp only [List.forall_mem_cons, List.forall_mem_append]
    exact ⟨spelled_sign (by decide), h, spelled_sign (by decide), by simp⟩
  · exact h

theorem spelled_window {w : Window} (literal : PointsLiteral) (h : w.InLanguage) :
    (w.token literal).Spelled := by
  cases w with
  | points count => exact (literal.sound count h).1
  | duration length => exact h.1

mutual

theorem spelled_render (literal : PointsLiteral) :
    ∀ {e : Expr}, e.InLanguage → ∀ token ∈ e.render literal, token.Spelled
  | .number value, h => by simpa [Expr.render, Expr.InLanguage] using h
  | .duration value, h => by simpa [Expr.render, Expr.InLanguage] using h
  | .metric name none, h => by
    rw [Expr.InLanguage] at h
    simpa [Expr.render] using h.1
  | .metric name (some w), h => by
    simp only [Expr.InLanguage, Option.mem_def, Option.some.injEq, forall_eq'] at h
    simp only [Expr.render, List.forall_mem_cons]
    exact ⟨h.1, spelled_sign (by decide), spelled_window literal h.2, spelled_sign (by decide),
      by simp⟩
  | .call name arguments, h => by
    rw [Expr.InLanguage] at h
    simp only [Expr.render, List.forall_mem_cons]
    exact ⟨h.1.1, spelled_sign (by decide), spelled_renderArguments literal h.2⟩
  | .unary operation value, h => by
    rw [Expr.InLanguage] at h
    simp only [Expr.render, List.forall_mem_cons]
    exact ⟨spelled_sign (by cases operation <;> decide), spelled_operandText (spelled_render literal h)⟩
  | .binary operation left right, h => by
    rw [Expr.InLanguage] at h
    simp only [Expr.render, List.forall_mem_append, List.forall_mem_cons]
    exact ⟨spelled_operandText (spelled_render literal h.1),
      spelled_sign (by cases operation <;> decide),
      spelled_operandText (spelled_render literal h.2)⟩

theorem spelled_renderArguments (literal : PointsLiteral) :
    ∀ {arguments : List Expr}, Expr.AllInLanguage arguments →
      ∀ token ∈ Expr.renderArguments literal arguments, token.Spelled
  | [], _ => by
    simp only [Expr.renderArguments, List.forall_mem_singleton]
    exact spelled_sign (by decide)
  | argument :: rest, h => by
    rw [Expr.AllInLanguage] at h
    have hargument := spelled_render literal h.1
    have hrest := spelled_renderArguments literal h.2
    rw [Expr.renderArguments, List.forall_mem_append]
    refine ⟨hargument, ?_⟩
    split_ifs
    · rw [List.forall_mem_singleton]
      exact spelled_sign (by decide)
    · exact List.forall_mem_cons.mpr ⟨spelled_sign (by decide), hrest⟩

end

/-- Every window that can be written has a literal. -/
noncomputable instance : Inhabited PointsLiteral where
  default :=
    { value := fun points ↦
        haveI := Classical.propDecidable (Window.points points).InLanguage
        if h : (Window.points points).InLanguage then h.choose else 0.0
      sound := fun points h ↦ by
        rw [dif_pos h]
        exact h.choose_spec }

theorem render_injective (literal : PointsLiteral) {e e' : Expr} (h : e.InLanguage)
    (h' : e'.InLanguage) (htext : e.render literal = e'.render literal) : e = e' := by
  have hreads := (fits_render literal h).reads 0 (Nat.zero_le _)
  have hreads' := (fits_render literal h').reads 0 (Nat.zero_le _)
  rw [htext] at hreads
  exact hreads.unique hreads' (@ends_of_continues .finish rfl 0 [])

/-- Expressions within the limits survive being written and parsed, a chain of comparisons is parsed
as the conjunction of the adjacent ones, and an accepted text is used up: its tree is one of the
language, and no two of them are written in the same way. -/
theorem round_trip (literal : PointsLiteral) :
    (∀ (e : Expr) (input : String), e.InLanguage → Layout (e.render literal) input.toList →
      (e.render literal).length < 256 → input.utf8ByteSize ≤ 8192 → parse input = .ok e) ∧
    (∀ (first second : Expr) (operation : BinaryOp) (chain : List (BinaryOp × Expr))
      (input : String), first.InLanguage →
      (∀ link ∈ (operation, second) :: chain, link.1.level = 3 ∧ link.2.InLanguage) →
      Layout (first.comparand literal ++
        chainText (Expr.comparand literal) ((operation, second) :: chain)) input.toList →
      (first.comparand literal ++
        chainText (Expr.comparand literal) ((operation, second) :: chain)).length < 256 →
      input.utf8ByteSize ≤ 8192 →
      parse input = .ok
        ((adjacent second chain).foldl (.binary .and) (.binary operation first second))) ∧
    (∀ (e : Expr) (input : String), parse input = .ok e → e.InLanguage ∧
      ∃ tokens fuel, Lexer.tokens input = .ok (tokens ++ [.finish]) ∧
        orExpression fuel (tokens ++ [.finish]) = .ok (e, [.finish])) ∧
    (∀ e : Expr, e.InLanguage → ∃ text, Layout (e.render literal) text) ∧
    ∀ (e e' : Expr) (text : List Char), e.InLanguage → e'.InLanguage →
      Layout (e.render literal) text → Layout (e'.render literal) text → e = e' := by
  refine ⟨?_, ?_, fun e input ↦ parse_sound, ?_, ?_⟩
  · intro e input h hlayout hlength hbytes
    exact parse_of_reads ((fits_render literal h).reads 0 (Nat.zero_le _)) hlayout hbytes hlength
  · intro first second operation chain input hfirst hchain hlayout hlength hbytes
    have hcomparand {e : Expr} (h : e.InLanguage) : Fits 4 (e.comparand literal) e :=
      (fits_render literal h).operand (by decide)
    have hfits := fits_chain (fun link hlink ↦ (hchain link hlink).1) (hcomparand hfirst)
      fun link hlink ↦ hcomparand (hchain link hlink).2
    exact parse_of_reads (hfits.reads 0 (Nat.zero_le _)) hlayout hbytes hlength
  · intro e h
    exact exists_layout (spelled_render literal h)
  · intro e e' text h h' hlayout hlayout'
    exact render_injective literal h h' (hlayout.unique hlayout')

/-- Metrics of one letter are written without quotes. -/
theorem lexeme_letter {letter : Char} (h : letter ∈ ['a', 'b', 'c']) :
    Lexeme [letter] (.ident (String.ofList [letter])) fun c ↦ Lexer.isIdentContinue c = true := by
  have hclass : ∀ c ∈ ['a', 'b', 'c'],
      Lexer.isIdentStart c = true ∧
        asciiLower (String.ofList [c]) ∉ KEYWORDS.map Prod.fst :=
    List.all_iff_forall_prop.mp (by decide)
  exact .bare letter [] (hclass letter h).1 (by simp) (hclass letter h).2

theorem layout_letter {letter : Char} (h : letter ∈ ['a', 'b', 'c']) {tokens : List Token}
    {rest : List Char} (separate : Printer.Avoids (fun c ↦ Lexer.isIdentContinue c = true) rest)
    (hrest : Layout tokens rest) :
    Layout (.ident (String.ofList [letter]) :: tokens) (letter :: rest) :=
  @Layout.token _ _ [] _ _ _ (by simp) (lexeme_letter h) separate hrest

theorem layout_sign {text rest follow : List Char} {token : Token} {tokens : List Token}
    (h : (text, token, follow) ∈ SIGNS) (separate : Printer.Avoids (fun c ↦ c ∈ follow) rest)
    (hrest : Layout tokens rest) : Layout (token :: tokens) (text ++ rest) :=
  @Layout.token _ _ [] _ _ _ (by simp) (.sign text token follow h) separate hrest

/-- `a+b` and `a<b<c`. -/
theorem round_trip_sample :
    parse "a+b" = .ok (.binary .add (.metric "a" none) (.metric "b" none)) ∧
      parse "a<b<c" = .ok (.binary .and
        (.binary .lt (.metric "a" none) (.metric "b" none))
        (.binary .lt (.metric "b" none) (.metric "c" none))) := by
  have hletter {letter : Char} (h : letter ∈ ['a', 'b', 'c']) :
      (Expr.metric (String.ofList [letter]) none).InLanguage := by
    rw [Expr.InLanguage]
    exact ⟨⟨_, _, lexeme_letter h⟩, by simp⟩
  have ha := @hletter 'a' (by decide)
  have hb := @hletter 'b' (by decide)
  have hc := @hletter 'c' (by decide)
  have hplus : Layout [.ident "a", .plus, .ident "b"] ['a', '+', 'b'] :=
    layout_letter (by decide) (by simp; decide) (@layout_sign ['+'] _ [] _ _ (by decide)
      (by simp) (layout_letter (by decide) (by simp) (.finish (by simp))))
  have hless : Layout [.ident "a", .lt, .ident "b", .lt, .ident "c"] ['a', '<', 'b', '<', 'c'] :=
    layout_letter (by decide) (by simp; decide) (@layout_sign ['<'] _ ['='] _ _ (by decide)
      (by simp) (layout_letter (by decide) (by simp; decide) (@layout_sign ['<'] _ ['='] _ _
        (by decide) (by simp) (layout_letter (by decide) (by simp) (.finish (by simp))))))
  obtain ⟨htrees, hchains, -⟩ := round_trip default
  constructor
  · exact htrees _ _ (inLanguage_binary ha hb) hplus (by decide) (by decide)
  · refine hchains (.metric "a" none) (.metric "b" none) .lt [(.lt, .metric "c" none)] _ ha ?_ hless
      (by decide) (by decide)
    simp only [List.forall_mem_cons]
    exact ⟨⟨rfl, hb⟩, ⟨rfl, hc⟩, by simp⟩

/-! ## The end of the input counts as a token -/

theorem parse_of_long {input : String} {tokens : List Token} (hlayout : Layout tokens input.toList)
    (hlength : 256 ≤ tokens.length) : ∃ error, parse input = .error error := by
  obtain ⟨error, herror⟩ : ∃ error, Lexer.tokens input = .error error :=
    hlayout.tokensFrom_error (by omega)
  unfold parse
  rw [herror]
  by_cases hbytes : input.utf8ByteSize > 8192
  · exact ⟨_, by rw [reject, if_pos hbytes]; rfl⟩
  · exact ⟨error, by rw [reject, if_neg hbytes]; rfl⟩

/-- `!` before a metric, so many times. -/
def nots (count : ℕ) : Expr := (Expr.unary .not)^[count] (.metric "a" none)

theorem nots_spec (literal : PointsLiteral) (count : ℕ) :
    (nots count).InLanguage ∧ 2 ≤ (nots count).level ∧
      (nots count).render literal = List.replicate count .not ++ [.ident "a"] ∧
      Layout (List.replicate count .not ++ [.ident "a"]) (List.replicate count '!' ++ ['a']) := by
  induction count with
  | zero =>
    refine ⟨?_, by decide, rfl, layout_letter (by decide) (by simp) (.finish (by simp))⟩
    change (Expr.metric "a" none).InLanguage
    rw [Expr.InLanguage]
    exact ⟨⟨_, _, @lexeme_letter 'a' (by decide)⟩, by simp⟩
  | succ count ih =>
    obtain ⟨hlanguage, hlevel, hrender, hlayout⟩ := ih
    have hnots : nots (count + 1) = .unary .not (nots count) := Function.iterate_succ_apply' _ _ _
    rw [hnots]
    refine ⟨by rwa [Expr.InLanguage], le_rfl, ?_, ?_⟩
    · have hplain : ¬ (nots count).level < UnaryOp.not.level := Nat.not_lt.mpr hlevel
      rw [Expr.render, operandText, if_neg hplain, hrender]
      rfl
    · refine @layout_sign ['!'] (List.replicate count '!' ++ ['a']) ['='] .not _ (by decide) ?_ hlayout
      cases count <;> simp [List.replicate_succ]

theorem utf8Len_nots (count : ℕ) :
    String.utf8Len (List.replicate count '!' ++ ['a']) = count + 1 := by
  have hsize : Char.utf8Size '!' = 1 := by decide
  induction count with
  | zero => decide
  | succ count ih =>
    rw [List.replicate_succ, List.cons_append, String.utf8Len_cons, ih, hsize]

/-- A rendering of 256 tokens is not parsed. -/
theorem longest_rendering_rejected :
    (nots 255).InLanguage ∧
      Layout ((nots 255).render default) (List.replicate 255 '!' ++ ['a']) ∧
      ((nots 255).render default).length = 256 ∧
      (String.ofList (List.replicate 255 '!' ++ ['a'])).utf8ByteSize ≤ 8192 ∧
      parse (String.ofList (List.replicate 255 '!' ++ ['a'])) ≠ .ok (nots 255) := by
  obtain ⟨hlanguage, -, hrender, hlayout⟩ := nots_spec default 255
  rw [hrender]
  have hlength : (List.replicate 255 Token.not ++ [Token.ident "a"]).length = 256 := by
    rw [List.length_append, List.length_replicate]
    rfl
  refine ⟨hlanguage, hlayout, hlength, ?_, ?_⟩
  · rw [String.utf8ByteSize_ofList, utf8Len_nots]
    decide
  · have hinput : Layout (List.replicate 255 Token.not ++ [Token.ident "a"])
        (String.ofList (List.replicate 255 '!' ++ ['a'])).toList := by
      rwa [String.toList_ofList]
    obtain ⟨error, herror⟩ := parse_of_long hinput hlength.ge
    rw [herror]
    exact nofun

end Parser

end Rvx.Tracking
