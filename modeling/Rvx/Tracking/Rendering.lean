import Rvx.Lib.Descent
import Rvx.Tracking.Spelling

/-!
# Rendering alert expressions

The text of an expression, with only the parentheses that the precedence of its operators requires,
is parsed back to the expression.  Operators are left-associative, and a comparison takes no
comparison as an operand: a chain of them stands for its adjacent comparisons.
-/

namespace Rvx.Tracking

open Core Check Descent

/-! ## Precedence -/

namespace BinaryOp

def token : BinaryOp → Token
  | .add => .plus
  | .sub => .minus
  | .mul => .star
  | .div => .slash
  | .mod => .percent
  | .eq => .eq
  | .ne => .ne
  | .lt => .lt
  | .le => .le
  | .gt => .gt
  | .ge => .ge
  | .and => .and
  | .or => .or

/-- Higher levels bind tighter. -/
def level : BinaryOp → ℕ
  | .or => 0
  | .and => 1
  | .eq | .ne | .lt | .le | .gt | .ge => 3
  | .add | .sub => 4
  | .mul | .div | .mod => 5

/-- The least level of a left operand without parentheses. -/
def leftLevel (operation : BinaryOp) : ℕ :=
  if operation.level = 3 then 4 else operation.level

end BinaryOp

namespace UnaryOp

def token : UnaryOp → Token
  | .neg => .minus
  | .pos => .plus
  | .not => .not

def level : UnaryOp → ℕ
  | .not => 2
  | .neg | .pos => 6

end UnaryOp

def Expr.level : Expr → ℕ
  | .binary operation _ _ => operation.level
  | .unary operation _ => operation.level
  | _ => 7

/-- The double a window of so many points is written with. -/
def IsPoints (value : Float) (points : ℕ) : Prop :=
  1.0 ≤ value ∧ (Double.rem value 1.0 == 0.0) = true ∧ value.toUInt64.toNat = points

/-! ## The language -/

def Window.InLanguage : Window → Prop
  | .points count => ∃ value, (Token.number value).Spelled ∧ IsPoints value count
  | .duration length => (Token.duration length).Spelled ∧ 0 < length

namespace Expr

mutual

/-- The trees that can be written: names, numbers and windows have a spelling, and calls are in
lower case. -/
def InLanguage : Expr → Prop
  | .number value => (Token.number value).Spelled
  | .duration value => (Token.duration value).Spelled
  | .metric name window => (Token.ident name).Spelled ∧ ∀ w ∈ window, w.InLanguage
  | .call name arguments =>
    ((Token.ident name).Spelled ∧ asciiLower name = name) ∧ AllInLanguage arguments
  | .unary _ value => InLanguage value
  | .binary _ left right => InLanguage left ∧ InLanguage right

def AllInLanguage : List Expr → Prop
  | [] => True
  | argument :: rest => InLanguage argument ∧ AllInLanguage rest

end

end Expr

/-- A number literal for every window of points that can be written. -/
structure PointsLiteral where
  value : ℕ → Float
  sound (points : ℕ) (h : (Window.points points).InLanguage) :
    (Token.number (value points)).Spelled ∧ IsPoints (value points) points

/-! ## Rendering -/

def parenthesized (text : List Token) : List Token := .lParen :: (text ++ [.rParen])

/-- An operand of at least the given level needs no parentheses. -/
def operandText (least level : ℕ) (text : List Token) : List Token :=
  if level < least then parenthesized text else text

def Window.token (literal : PointsLiteral) : Window → Token
  | .points count => .number (literal.value count)
  | .duration length => .duration length

namespace Expr

variable (literal : PointsLiteral)

mutual

def render : Expr → List Token
  | .number value => [.number value]
  | .duration value => [.duration value]
  | .metric name none => [.ident name]
  | .metric name (some window) => [.ident name, .lBracket, window.token literal, .rBracket]
  | .call name arguments => .ident name :: .lParen :: renderArguments arguments
  | .unary operation value =>
    operation.token :: operandText operation.level value.level (render value)
  | .binary operation left right =>
    operandText operation.leftLevel left.level (render left) ++
      operation.token :: operandText (operation.level + 1) right.level (render right)

/-- The arguments up to the closing parenthesis. -/
def renderArguments : List Expr → List Token
  | [] => [.rParen]
  | argument :: rest =>
    render argument ++
      if rest.isEmpty then [.rParen] else .comma :: renderArguments rest

end

/-- An operand of a comparison. -/
def comparand (e : Expr) : List Token := operandText 4 e.level (e.render literal)

end Expr

/-- Where a token that continues an expression is looked for. -/
def Token.continues : Token → Option ℕ
  | .or => some 0
  | .and => some 1
  | .eq | .ne | .lt | .le | .gt | .ge => some 3
  | .plus | .minus => some 4
  | .star | .slash | .percent => some 5
  | .lBracket | .lParen => some 7
  | _ => none

/-- Expressions below this level can start with the token. -/
def Token.starts : Token → ℕ
  | .not => 3
  | .plus | .minus => 7
  | .number _ | .duration _ | .ident _ | .lParen => 8
  | _ => 0

def Token.operator : Token → Option BinaryOp
  | .or => some .or
  | .and => some .and
  | .eq => some .eq
  | .ne => some .ne
  | .lt => some .lt
  | .le => some .le
  | .gt => some .gt
  | .ge => some .ge
  | .plus => some .add
  | .minus => some .sub
  | .star => some .mul
  | .slash => some .div
  | .percent => some .mod
  | _ => none

/-- The binary operators of one level. -/
def Token.operatorAt (level : ℕ) (token : Token) : Option BinaryOp :=
  token.operator.filter fun operation ↦ operation.level = level

/-- No token follows that an expression of the level would take. -/
def Ends (level : ℕ) (rest : List Token) : Prop :=
  ∀ token ∈ rest.head?, ∀ other ∈ token.continues, other < level

namespace Parser

/-- The reader of each level. -/
def reader : ℕ → Reader Token Expr TrackerError
  | 0 => orExpression
  | 1 => andExpression
  | 2 => notExpression
  | 3 => comparison
  | 4 => additive
  | 5 => term
  | 6 => unary
  | _ => fun fuel tokens ↦ do
    let (expression, tokens) ← primary fuel tokens
    withWindow expression tokens

/-- The loop of each level of left-associative operators. -/
def loop : ℕ → ℕ → Expr → List Token → Result
  | 0 => orLoop
  | 1 => andLoop
  | 4 => additiveLoop
  | _ => termLoop

def IsLoop (level : ℕ) : Prop := level = 0 ∨ level = 1 ∨ level = 4 ∨ level = 5

theorem leftAssoc {level : ℕ} (h : IsLoop level) :
    LeftAssoc (reader level) (reader (level + 1)) (loop level) (Token.operatorAt level)
      Expr.binary := by
  rcases h with rfl | rfl | rfl | rfl <;>
    refine ⟨fun _ ↦ ⟨_, rfl⟩, fun fuel text ↦ rfl, fun fuel tree rest hrest ↦ ?_,
      fun tree token rest htoken ↦ ?_, fun fuel tree token rest operation htoken ↦ ?_⟩
  case inl.refine_1 | inr.inl.refine_1 | inr.inr.inl.refine_1 | inr.inr.inr.refine_1 =>
    cases rest with
    | nil => cases fuel <;> rfl
    | cons token rest => cases token <;> first | (cases fuel <;> rfl) | cases hrest
  case inl.refine_2 | inr.inl.refine_2 | inr.inr.inl.refine_2 | inr.inr.inr.refine_2 =>
    cases token <;> first | exact ⟨_, rfl⟩ | cases htoken
  case inl.refine_3 | inr.inl.refine_3 | inr.inr.inl.refine_3 | inr.inr.inr.refine_3 =>
    cases token <;> cases htoken <;> rfl

abbrev ReadsAt (level : ℕ) : List Token → Expr → Prop :=
  Reads 16 (8 - level) (Ends level) (reader level)

abbrev OpensAt (level : ℕ) : List Token → Expr → Prop :=
  Opens 16 (8 - level) (Ends (level + 1)) (reader level) (loop level)

/-! ## What follows an expression -/

theorem ends_mono {level level' : ℕ} (h : level ≤ level') {rest : List Token}
    (hends : Ends level rest) : Ends level' rest :=
  fun token htoken other hother ↦ (hends token htoken other hother).trans_le h

theorem ends_cons {level : ℕ} {token : Token} {rest : List Token} :
    Ends level (token :: rest) ↔ ∀ other ∈ token.continues, other < level := by
  simp [Ends]

/-- A token that continues nothing ends every expression. -/
theorem ends_of_continues {token : Token} (h : token.continues = none) (level : ℕ)
    (rest : List Token) : Ends level (token :: rest) := by
  rw [ends_cons, h]
  simp

theorem continues_operator {token : Token} {operation : BinaryOp}
    (h : token.operator = some operation) : token.continues = some operation.level := by
  cases token <;> cases h <;> rfl

theorem ends_operator {level : ℕ} {operation : BinaryOp} (h : operation.level < level)
    (rest : List Token) : Ends level (operation.token :: rest) := by
  have hcontinues : operation.token.continues = some operation.level := by
    cases operation <;> rfl
  rw [ends_cons, hcontinues]
  simpa using h

theorem operatorAt_of_ends {level : ℕ} {rest : List Token} (h : Ends level rest) :
    rest.head?.bind (Token.operatorAt level) = none := by
  cases rest with
  | nil => rfl
  | cons token rest =>
    rw [List.head?_cons, Option.bind_some, Token.operatorAt, Option.filter_eq_none_iff]
    intro operation hoperation
    have hlevel := ends_cons.mp h operation.level (continues_operator hoperation)
    simp only [decide_eq_true_eq]
    omega

theorem operatorAt_token (operation : BinaryOp) :
    operation.token.operatorAt operation.level = some operation := by
  cases operation <;> rfl

theorem head?_ne_of_ends {level : ℕ} {rest : List Token} (h : Ends level rest) {token : Token}
    (hlevel : ∀ other ∈ token.continues, level ≤ other) (hsome : token.continues.isSome) :
    rest.head? ≠ some token := by
  intro hhead
  obtain ⟨other, hother⟩ := Option.isSome_iff_exists.mp hsome
  have hless := h token hhead other hother
  have hmore := hlevel other hother
  omega

theorem comparisonOp_eq : comparisonOp = Token.operatorAt 3 := by
  funext token
  cases token <;> rfl

theorem comparisonLoop_stop {fuel : ℕ} {expression : Option Expr} {previous : Expr}
    {rest : List Token} (h : rest.head?.bind comparisonOp = none) :
    comparisonLoop fuel expression previous rest = .ok (expression.getD previous, rest) := by
  cases rest with
  | nil => cases fuel <;> rfl
  | cons token rest => cases token <;> first | (cases fuel <;> rfl) | cases h

theorem comparisonLoop_succ {fuel : ℕ} {expression : Option Expr} {previous : Expr}
    {operation : BinaryOp} (h : operation.level = 3) (rest : List Token) :
    comparisonLoop (fuel + 1) expression previous (operation.token :: rest) =
      additive fuel rest >>= fun read ↦
        comparisonLoop fuel (some (expression.elim (.binary operation previous read.1)
          fun expression ↦ .binary .and expression (.binary operation previous read.1)))
          read.1 read.2 := by
  cases operation <;> cases h <;> rfl

/-! ## From one level to the next -/

/-- A text that is read at a level is read one level below, unless its first token means something
else there. -/
theorem readsAt_below {level : ℕ} (hlevel : level < 7) {text : List Token} {tree : Expr}
    (hne : text ≠ []) (hstarts : ∀ token ∈ text.head?, level + 1 < token.starts)
    (h : ReadsAt (level + 1) text tree) : ReadsAt level text tree := by
  have hbase : 8 - level = 8 - (level + 1) + 1 := by omega
  by_cases hloop : IsLoop level
  · have hopens := (leftAssoc hloop).opens_operand hne h
    rw [← hbase] at hopens
    exact (leftAssoc hloop).reads_of_opens hopens fun rest hrest ↦
      ⟨ends_mono (Nat.le_succ level) hrest, operatorAt_of_ends hrest⟩
  obtain ⟨first, more, rfl⟩ := List.exists_cons_of_ne_nil hne
  have hfirst := hstarts first rfl
  intro fuel rest hfuel hrest
  obtain ⟨fuel, rfl⟩ : ∃ fewer, fuel = fewer + 1 := ⟨fuel - 1, by omega⟩
  have hread := h (by omega : _ ≤ fuel) (ends_mono (Nat.le_succ level) hrest)
  have hcases : level = 2 ∨ level = 3 ∨ level = 6 := by
    unfold IsLoop at hloop
    omega
  rcases hcases with rfl | rfl | rfl
  · change notExpression (fuel + 1) (first :: (more ++ rest)) = _
    rw [notExpression]
    · exact hread
    · intro left heq
      rw [(List.cons.inj heq).1] at hfirst
      exact absurd hfirst (by decide)
  · change comparison (fuel + 1) _ = _
    change additive fuel _ = _ at hread
    have hnone : rest.head?.bind comparisonOp = none := by
      rw [comparisonOp_eq]
      exact operatorAt_of_ends hrest
    rw [comparison, hread]
    change comparisonLoop fuel none tree rest = _
    rw [comparisonLoop_stop hnone]
    rfl
  · change unary (fuel + 1) (first :: (more ++ rest)) = _
    rw [unary]
    · exact hread
    · intro left heq
      rw [(List.cons.inj heq).1] at hfirst
      exact absurd hfirst (by decide)
    · intro left heq
      rw [(List.cons.inj heq).1] at hfirst
      exact absurd hfirst (by decide)

/-- A text that fits everywhere up to a level. -/
structure Fits (top : ℕ) (text : List Token) (tree : Expr) : Prop where
  ne_nil : text ≠ []
  starts : ∀ token ∈ text.head?, top < token.starts
  reads : ∀ level ≤ top, ReadsAt level text tree
  opens : ∀ level ≤ top, IsLoop level → OpensAt level text tree

theorem Fits.mono {top level : ℕ} {text : List Token} {tree : Expr} (h : Fits top text tree)
    (hlevel : level ≤ top) : Fits level text tree :=
  ⟨h.ne_nil, fun token htoken ↦ hlevel.trans_lt (h.starts token htoken),
    fun other hother ↦ h.reads other (hother.trans hlevel),
    fun other hother ↦ h.opens other (hother.trans hlevel)⟩

theorem Fits.of_reads {top : ℕ} (htop : top ≤ 7) {text : List Token} {tree : Expr}
    (hne : text ≠ []) (hstarts : ∀ token ∈ text.head?, top < token.starts)
    (hreads : ReadsAt top text tree) (hopens : IsLoop top → OpensAt top text tree) :
    Fits top text tree := by
  have hall : ∀ level ≤ top, ReadsAt level text tree := by
    intro level hlevel
    induction hlevel using Nat.decreasingInduction with
    | self => exact hreads
    | of_succ level hlevel ih =>
      exact readsAt_below (hlevel.trans_le htop) hne
        (fun token htoken ↦ Nat.lt_of_le_of_lt hlevel (hstarts token htoken)) ih
  refine ⟨hne, hstarts, hall, fun level hlevel hloop ↦ ?_⟩
  rcases hlevel.eq_or_lt with rfl | hlevel
  · exact hopens hloop
  · have hopen := (leftAssoc hloop).opens_operand hne (hall (level + 1) hlevel)
    have hbase : 8 - level = 8 - (level + 1) + 1 := by omega
    rwa [← hbase] at hopen

theorem Fits.of_opens {top : ℕ} (hloop : IsLoop top) {text : List Token} {tree : Expr}
    (hne : text ≠ []) (hstarts : ∀ token ∈ text.head?, top < token.starts)
    (hopens : OpensAt top text tree) : Fits top text tree := by
  have htop : top ≤ 7 := by
    unfold IsLoop at hloop
    omega
  refine .of_reads htop hne hstarts ?_ fun _ ↦ hopens
  exact (leftAssoc hloop).reads_of_opens hopens fun rest hrest ↦
    ⟨ends_mono (Nat.le_succ top) hrest, operatorAt_of_ends hrest⟩

/-! ## Primary expressions -/

theorem withWindow_of_ends {tree : Expr} {rest : List Token} (h : Ends 7 rest) :
    withWindow tree rest = .ok (tree, rest) := by
  cases rest with
  | nil => rfl
  | cons token rest =>
    cases token
    case lBracket => exact absurd (ends_cons.mp h 7 rfl) (by decide)
    all_goals rfl

/-- A primary expression that is read without a window. -/
theorem Fits.of_primary {first : Token} {more : List Token} {tree : Expr}
    (hstarts : first.starts = 8)
    (h : ∀ fuel rest, 16 * more.length ≤ fuel → Ends 7 rest →
      primary (fuel + 1) (first :: (more ++ rest)) = .ok (tree, rest)) :
    Fits 7 (first :: more) tree := by
  refine .of_reads le_rfl (List.cons_ne_nil _ _) (by simp [hstarts]) ?_ (by simp [IsLoop])
  intro fuel rest hfuel hrest
  rw [List.length_cons] at hfuel
  obtain ⟨fuel, rfl⟩ : ∃ fewer, fuel = fewer + 1 := ⟨fuel - 1, by omega⟩
  change (primary (fuel + 1) (first :: (more ++ rest)) >>= fun read ↦
    withWindow read.1 read.2) = _
  rw [h fuel rest (by omega) hrest]
  exact withWindow_of_ends hrest

theorem fits_number (value : Float) : Fits 7 [.number value] (.number value) :=
  .of_primary rfl fun _ _ _ _ ↦ rfl

theorem fits_duration (value : ℤ) : Fits 7 [.duration value] (.duration value) :=
  .of_primary rfl fun _ _ _ _ ↦ rfl

theorem primary_ident {fuel : ℕ} {name : String} {rest : List Token}
    (h : rest.head? ≠ some .lParen) :
    primary (fuel + 1) (.ident name :: rest) = .ok (.metric name none, rest) := by
  cases rest with
  | nil => rfl
  | cons token rest =>
    cases token
    case lParen => exact absurd rfl h
    all_goals rfl

theorem fits_metric (name : String) : Fits 7 [.ident name] (.metric name none) := by
  refine .of_primary rfl fun fuel rest _ hrest ↦ primary_ident ?_
  exact head?_ne_of_ends hrest (by simp [Token.continues]) rfl

theorem window_token {w : Window} (literal : PointsLiteral) (h : w.InLanguage)
    (rest : List Token) : window (w.token literal :: rest) = .ok (w, rest) := by
  cases w with
  | points count =>
    obtain ⟨-, hone, hwhole, hcount⟩ := literal.sound count h
    simp [Window.token, window, hone, hwhole, hcount]
  | duration length => simp [Window.token, window, h.2]

theorem fits_windowed {w : Window} (literal : PointsLiteral) (name : String) (h : w.InLanguage) :
    Fits 7 [.ident name, .lBracket, w.token literal, .rBracket] (.metric name (some w)) := by
  refine .of_reads le_rfl (List.cons_ne_nil _ _) (by simp [Token.starts]) ?_ (by simp [IsLoop])
  intro fuel rest hfuel hrest
  obtain ⟨fuel, rfl⟩ : ∃ fewer, fuel = fewer + 1 := ⟨fuel - 1, by omega⟩
  change (primary (fuel + 1) (.ident name :: .lBracket :: w.token literal :: .rBracket :: rest) >>=
    fun read ↦ withWindow read.1 read.2) = _
  rw [primary_ident (by simp)]
  change (window (w.token literal :: .rBracket :: rest) >>= _) = _
  rw [window_token literal h]
  rfl

theorem fits_parenthesized {text : List Token} {tree : Expr} (h : Fits 0 text tree) :
    Fits 7 (parenthesized text) tree := by
  refine .of_primary rfl fun fuel rest hfuel _ ↦ ?_
  rw [List.length_append, List.length_singleton] at hfuel
  have hread : orExpression fuel (text ++ .rParen :: rest) = .ok (tree, .rParen :: rest) :=
    h.reads 0 le_rfl (by omega) (ends_of_continues rfl 0 rest)
  rw [List.append_assoc, List.singleton_append, primary, hread]
  rfl

/-- An operand, with parentheses when it binds less tightly than required. -/
theorem Fits.operand {least level : ℕ} (hleast : least ≤ 7) {text : List Token} {tree : Expr}
    (h : Fits level text tree) : Fits least (operandText least level text) tree := by
  unfold operandText
  split_ifs with hlevel
  · exact (fits_parenthesized (h.mono (Nat.zero_le _))).mono hleast
  · exact h.mono (Nat.le_of_not_lt hlevel)

/-! ## Calls -/

theorem callArguments_render (literal : PointsLiteral) {arguments : List Expr} (hne : arguments ≠ [])
    (h : ∀ argument ∈ arguments, Fits 0 (argument.render literal) argument) {fuel : ℕ}
    {rest : List Token}
    (hfuel : 16 * (Expr.renderArguments literal arguments).length ≤ fuel) :
    callArguments fuel (Expr.renderArguments literal arguments ++ rest) =
      .ok (arguments, rest) := by
  induction arguments generalizing fuel with
  | nil => exact absurd rfl hne
  | cons argument arguments ih =>
    obtain ⟨hargument, harguments⟩ := List.forall_mem_cons.mp h
    cases arguments with
    | nil =>
      simp only [Expr.renderArguments, List.isEmpty_nil, if_true, List.length_append,
        List.length_singleton] at hfuel ⊢
      obtain ⟨fuel, rfl⟩ : ∃ fewer, fuel = fewer + 1 := ⟨fuel - 1, by omega⟩
      have hread : orExpression fuel (argument.render literal ++ .rParen :: rest) =
          .ok (argument, .rParen :: rest) :=
        hargument.reads 0 le_rfl (by omega) (ends_of_continues rfl 0 rest)
      rw [List.append_assoc, List.singleton_append, callArguments, hread]
      rfl
    | cons next arguments =>
      rw [Expr.renderArguments] at hfuel ⊢
      simp only [List.isEmpty_cons, Bool.false_eq_true, if_false, List.length_append,
        List.length_cons] at hfuel ⊢
      obtain ⟨fuel, rfl⟩ : ∃ fewer, fuel = fewer + 1 := ⟨fuel - 1, by omega⟩
      have hread : orExpression fuel (argument.render literal ++
          .comma :: (Expr.renderArguments literal (next :: arguments) ++ rest)) =
            .ok (argument, .comma :: (Expr.renderArguments literal (next :: arguments) ++ rest)) :=
        hargument.reads 0 le_rfl (by omega) (ends_of_continues rfl 0 _)
      rw [List.append_assoc, List.cons_append, callArguments, hread]
      change (callArguments fuel (Expr.renderArguments literal (next :: arguments) ++ rest) >>= _) = _
      rw [ih (List.cons_ne_nil _ _) harguments (by omega)]
      rfl

theorem fits_call (literal : PointsLiteral) {name : String} {arguments : List Expr}
    (hname : asciiLower name = name)
    (h : ∀ argument ∈ arguments, Fits 0 (argument.render literal) argument) :
    Fits 7 (.ident name :: .lParen :: Expr.renderArguments literal arguments)
      (.call name arguments) := by
  refine .of_primary rfl fun fuel rest hfuel _ ↦ ?_
  cases arguments with
  | nil =>
    change Except.ok (Expr.call (asciiLower name) [], rest) = _
    rw [hname]
  | cons argument arguments =>
    rw [List.length_cons] at hfuel
    have hread : callArguments fuel
        (Expr.renderArguments literal (argument :: arguments) ++ rest) = .ok (_, rest) :=
      callArguments_render literal (List.cons_ne_nil argument arguments) h (by omega)
    obtain ⟨first, more, htext, hfirst⟩ : ∃ first more,
        Expr.renderArguments literal (argument :: arguments) = first :: more ∧ first ≠ .rParen := by
      obtain ⟨first, more, htext⟩ := List.exists_cons_of_ne_nil (h argument (by simp)).ne_nil
      have hfirst := (h argument (by simp)).starts first (by rw [htext]; rfl)
      refine ⟨first, _, by rw [Expr.renderArguments, htext]; rfl, ?_⟩
      rintro rfl
      exact absurd hfirst (by decide)
    rw [List.cons_append, primary]
    · rw [hread, hname]
      rfl
    · intro tokens heq
      rw [htext] at heq
      exact hfirst (List.cons.inj heq).1

/-! ## Operators -/

theorem fits_unary {operation : UnaryOp} {text : List Token} {tree : Expr}
    (h : Fits operation.level text tree) :
    Fits operation.level (operation.token :: text) (.unary operation tree) := by
  have hlevel : operation.level ≤ 7 := by cases operation <;> decide
  refine .of_reads hlevel (List.cons_ne_nil _ _)
    (by cases operation <;> simp [UnaryOp.token, UnaryOp.level, Token.starts]) ?_
    (by cases operation <;> simp [IsLoop, UnaryOp.level])
  intro fuel rest hfuel hrest
  rw [List.length_cons] at hfuel
  obtain ⟨fuel, rfl⟩ : ∃ fewer, fuel = fewer + 1 := ⟨fuel - 1, by omega⟩
  have hread := h.reads _ le_rfl (by omega : _ ≤ fuel) hrest
  cases operation with
  | neg | pos =>
    change (unary fuel (text ++ rest) >>= _) = _
    change unary fuel (text ++ rest) = _ at hread
    rw [hread]
    rfl
  | not =>
    change (notExpression fuel (text ++ rest) >>= _) = _
    change notExpression fuel (text ++ rest) = _ at hread
    rw [hread]
    rfl

/-- The comparisons of adjacent operands. -/
def adjacent : Expr → List (BinaryOp × Expr) → List Expr
  | _, [] => []
  | first, (operation, next) :: rest => .binary operation first next :: adjacent next rest

/-- The operators and operands that follow the first operand of a chain. -/
def chainText (text : Expr → List Token) (chain : List (BinaryOp × Expr)) : List Token :=
  chain.flatMap fun link ↦ link.1.token :: text link.2

theorem comparisonLoop_chain {text : Expr → List Token} {chain : List (BinaryOp × Expr)}
    (hlevel : ∀ link ∈ chain, link.1.level = 3) (h : ∀ link ∈ chain, Fits 4 (text link.2) link.2)
    {fuel : ℕ} {rest : List Token} (hfuel : 16 * (chainText text chain).length ≤ fuel)
    (hrest : Ends 3 rest) (expression previous : Expr) :
    comparisonLoop fuel (some expression) previous (chainText text chain ++ rest) =
      .ok ((adjacent previous chain).foldl (.binary .and) expression, rest) := by
  induction chain generalizing fuel expression previous with
  | nil =>
    have hnone : rest.head?.bind comparisonOp = none := by
      rw [comparisonOp_eq]
      exact operatorAt_of_ends hrest
    exact comparisonLoop_stop hnone
  | cons link chain ih =>
    obtain ⟨operation, next⟩ := link
    obtain ⟨hoperation, hlevels⟩ := List.forall_mem_cons.mp hlevel
    obtain ⟨hnext, hfits⟩ := List.forall_mem_cons.mp h
    dsimp only at hnext hoperation
    have htext : chainText text ((operation, next) :: chain) =
        operation.token :: (text next ++ chainText text chain) := rfl
    rw [htext, List.length_cons, List.length_append] at hfuel
    obtain ⟨fuel, rfl⟩ : ∃ fewer, fuel = fewer + 1 := ⟨fuel - 1, by omega⟩
    have hends : Ends 4 (chainText text chain ++ rest) := by
      cases chain with
      | nil => exact ends_mono (by decide) hrest
      | cons link chain => exact ends_operator (by rw [hlevels link (by simp)]; decide) _
    have hread : additive fuel (text next ++ (chainText text chain ++ rest)) =
        .ok (next, chainText text chain ++ rest) := hnext.reads 4 le_rfl (by omega) hends
    rw [htext, List.cons_append, List.append_assoc, comparisonLoop_succ hoperation, hread]
    exact ih hlevels hfits (by omega) _ _

/-- A chain of comparisons is read as the conjunction of the adjacent ones. -/
theorem readsAt_chain {text : Expr → List Token} {first : Expr} {operation : BinaryOp}
    {second : Expr} {chain : List (BinaryOp × Expr)}
    (hlevel : ∀ link ∈ (operation, second) :: chain, link.1.level = 3)
    (hfirst : Fits 4 (text first) first)
    (h : ∀ link ∈ (operation, second) :: chain, Fits 4 (text link.2) link.2) :
    ReadsAt 3 (text first ++ chainText text ((operation, second) :: chain))
      ((adjacent second chain).foldl (.binary .and) (.binary operation first second)) := by
  obtain ⟨hoperation, hlevels⟩ := List.forall_mem_cons.mp hlevel
  obtain ⟨hsecond, hfits⟩ := List.forall_mem_cons.mp h
  dsimp only at hsecond hoperation
  have htext : chainText text ((operation, second) :: chain) =
      operation.token :: (text second ++ chainText text chain) := rfl
  intro fuel rest hfuel hrest
  rw [htext, List.length_append, List.length_cons, List.length_append] at hfuel
  obtain ⟨fuel, rfl⟩ : ∃ fewer, fuel = fewer + 2 := ⟨fuel - 2, by omega⟩
  have hread : additive (fuel + 1)
      (text first ++ (operation.token :: (text second ++ (chainText text chain ++ rest)))) =
        .ok (first, operation.token :: (text second ++ (chainText text chain ++ rest))) :=
    hfirst.reads 4 le_rfl (by omega : _ ≤ fuel + 1) (ends_operator (by rw [hoperation]; decide) _)
  have hends : Ends 4 (chainText text chain ++ rest) := by
    cases chain with
    | nil => exact ends_mono (by decide) hrest
    | cons link chain => exact ends_operator (by rw [hlevels link (by simp)]; decide) _
  have hread' : additive fuel (text second ++ (chainText text chain ++ rest)) =
      .ok (second, chainText text chain ++ rest) := hsecond.reads 4 le_rfl (by omega) hends
  change comparison (fuel + 2) _ = _
  rw [htext, List.append_assoc, List.cons_append, List.append_assoc, comparison, hread]
  change comparisonLoop (fuel + 1) none first _ = _
  rw [comparisonLoop_succ hoperation, hread']
  exact comparisonLoop_chain hlevels hfits (by omega) hrest _ _

theorem fits_chain {text : Expr → List Token} {first : Expr} {operation : BinaryOp}
    {second : Expr} {chain : List (BinaryOp × Expr)}
    (hlevel : ∀ link ∈ (operation, second) :: chain, link.1.level = 3)
    (hfirst : Fits 4 (text first) first)
    (h : ∀ link ∈ (operation, second) :: chain, Fits 4 (text link.2) link.2) :
    Fits 3 (text first ++ chainText text ((operation, second) :: chain))
      ((adjacent second chain).foldl (.binary .and) (.binary operation first second)) := by
  refine .of_reads (by decide) (by simp [hfirst.ne_nil]) ?_ (readsAt_chain hlevel hfirst h)
    (by simp [IsLoop])
  rw [List.head?_append_of_ne_nil _ hfirst.ne_nil]
  exact fun token htoken ↦ (by decide : 3 ≤ 4).trans_lt (hfirst.starts token htoken)

theorem fits_leftAssoc {operation : BinaryOp} (hlevel : operation.level ≠ 3)
    {text text' : List Token} {tree tree' : Expr} (h : Fits operation.level text tree)
    (h' : Fits (operation.level + 1) text' tree') :
    Fits operation.level (text ++ operation.token :: text') (.binary operation tree tree') := by
  have hloop : IsLoop operation.level := by
    cases operation <;> first | exact absurd rfl hlevel | simp [IsLoop, BinaryOp.level]
  have hstarts : ∀ token ∈ (text ++ operation.token :: text').head?,
      operation.level < token.starts := by
    rw [List.head?_append_of_ne_nil _ h.ne_nil]
    exact h.starts
  refine .of_opens hloop (by simp) hstarts ?_
  have hopens := h.opens operation.level le_rfl hloop
  have hbase : 8 - operation.level = 8 - (operation.level + 1) + 1 := by
    unfold IsLoop at hloop
    omega
  unfold OpensAt at hopens ⊢
  rw [hbase] at hopens ⊢
  exact (leftAssoc hloop).opens_join (by decide) hopens (h'.reads _ le_rfl)
    (operatorAt_token operation) (fun rest ↦ ends_operator (Nat.lt_succ_self _) rest)

/-! ## Whole expressions -/

mutual

theorem fits_render (literal : PointsLiteral) :
    ∀ {e : Expr}, e.InLanguage → Fits e.level (e.render literal) e
  | .number value, _ => fits_number value
  | .duration value, _ => fits_duration value
  | .metric name none, _ => fits_metric name
  | .metric name (some w), h => by
    simp only [Expr.InLanguage, Option.mem_def, Option.some.injEq, forall_eq'] at h
    exact fits_windowed literal name h.2
  | .call name arguments, h => by
    rw [Expr.InLanguage] at h
    refine fits_call literal h.1.2 fun argument hargument ↦ ?_
    exact (fits_renderAll literal h.2 argument hargument).mono (Nat.zero_le _)
  | .unary operation value, h => by
    rw [Expr.InLanguage] at h
    have hlevel : operation.level ≤ 7 := by cases operation <;> decide
    exact fits_unary ((fits_render literal h).operand hlevel)
  | .binary operation left right, h => by
    rw [Expr.InLanguage] at h
    have hleft := fits_render literal h.1
    have hright := fits_render literal h.2
    rw [Expr.render]
    by_cases hlevel : operation.level = 3
    · change Fits operation.level _ _
      rw [BinaryOp.leftLevel, if_pos hlevel, hlevel]
      have hchain : Fits 3 (left.comparand literal ++
          chainText (Expr.comparand literal) [(operation, right)]) _ :=
        fits_chain (by simpa using hlevel) (hleft.operand (by decide))
          (by simpa [Expr.comparand] using hright.operand (by decide))
      simpa [chainText, adjacent, Expr.comparand] using hchain
    · rw [BinaryOp.leftLevel, if_neg hlevel]
      have hle : operation.level + 1 ≤ 7 := by cases operation <;> decide
      exact fits_leftAssoc hlevel (hleft.operand (by omega)) (hright.operand hle)

theorem fits_renderAll (literal : PointsLiteral) :
    ∀ {arguments : List Expr}, Expr.AllInLanguage arguments →
      ∀ argument ∈ arguments, Fits argument.level (argument.render literal) argument
  | [], _ => by simp
  | argument :: rest, h => by
    rw [Expr.AllInLanguage] at h
    exact List.forall_mem_cons.mpr ⟨fits_render literal h.1, fits_renderAll literal h.2⟩

end

/-- What is read as an expression is parsed as it, unless it is too long. -/
theorem parse_of_reads {input : String} {tokens : List Token} {e : Expr}
    (hreads : ReadsAt 0 tokens e) (hlayout : Layout tokens input.toList)
    (hbytes : input.utf8ByteSize ≤ 8192) (hlength : tokens.length < 256) :
    parse input = .ok e := by
  have htokens : Lexer.tokens input = .ok (tokens ++ [.finish]) :=
    hlayout.tokensFrom (by omega) (by omega)
  have hread : orExpression (16 * ((tokens ++ [Token.finish]).length + 1)) (tokens ++ [.finish]) =
      .ok (e, [.finish]) := by
    have hfuel : 16 * tokens.length + 8 ≤ 16 * ((tokens ++ [Token.finish]).length + 1) := by
      rw [List.length_append, List.length_singleton]
      omega
    exact hreads hfuel (@ends_of_continues .finish rfl 0 [])
  have hsmall : reject (input.utf8ByteSize > 8192)
      (TrackerError.invalidInput "alert expression exceeds 8192 bytes") = .ok () :=
    reject_ok.mpr (Nat.not_lt.mpr hbytes)
  unfold parse
  rw [hsmall, htokens]
  change (orExpression (16 * ((tokens ++ [Token.finish]).length + 1)) (tokens ++ [.finish]) >>=
    _) = _
  rw [hread]
  rfl

end Parser

end Rvx.Tracking
