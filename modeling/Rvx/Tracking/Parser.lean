import Rvx.Tracking.Expression

/-!
# Parsing alert expressions

The lexer reads one token after another off the input and the parser is a recursive descent over
the tokens that are left; the end of the input is a token of its own.  Both run on fuel that every
call spends and no input exhausts.
-/

namespace Rvx.Tracking

open Core Check

inductive Token where
  | number (value : Float)
  | duration (value : ℤ)
  | ident (name : String)
  | lParen
  | rParen
  | lBracket
  | rBracket
  | comma
  | plus
  | minus
  | star
  | slash
  | percent
  | eq
  | ne
  | lt
  | le
  | gt
  | ge
  | and
  | or
  | not
  | finish
deriving DecidableEq

/-! ## The lexer -/

namespace Lexer

def isAsciiAlphabetic (c : Char) : Bool :=
  ('a' ≤ c && c ≤ 'z') || ('A' ≤ c && c ≤ 'Z')

def isIdentStart (c : Char) : Bool := isAsciiAlphabetic c || c = '_'

def isIdentContinue (c : Char) : Bool :=
  isAsciiAlphabetic c || c.isDigit || c ∈ ['_', '.', '/', '@']

/-- Split a number token off: digits and points, and one exponent with its sign. -/
def numberChars (exponent signAllowed : Bool) : List Char → List Char × List Char
  | [] => ([], [])
  | c :: rest =>
    if (signAllowed && (c = '+' || c = '-')) || c.isDigit || c = '.' then
      let (taken, left) := numberChars exponent false rest
      (c :: taken, left)
    else if (c = 'e' || c = 'E') && !exponent then
      let (taken, left) := numberChars true true rest
      (c :: taken, left)
    else ([], c :: rest)

/-- The value of decimal digits. -/
def digitsNat (digits : List Char) : ℕ := digits.foldl (fun n c ↦ 10 * n + (c.toNat - 48)) 0

/-- An exponent: its sign and its digits to the end of the token. -/
def parseExponent (chars : List Char) : Option ℤ :=
  let (negative, digits) := match chars with
    | '-' :: rest => (true, rest)
    | '+' :: rest => (false, rest)
    | _ => (false, chars)
  if digits ≠ [] ∧ digits.all Char.isDigit then
    some (if negative then -(digitsNat digits : ℤ) else digitsNat digits)
  else none

/-- `text.parse::<f64>()` of an unsigned decimal. -/
def parseFloat (chars : List Char) : Option Float := do
  let integer := chars.takeWhile Char.isDigit
  let (fraction, left) := match chars.dropWhile Char.isDigit with
    | '.' :: rest => (rest.takeWhile Char.isDigit, rest.dropWhile Char.isDigit)
    | rest => ([], rest)
  let exponent ← match left with
    | [] => some 0
    | c :: rest => if c = 'e' || c = 'E' then parseExponent rest else none
  if integer ++ fraction = [] then none
  else
    let exponent := exponent - fraction.length
    some (Float.ofScientific (digitsNat (integer ++ fraction)) (exponent < 0) exponent.natAbs)

/-- Nanoseconds in a unit. -/
def multiplier (unit : String) : Option Float :=
  match unit with
  | "ns" => some 1.0
  | "us" => some 1000.0
  | "ms" => some 1000000.0
  | "s" => some 1000000000.0
  | "m" => some (60.0 * 1000000000.0)
  | "h" => some (3600.0 * 1000000000.0)
  | "d" => some (86400.0 * 1000000000.0)
  | _ => none

def number (input : List Char) : Except TrackerError (Token × List Char) := do
  let (text, rest) := numberChars false false input
  match parseFloat text with
  | none => throw (.invalidInput "invalid alert number")
  | some number =>
    reject (number.isFinite = false) (.invalidInput "alert number must be finite")
    let unit := rest.takeWhile isAsciiAlphabetic
    let rest := rest.dropWhile isAsciiAlphabetic
    if unit = [] then return (.number number, rest)
    match multiplier (String.ofList unit) with
    | none => throw (.unknownUnit (String.ofList unit))
    | some multiplier =>
      reject (number * multiplier > Float.ofInt (2 ^ 63 - 1))
        (.invalidInput "alert duration overflows i64")
      return (.duration (Double.toI64 (number * multiplier)), rest)

def quoted (quote : Char) (input : List Char) : Except TrackerError (Token × List Char) :=
  match input.dropWhile (· ≠ quote) with
  | [] => .error (.invalidInput "unterminated quoted metric name")
  | _ :: rest => .ok (.ident (String.ofList (input.takeWhile (· ≠ quote))), rest)

def identifier (input : List Char) : Token × List Char :=
  let name := String.ofList (input.takeWhile isIdentContinue)
  let token := match asciiLower name with
    | "and" => .and
    | "or" => .or
    | "not" => .not
    | _ => .ident name
  (token, input.dropWhile isIdentContinue)

/-- The tokens of one or two punctuation characters. -/
def punctuation (input : List Char) : Option (Token × List Char) :=
  match input with
  | '(' :: rest => some (.lParen, rest)
  | ')' :: rest => some (.rParen, rest)
  | '[' :: rest => some (.lBracket, rest)
  | ']' :: rest => some (.rBracket, rest)
  | ',' :: rest => some (.comma, rest)
  | '+' :: rest => some (.plus, rest)
  | '-' :: rest => some (.minus, rest)
  | '*' :: rest => some (.star, rest)
  | '/' :: rest => some (.slash, rest)
  | '%' :: rest => some (.percent, rest)
  | '!' :: '=' :: rest => some (.ne, rest)
  | '!' :: rest => some (.not, rest)
  | '=' :: '=' :: rest => some (.eq, rest)
  | '<' :: '=' :: rest => some (.le, rest)
  | '<' :: rest => some (.lt, rest)
  | '>' :: '=' :: rest => some (.ge, rest)
  | '>' :: rest => some (.gt, rest)
  | '&' :: '&' :: rest => some (.and, rest)
  | '&' :: rest => some (.and, rest)
  | '|' :: '|' :: rest => some (.or, rest)
  | '|' :: rest => some (.or, rest)
  | _ => none

def nextToken (input : List Char) : Except TrackerError (Token × List Char) :=
  match input.dropWhile isWhitespace with
  | [] => .ok (.finish, [])
  | c :: rest =>
    if c.isDigit || (c = '.' && rest.head?.any Char.isDigit) then number (c :: rest)
    else if c = '"' || c = '\'' || c = Char.ofNat 0x60 then quoted c rest
    else if isIdentStart c then .ok (identifier (c :: rest))
    else
      match punctuation (c :: rest) with
      | some result => .ok result
      | none => .error (.unexpectedCharacter c)

/-- The tokens of the input after the `count` tokens read before. -/
def tokensFrom : (fuel count : ℕ) → List Char → Except TrackerError (List Token)
  | 0, _, _ => .error (.invalidInput "alert expression exceeds 256 tokens")
  | fuel + 1, count, input => do
    let (token, rest) ← nextToken input
    reject (count + 1 > 256) (.invalidInput "alert expression exceeds 256 tokens")
    if token = .finish then return [token]
    let tokens ← tokensFrom fuel (count + 1) rest
    return token :: tokens

/-- No more than 256 tokens are read, so the fuel is never exhausted. -/
def tokens (input : String) : Except TrackerError (List Token) := tokensFrom 257 0 input.toList

end Lexer

/-! ## The parser -/

namespace Parser

abbrev Result : Type := Except TrackerError (Expr × List Token)

/-- The token a failed `take` compares with. -/
def expect (token : Token) (tokens : List Token) : Except TrackerError (List Token) :=
  match tokens with
  | first :: rest => if first = token then .ok rest else .error .unexpectedToken
  | [] => .error .unexpectedToken

def comparisonOp : Token → Option BinaryOp
  | .eq => some .eq
  | .ne => some .ne
  | .lt => some .lt
  | .le => some .le
  | .gt => some .gt
  | .ge => some .ge
  | _ => none

def additiveOp : Token → Option BinaryOp
  | .plus => some .add
  | .minus => some .sub
  | _ => none

def termOp : Token → Option BinaryOp
  | .star => some .mul
  | .slash => some .div
  | .percent => some .mod
  | _ => none

def window (tokens : List Token) : Except TrackerError (Window × List Token) :=
  match tokens with
  | .number value :: rest =>
    if 1.0 ≤ value ∧ Double.rem value 1.0 == 0.0 then .ok (.points value.toUInt64.toNat, rest)
    else .error (.invalidInput "metric window must be a positive integer or duration")
  | .duration value :: rest =>
    if 0 < value then .ok (.duration value, rest)
    else .error (.invalidInput "metric window must be a positive integer or duration")
  | _ => .error (.invalidInput "metric window must be a positive integer or duration")

/-- A window after a primary expression. -/
def withWindow (expression : Expr) (tokens : List Token) : Result :=
  match tokens with
  | .lBracket :: rest => do
    let (window, rest) ← window rest
    let rest ← expect .rBracket rest
    match expression with
    | .metric name _ => return (.metric name (some window), rest)
    | _ => throw (.invalidInput "windows may only follow metric names")
  | _ => .ok (expression, tokens)

mutual

def orExpression : ℕ → List Token → Result
  | 0, _ => .error .unexpectedToken
  | fuel + 1, tokens => do
    let (expression, tokens) ← andExpression fuel tokens
    orLoop fuel expression tokens

def orLoop : ℕ → Expr → List Token → Result
  | fuel + 1, expression, .or :: tokens => do
    let (right, tokens) ← andExpression fuel tokens
    orLoop fuel (.binary .or expression right) tokens
  | 0, _, .or :: _ => .error .unexpectedToken
  | _, expression, tokens => .ok (expression, tokens)

def andExpression : ℕ → List Token → Result
  | 0, _ => .error .unexpectedToken
  | fuel + 1, tokens => do
    let (expression, tokens) ← notExpression fuel tokens
    andLoop fuel expression tokens

def andLoop : ℕ → Expr → List Token → Result
  | fuel + 1, expression, .and :: tokens => do
    let (right, tokens) ← notExpression fuel tokens
    andLoop fuel (.binary .and expression right) tokens
  | 0, _, .and :: _ => .error .unexpectedToken
  | _, expression, tokens => .ok (expression, tokens)

def notExpression : ℕ → List Token → Result
  | 0, _ => .error .unexpectedToken
  | fuel + 1, .not :: tokens => do
    let (expression, tokens) ← notExpression fuel tokens
    return (.unary .not expression, tokens)
  | fuel + 1, tokens => comparison fuel tokens

def comparison : ℕ → List Token → Result
  | 0, _ => .error .unexpectedToken
  | fuel + 1, tokens => do
    let (previous, tokens) ← additive fuel tokens
    comparisonLoop fuel none previous tokens

/-- Adjacent comparisons are joined by `and`. -/
def comparisonLoop : ℕ → Option Expr → Expr → List Token → Result
  | fuel, expression, previous, tokens =>
    match tokens.head?.bind comparisonOp, fuel with
    | none, _ => .ok (expression.getD previous, tokens)
    | some _, 0 => .error .unexpectedToken
    | some operation, fuel + 1 => do
      let (right, tokens) ← additive fuel tokens.tail
      let comparison := Expr.binary operation previous right
      let expression := expression.elim comparison fun expression ↦
        .binary .and expression comparison
      comparisonLoop fuel (some expression) right tokens

def additive : ℕ → List Token → Result
  | 0, _ => .error .unexpectedToken
  | fuel + 1, tokens => do
    let (expression, tokens) ← term fuel tokens
    additiveLoop fuel expression tokens

def additiveLoop : ℕ → Expr → List Token → Result
  | fuel, expression, tokens =>
    match tokens.head?.bind additiveOp, fuel with
    | none, _ => .ok (expression, tokens)
    | some _, 0 => .error .unexpectedToken
    | some operation, fuel + 1 => do
      let (right, tokens) ← term fuel tokens.tail
      additiveLoop fuel (.binary operation expression right) tokens

def term : ℕ → List Token → Result
  | 0, _ => .error .unexpectedToken
  | fuel + 1, tokens => do
    let (expression, tokens) ← unary fuel tokens
    termLoop fuel expression tokens

def termLoop : ℕ → Expr → List Token → Result
  | fuel, expression, tokens =>
    match tokens.head?.bind termOp, fuel with
    | none, _ => .ok (expression, tokens)
    | some _, 0 => .error .unexpectedToken
    | some operation, fuel + 1 => do
      let (right, tokens) ← unary fuel tokens.tail
      termLoop fuel (.binary operation expression right) tokens

def unary : ℕ → List Token → Result
  | 0, _ => .error .unexpectedToken
  | fuel + 1, .minus :: tokens => do
    let (expression, tokens) ← unary fuel tokens
    return (.unary .neg expression, tokens)
  | fuel + 1, .plus :: tokens => do
    let (expression, tokens) ← unary fuel tokens
    return (.unary .pos expression, tokens)
  | fuel + 1, tokens => do
    let (expression, tokens) ← primary fuel tokens
    withWindow expression tokens

/-- A primary expression without the window that may follow it. -/
def primary : ℕ → List Token → Result
  | 0, _ => .error .unexpectedToken
  | _ + 1, .number value :: tokens => .ok (.number value, tokens)
  | _ + 1, .duration value :: tokens => .ok (.duration value, tokens)
  | _ + 1, .ident name :: .lParen :: .rParen :: tokens => .ok (.call (asciiLower name) [], tokens)
  | fuel + 1, .ident name :: .lParen :: tokens => do
    let (arguments, tokens) ← callArguments fuel tokens
    return (.call (asciiLower name) arguments, tokens)
  | _ + 1, .ident name :: tokens => .ok (.metric name none, tokens)
  | fuel + 1, .lParen :: tokens => do
    let (expression, tokens) ← orExpression fuel tokens
    let tokens ← expect .rParen tokens
    return (expression, tokens)
  | _ + 1, _ => .error .unexpectedToken

/-- The arguments of a call up to its closing parenthesis. -/
def callArguments : ℕ → List Token → Except TrackerError (List Expr × List Token)
  | 0, _ => .error .unexpectedToken
  | fuel + 1, tokens => do
    let (argument, tokens) ← orExpression fuel tokens
    match tokens with
    | .rParen :: tokens => return ([argument], tokens)
    | _ =>
      let tokens ← expect .comma tokens
      let (arguments, tokens) ← callArguments fuel tokens
      return (argument :: arguments, tokens)

end

/-- `Parser::parse`.  At most nine calls pass between two tokens. -/
def parse (input : String) : Except TrackerError Expr := do
  reject (input.utf8ByteSize > 8192) (.invalidInput "alert expression exceeds 8192 bytes")
  let tokens ← Lexer.tokens input
  let (expression, rest) ← orExpression (16 * (tokens.length + 1)) tokens
  reject (rest.head?.any (· ≠ .finish)) (.invalidInput "unexpected trailing alert expression input")
  return expression

end Parser

end Rvx.Tracking
