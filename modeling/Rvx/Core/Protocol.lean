import Rvx.Core.JsonText

/-!
# Protocol errors and names

The errors every validation reports, the constants the protocol fixes and the checks on
identifiers.
-/

namespace Rvx.Core

def PROTOCOL_VERSION : ℕ := 1

def MAX_SNAPSHOT_AXES : ℕ := 64

/-- `i64::MAX`. -/
def I64_MAX : ℕ := 2 ^ 63 - 1

inductive ProtocolError where
  | empty (field : String)
  | unsupportedVersion (version : ℕ)
  | tooManyAxes
  | sessionMismatch
  | nonIncreasingSequence
  | invalidNextSequence
  | invalidSnapshot (reason : String)
  /-- `InvalidSnapshot("invalid tracker header: ...")` with the JSON library's own reason. -/
  | invalidTrackerHeader
deriving DecidableEq

/-- The displayed error, with the JSON library's reason left out. -/
def ProtocolError.message : ProtocolError → String
  | .empty field => field ++ " must not be empty"
  | .unsupportedVersion version => "unsupported protocol version " ++ toString version
  | .tooManyAxes => "snapshot contains too many logical axes"
  | .sessionMismatch => "snapshot session does not match the response session"
  | .nonIncreasingSequence => "snapshot sequence must be strictly increasing within a batch"
  | .invalidNextSequence => "next_sequence must be greater than every returned sequence"
  | .invalidSnapshot reason => "invalid snapshot: " ++ reason
  | .invalidTrackerHeader => "invalid snapshot: invalid tracker header"

/-- The `Unicode White_Space` characters `str::trim` removes. -/
def isWhitespace (c : Char) : Bool :=
  let code := c.toNat
  (0x09 ≤ code && code ≤ 0x0d) || code = 0x20 || code = 0x85 || code = 0xa0 || code = 0x1680 ||
    (0x2000 ≤ code && code ≤ 0x200a) || code = 0x2028 || code = 0x2029 || code = 0x202f ||
    code = 0x205f || code = 0x3000

/-- `text.trim().is_empty()`. -/
def isBlank (text : String) : Bool := text.toList.all isWhitespace

def validateName (field value : String) : Except ProtocolError Unit :=
  if isBlank value then .error (.empty field) else .ok ()

@[simp]
theorem validateName_ok {field value : String} {result : Unit} :
    validateName field value = .ok result ↔ isBlank value = false := by
  unfold validateName
  cases isBlank value <;> simp

/-! ## Decoding scalars -/

namespace Value

/-- A `String` field. -/
def asText : Value → Option String
  | .string text => some text
  | _ => none

/-- A `u64` field. -/
def asU64 (value : Value) : Option ℕ := value.asNumber?.bind Number.asU64

/-- A `u32` field. -/
def asU32 (value : Value) : Option ℕ := value.asU64.filter (· < 2 ^ 32)

/-- A `Vec<String>` field. -/
def asTexts : Value → Option (List String)
  | .array items => items.mapM asText
  | _ => none

/-- The name of a variant without fields: the name itself, or an object that maps it to null. -/
def asVariant : Value → Option String
  | .string name => some name
  | .object [(name, .null)] => some name
  | _ => none

end Value

end Rvx.Core
