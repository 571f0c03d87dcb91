import Rvx.Core.Protocol
import Rvx.Lib.OrderedMap

/-!
# Artifact records

The records a tracker state lists under `artifacts`.  A record is decoded from an object without
unknown members or, as every struct is, from an array of its fields in order; then it is validated.
-/

namespace Rvx.Core

inductive ArtifactAction where
  | log
  | use
deriving DecidableEq

structure ArtifactRecord where
  recordVersion : ℕ
  action : ArtifactAction
  name : String
  kind : String
  digest : String
  size : ℕ
  uri : String
  aliases : List String
  metadata : Value

namespace ArtifactAction

def text : ArtifactAction → String
  | .log => "log"
  | .use => "use"

def decode (value : Value) : Option ArtifactAction :=
  match value.asVariant with
  | some "log" => some .log
  | some "use" => some .use
  | _ => none

end ArtifactAction

namespace ArtifactRecord

def fieldNames : List String :=
  ["record_version", "action", "name", "type", "digest", "size", "uri", "aliases", "metadata"]

/-- The values of the fields in declaration order; `none` is an absent field. -/
def fields (value : Value) : Option (List (Option Value)) :=
  match value with
  | .object entries =>
    if entries.all fun entry ↦ entry.1 ∈ fieldNames then some (fieldNames.map value.get?) else none
  | .array items =>
    if items.length ≤ fieldNames.length then
      some ((List.range fieldNames.length).map fun index ↦ items[index]?)
    else none
  | _ => none

/-- `serde_json::from_value::<ArtifactRecord>`. -/
def decode (value : Value) : Option ArtifactRecord :=
  match fields value with
  | some [recordVersion, action, name, kind, digest, size, uri, aliases, metadata] => do
    let recordVersion ← recordVersion.elim (some 1) Value.asU32
    let action ← ArtifactAction.decode (← action)
    let name ← (← name).asText
    let kind ← (← kind).asText
    let digest ← (← digest).asText
    let size ← (← size).asU64
    let uri ← (← uri).asText
    let aliases ← aliases.elim (some []) Value.asTexts
    return { recordVersion, action, name, kind, digest, size, uri, aliases,
             metadata := metadata.getD .null }
  | _ => none

/-- A nonblank text of at most 4096 bytes without NUL. -/
def validText (text : String) : Bool :=
  !isBlank text && text.utf8ByteSize ≤ 4096 && !text.toList.contains (Char.ofNat 0)

def validate (record : ArtifactRecord) : Except ProtocolError Unit :=
  if record.recordVersion ≠ 1 ∨ ¬ validText record.name ∨ ¬ validText record.kind ∨
      ¬ validText record.digest ∨ ¬ validText record.uri ∨ record.aliases.length > 256 ∨
      (record.aliases.any fun text ↦ !validText text) ∨
      (OrderedSet.ofList record.aliases).size ≠ record.aliases.length ∨
      ¬ (record.metadata.isObject ∨ record.metadata.isNull) then
    .error (.invalidSnapshot "invalid artifact version, identity, aliases or metadata")
  else .ok ()

/-- `serde_json::to_string(&record)`. -/
def encode (record : ArtifactRecord) : String :=
  String.ofList (printObject
    [member "record_version" (printNat record.recordVersion),
     member "action" (quote record.action.text), member "name" (quote record.name),
     member "type" (quote record.kind), member "digest" (quote record.digest),
     member "size" (printNat record.size), member "uri" (quote record.uri),
     member "aliases" (printArray (record.aliases.map quote)),
     member "metadata" record.metadata.print])

/-- The aliases of a valid record are pairwise distinct. -/
theorem aliases_nodup {record : ArtifactRecord} (h : record.validate = .ok ()) :
    record.aliases.Nodup := by
  have hsize : (OrderedSet.ofList record.aliases).size = record.aliases.length := by
    unfold validate at h
    split at h
    · simp at h
    · rename_i hvalid
      simp only [not_or, not_not] at hvalid
      exact hvalid.2.2.2.2.2.2.2.1
  have hkeys : (OrderedSet.ofList record.aliases).keys.Perm record.aliases.dedup := by
    rw [List.perm_ext_iff_of_nodup (OrderedMap.nodup_keys _) (List.nodup_dedup _)]
    intro text
    rw [List.mem_dedup]
    exact OrderedSet.mem_ofList
  have hlength := hkeys.length_eq
  rw [OrderedMap.length_keys, hsize] at hlength
  have hdedup : record.aliases.dedup = record.aliases :=
    (List.dedup_sublist record.aliases).eq_of_length hlength.symm
  exact List.dedup_eq_self.mp hdedup

end ArtifactRecord

end Rvx.Core
