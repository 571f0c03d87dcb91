import Rvx.Core.SnapshotText

/-!
# The JSON library

What the store uses of the JSON library besides its encoder.  The encoder is injective, so a
decoder that undoes it exists.
-/

namespace Rvx.Engine

open Core

structure Serde where
  /-- `serde_json::from_str::<StateSnapshot>`. -/
  snapshot : String → Option StateSnapshot
  /-- `serde_json::from_str::<Vec<String>>`. -/
  paths : String → Option (List String)
  /-- The error of `serde_json::from_value::<ArtifactRecord>`. -/
  artifactMessage : Value → String

namespace Serde

/-- Decoding undoes encoding, for snapshots that can be stored. -/
def RoundTrip (serde : Serde) : Prop :=
  ∀ snapshot : StateSnapshot, snapshot.Valid → serde.snapshot snapshot.encode = some snapshot

/-- Whether a stored text is the text of an observation. -/
def isObservation (serde : Serde) (text : String) : Bool :=
  (serde.snapshot text).any fun snapshot ↦ !snapshot.isEvent

open Classical in
/-- The inverse of the encoder; the listed snapshots are found by evaluation. -/
noncomputable def inverse (listed : List StateSnapshot) : Serde where
  snapshot text :=
    (listed.find? fun snapshot ↦ snapshot.encode = text).or
      (if h : ∃ snapshot : StateSnapshot, snapshot.encode = text then some h.choose else none)
  paths _ := none
  artifactMessage _ := "invalid artifact record"

theorem inverse_roundTrip (listed : List StateSnapshot) : (inverse listed).RoundTrip := by
  intro snapshot _
  have hexists : ∃ other : StateSnapshot, other.encode = snapshot.encode := ⟨snapshot, rfl⟩
  have hchoose : hexists.choose = snapshot :=
    StateSnapshot.encode_injective hexists.choose_spec
  unfold inverse
  dsimp only
  rw [dif_pos hexists, hchoose]
  cases hfind : listed.find? fun other ↦ other.encode = snapshot.encode with
  | none => rfl
  | some other =>
    have hencode : other.encode = snapshot.encode := by simpa using List.find?_some hfind
    rw [StateSnapshot.encode_injective hencode]
    rfl

end Serde

end Rvx.Engine
