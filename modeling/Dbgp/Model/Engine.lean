import Dbgp.Packet

/-!
# What an engine says about itself

Its status, as `StatusInfo`, and the values of its features, as `FeatureValue`.
-/

namespace Dbgp

/-- What the engine is doing and why: an answer to `status`, `run` and the like. -/
structure StatusInfo where
  status : EngineStatus
  reason : StatusReason
  deriving DecidableEq, Repr, Inhabited

namespace StatusInfo

/-- Reads the `status` from a response. Without a `reason` all is well. -/
def ofResponse (r : Response) : Except Error StatusInfo :=
  match r.root.attr? "status" with
  | none => .error (.protocol (.noStatus r.command))
  | some word => do
    let status ← readWord EngineStatus word
    let reason ← r.root.word? StatusReason "reason"
    return ⟨status, reason.getD .fine⟩

/-- A status as JSON, by the words of its `Vocabulary`. -/
def toJson (s : StatusInfo) : Json :=
  .object [("status", .ofWord s.status), ("reason", .ofWord s.reason)]

/-- Reads a `StatusInfo` from JSON. -/
def ofJson : Json.Reader StatusInfo :=
  Json.Fields.record "StatusInfo"
    (StatusInfo.mk
      <$> .required "status" (Json.Reader.word EngineStatus)
      <*> .required "reason" (Json.Reader.word StatusReason))

end StatusInfo

/-- A feature of the engine, as the answer to `feature_get` tells it. -/
structure FeatureValue where
  name : String
  supported : Bool
  value : String
  deriving DecidableEq, Repr, Inhabited

namespace FeatureValue

/-- Reads the feature that was asked for from a response; `feature_name` there goes before the name
that was asked. -/
def ofResponse (asked : String) (r : Response) : FeatureValue :=
  ⟨(r.root.attr? "feature_name").getD asked, r.root.flag "supported", Text.trim r.root.text⟩

/-- A feature as JSON, with every field of `FeatureValue`. -/
def toJson (f : FeatureValue) : Json :=
  .object [("name", .str f.name), ("supported", .bool f.supported), ("value", .str f.value)]

/-- Reads a `FeatureValue` from JSON. -/
def ofJson : Json.Reader FeatureValue :=
  Json.Fields.record "FeatureValue"
    (FeatureValue.mk
      <$> .required "name" Json.Reader.text
      <*> .required "supported" Json.Reader.bool
      <*> .required "value" Json.Reader.text)

end FeatureValue

end Dbgp
