import Dbgp.Packet

/-!
# Stack frames

The frames of the debuggee, each a `StackFrame`, with the innermost at level 0.
-/

namespace Dbgp

open Xml (Element)

/-- A frame of the stack, as an element `stack` describes it. -/
structure StackFrame where
  level : UInt32
  kind : String
  file : String
  line : UInt32
  location : Option String
  commandBegin : Option String
  commandEnd : Option String
  deriving DecidableEq, Repr, Inhabited

namespace StackFrame

/-- Reads a frame, which has to have a `level`; the other attributes may be left out. -/
def ofElement (e : Element) : Except Error StackFrame := do
  match ← e.word32? "level" with
  | none => .error (.protocol .frameWithoutLevel)
  | some level =>
    let line ← e.word32? "lineno"
    return ⟨level, (e.attr? "type").getD "file", (e.attr? "filename").getD "", line.getD 0,
      e.attr? "where", e.attr? "cmdbegin", e.attr? "cmdend"⟩

/-- The frames that a response lists and that can be read, by `level`; frames of one level stay in
order. -/
def ofResponse (r : Response) : List StackFrame :=
  ((r.root.childrenNamed "stack").filterMap fun e => (ofElement e).toOption).mergeSort
    fun a b => a.level ≤ b.level

/-- A frame as JSON, with every field of `StackFrame`. -/
def toJson (f : StackFrame) : Json :=
  .object
    [("level", .nat f.level.toNat), ("frame_type", .str f.kind), ("filename", .str f.file),
     ("line_number", .nat f.line.toNat), ("location", .optionStr f.location),
     ("cmd_begin", .optionStr f.commandBegin), ("cmd_end", .optionStr f.commandEnd)]

/-- The fields of a frame, in the order of `toJson`. -/
def fields : Json.Fields StackFrame :=
  StackFrame.mk
    <$> .required "level" Json.Reader.word32
    <*> .required "frame_type" Json.Reader.text
    <*> .required "filename" Json.Reader.text
    <*> .required "line_number" Json.Reader.word32
    <*> .optional "location" Json.Reader.text
    <*> .optional "cmd_begin" Json.Reader.text
    <*> .optional "cmd_end" Json.Reader.text

/-- Reads a `StackFrame` from JSON. -/
def ofJson : Json.Reader StackFrame :=
  fields.record "StackLevel"

end StackFrame

end Dbgp
