import Dbgp.Json.Value
import Dbgp.Text.Numeral
import Dbgp.Text.Quoted
import Dbgp.Vocabulary

/-!
# Reading typed values from JSON

A `Reader` turns a JSON value into a value of some type or says why it cannot. Records are described
by `Fields`, an applicative description of their fields in order of declaration, and can be written
in two ways. As an object: members with other keys are ignored, faults are reported for the smallest
key first, and only then missing fields in order of declaration. As a list of the fields in order of
declaration: there every field that has no default must be present.
-/

namespace Dbgp.Json

/-- Why a value could not be read, as a `Reader` reports it. -/
inductive Fault where
  | missing (field : String)
  | kind (got : Json) (wanted : String)
  | range (got : Int) (wanted : String)
  | singleKey
  | unknownVariant (got : String) (known : List String)
  | tooShort (got : Nat) (record : String) (count : Nat)
  | tooLong (got : Nat)
  deriving Repr

/-- A value as `Fault.message` names it. -/
def shape : Json → String
  | .null => "null"
  | .bool true => "boolean `true`"
  | .bool false => "boolean `false`"
  | .int n => "integer `" ++ Text.Numeral.writeInt n ++ "`"
  | .double x => "floating point `" ++ x.positional ++ "`"
  | .str s => "string " ++ Text.Quoted.write s
  | .arr _ => "sequence"
  | .obj _ => "map"

/-- A word in the quotes of `Fault.message`. -/
def tick (s : String) : String :=
  "`" ++ s ++ "`"

/-- The words that `Fault.message` offers: both of two, otherwise a list. -/
def choices : List String → String
  | [a] => tick a
  | [a, b] => tick a ++ " or " ++ tick b
  | ws => "one of " ++ ", ".intercalate (ws.map tick)

/-- A fault in words, as `Action.unfit` tells a caller. -/
def Fault.message : Fault → String
  | .missing field => "missing field " ++ tick field
  | .kind got wanted => "invalid type: " ++ got.shape ++ ", expected " ++ wanted
  | .range got wanted => "invalid value: " ++ (Json.int got).shape ++ ", expected " ++ wanted
  | .singleKey => "invalid value: map, expected map with a single key"
  | .unknownVariant got known => "unknown variant " ++ tick got ++ ", expected " ++ choices known
  | .tooShort got record count =>
    s!"invalid length {got}, expected struct {record} with {count} " ++
      (if count = 1 then "element" else "elements")
  | .tooLong got => s!"invalid length {got}, expected fewer elements in array"

/-- Turns a `Json` value into a value of a type. -/
abbrev Reader (α : Type) := Json → Except Fault α

namespace Reader

/-! ## Simple values -/

/-- Any value, as it is. -/
def any : Reader Json := .ok

/-- A text, which has to be a `str`. -/
def text : Reader String
  | .str s => .ok s
  | v => .error (.kind v "a string")

/-- A truth value, which has to be a `bool`. -/
def bool : Reader Bool
  | .bool b => .ok b
  | v => .error (.kind v "a boolean")

/-- An integer from `low` up to, but not including, `high`. -/
def integer (wanted : String) (low high : Int) : Reader Int
  | .int n => if low ≤ n ∧ n < high then .ok n else .error (.range n wanted)
  | v => .error (.kind v wanted)

/-- An unsigned word of 32 bits, as `UInt32`. -/
def word32 : Reader UInt32 := fun v =>
  (fun n => UInt32.ofNat n.toNat) <$> integer "u32" 0 UInt32.size v

/-- An unsigned word of 64 bits, as `UInt64`. -/
def word64 : Reader UInt64 := fun v =>
  (fun n => UInt64.ofNat n.toNat) <$> integer "u64" 0 UInt64.size v

/-- A size, which is read like `word64` but called otherwise in faults. -/
def size : Reader UInt64 := fun v =>
  (fun n => UInt64.ofNat n.toNat) <$> integer "usize" 0 UInt64.size v

/-- A signed word of 32 bits, as `Int32`. -/
def signed32 : Reader Int32 := fun v =>
  Int32.ofInt <$> integer "i32" (-2147483648) 2147483648 v

/-- A list, whose items `item` reads from first to last. -/
def list (item : Reader α) : Reader (List α)
  | .arr items => items.mapM item
  | v => .error (.kind v "a sequence")

/-- A value that may be `null`, and otherwise is read by `item`. -/
def nullable (item : Reader α) : Reader (Option α)
  | .null => .ok none
  | v => some <$> item v

/-! ## Words -/

/-- The value of a word, by `Vocabulary.find?`. -/
def variant (α : Type) [Vocabulary α] (s : String) : Except Fault α :=
  match Vocabulary.find? s with
  | some a => .ok a
  | none => .error (.unknownVariant s (Vocabulary.words α))

/-- A word of a `Vocabulary`, or an object with that word as its only key and null as its value. -/
def word (α : Type) [Vocabulary α] : Reader α
  | .str s => variant α s
  | .obj [(s, payload)] => do
    let a ← variant α s
    match payload with
    | .null => .ok a
    | v => .error (.kind v "unit")
  | .obj _ => .error .singleKey
  | v => .error (.kind v "string or map")

end Reader

/-- The word of a value, as `Reader.word` reads it back. -/
def ofWord [Vocabulary α] (a : α) : Json :=
  .str (Vocabulary.word a)

/-! ## Records -/

/-- What is wrong with the fields of a record: `faults` of those that are there, and the names of
those that are `missing` but have to be there, both in order of declaration. -/
structure Failure where
  faults : List (String × Fault)
  missing : List String

namespace Failure

/-- The fault of the smallest key; `report` puts it before all others. -/
def leastFault? : List (String × Fault) → Option (String × Fault)
  | [] => none
  | f :: rest =>
    match leastFault? rest with
    | none => some f
    | some g => if g.1 < f.1 then some g else some f

/-- The fault to report for a record written as an object: `leastFault?`, or else the first field that
is `missing`. -/
def report (record : String) (e : Failure) : Fault :=
  match leastFault? e.faults, e.missing with
  | some (_, f), _ => f
  | none, field :: _ => .missing field
  | none, [] => .missing record

end Failure

/-- A description of the fields of a record: their names as `declared`, with whether they have a
default, and how to build the record from the values that are given for them. -/
structure Fields (α : Type) where
  declared : List (String × Bool)
  read : (String → Option Json) → Except Failure α

namespace Fields

/-- A field that has to be given; `Failure.missing` names it otherwise. -/
def required (name : String) (reader : Reader α) : Fields α where
  declared := [(name, false)]
  read given :=
    match given name with
    | none => .error ⟨[], [name]⟩
    | some v =>
      match reader v with
      | .ok a => .ok a
      | .error f => .error ⟨[(name, f)], []⟩

/-- A field with a default `value` for when it is not given. -/
def default (name : String) (value : α) (reader : Reader α) : Fields α where
  declared := [(name, true)]
  read given :=
    match given name with
    | none => .ok value
    | some v =>
      match reader v with
      | .ok a => .ok a
      | .error f => .error ⟨[(name, f)], []⟩

/-- A field that may be left out or `null` in an object; in a list it has to have its place. -/
def optional (name : String) (reader : Reader α) : Fields (Option α) :=
  { default name none (Reader.nullable reader) with declared := [(name, false)] }

/-- The next field applied to the fields before it; what is wrong on both sides is kept in
`Failure`. -/
protected def seq (f : Fields (α → β)) (a : Fields α) : Fields β where
  declared := f.declared ++ a.declared
  read given :=
    match f.read given, a.read given with
    | .ok f, .ok a => .ok (f a)
    | .ok _, .error e => .error e
    | .error e, .ok _ => .error e
    | .error e, .error e' => .error ⟨e.faults ++ e'.faults, e.missing ++ e'.missing⟩

instance : Applicative Fields where
  pure a := ⟨[], fun _ => .ok a⟩
  seq f a := f.seq (a ())

/-- What the `items` of a list give for the field of a name: the item at the place where the field is
declared. -/
def positional (items : List Json) (declared : List (String × Bool)) (name : String) :
    Option Json :=
  ((declared.zip items).find? fun p => p.1.1 = name).map (·.2)

/-- A record with a `name` for messages, written as an object or as a list. -/
def record (name : String) (fields : Fields α) : Reader α
  | .obj members =>
    match fields.read fun key => lookup key members with
    | .ok a => .ok a
    | .error e => .error (e.report name)
  | .arr items =>
    let short := (fields.declared.drop items.length).any fun d => !d.2
    match fields.read (positional items fields.declared) with
    | .error ⟨(_, f) :: _, _⟩ => .error f
    | .error _ => .error (.tooShort items.length name fields.declared.length)
    | .ok a =>
      if short then .error (.tooShort items.length name fields.declared.length)
      else if fields.declared.length < items.length then .error (.tooLong items.length)
      else .ok a
  | v => .error (.kind v ("struct " ++ name))

end Fields

end Dbgp.Json
