import TypedWire.Calendar.Basic
import TypedWire.Json.Basic
import TypedWire.Uuid

/-!
# Scalars

- `ScalarType`: the built-in scalar types, with their identifiers and names.
- `ScalarType.ofId?`: the type that an identifier stands for.
- `Scalar`: a value of a scalar type; `Scalar.type` is its type. Floats are their bits.
-/

namespace TypedWire

/-- The built-in scalar types. -/
inductive ScalarType where
  | uuid
  | str
  | bytes
  | int16
  | int32
  | int64
  | float32
  | float64
  | bool
  | datetime
  | localDatetime
  | localDate
  | localTime
  | duration
  | json
  deriving DecidableEq

namespace ScalarType

/-- Every built-in scalar type. -/
def all : List ScalarType :=
  [.uuid, .str, .bytes, .int16, .int32, .int64, .float32, .float64, .bool, .datetime,
    .localDatetime, .localDate, .localTime, .duration, .json]

theorem mem_all (t : ScalarType) : t ∈ all := by
  cases t <;> decide

/-- The number of the identifier that every peer knows a type by. -/
def number : ScalarType → Nat
  | .uuid => 0x100
  | .str => 0x101
  | .bytes => 0x102
  | .int16 => 0x103
  | .int32 => 0x104
  | .int64 => 0x105
  | .float32 => 0x106
  | .float64 => 0x107
  | .bool => 0x109
  | .datetime => 0x10a
  | .localDatetime => 0x10b
  | .localDate => 0x10c
  | .localTime => 0x10d
  | .duration => 0x10e
  | .json => 0x10f

/-- The identifier that every peer knows a type by. -/
def id (t : ScalarType) : Uuid := .ofNat t.number

/-- The type that an identifier stands for. -/
def ofId? (id : Uuid) : Option ScalarType :=
  all.find? fun t => t.id = id

/-- An identifier stands for a type exactly if it is the type's own. -/
theorem ofId?_eq_some_iff {id : Uuid} {t : ScalarType} : ofId? id = some t ↔ t.id = id := by
  constructor
  · intro h
    simpa using List.find?_some h
  · rintro rfl
    cases t <;> decide

/-- The name of a type inside its schema module. -/
def shortName : ScalarType → String
  | .uuid => "uuid"
  | .str => "str"
  | .bytes => "bytes"
  | .int16 => "int16"
  | .int32 => "int32"
  | .int64 => "int64"
  | .float32 => "float32"
  | .float64 => "float64"
  | .bool => "bool"
  | .datetime => "datetime"
  | .localDatetime => "local_datetime"
  | .localDate => "local_date"
  | .localTime => "local_time"
  | .duration => "duration"
  | .json => "json"

/-- The schema module of a type. -/
def moduleName : ScalarType → String
  | .localDatetime | .localDate | .localTime => "cal"
  | _ => "std"

/-- The name of a type in the schema. -/
def name (t : ScalarType) : String :=
  t.moduleName ++ "::" ++ t.shortName

/-- Whether there are ranges over a type. -/
def isRangeElement : ScalarType → Bool
  | .int32 | .int64 | .float32 | .float64 | .datetime | .localDatetime | .localDate => true
  | _ => false

end ScalarType

/-- A value of a scalar type. -/
inductive Scalar where
  | uuid (u : Uuid)
  | str (s : String)
  | bytes (bytes : Bytes)
  | int16 (n : Int16)
  | int32 (n : Int32)
  | int64 (n : Int64)
  | float32 (bits : UInt32)
  | float64 (bits : UInt64)
  | bool (b : Bool)
  | datetime (m : Moment)
  | localDatetime (m : Moment)
  | localDate (d : Date)
  | localTime (t : TimeOfDay)
  | duration (d : Duration)
  | json (j : Json)

/-- The type of a scalar. -/
def Scalar.type : Scalar → ScalarType
  | .uuid _ => .uuid
  | .str _ => .str
  | .bytes _ => .bytes
  | .int16 _ => .int16
  | .int32 _ => .int32
  | .int64 _ => .int64
  | .float32 _ => .float32
  | .float64 _ => .float64
  | .bool _ => .bool
  | .datetime _ => .datetime
  | .localDatetime _ => .localDatetime
  | .localDate _ => .localDate
  | .localTime _ => .localTime
  | .duration _ => .duration
  | .json _ => .json

/-- The zero of a scalar type, which fresh storage holds. -/
def ScalarType.zero : ScalarType → Scalar
  | .uuid => .uuid .nil
  | .str => .str ""
  | .bytes => .bytes []
  | .int16 => .int16 0
  | .int32 => .int32 0
  | .int64 => .int64 0
  | .float32 => .float32 0
  | .float64 => .float64 0
  | .bool => .bool false
  | .datetime => .datetime .epoch
  | .localDatetime => .localDatetime .epoch
  | .localDate => .localDate .epoch
  | .localTime => .localTime .midnight
  | .duration => .duration ⟨0⟩
  | .json => .json .null

/-- The zero of a type is of the type. -/
@[simp] theorem ScalarType.type_zero (t : ScalarType) : t.zero.type = t := by
  cases t <;> rfl

end TypedWire
