import Mathlib.Algebra.Group.Nat.Defs
import Asr2Pass.Library.FallibleMaps

/-! # `nlohmann::json`

What the server reads of a JSON value.  A conversion answers `none` where the library throws
`type_error`.
-/

namespace Asr2Pass.Server

inductive Json where
  | null
  | boolean (value : Bool)
  | integer (value : Int)
  | float (value : Rat)
  | string (value : String)
  | array (items : List Json)
  | object (members : List (String × Json))

namespace Json

/-- The member under `key` of an object; `contains` is whether there is one. -/
def member (json : Json) (key : String) : Option Json :=
  match json with
  | .object members => members.lookup key
  | _ => none

/-- `operator[]`: a null value turns into an object, an absent member into a null one. -/
def index (json : Json) (key : String) : Option Json :=
  match json with
  | .null => some .null
  | .object members => some ((members.lookup key).getD .null)
  | _ => none

def isBoolean (json : Json) (value : Bool) : Bool :=
  match json with
  | .boolean value' => value == value'
  | _ => false

def toBool : Json → Option Bool
  | .boolean value => some value
  | _ => none

def toString : Json → Option String
  | .string value => some value
  | _ => none

/-- Conversion to a 32-bit `int`: a number with a fraction loses it, a boolean counts as 0 or 1. -/
def toInt : Json → Option Int
  | .boolean value => some (if value then 1 else 0)
  | .integer value => some (value.bmod (2 ^ 32))
  | .float value => some (value.num.tdiv value.den)
  | _ => none

def toInts : Json → Option (List Int)
  | .array items => items.mapM toInt
  | _ => none

/-- Conversion to a map from strings to `int`. -/
def toIntMap : Json → Option (List (String × Int))
  | .object members => members.mapM fun (key, value) => value.toInt.map (key, ·)
  | _ => none

/-! ## Which values convert -/

def IsNull : Json → Prop
  | .null => True
  | _ => False

def IsString : Json → Prop
  | .string _ => True
  | _ => False

def IsBoolean : Json → Prop
  | .boolean _ => True
  | _ => False

/-- A number, or a boolean. -/
def IsNumeric : Json → Prop
  | .boolean _ => True
  | .integer _ => True
  | .float _ => True
  | _ => False

def IsNumericArray : Json → Prop
  | .array items => ∀ item ∈ items, item.IsNumeric
  | _ => False

/-- The values on which `operator[]` does not throw. -/
def IsIndexable : Json → Prop
  | .null => True
  | .object _ => True
  | _ => False

theorem toString_isSome (json : Json) : json.toString.isSome ↔ json.IsString := by
  cases json <;> simp [toString, IsString]

theorem toBool_isSome (json : Json) : json.toBool.isSome ↔ json.IsBoolean := by
  cases json <;> simp [toBool, IsBoolean]

theorem toInt_isSome (json : Json) : json.toInt.isSome ↔ json.IsNumeric := by
  cases json <;> simp [toInt, IsNumeric]

theorem toInts_isSome (json : Json) : json.toInts.isSome ↔ json.IsNumericArray := by
  cases json with
  | array items =>
    rw [toInts, Library.isSome_mapM_iff]
    exact forall₂_congr fun item _ => toInt_isSome item
  | _ => simp [toInts, IsNumericArray]

theorem index_isSome (json : Json) (key : String) : (json.index key).isSome ↔ json.IsIndexable := by
  cases json <;> simp [index, IsIndexable]

end Json

end Asr2Pass.Server
