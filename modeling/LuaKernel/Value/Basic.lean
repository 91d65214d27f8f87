import LuaKernel.Binary64.Order
import LuaKernel.Binary64.Text
import LuaKernel.Text.Quoted

/-!
# Values

The machine handles five kinds of value: nil, booleans, integers, floats and byte strings. Integers and
floats are both numbers to the kind view (`Value.kind`), which error messages and hosts see.
-/

namespace LuaKernel

/-- The kind of a value as a host sees it; `none` is the kind of a place that holds no value. -/
inductive Kind where
  | none | nil | boolean | number | string
deriving DecidableEq, Repr

namespace Kind

/-- The kinds in the order of their numbers. -/
def all : List Kind := [.none, .nil, .boolean, .number, .string]

/-- The number that hosts know a kind by. Kinds of value that this machine lacks leave gaps. -/
def code : Kind → Int
  | .none => -1
  | .nil => 0
  | .boolean => 1
  | .number => 3
  | .string => 4

def name : Kind → String
  | .none => "no value"
  | .nil => "nil"
  | .boolean => "boolean"
  | .number => "number"
  | .string => "string"

end Kind

/-- A value. -/
inductive Value where
  | nil
  | boolean (b : Bool)
  | integer (n : Int64)
  | float (x : Binary64)
  | string (s : Bytes)
deriving DecidableEq, Inhabited, Repr

namespace Value

/-! ## Kind and content -/

def kind : Value → Kind
  | .nil => .nil
  | .boolean _ => .boolean
  | .integer _ | .float _ => .number
  | .string _ => .string

def isNil : Value → Bool
  | .nil => true
  | _ => false

def isBoolean : Value → Bool
  | .boolean _ => true
  | _ => false

def isInteger : Value → Bool
  | .integer _ => true
  | _ => false

def isFloat : Value → Bool
  | .float _ => true
  | _ => false

def isNumber : Value → Bool
  | .integer _ | .float _ => true
  | _ => false

def isString : Value → Bool
  | .string _ => true
  | _ => false

/-- Only nil and `false` count as false. -/
def isFalsy : Value → Bool
  | .nil | .boolean false => true
  | _ => false

def isTruthy (v : Value) : Bool := !v.isFalsy

def boolean? : Value → Option Bool
  | .boolean b => some b
  | _ => Option.none

def integer? : Value → Option Int64
  | .integer n => some n
  | _ => Option.none

def float? : Value → Option Binary64
  | .float x => some x
  | _ => Option.none

def string? : Value → Option Bytes
  | .string s => some s
  | _ => Option.none

/-- The same kind of content and equal content. Floats compare as numbers: a NaN differs from itself and
the two zeros are the same; an integer is never the same as a float. -/
def same : Value → Value → Bool
  | .nil, .nil => true
  | .boolean a, .boolean b => a == b
  | .integer m, .integer n => m == n
  | .float x, .float y => x.eq y
  | .string s, .string t => s == t
  | _, _ => false

/-! ## Text -/

/-- The text of a value that is not a string; strings by `ofString`. -/
def textWith (ofString : Bytes → String) : Value → String
  | .nil => "nil"
  | .boolean b => if b then "true" else "false"
  | .integer n => Text.lossy (Integer.text n)
  | .float x => Text.lossy x.text
  | .string s => ofString s

/-- A value shown to a reader: a string as it is. -/
def displayed (v : Value) : String := v.textWith Text.lossy

/-- A value shown to a programmer: a string in quotes. -/
def quoted (v : Value) : String := v.textWith Text.quoted

end Value

end LuaKernel
