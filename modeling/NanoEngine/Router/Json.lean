import Mathlib.Algebra.Ring.Int.Defs
import Mathlib.Data.Rat.Defs
import Mathlib.Data.List.Basic
import Mathlib.Tactic.Common

/-!
# NanoEngine.Router.Json — JSON values and the string functions of the router

`serde_json::Value` with the accessors that the router uses, and the parts of `str` it calls.
-/

namespace NanoEngine

namespace Router

/-- `serde_json::Value`; a number without a fraction and exponent is `int`. -/
inductive Value
  | null
  | bool (b : Bool)
  | int (n : ℤ)
  | float (q : ℚ)
  | string (s : String)
  | array (items : List Value)
  | object (entries : List (String × Value))

namespace Value

def isNull : Value → Bool
  | null => true
  | _ => false

/-- `Value::get` with a key. -/
def get : Value → String → Option Value
  | object entries, key => (entries.find? (fun e => decide (e.1 = key))).map (·.2)
  | _, _ => none

def asStr : Value → Option String
  | string s => some s
  | _ => none

def asU64 : Value → Option ℕ
  | int n => if 0 ≤ n ∧ n < 2 ^ 64 then some n.toNat else none
  | _ => none

def asArray : Value → Option (List Value)
  | array items => some items
  | _ => none

def asObject : Value → Option Value
  | object entries => some (object entries)
  | _ => none

/-- `Map::insert` on `as_object_mut`; other values stay. -/
def insert (key : String) (v : Value) : Value → Value
  | object entries => object (entries.filter (fun e => decide (e.1 ≠ key)) ++ [(key, v)])
  | other => other

end Value

/-! ## Strings -/

/-- `trim_end_matches('/')`. -/
def trimEndSlashes (s : String) : String :=
  String.ofList (s.toList.reverse.dropWhile (fun c => decide (c = '/'))).reverse

/-- `char::is_whitespace`: the property `White_Space`. -/
def isWhiteSpace (c : Char) : Bool :=
  let n := c.toNat
  decide (9 ≤ n ∧ n ≤ 13) || decide (n = 32) || decide (n = 0x85) || decide (n = 0xA0) || decide (n = 0x1680)
    || decide (0x2000 ≤ n ∧ n ≤ 0x200A) || decide (n = 0x2028) || decide (n = 0x2029) || decide (n = 0x202F)
    || decide (n = 0x205F) || decide (n = 0x3000)

/-- `str::trim`. -/
def trim (s : String) : String :=
  String.ofList ((s.toList.dropWhile isWhiteSpace).reverse.dropWhile isWhiteSpace).reverse

/-- `to_ascii_lowercase`. -/
def toAsciiLowercase (s : String) : String :=
  String.ofList (s.toList.map (fun c => if 'A' ≤ c ∧ c ≤ 'Z' then Char.ofNat (c.toNat + 32) else c))

/-- `rsplit('/').next()`: what follows the last slash. -/
def afterLastSlash (s : String) : String :=
  String.ofList (s.toList.reverse.takeWhile (fun c => decide (c ≠ '/'))).reverse

end Router

end NanoEngine
