import Dalston.Foundation.Dict

/-!
# JSON values

Job parameters, task configurations, artifact bindings and stage outputs are
JSON values: what a Python `dict` holds after a round trip through a JSON
column or a JSON document.
-/

namespace Dalston.Model

open Foundation

/-- The nearest whole number, the even one of two. -/
def roundHalfEven (q : Rat) : Int :=
  let rest := q - ⌊q⌋
  if rest < 1 / 2 then ⌊q⌋
  else if 1 / 2 < rest then ⌊q⌋ + 1
  else if ⌊q⌋ % 2 = 0 then ⌊q⌋
  else ⌊q⌋ + 1

inductive Json
  | null
  | bool (b : Bool)
  | num (q : Rat)
  | str (s : String)
  | arr (items : List Json)
  | obj (fields : List (String × Json))

namespace Json

/-- Python's truth value of the decoded object. -/
def truthy : Json → Bool
  | null => false
  | bool b => b
  | num q => q ≠ 0
  | str s => s ≠ ""
  | arr items => !items.isEmpty
  | obj fields => !fields.isEmpty

/-- `value == text`. -/
def equalsText (text : String) : Json → Bool
  | str s => s = text
  | _ => false

/-- The value of a number in arithmetic; `True` and `False` are numbers. -/
def number : Json → Option Rat
  | num q => some q
  | bool b => some (if b then 1 else 0)
  | _ => none

def optStr : Option String → Json
  | none => null
  | some s => str s

end Json

/-- A decoded JSON object. -/
abbrev Config := Dict Json

/-- `bool(config.get(key, False))`. -/
def flag (config : Config) (key : String) : Bool :=
  match config.get? key with
  | none => false
  | some v => v.truthy

end Dalston.Model
