import ArrayCalc.Number.Significant
import ArrayCalc.Value.Kind
import ArrayCalc.Value.Shaped
/-! The values of the language: numbers, texts and truth values, each alone or in an array, and
the unit value of an empty statement. -/
namespace ArrayCalc

inductive Value where
  | number (v : Shaped Float)
  | text (v : Shaped String)
  | bool (v : Shaped Bool)
  | unit
  deriving DecidableEq, Repr

namespace Value

def ofNumber (x : Float) : Value := .number (.scalar x)
def ofNumbers (xs : List Float) : Value := .number (.array xs)
def ofText (s : String) : Value := .text (.scalar s)
def ofBool (b : Bool) : Value := .bool (.scalar b)

def kindOf (e : Element) {α : Type} : Shaped α → Kind
  | .scalar _ => .scalar e
  | .array _ => .array e

def kind : Value → Kind
  | .number v => kindOf .number v
  | .text v => kindOf .text v
  | .bool v => kindOf .bool v
  | .unit => .unit

def isUnit : Value → Bool
  | .unit => true
  | _ => false

def length? : Value → Option Nat
  | .number v => v.length?
  | .text v => v.length?
  | .bool v => v.length?
  | .unit => none

def number? : Value → Option Float
  | .number (.scalar x) => some x
  | _ => none

def numbers? : Value → Option (List Float)
  | .number (.array xs) => some xs
  | _ => none

def text? : Value → Option String
  | .text (.scalar s) => some s
  | _ => none

def bool? : Value → Option Bool
  | .bool (.scalar b) => some b
  | _ => none

def boolText (b : Bool) : String := if b then "true" else "false"
def quotedText (s : String) : String := "'" ++ s ++ "'"
def listText (items : List String) : String := "[" ++ ", ".intercalate items ++ "]"

def display : Value → String
  | .number (.scalar x) => Number.text x
  | .number (.array xs) => listText (xs.map Number.significant)
  | .text (.scalar s) => quotedText s
  | .text (.array ss) => listText (ss.map quotedText)
  | .bool (.scalar b) => boolText b
  | .bool (.array bs) => listText (bs.map boolText)
  | .unit => "()"

def render : Value → String
  | .unit => ""
  | v => v.display

end Value
end ArrayCalc
