/-! The kinds of values: one element or an array of elements of one sort, or nothing. -/
namespace ArrayCalc

inductive Element where
  | number
  | text
  | bool
  deriving DecidableEq, Repr

inductive Kind where
  | scalar (e : Element)
  | array (e : Element)
  | unit
  deriving DecidableEq, Repr

def Element.name : Element → String
  | .number => "number"
  | .text => "string"
  | .bool => "bool"

namespace Kind

def name : Kind → String
  | .scalar e => e.name
  | .array e => e.name ++ "[]"
  | .unit => "unit"

def isArray : Kind → Bool
  | .array _ => true
  | _ => false

end Kind
end ArrayCalc
