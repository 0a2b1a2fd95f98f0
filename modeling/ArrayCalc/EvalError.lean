import ArrayCalc.Filter.Fault
import ArrayCalc.Value.Kind
/-! Why an evaluation fails, and the words that say so. -/
namespace ArrayCalc

inductive EvalError where
  | unexpectedKind (expected actual : Kind)
  | unaryKind (a : Kind)
  | binaryKinds (a b : Kind)
  | ternaryKinds (a b c : Kind)
  | binaryLengths
  | ternaryLengths
  | elementKinds (array index : Kind)
  | indexOutOfRange (index last : Int)
  | indexNotAnInteger (index : Float) (last : Int)
  | emptyArray
  | mixedArray
  | unknownName (name : String)
  | unknownVariable (name : String)
  | readOnly
  | noOverload (name : String) (arguments : List Kind)
  | spacingCount (count : Float)
  | elementOutOfRange
  | outOfBounds (length index : Nat)
  | lengthOfScalar (actual : Kind)
  | filter (fault : Filter.Fault)
  | host (message : String)
  deriving DecidableEq, Repr

def EvalError.message : EvalError → String
  | .unexpectedKind expected actual => s!"expected {expected.name}, got {actual.name}"
  | .unaryKind a => s!"unary operation cannot handle type {a.name}"
  | .binaryKinds a b => s!"binary operation cannot handle types {a.name} and {b.name}"
  | .ternaryKinds a b c =>
    s!"ternary operation cannot handle types {a.name}, {b.name} and {c.name}"
  | .binaryLengths => "binary operation of different length arrays not defined"
  | .ternaryLengths => "ternary operation of different length arrays not defined"
  | .elementKinds array index =>
    s!"array element access not defined for types {array.name}[{index.name}]"
  | .indexOutOfRange index last => s!"array index {index} is out of range 0...{last}"
  | .indexNotAnInteger index last =>
    s!"array index {Number.text index} is out of range 0...{last}"
  | .emptyArray => "invalid array definition - array cannot be empty"
  | .mixedArray => "invalid array definition - element types not compatible"
  | .unknownName name => s!"Unknown variable or function: '{name}'"
  | .unknownVariable name => s!"Unknown variable: '{name}'"
  | .readOnly => "cannot assign variable - context is read-only"
  | .noOverload name arguments =>
    let kinds := ", ".intercalate (arguments.map Kind.name)
    s!"No function '{name}' found for arguments of type '{kinds}'"
  | .spacingCount count =>
    s!"linspace count {Number.text count} has to be between 1 and 1e8"
  | .elementOutOfRange => "element access out of range"
  | .outOfBounds length index =>
    s!"index out of bounds: the len is {length} but the index is {index}"
  | .lengthOfScalar actual => s!"len requires an array, got {actual.name}"
  | .filter fault => fault.message
  | .host message => message

end ArrayCalc
