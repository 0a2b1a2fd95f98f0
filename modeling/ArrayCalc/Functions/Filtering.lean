import ArrayCalc.Filter.Design
import ArrayCalc.Functions.Signature
/-! Filters and filter design as functions of the language. -/
namespace ArrayCalc.Functions
variable {η : Type}

def signal : Except Filter.Fault (List Float) → Except EvalError Value
  | .ok xs => .ok (.ofNumbers xs)
  | .error e => .error (.filter e)

def byDesign (design : Nat → List Float) (x : List Float) : Except EvalError Value :=
  signal do
    let half ← Filter.halfOrderFor x.length
    Filter.zeroPhase (design half) [1.0] x

def filterMethods : List (Binding η) := [
  function "filter" [anyNumbers, anyNumbers] fun
    | [.number (.array b), .number (.array x)] => some (signal (Filter.response b [1.0] [] x))
    | _ => none,
  function "filter" [anyNumbers, anyNumbers, anyNumbers] fun
    | [.number (.array b), .number (.array a), .number (.array x)] =>
      some (signal (Filter.response b a [] x))
    | _ => none,
  function "filter" [anyNumbers, anyNumbers, anyNumbers, anyNumbers] fun
    | [.number (.array b), .number (.array a), .number (.array x), .number (.array start)] =>
      some (signal (Filter.response b a start x))
    | _ => none,
  function "filtfilt" [anyNumbers, anyNumbers] fun
    | [.number (.array b), .number (.array x)] => some (signal (Filter.zeroPhase b [1.0] x))
    | _ => none,
  function "filtfilt" [anyNumbers, anyNumbers, anyNumbers] fun
    | [.number (.array b), .number (.array a), .number (.array x)] =>
      some (signal (Filter.zeroPhase b a x))
    | _ => none]

def designMethods : List (Binding η) := [
  function "LowPassFIRCoefficients" [anyNumber, anyNumber, anyNumber] fun
    | [.number (.scalar cutoff), .number (.scalar rate), .number (.scalar order)] =>
      some (signal do return Filter.lowPass cutoff rate (← Filter.orderOf order))
    | _ => none,
  function "LowPassFIRCoefficients" [anyNumber, anyNumber, anyNumber, anyNumber] fun
    | [.number (.scalar cutoff), .number (.scalar rate), .number (.scalar order),
        .number (.scalar gain)] =>
      some (signal do Filter.scaledLowPass cutoff rate (← Filter.orderOf order) gain)
    | _ => none,
  function "HighPassFIRCoefficients" [anyNumber, anyNumber, anyNumber] fun
    | [.number (.scalar cutoff), .number (.scalar rate), .number (.scalar order)] =>
      some (signal do return Filter.highPass cutoff rate (← Filter.orderOf order))
    | _ => none,
  function "BandPassFIRCoefficients" [anyNumber, anyNumber, anyNumber, anyNumber] fun
    | [.number (.scalar low), .number (.scalar high), .number (.scalar rate),
        .number (.scalar order)] =>
      some (signal do return Filter.bandPass low high rate (← Filter.orderOf order))
    | _ => none,
  function "BandStopFIRCoefficients" [anyNumber, anyNumber, anyNumber, anyNumber] fun
    | [.number (.scalar low), .number (.scalar high), .number (.scalar rate),
        .number (.scalar order)] =>
      some (signal do return Filter.bandStop low high rate (← Filter.orderOf order))
    | _ => none]

def passMethods : List (Binding η) := [
  function "LowPass" [anyNumbers, anyNumber, anyNumber] fun
    | [.number (.array x), .number (.scalar cutoff), .number (.scalar rate)] =>
      some (byDesign (Filter.lowPass cutoff rate) x)
    | _ => none,
  function "HighPass" [anyNumbers, anyNumber, anyNumber] fun
    | [.number (.array x), .number (.scalar cutoff), .number (.scalar rate)] =>
      some (byDesign (Filter.highPass cutoff rate) x)
    | _ => none,
  function "BandPass" [anyNumbers, anyNumber, anyNumber, anyNumber] fun
    | [.number (.array x), .number (.scalar low), .number (.scalar high), .number (.scalar rate)] =>
      some (byDesign (Filter.bandPass low high rate) x)
    | _ => none,
  function "BandStop" [anyNumbers, anyNumber, anyNumber, anyNumber] fun
    | [.number (.array x), .number (.scalar low), .number (.scalar high), .number (.scalar rate)] =>
      some (byDesign (Filter.bandStop low high rate) x)
    | _ => none]

def filtering : List (Binding η) := filterMethods ++ designMethods ++ passMethods

end ArrayCalc.Functions
