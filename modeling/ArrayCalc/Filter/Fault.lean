import ArrayCalc.Number.Layout
/-! What a filter refuses. -/
namespace ArrayCalc.Filter

inductive Fault where
  | noFeedback
  | leadingFeedbackZero
  | signalTooShort
  | gainNotPositive (gain : Float)
  | orderOutOfRange (order : Float)
  deriving DecidableEq, Repr

def Fault.message : Fault → String
  | .noFeedback => "the feedback filter coefficients are empty"
  | .leadingFeedbackZero => "the first feedback filter coefficient has to be non-zero"
  | .signalTooShort =>
    "Input data too short! Data must have length more than 3 times filter order."
  | .gainNotPositive gain => s!"the DC gain has to be positive, got {Number.text gain}"
  | .orderOutOfRange order => s!"filter order {Number.text order} is out of range"

end ArrayCalc.Filter
