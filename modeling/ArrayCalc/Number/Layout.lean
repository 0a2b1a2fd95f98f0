import ArrayCalc.Number.Decimal
/-! How numbers are written. One record says where positional writing ends and how an exponent
looks; a second pair of functions writes the exact value to a fixed number of places. -/
namespace ArrayCalc.Number

def digits (n : Nat) : List Char := Nat.toDigits 10 n

def fixedDigits (coefficient places : Nat) : List Char :=
  let ds := digits coefficient
  let ds := List.replicate (places + 1 - ds.length) '0' ++ ds
  if places = 0 then ds else ds.take (ds.length - places) ++ '.' :: ds.drop (ds.length - places)

def pointAfterFirst : List Char → List Char
  | d :: e :: rest => d :: '.' :: e :: rest
  | ds => ds

def exponentDigits (plus : Bool) (e : Int) : List Char :=
  (if e < 0 then ['-'] else if plus then ['+'] else []) ++ digits e.natAbs

structure Layout where
  positional : Int → Bool
  pointZero : Bool
  plus : Bool
  tie : Tie
  notFinite : Option String

def Decimal.write (l : Layout) (d : Decimal) : List Char :=
  let ds := digits d.coefficient
  let leading := d.exponent + ds.length - 1
  if l.positional leading then
    if 0 ≤ d.exponent then
      ds ++ List.replicate d.exponent.toNat '0' ++ (if l.pointZero then ['.', '0'] else [])
    else fixedDigits d.coefficient (-d.exponent).toNat
  else pointAfterFirst ds ++ 'e' :: exponentDigits l.plus leading

def signText : Float.Model.UnpackedFloat.Sign → String
  | .positive => ""
  | .negative => "-"

def Layout.write (l : Layout) (x : Float) : String :=
  match x.toModel.unpack with
  | .notANumber => l.notFinite.getD "NaN"
  | .infinity s => l.notFinite.getD (signText s ++ "inf")
  | .zero s => signText s ++ (if l.pointZero then "0.0" else "0")
  | .finite s m e _ => signText s ++ String.ofList ((shortest l.tie m e).write l)

def plain : Layout := ⟨fun _ => true, false, false, .upper, none⟩

def text (x : Float) : String := plain.write x

def fixed (places : Nat) (x : Float) : List Char :=
  match x.toModel.unpack with
  | .finite s m e _ =>
    let (num, den) := fraction m e
    (signText s).toList ++ fixedDigits (scaled num den (-places)) places
  | _ => (text x).toList

/-- Leading digit and `places` more of `num / den`, and the exponent of the leading digit. A carry
into a new leading digit raises the exponent. -/
def leading (places num den : Nat) : Nat × Int :=
  let e := decimalExponent num den
  let c := scaled num den (e - places)
  if c = Nat.pow 10 (places + 1) then (Nat.pow 10 places, e + 1) else (c, e)

def mantissaExponent? (places : Nat) (x : Float) : Option (List Char × Int) :=
  match x.toModel.unpack with
  | .finite s m e _ =>
    let (num, den) := fraction m e
    let (c, lead) := leading places num den
    some ((signText s).toList ++ fixedDigits c places, lead)
  | .zero s => some ((signText s).toList ++ fixedDigits 0 places, 0)
  | _ => none

def scientific (places : Nat) (x : Float) : String :=
  match mantissaExponent? places x with
  | some (m, e) => String.ofList (m ++ 'e' :: exponentDigits false e)
  | none => text x

end ArrayCalc.Number
