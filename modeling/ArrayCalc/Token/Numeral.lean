/-! Decimal numerals. Any run `digits . digits e ± digits` is taken whole, however incomplete; it
denotes a number when the mantissa has a digit and an exponent mark is followed by one. -/
namespace ArrayCalc

structure ExponentPart where
  mark : Char
  sign : Option Char
  digits : List Char
  deriving DecidableEq, Repr

structure Numeral where
  whole : List Char
  fraction : Option (List Char)
  exponent : Option ExponentPart
  deriving DecidableEq, Repr

namespace ExponentPart

def read? : List Char → Option ExponentPart
  | c :: rest =>
    if c = 'e' ∨ c = 'E' then
      match rest with
      | s :: ds =>
        if s = '+' ∨ s = '-' then some ⟨c, some s, ds.takeWhile Char.isDigit⟩
        else some ⟨c, none, rest.takeWhile Char.isDigit⟩
      | [] => some ⟨c, none, []⟩
    else none
  | [] => none

def chars (e : ExponentPart) : List Char := e.mark :: (e.sign.toList ++ e.digits)

end ExponentPart

namespace Numeral

def read (cs : List Char) : Numeral :=
  let whole := cs.takeWhile Char.isDigit
  match cs.dropWhile Char.isDigit with
  | '.' :: rest =>
    ⟨whole, some (rest.takeWhile Char.isDigit), ExponentPart.read? (rest.dropWhile Char.isDigit)⟩
  | rest => ⟨whole, none, ExponentPart.read? rest⟩

def chars (n : Numeral) : List Char :=
  n.whole ++ (n.fraction.elim [] ('.' :: ·)) ++ (n.exponent.elim [] ExponentPart.chars)

def isComplete (n : Numeral) : Bool :=
  !(n.whole ++ n.fraction.getD []).isEmpty && n.exponent.all (!·.digits.isEmpty)

def natOfDigits (cs : List Char) : Nat := cs.foldl (fun n c => 10 * n + (c.toNat - '0'.toNat)) 0

def power (n : Numeral) : Int :=
  match n.exponent with
  | none => 0
  | some e => if e.sign = some '-' then -natOfDigits e.digits else natOfDigits e.digits

def value (n : Numeral) : Float :=
  let fraction := n.fraction.getD []
  let place := n.power - fraction.length
  Float.ofScientific (natOfDigits (n.whole ++ fraction)) (place < 0) place.natAbs

def value? (n : Numeral) : Option Float := if n.isComplete then some n.value else none

end Numeral
end ArrayCalc
