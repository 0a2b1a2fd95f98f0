/-! One element, or an array of elements. Two of them combine element by element: a scalar meets
every element of an array, and so does the only element of a one-element array. -/
namespace ArrayCalc

inductive Shaped (α : Type) where
  | scalar (a : α)
  | array (as : List α)
  deriving DecidableEq, Repr

namespace Shaped
variable {α β γ δ : Type}

def map (f : α → β) : Shaped α → Shaped β
  | .scalar a => .scalar (f a)
  | .array as => .array (as.map f)

def length? : Shaped α → Option Nat
  | .scalar _ => none
  | .array as => some as.length

def zipWith (f : α → β → γ) : Shaped α → Shaped β → Option (Shaped γ)
  | .scalar a, b => some (b.map (f a))
  | a, .scalar b => some (a.map (f · b))
  | .array [a], .array bs => some (.array (bs.map (f a)))
  | .array as, .array [b] => some (.array (as.map (f · b)))
  | .array as, .array bs =>
    if as.length = bs.length then some (.array (as.zipWith f bs)) else none

def zipWith3 (f : α → β → γ → δ) (a : Shaped α) (b : Shaped β) (c : Shaped γ) : Option (Shaped δ) :=
  (zipWith f a b).bind fun g => zipWith (fun h x => h x) g c

end Shaped
end ArrayCalc
