/-! How many nodes of each kind were folded. -/
namespace ArrayCalc

inductive FoldKind where
  | variable
  | unary
  | binary
  | ternary
  | array
  | call
  deriving DecidableEq, Repr

namespace FoldKind

def all : List FoldKind := [.variable, .unary, .binary, .ternary, .array, .call]

def name : FoldKind → String
  | .variable => "variable"
  | .unary => "unary"
  | .binary => "binary"
  | .ternary => "ternary"
  | .array => "array"
  | .call => "call"

end FoldKind

structure FoldCount where
  names : Nat
  unaries : Nat
  binaries : Nat
  ternaries : Nat
  arrays : Nat
  calls : Nat
  deriving DecidableEq, Repr

namespace FoldCount

def zero : FoldCount := ⟨0, 0, 0, 0, 0, 0⟩

def of (k : FoldKind) : FoldCount :=
  match k with
  | .variable => { zero with names := 1 }
  | .unary => { zero with unaries := 1 }
  | .binary => { zero with binaries := 1 }
  | .ternary => { zero with ternaries := 1 }
  | .array => { zero with arrays := 1 }
  | .call => { zero with calls := 1 }

def get (c : FoldCount) : FoldKind → Nat
  | .variable => c.names
  | .unary => c.unaries
  | .binary => c.binaries
  | .ternary => c.ternaries
  | .array => c.arrays
  | .call => c.calls

instance : Add FoldCount where
  add a b := ⟨a.names + b.names, a.unaries + b.unaries, a.binaries + b.binaries,
    a.ternaries + b.ternaries, a.arrays + b.arrays, a.calls + b.calls⟩

def total (c : FoldCount) : Nat :=
  c.names + c.unaries + c.binaries + c.ternaries + c.arrays + c.calls

end FoldCount

structure FoldStats where
  iterations : Nat
  folds : FoldCount
  deriving DecidableEq, Repr

namespace FoldStats

def zero : FoldStats := ⟨0, .zero⟩

instance : Add FoldStats where
  add a b := ⟨a.iterations + b.iterations, a.folds + b.folds⟩

end FoldStats
end ArrayCalc
