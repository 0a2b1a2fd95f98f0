import ArrayCalc.Context
/-! Scopes over a context. Variables of an inner scope come before those of an outer one and before
the context below; assignments go to the innermost scope; calls are never scoped. -/
namespace ArrayCalc

structure Scoped (σ : Type) where
  scopes : List Store
  base : σ

namespace Scoped
variable {σ α : Type}

def enter (s : Scoped σ) : Scoped σ := { s with scopes := .empty :: s.scopes }

def leave? (s : Scoped σ) : Option (Scoped σ) :=
  match s.scopes with
  | [] => none
  | _ :: outer => some { s with scopes := outer }

def stored? (s : Scoped σ) (name : String) : Option Value := s.scopes.findSome? (·.get? name)

def onBase (a : Action σ α) : Action (Scoped σ) α := fun s =>
  match a s.base with
  | .ok v b => .ok v { s with base := b }
  | .error e b => .error e { s with base := b }

def resolve (ctx : Context σ) (name : String) : Action (Scoped σ) Value := fun s =>
  match s.stored? name with
  | some v => .ok v s
  | none => onBase (ctx.resolve name) s

def assign (ctx : Context σ) (name : String) (v : Value) : Action (Scoped σ) Unit := fun s =>
  match s.scopes with
  | [] => onBase (ctx.assign name v) s
  | inner :: outer => .ok () { s with scopes := inner.insert name v :: outer }

def isConstantVariable (ctx : Context σ) (name : String) (s : Scoped σ) : Except EvalError Bool :=
  match s.stored? name with
  | some _ => .ok true
  | none => ctx.isConstantVariable name s.base

end Scoped

def Context.scoped {σ : Type} (ctx : Context σ) : Context (Scoped σ) where
  resolve := Scoped.resolve ctx
  assign := Scoped.assign ctx
  call f vs := Scoped.onBase (ctx.call f vs)
  isConstantVariable := Scoped.isConstantVariable ctx
  isConstantCall f ks s := ctx.isConstantCall f ks s.base

end ArrayCalc
