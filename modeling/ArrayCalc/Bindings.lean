import ArrayCalc.Binding
/-! Contexts of declared bindings. A name may be bound as a property, by its first declaration, and
as a method with several overloads, of which the first declared that accepts the arguments is
taken. With a store, variables come before bindings; without one nothing can be assigned. -/
namespace ArrayCalc

structure Bound (η : Type) where
  property : Option (Property η)
  overloads : List (Method η)

structure Bindings (η : Type) where
  bound : NameMap (Bound η)

namespace Bindings
variable {η : Type}

def empty : Bindings η := ⟨.empty⟩

def declare (bs : Bindings η) : Binding η → Bindings η
  | .property n p => ⟨bs.bound.update n fun
    | none => ⟨some p, []⟩
    | some b => ⟨b.property.or (some p), b.overloads⟩⟩
  | .method n m => ⟨bs.bound.update n fun
    | none => ⟨none, [m]⟩
    | some b => ⟨b.property, b.overloads ++ [m]⟩⟩

def ofList (ds : List (Binding η)) : Bindings η := ds.foldl declare empty

def property? (bs : Bindings η) (name : String) : Option (Property η) :=
  (bs.bound.get? name).bind Bound.property

def overload? (bs : Bindings η) (name : String) (arguments : List Kind) : Option (Method η) :=
  (bs.bound.get? name).bind fun b => b.overloads.find? (·.accepts arguments)

def names (bs : Bindings η) : List String := bs.bound.names

def propertyCount (bs : Bindings η) : Nat := bs.bound.entries.countP (·.2.property.isSome)

def overloadCount (bs : Bindings η) : Nat :=
  bs.bound.entries.foldr (fun e n => e.2.overloads.length + n) 0

def resolve (bs : Bindings η) (name : String) : Action (Workspace η) Value := fun w =>
  match w.stored? name with
  | some v => .ok v w
  | none =>
    match bs.property? name, bs.overload? name [] with
    | some p, _ => p.read w
    | none, some m => m.invoke [] w
    | none, none => .error (.unknownName name) w

def assign (name : String) (v : Value) : Action (Workspace η) Unit := fun w =>
  match w.store with
  | some s => .ok () { w with store := some (s.insert name v) }
  | none => .error .readOnly w

def call (bs : Bindings η) (name : String) (vs : List Value) : Action (Workspace η) Value :=
  match bs.overload? name (vs.map Value.kind) with
  | some m => m.invoke vs
  | none => throw (.noOverload name (vs.map Value.kind))

def isConstantVariable (bs : Bindings η) (name : String) (w : Workspace η) : Except EvalError Bool :=
  match w.stored? name with
  | some _ => .ok true
  | none =>
    match bs.property? name, bs.overload? name [] with
    | some p, _ => .ok p.constant
    | none, some m => .ok m.constant
    | none, none => .error (.unknownVariable name)

def isConstantCall (bs : Bindings η) (name : String) (arguments : List Kind) :
    Except EvalError Bool :=
  match bs.overload? name arguments with
  | some m => .ok m.constant
  | none => .error (.noOverload name arguments)

def context (bs : Bindings η) : Context (Workspace η) where
  resolve := bs.resolve
  assign := assign
  call := bs.call
  isConstantVariable := bs.isConstantVariable
  isConstantCall n ks _ := bs.isConstantCall n ks

end Bindings
end ArrayCalc
