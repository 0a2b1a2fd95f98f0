import ArrayCalc.Proofs.HonestFolding
import ArrayCalc.Session
/-! The library of a session. All its functions but one depend on their arguments alone and refuse
unit; `clear` takes no arguments, forgets the variables and gives unit. -/
namespace ArrayCalc
variable {η : Type}

def Method.Pure (m : Method η) : Prop :=
  ∀ vs, ∃ r, (∀ w, m.invoke vs w = Action.ofExcept r w) ∧ (.unit ∈ vs → ∃ e, r = .error e)

inductive Binding.Plain : Binding η → Prop where
  | property {n p r} (constant : p.constant = true) (steady : ∀ w, p.read w = Action.ofExcept r w) :
      Plain (.property n p)
  | function {n m} (constant : m.constant = true) (pure : m.Pure) : Plain (.method n m)
  | clear {m} (effect : m.constant = false) (bare : m.parameters = [])
      (forgets : ∀ w, m.invoke [] w = .ok .unit w.reset) : Plain (.method "clear" m)

namespace Functions

theorem constantPlain (name : String) (x : Float) : (constant name x : Binding η).Plain :=
  .property (r := .ok (.ofNumber x)) rfl fun _ => rfl

theorem functionPlain {name : String} {parameters : List Parameter}
    {f : List Value → Option (Except EvalError Value)}
    (refuses : ∀ vs, .unit ∈ vs → ∀ v, f vs ≠ some (.ok v)) :
    (function name parameters f : Binding η).Plain := by
  refine .function rfl fun vs => ⟨_,fun w => rfl,fun unit => ?_⟩
  cases result : f vs with
  | none => exact ⟨_,rfl⟩
  | some r =>
    cases r with
    | error e => exact ⟨e,rfl⟩
    | ok v => exact absurd result (refuses vs unit v)

theorem mapNumbersRefuses (f : Float → Float) (v : Value) : mapNumbers f .unit ≠ .ok v := nofun

theorem ofOnePlain (name : String) (f : Float → Float) : (ofOne name f : Binding η).Plain := by
  refine functionPlain fun vs unit v => ?_
  split
  · cases List.mem_singleton.mp unit
    simp [mapNumbersRefuses]
  · simp

theorem ofTwoPlain (name : String) (f : Float → Float → Float) :
    (ofTwo name f : Binding η).Plain := by
  refine functionPlain fun vs unit v => ?_
  split
  · rename_i a b
    simp only [List.mem_cons,List.not_mem_nil,or_false] at unit
    rcases unit with rfl | rfl
    · cases b <;> simp [onNumbers]
    · cases a <;> simp [onNumbers]
  · simp

theorem logBasePlain : (logBase : Binding η).Plain := by
  refine functionPlain fun vs unit v => ?_
  split
  · simp only [List.mem_cons,List.not_mem_nil,or_false,reduceCtorEq] at unit
    cases unit
    simp [mapNumbersRefuses]
  · simp

theorem elementaryPlain : ∀ d ∈ (elementary : List (Binding η)), d.Plain := by
  simp [elementary,constantPlain,ofOnePlain,ofTwoPlain,logBasePlain]

theorem filteringPlain : ∀ d ∈ (filtering : List (Binding η)), d.Plain := by
  simp only [filtering,filterMethods,designMethods,passMethods,List.forall_mem_append,
    List.forall_mem_cons]
  refine ⟨⟨⟨?_,?_,?_,?_,?_,nofun⟩,?_,?_,?_,?_,?_,nofun⟩,?_,?_,?_,?_,nofun⟩
  all_goals
    refine functionPlain fun vs unit v => ?_
    split
    · simp at unit
    · simp

theorem arraysPlain : ∀ d ∈ (arrays : List (Binding η)), d.Plain := by
  simp only [arrays,List.forall_mem_cons]
  refine ⟨functionPlain fun vs unit v => ?_,functionPlain fun vs unit v => ?_,
    functionPlain fun vs unit v => ?_,.clear rfl rfl fun _ => rfl,nofun⟩
  · split
    · simp at unit
    · simp
  · split
    · simp at unit
    · simp
  · split
    · cases List.mem_singleton.mp unit
      simp [lengthOf,Value.length?]
    · simp

theorem libraryPlain : ∀ d ∈ (library : List (Binding η)), d.Plain := by
  simp only [library,List.forall_mem_append]
  exact ⟨⟨elementaryPlain,filteringPlain⟩,arraysPlain⟩

end Functions

theorem Binding.Plain.honest {d : Binding η} (plain : d.Plain) : d.Honest := by
  cases plain with
  | property constant steady => exact fun _ => ⟨_,steady⟩
  | function constant pure =>
    intro _ vs
    obtain ⟨r,steady,_⟩ := pure vs
    exact ⟨r,steady⟩
  | clear effect =>
    intro constant
    rw [effect] at constant
    contradiction

namespace Session

theorem bindingsHonest : bindings.Honest :=
  honestOfList fun d member => (Functions.libraryPlain d member).honest

inductive Acts (f : String) (vs : List Value) (w : Workspace Unit) :
    Outcome (Workspace Unit) Value → Prop where
  | keeps {r} (same : Outcome.state r = w) (refuses : .unit ∈ vs → r.Fails) : Acts f vs w r
  | forgets (clear : f = "clear") (bare : vs = []) : Acts f vs w (.ok .unit w.reset)

theorem methodActs {f : String} {m : Method Unit} {vs : List Value}
    (found : bindings.overload? f (vs.map Value.kind) = some m) (w : Workspace Unit) :
    Acts f vs w (m.invoke vs w) := by
  obtain ⟨declared,accepts⟩ := Bindings.overloadDeclared found
  cases Functions.libraryPlain _ declared with
  | function constant pure =>
    obtain ⟨r,steady,refuses⟩ := pure vs
    rw [steady]
    refine .keeps (Action.stateOfExcept r) fun unit => ?_
    obtain ⟨e,rfl⟩ := refuses unit
    exact ⟨e,w,rfl⟩
  | clear effect bare forgets =>
    obtain rfl : vs = [] := by simpa [Method.accepts,bare,eq_comm] using accepts
    rw [forgets]
    exact .forgets rfl rfl

theorem callActs (f : String) (vs : List Value) (w : Workspace Unit) :
    Acts f vs w (context.call f vs w) := by
  simp only [context,Bindings.context,Bindings.call]
  cases found : bindings.overload? f (vs.map Value.kind) with
  | some m => exact methodActs found w
  | none => exact .keeps rfl fun _ => ⟨_,_,rfl⟩

theorem unitAbsent {C : Prop} (unit : Value.unit ∈ []) : C := absurd unit List.not_mem_nil

theorem resolveActs (n : String) (w : Workspace Unit) : Acts n [] w (context.resolve n w) := by
  simp only [context,Bindings.context,Bindings.resolve]
  cases bindings.resolution n (w.stored? n) with
  | stored v found =>
    simp only [found]
    exact .keeps rfl unitAbsent
  | property p absent found =>
    simp only [absent,found]
    cases Functions.libraryPlain _ (Bindings.propertyDeclared found) with
    | property constant steady =>
      rw [steady]
      exact .keeps (Action.stateOfExcept _) unitAbsent
  | method m absent none found =>
    have bare : bindings.overload? n [] = some m := found
    simp only [absent,none,bare]
    exact methodActs found w
  | unknown absent none missing =>
    simp only [absent,none,missing]
    exact .keeps rfl unitAbsent

end Session
end ArrayCalc
