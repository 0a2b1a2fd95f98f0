import ArrayCalc.Proofs.Declarations
import ArrayCalc.Proofs.FoldedStatements
import ArrayCalc.Proofs.Invocations
/-! Folding against declared bindings, alone or below scopes, keeps the meaning of a statement when
what is declared constant depends on its arguments alone and no binding writes variables. The host
may otherwise do as it likes: it is invoked as often, in the same order and with the same arguments. -/
namespace ArrayCalc

namespace Bindings
variable {η : Type}

structure Honest (bs : Bindings η) : Prop where
  property : ∀ {n p}, bs.property? n = some p → p.constant = true →
    ∃ r, ∀ w, p.read w = Action.ofExcept r w
  method : ∀ {f vs m}, bs.overload? f (vs.map Value.kind) = some m → m.constant = true →
    ∃ r, ∀ w, m.invoke vs w = Action.ofExcept r w

structure KeepsVariables (bs : Bindings η) : Prop where
  property : ∀ {n p}, bs.property? n = some p →
    ∀ w, (Outcome.state (p.read w)).store = w.store
  method : ∀ {f vs m}, bs.overload? f (vs.map Value.kind) = some m →
    ∀ w, (Outcome.state (m.invoke vs w)).store = w.store

end Bindings

namespace Binding
variable {η : Type}

def Honest : Binding η → Prop
  | .property _ p => p.constant = true → ∃ r, ∀ w, p.read w = Action.ofExcept r w
  | .method _ m => m.constant = true → ∀ vs, ∃ r, ∀ w, m.invoke vs w = Action.ofExcept r w

def KeepsVariables : Binding η → Prop
  | .property _ p => ∀ w, (Outcome.state (p.read w)).store = w.store
  | .method _ m => ∀ vs w, (Outcome.state (m.invoke vs w)).store = w.store

end Binding

theorem honestOfList {η : Type} {ds : List (Binding η)} (each : ∀ d ∈ ds, d.Honest) :
    (Bindings.ofList ds).Honest where
  property found := each _ (Bindings.propertyDeclared found)
  method found constant := each _ (Bindings.overloadDeclared found).1 constant _

theorem keepsVariablesOfList {η : Type} {ds : List (Binding η)} (each : ∀ d ∈ ds, d.KeepsVariables) :
    (Bindings.ofList ds).KeepsVariables where
  property found := each _ (Bindings.propertyDeclared found)
  method found := each _ (Bindings.overloadDeclared found).1 _

section Recording
variable {η α : Type}

theorem recordKeeps {a : Action (Workspace η) α} (keeps : ∀ w, (Outcome.state (a w)).store = w.store)
    (constant : Bool) (i : Invocation) (w : Workspace (Recorded η)) :
    (Outcome.state (record constant i a w)).store = w.store := by
  have plain := projectRecord constant i a w
  have kept := keeps w.unrecorded
  rw [← plain] at kept
  cases done : record constant i a w with
  | ok v m => rw [done] at kept; exact kept
  | error e m => rw [done] at kept; exact kept

theorem recordSteady {a : Action (Workspace η) α} {r : Except EvalError α}
    (steady : ∀ w, a w = Action.ofExcept r w) (i : Invocation) (w : Workspace (Recorded η)) :
    record true i a w = Action.ofExcept r w := by
  simp only [record,if_true,unlogged,steady]
  cases r <;> rfl

end Recording

namespace Bindings
variable {η : Type} {bs : Bindings η}

theorem storedSame {w : Workspace η} {m : Workspace (Recorded η)} (same : m.store = w.store)
    (n : String) : m.stored? n = w.stored? n := by
  simp only [Workspace.stored?,same]

inductive Resolution (bs : Bindings η) (n : String) (kept : Option Value) : Prop where
  | stored (v) (found : kept = some v)
  | property (p) (absent : kept = none) (found : bs.property? n = some p)
  | method (m) (absent : kept = none) (none : bs.property? n = none)
      (found : bs.overload? n (([] : List Value).map Value.kind) = some m)
  | unknown (absent : kept = none) (none : bs.property? n = none)
      (missing : bs.overload? n [] = Option.none)

theorem resolution (bs : Bindings η) (n : String) (kept : Option Value) :
    bs.Resolution n kept := by
  cases kept with
  | some v => exact .stored v rfl
  | none =>
    cases property : bs.property? n with
    | some p => exact .property p rfl property
    | none =>
      cases method : bs.overload? n [] with
      | some m => exact .method m rfl property method
      | none => exact .unknown rfl property method

theorem resolveKeeps (keeps : bs.KeepsVariables) (n : String) (w : Workspace (Recorded η)) :
    (Outcome.state (bs.recorded.context.resolve n w)).store = w.store := by
  simp only [context,resolve,recordedProperty,recordedOverload]
  cases bs.resolution n (w.stored? n) with
  | stored v found => simp only [found,Outcome.stateOk]
  | property p absent found =>
    simp only [absent,found,Option.map_some]
    exact recordKeeps (keeps.property found) ..
  | method m absent none found =>
    have bare : bs.overload? n [] = some m := found
    simp only [absent,none,bare,Option.map_some,Option.map_none]
    exact recordKeeps (keeps.method found) ..
  | unknown absent none missing =>
    simp only [absent,none,missing,Option.map_none,Outcome.stateError]

theorem callKeeps (keeps : bs.KeepsVariables) (f : String) (vs : List Value)
    (w : Workspace (Recorded η)) :
    (Outcome.state (bs.recorded.context.call f vs w)).store = w.store := by
  simp only [context,call,recordedOverload]
  cases found : bs.overload? f (vs.map Value.kind) with
  | some m => exact recordKeeps (keeps.method found) ..
  | none => rfl

theorem constantNameSteady (honest : bs.Honest) {n : String} {w : Workspace η}
    (constant : bs.context.isConstantVariable n w = .ok true) :
    ∃ r, bs.context.resolve n w = Action.ofExcept r w ∧
      ∀ m : Workspace (Recorded η), m.stored? n = w.stored? n →
        bs.recorded.context.resolve n m = Action.ofExcept r m := by
  simp only [context,isConstantVariable] at constant
  simp only [context,resolve,recordedProperty,recordedOverload]
  cases bs.resolution n (w.stored? n) with
  | stored v found =>
    refine ⟨.ok v,by simp only [found]; rfl,fun m same => ?_⟩
    simp only [same,found]
    rfl
  | property p absent found =>
    simp only [absent,found,Except.ok.injEq] at constant
    obtain ⟨r,steady⟩ := honest.property found constant
    refine ⟨r,by simp only [absent,found,steady],fun m same => ?_⟩
    simp only [same,absent,found,Option.map_some,Property.recorded,constant]
    exact recordSteady steady ..
  | method q absent none found =>
    have bare : bs.overload? n [] = some q := found
    simp only [absent,none,bare,Except.ok.injEq] at constant
    obtain ⟨r,steady⟩ := honest.method found constant
    refine ⟨r,by simp only [absent,none,bare,steady],fun m same => ?_⟩
    simp only [same,absent,none,bare,Option.map_some,Option.map_none,Method.recorded,
      constant]
    exact recordSteady steady ..
  | unknown absent none missing => simp [absent,none,missing] at constant

theorem unknownNameFails {n : String} {w : Workspace η} {e : EvalError}
    (unknown : bs.context.isConstantVariable n w = .error e) {m : Workspace (Recorded η)}
    (same : m.stored? n = w.stored? n) : Outcome.Fails (bs.recorded.context.resolve n m) := by
  simp only [context,isConstantVariable] at unknown
  simp only [context,resolve,recordedProperty,recordedOverload,same]
  cases bs.resolution n (w.stored? n) with
  | stored v found => simp [found] at unknown
  | property p absent found => simp [absent,found] at unknown
  | method q absent none found =>
    have bare : bs.overload? n [] = some q := found
    simp [absent,none,bare] at unknown
  | unknown absent none missing =>
    simp only [absent,none,missing,Option.map_none]
    exact ⟨_,_,rfl⟩

theorem constantCallSteady (honest : bs.Honest) {f : String} {vs : List Value} {w : Workspace η}
    (constant : bs.context.isConstantCall f (vs.map Value.kind) w = .ok true) :
    ∃ r, bs.context.call f vs w = Action.ofExcept r w ∧
      ∀ m : Workspace (Recorded η), bs.recorded.context.call f vs m = Action.ofExcept r m := by
  simp only [context,isConstantCall] at constant
  simp only [context,call,recordedOverload]
  cases found : bs.overload? f (vs.map Value.kind) with
  | none => simp [found] at constant
  | some q =>
    simp only [found,Except.ok.injEq] at constant
    obtain ⟨r,steady⟩ := honest.method found constant
    refine ⟨r,steady w,fun m => ?_⟩
    simp only [Option.map_some,Method.recorded,constant]
    exact recordSteady steady ..

theorem unknownCallFails {f : String} {vs : List Value} {w : Workspace η} {e : EvalError}
    (unknown : bs.context.isConstantCall f (vs.map Value.kind) w = .error e)
    (m : Workspace (Recorded η)) : Outcome.Fails (bs.recorded.context.call f vs m) := by
  simp only [context,isConstantCall] at unknown
  simp only [context,call,recordedOverload]
  cases found : bs.overload? f (vs.map Value.kind) with
  | none => exact ⟨_,_,rfl⟩
  | some q => simp [found] at unknown

theorem truthfulWhere (honest : bs.Honest) {u : Usage} {I : Workspace (Recorded η) → Prop}
    {w : Workspace η} (agree : ∀ {n m}, u.reads n → I m → m.stored? n = w.stored? n) :
    Truthful bs.context w bs.recorded.context u I where
  constantName read constant := by
    obtain ⟨r,folded,runs⟩ := constantNameSteady honest constant
    exact ⟨r,folded,fun m kept => runs m (agree read kept)⟩
  unknownName read unknown kept := unknownNameFails unknown (agree read kept)
  constantCall _ constant := by
    obtain ⟨r,folded,runs⟩ := constantCallSteady honest constant
    exact ⟨r,folded,fun m _ => runs m⟩
  unknownCall _ unknown _ := unknownCallFails unknown _

theorem truthful (honest : bs.Honest) (u : Usage) (w : Workspace η) :
    Truthful bs.context w bs.recorded.context u fun m => m.store = w.store :=
  truthfulWhere honest fun _ same => storedSame same _

theorem foldable (honest : bs.Honest) (keeps : bs.KeepsVariables) (w : Workspace η) :
    Foldable bs.context w bs.recorded.context Usage.anything.readOnly
      (fun m => m.store = w.store) (fun _ => False) := by
  apply (truthful honest _ w).foldable
  constructor
  · exact fun _ same => (resolveKeeps keeps ..).trans same
  · exact fun _ same => (callKeeps keeps ..).trans same
  · exact fun written => written.elim

end Bindings

section Scopes
variable {σ τ : Type} {I W : τ → Prop}

theorem onBaseState {α : Type} (a : Action τ α) (m : Scoped τ) :
    Outcome.state (Scoped.onBase a m) = ⟨m.scopes,Outcome.state (a m.base)⟩ := by
  simp only [Scoped.onBase]
  cases a m.base <;> rfl

theorem onBaseOfExcept {α : Type} {a : Action τ α} {r : Except EvalError α} {m : Scoped τ}
    (h : a m.base = Action.ofExcept r m.base) : Scoped.onBase a m = Action.ofExcept r m := by
  simp only [Scoped.onBase,h]
  cases r <;> rfl

theorem onBaseFails {α : Type} {a : Action τ α} {m : Scoped τ} (h : Outcome.Fails (a m.base)) :
    Outcome.Fails (Scoped.onBase a m) := by
  obtain ⟨e,t,failed⟩ := h
  simp only [Scoped.onBase,failed]
  exact ⟨_,_,rfl⟩

theorem onBaseStays {scopes : List Store} {a : Action τ Value} {m : Scoped τ}
    (same : m.scopes = scopes) (h : Stays I W (a m.base)) :
    Stays (fun m : Scoped τ => m.scopes = scopes ∧ I m.base)
      (fun m => m.scopes = scopes ∧ W m.base) (Scoped.onBase a m) := by
  rcases h with kept | ⟨t,result,gone⟩
  · left
    rw [onBaseState]
    exact ⟨same,kept⟩
  · right
    refine ⟨⟨m.scopes,t⟩,?_,same,gone⟩
    simp only [Scoped.onBase,result]

theorem Context.Preserves.scoped {run : Context τ} {u : Usage} (P : run.Preserves u W)
    (scopes : List Store) (noWrites : ∀ n, ¬u.writes n) :
    run.scoped.Preserves u fun m => m.scopes = scopes ∧ W m.base where
  resolve {n m} read kept := by
    simp only [Context.scoped,Scoped.resolve]
    cases m.stored? n with
    | some v => exact kept
    | none =>
      rw [onBaseState]
      exact ⟨kept.1,P.resolve read kept.2⟩
  call {f vs m} called kept := by
    simp only [Context.scoped,onBaseState]
    exact ⟨kept.1,P.call called kept.2⟩
  assign written := absurd written (noWrites _)

theorem Truthful.scoped {ctx : Context σ} {s : Scoped σ} {run : Context τ} {u : Usage}
    {J : Scoped τ → Prop} (T : Truthful ctx s.base run u I) (below : ∀ {m}, J m → I m.base)
    (agree : ∀ {n m}, u.reads n → J m → m.stored? n = s.stored? n) :
    Truthful ctx.scoped s run.scoped u J where
  constantName {n} read constant := by
    simp only [Context.scoped,Scoped.isConstantVariable] at constant
    simp only [Context.scoped,Scoped.resolve]
    cases found : s.stored? n with
    | some v =>
      refine ⟨.ok v,rfl,fun m kept => ?_⟩
      simp only [(agree read kept).trans found]
      rfl
    | none =>
      simp only [found] at constant
      obtain ⟨r,folded,runs⟩ := T.constantName read constant
      refine ⟨r,onBaseOfExcept folded,fun m kept => ?_⟩
      simp only [(agree read kept).trans found]
      exact onBaseOfExcept (runs m.base (below kept))
  unknownName {n e m} read unknown kept := by
    simp only [Context.scoped,Scoped.isConstantVariable] at unknown
    simp only [Context.scoped,Scoped.resolve]
    cases found : s.stored? n with
    | some v => simp [found] at unknown
    | none =>
      simp only [found] at unknown
      simp only [(agree read kept).trans found]
      exact onBaseFails (T.unknownName read unknown (below kept))
  constantCall {f vs} called constant := by
    obtain ⟨r,folded,runs⟩ := T.constantCall called constant
    exact ⟨r,onBaseOfExcept folded,fun m kept => onBaseOfExcept (runs m.base (below kept))⟩
  unknownCall called unknown kept := onBaseFails (T.unknownCall called unknown (below kept))

theorem Foldable.scoped {ctx : Context σ} {s : Scoped σ} {run : Context τ} {u : Usage}
    (F : Foldable ctx s.base run u I W) (noWrites : ∀ n, ¬u.writes n) :
    Foldable ctx.scoped s run.scoped u (fun m => m.scopes = s.scopes ∧ I m.base)
      (fun m => m.scopes = s.scopes ∧ W m.base) where
  toTruthful := F.toTruthful.scoped And.right fun _ kept => by simp only [Scoped.stored?,kept.1]
  resolveStays {n m} read kept := by
    simp only [Context.scoped,Scoped.resolve]
    cases m.stored? n with
    | some v => exact .inl kept
    | none => exact onBaseStays kept.1 (F.resolveStays read kept.2)
  callStays called kept := onBaseStays kept.1 (F.callStays called kept.2)
  assignStays written := absurd written (noWrites _)
  lost := F.lost.scoped s.scopes noWrites
  lostUnique {m m'} gone gone' := by
    obtain ⟨scopes,base⟩ := m
    obtain ⟨scopes',base'⟩ := m'
    cases gone.1.trans gone'.1.symm
    cases F.lostUnique gone.2 gone'.2
    rfl
  unitRefused called gone unit := onBaseFails (F.unitRefused called gone.2 unit)

end Scopes

def FoldingKeeps {σ : Type} (ctx : Context σ) (calls : Expr → σ → List Invocation) (limit : Nat)
    (t : Expr) (s : σ) : Prop :=
  match foldStatement ctx limit t s with
  | .ok (t',_) m => m = s ∧ t'.eval ctx s = t.eval ctx s ∧ calls t' s = calls t s
  | .error _ m => m = s ∧ Outcome.Fails (t.eval ctx s)

theorem foldingKeepsOver {σ τ : Type} {ctx : Context σ} {run : Context τ} {π : τ → σ}
    {I W : τ → Prop} {u : Usage} {t : Expr} {m : τ} (covers : run.Over ctx π)
    (F : Foldable ctx (π m) run u I W) (never : ∀ m, ¬W m) (kept : I m) (root : t.RootAssigned u)
    (log : τ → List Invocation) {c : Expr → σ → List Invocation}
    (calls : ∀ e, c e (π m) = log (Outcome.state (e.eval run m))) (limit : Nat) :
    FoldingKeeps ctx c limit t (π m) := by
  have settled := F.settles (limit - 1) root
  unfold FoldingKeeps foldStatement
  cases folded : settle (Expr.fold ctx) (limit - 1) t (π m) with
  | ok p s =>
    rw [folded] at settled
    have same := (settled.2.2 m kept).eq never
    refine ⟨settled.1,?_,?_⟩
    · rw [← covers.eval,← covers.eval,same]
    · rw [calls,calls,same]
  | error e s =>
    rw [folded] at settled
    obtain ⟨x,n,failed⟩ := settled.2 m kept
    refine ⟨settled.1,x,π n,?_⟩
    rw [← covers.eval,failed]
    rfl

theorem foldingKeepsMeaning {η : Type} (bs : Bindings η) (honest : bs.Honest)
    (keeps : bs.KeepsVariables) (limit : Nat) (t : Expr)
    (shape : t.RootAssigned Usage.anything.readOnly) :
    (∀ w, FoldingKeeps bs.context bs.invocations limit t w) ∧
      ∀ s, FoldingKeeps bs.context.scoped bs.scopedInvocations limit t s := by
  refine ⟨fun w => ?_,fun s => ?_⟩
  · have F := Bindings.foldable honest keeps w
    exact foldingKeepsOver (m := w.withLog []) bs.recordedOver F (fun _ => id) rfl shape
      (·.host.log) (fun _ => rfl) limit
  · have F := (Bindings.foldable honest keeps s.base).scoped (s := s) fun _ => id
    exact foldingKeepsOver (m := ⟨s.scopes,s.base.withLog []⟩) bs.recordedOver.scoped F
      (fun _ => And.right) ⟨rfl,rfl⟩ shape (·.base.host.log) (c := bs.scopedInvocations)
      (fun _ => rfl) limit

def counting : List (Binding Nat) := [
  .property "scale" ⟨true,pure (.ofNumber 2.0)⟩,
  .property "count" ⟨false,fun w => .ok (.ofNumber (Float.ofNat w.host)) w⟩,
  .method "same" ⟨true,[.any],fun vs => .ofExcept (arrayOf vs)⟩,
  .method "tick" ⟨false,[],fun _ w => .ok (.ofNumber 1.0) { w with host := w.host + 1 }⟩]

def tickStatement : Expr :=
  .assign "a" (.assign "b" (.binary .add (.call "tick" [])
    (.binary .mul (.variable "scale") (.variable "x"))))

theorem countingHonest : (Bindings.ofList counting).Honest := by
  apply honestOfList
  simp only [counting,List.forall_mem_cons,Binding.Honest]
  exact ⟨fun _ => ⟨.ok _,fun _ => rfl⟩,nofun,fun _ vs => ⟨arrayOf vs,fun _ => rfl⟩,nofun,nofun⟩

theorem countingKeepsVariables : (Bindings.ofList counting).KeepsVariables := by
  apply keepsVariablesOfList
  simp only [counting,List.forall_mem_cons,Binding.KeepsVariables]
  exact ⟨fun _ => rfl,fun _ => rfl,fun vs w => by rw [Action.stateOfExcept],fun _ _ => rfl,nofun⟩

theorem tickStatementRooted : tickStatement.RootAssigned Usage.anything.readOnly := by
  refine .assign _ (.assign _ (.body ?_))
  simp [Expr.Within,WithinList,Usage.anything,Usage.readOnly]

theorem foldingKeepsTickStatement :
    ((Bindings.ofList counting).Honest ∧ (Bindings.ofList counting).KeepsVariables ∧
      tickStatement.RootAssigned Usage.anything.readOnly) ∧
    FoldingKeeps (Bindings.ofList counting).context (Bindings.ofList counting).invocations 100
      tickStatement ⟨0,some (NameMap.empty.insert "x" (.ofNumber 5.0))⟩ ∧
    FoldingKeeps (Bindings.ofList counting).context.scoped
      (Bindings.ofList counting).scopedInvocations 100 tickStatement
      ⟨[.empty,NameMap.empty.insert "x" (.ofNumber 5.0)],⟨0,none⟩⟩ := by
  have kept := foldingKeepsMeaning (Bindings.ofList counting) countingHonest countingKeepsVariables
    100 tickStatement tickStatementRooted
  exact ⟨⟨countingHonest,countingKeepsVariables,tickStatementRooted⟩,kept.1 _,kept.2 _⟩

end ArrayCalc
