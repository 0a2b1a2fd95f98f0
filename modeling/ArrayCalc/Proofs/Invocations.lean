import ArrayCalc.Proofs.Declarations
import ArrayCalc.Proofs.Tracking
import ArrayCalc.Scope
/-! The invocations of a host. Recording writes down every read of a property and every call of a
method that is not declared constant, in order, and changes nothing else: a recorded evaluation,
less its log, is the evaluation itself. -/
namespace ArrayCalc

namespace Outcome
variable {σ τ α : Type}

def project (π : τ → σ) : Outcome τ α → Outcome σ α
  | .ok a t => .ok a (π t)
  | .error e t => .error e (π t)

end Outcome

namespace Context
variable {σ τ : Type}

/- `run` acts on a richer state, and as `ctx` does on what `π` keeps of it. -/
structure Over (run : Context τ) (ctx : Context σ) (π : τ → σ) : Prop where
  resolve : ∀ n t, Outcome.project π (run.resolve n t) = ctx.resolve n (π t)
  assign : ∀ n v t, Outcome.project π (run.assign n v t) = ctx.assign n v (π t)
  call : ∀ f vs t, Outcome.project π (run.call f vs t) = ctx.call f vs (π t)

theorem projectIff {α : Type} {π : τ → σ} {r : Outcome τ α} {r' : Outcome σ α} :
    Outcome.project π r = r' ↔ Outcome.Related (fun t s => π t = s) r r' := by
  constructor
  · rintro rfl
    cases r with
    | ok a t => exact .ok rfl
    | error e t => exact .error rfl
  · intro related
    cases related with
    | ok states => cases states; rfl
    | error states => cases states; rfl

theorem projectOfExcept {α : Type} (π : τ → σ) (r : Except EvalError α) (t : τ) :
    Outcome.project π (Action.ofExcept r t) = Action.ofExcept r (π t) :=
  projectIff.mpr (.ofExcept r rfl)

theorem Over.tracks {π : τ → σ} {run : Context τ} {ctx : Context σ} (covers : run.Over ctx π) :
    run.Tracks ctx fun t s => π t = s where
  resolve states := projectIff.mp (states ▸ covers.resolve ..)
  assign states := projectIff.mp (states ▸ covers.assign ..)
  call states := projectIff.mp (states ▸ covers.call ..)

theorem Over.eval {π : τ → σ} {run : Context τ} {ctx : Context σ} (covers : run.Over ctx π) (e : Expr)
    (t : τ) : Outcome.project π (e.eval run t) = e.eval ctx (π t) :=
  projectIff.mpr (covers.tracks.eval e rfl)

theorem Over.scoped {π : τ → σ} {run : Context τ} {ctx : Context σ} (covers : run.Over ctx π) :
    run.scoped.Over ctx.scoped fun s => ⟨s.scopes,π s.base⟩ := by
  have projected : ∀ (m : Scoped τ) (s : Scoped σ), Above (fun t s => π t = s) m s →
      (⟨m.scopes,π m.base⟩ : Scoped σ) = s := by
    rintro m ⟨scopes,base⟩ ⟨same,states⟩
    cases same
    cases states
    rfl
  have tracks := covers.tracks.scoped
  exact {
    resolve := fun n s => projectIff.mpr ((tracks.resolve ⟨rfl,rfl⟩).weaken projected)
    assign := fun n v s => projectIff.mpr ((tracks.assign ⟨rfl,rfl⟩).weaken projected)
    call := fun f vs s => projectIff.mpr ((tracks.call ⟨rfl,rfl⟩).weaken projected) }

end Context

inductive Invocation where
  | read (name : String)
  | called (name : String) (parameters : List Parameter) (arguments : List Value)
  deriving DecidableEq, Repr

structure Logged (ι η : Type) where
  host : η
  log : List ι

abbrev Recorded (η : Type) : Type := Logged Invocation η

namespace Workspace
variable {ι η : Type}

def unrecorded (w : Workspace (Logged ι η)) : Workspace η := ⟨w.host.host,w.store⟩

def withLog (w : Workspace η) (log : List ι) : Workspace (Logged ι η) := ⟨⟨w.host,log⟩,w.store⟩

end Workspace

section Recording
variable {ι η α : Type}

def unlogged (a : Action (Workspace η) α) : Action (Workspace (Logged ι η)) α := fun w =>
  match a w.unrecorded with
  | .ok v m => .ok v (m.withLog w.host.log)
  | .error e m => .error e (m.withLog w.host.log)

def logged (i : ι) (a : Action (Workspace η) α) : Action (Workspace (Logged ι η)) α :=
  fun w => unlogged a (w.unrecorded.withLog (w.host.log ++ [i]))

theorem unloggedLog (a : Action (Workspace η) α) (w : Workspace (Logged ι η)) :
    (Outcome.state (unlogged a w)).host.log = w.host.log := by
  simp only [unlogged]
  cases a w.unrecorded <;> rfl

def record (constant : Bool) (i : Invocation) (a : Action (Workspace η) α) :
    Action (Workspace (Recorded η)) α := if constant then unlogged a else logged i a

theorem projectRecord (constant : Bool) (i : Invocation) (a : Action (Workspace η) α)
    (w : Workspace (Recorded η)) :
    Outcome.project Workspace.unrecorded (record constant i a w) = a w.unrecorded := by
  cases constant with
  | true =>
    simp only [record,if_true,unlogged]
    cases a w.unrecorded <;> rfl
  | false =>
    change Outcome.project _ (unlogged a (w.unrecorded.withLog (w.host.log ++ [i]))) = _
    simp only [unlogged]
    change Outcome.project _ (match a w.unrecorded with | .ok v m => _ | .error e m => _) = _
    cases a w.unrecorded <;> rfl

def Property.recorded (name : String) (p : Property η) : Property (Recorded η) :=
  ⟨p.constant,record p.constant (.read name) p.read⟩

def Method.recorded (name : String) (m : Method η) : Method (Recorded η) :=
  ⟨m.constant,m.parameters,fun vs => record m.constant (.called name m.parameters vs) (m.invoke vs)⟩

namespace Bindings

def recorded (bs : Bindings η) : Bindings (Recorded η) := bs.map Property.recorded Method.recorded

theorem recordedProperty (bs : Bindings η) (name : String) :
    bs.recorded.property? name = (bs.property? name).map (Property.recorded name) :=
  bs.mapProperty ..

theorem recordedOverload (bs : Bindings η) (name : String) (ks : List Kind) :
    bs.recorded.overload? name ks = (bs.overload? name ks).map (Method.recorded name) :=
  bs.mapOverload _ Method.recorded (fun _ _ => rfl) ..

section Mapped
variable {bs : Bindings η} {f : String → Property η → Property (Recorded η)}
  {g : String → Method η → Method (Recorded η)}

theorem mappedOver (accepting : ∀ n m, (g n m).parameters = m.parameters)
    (reads : ∀ n p w, Outcome.project Workspace.unrecorded ((f n p).read w) = p.read w.unrecorded)
    (invokes : ∀ n m vs w,
      Outcome.project Workspace.unrecorded ((g n m).invoke vs w) = m.invoke vs w.unrecorded) :
    (bs.map f g).context.Over bs.context Workspace.unrecorded where
  resolve n w := by
    have same : w.unrecorded.stored? n = w.stored? n := rfl
    simp only [context,resolve,mapProperty,mapOverload _ _ _ accepting,same]
    cases w.stored? n with
    | some v => rfl
    | none =>
      cases bs.property? n with
      | some p => exact reads ..
      | none =>
        cases bs.overload? n [] with
        | some m => exact invokes ..
        | none => rfl
  assign n v w := by
    obtain ⟨host,store⟩ := w
    cases store <;> rfl
  call f vs w := by
    simp only [context,call,mapOverload _ _ _ accepting]
    cases bs.overload? f (vs.map Value.kind) with
    | some m => exact invokes ..
    | none => rfl

theorem mappedTracks (covers : (bs.map f g).context.Over bs.context Workspace.unrecorded)
    (accepting : ∀ n m, (g n m).parameters = m.parameters)
    (flags : ∀ n p, (f n p).constant = p.constant) (flags' : ∀ n m, (g n m).constant = m.constant) :
    (bs.map f g).context.TracksAnswers bs.context fun w m => w.unrecorded = m where
  toTracks := covers.tracks
  constantVariable {n w m} states := by
    subst states
    have same : w.unrecorded.stored? n = w.stored? n := rfl
    simp only [context,isConstantVariable,mapProperty,mapOverload _ _ _ accepting,same]
    cases w.stored? n with
    | some v => rfl
    | none =>
      cases bs.property? n with
      | some p => simp only [Option.map_some,flags]
      | none =>
        cases bs.overload? n [] with
        | some m => simp only [Option.map_some,Option.map_none,flags']
        | none => rfl
  constantCall {f ks w m} states := by
    simp only [context,isConstantCall,mapOverload _ _ _ accepting]
    cases bs.overload? f ks with
    | some m => simp only [Option.map_some,flags']
    | none => rfl

end Mapped

theorem recordedOver (bs : Bindings η) :
    bs.recorded.context.Over bs.context Workspace.unrecorded :=
  mappedOver (f := Property.recorded) (g := Method.recorded) (fun _ _ => rfl)
    (fun _ _ _ => projectRecord ..) fun _ _ _ _ => projectRecord ..

theorem recordedTracks (bs : Bindings η) :
    bs.recorded.context.TracksAnswers bs.context fun w m => w.unrecorded = m :=
  mappedTracks (f := Property.recorded) (g := Method.recorded) bs.recordedOver (fun _ _ => rfl)
    (fun _ _ => rfl) fun _ _ => rfl

def invocations (bs : Bindings η) (e : Expr) (w : Workspace η) : List Invocation :=
  (Outcome.state (e.eval bs.recorded.context (w.withLog []))).host.log

def scopedInvocations (bs : Bindings η) (e : Expr) (s : Scoped (Workspace η)) : List Invocation :=
  (Outcome.state (e.eval bs.recorded.context.scoped ⟨s.scopes,s.base.withLog []⟩)).base.host.log

end Bindings
end Recording
end ArrayCalc
