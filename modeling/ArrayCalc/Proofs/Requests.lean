import ArrayCalc.Proofs.HonestFolding
import ArrayCalc.Proofs.Traversals
/-! The requests that a run makes of its context, each with the state it is made in. Folding assigns
nothing, and it resolves and calls only what the context has just declared constant. Of a host below
it this means that only constant bindings are invoked. Nothing is said here about what these do: one
that is declared constant may still change the host or the variables. -/
namespace ArrayCalc
variable {σ : Type}

inductive Request (σ : Type) where
  | resolve (name : String) (state : σ)
  | assign (name : String) (v : Value) (state : σ)
  | call (name : String) (arguments : List Value) (state : σ)

structure Traced (σ : Type) where
  state : σ
  requests : List (Request σ)

def noting {α : Type} (request : σ → Request σ) (a : Action σ α) : Action (Traced σ) α := fun t =>
  match a t.state with
  | .ok v s => .ok v ⟨s,t.requests ++ [request t.state]⟩
  | .error e s => .error e ⟨s,t.requests ++ [request t.state]⟩

theorem notingRequests {α : Type} (request : σ → Request σ) (a : Action σ α) (t : Traced σ) :
    (Outcome.state (noting request a t)).requests = t.requests ++ [request t.state] := by
  unfold noting
  cases a t.state <;> rfl

theorem notingRelated {α : Type} (request : σ → Request σ) (a : Action σ α) (t : Traced σ) :
    Outcome.Related (fun t s => t.state = s) (noting request a t) (a t.state) := by
  unfold noting
  cases a t.state with
  | ok v s => exact .ok rfl
  | error e s => exact .error rfl

namespace Context

def traced (ctx : Context σ) : Context (Traced σ) where
  resolve n := noting (.resolve n) (ctx.resolve n)
  assign n v := noting (.assign n v) (ctx.assign n v)
  call f vs := noting (.call f vs) (ctx.call f vs)
  isConstantVariable n t := ctx.isConstantVariable n t.state
  isConstantCall f ks t := ctx.isConstantCall f ks t.state

theorem tracedTracks (ctx : Context σ) : ctx.traced.TracksAnswers ctx fun t s => t.state = s where
  resolve states := states ▸ notingRelated ..
  assign states := states ▸ notingRelated ..
  call states := states ▸ notingRelated ..
  constantVariable states := congrArg _ states
  constantCall states := congrArg _ states

end Context

def Request.Constant (ctx : Context σ) : Request σ → Prop
  | .resolve n s => ctx.isConstantVariable n s = .ok true
  | .assign .. => False
  | .call f vs s => ctx.isConstantCall f (vs.map Value.kind) s = .ok true

theorem requestsConstant (ctx : Context σ) :
    ctx.traced.ConstantsKeep fun t => ∀ r ∈ t.requests, r.Constant ctx where
  name {n t} constant kept r member := by
    rw [show (Outcome.state (ctx.traced.resolve n t)).requests = _ from notingRequests ..] at member
    rcases List.mem_append.mp member with earlier | last
    · exact kept r earlier
    · cases List.mem_singleton.mp last
      exact constant
  call {f vs t} constant kept r member := by
    rw [show (Outcome.state (ctx.traced.call f vs t)).requests = _ from notingRequests ..] at member
    rcases List.mem_append.mp member with earlier | last
    · exact kept r earlier
    · cases List.mem_singleton.mp last
      exact constant

section Hosts
variable {η : Type}

theorem Bindings.logKept (bs : Bindings η) (log : List Invocation) :
    bs.recorded.context.ConstantsKeep fun w => w.host.log = log where
  name {n w} constant kept := by
    simp only [context,isConstantVariable,recordedProperty,recordedOverload] at constant
    simp only [context,resolve,recordedProperty,recordedOverload]
    cases bs.resolution n (w.stored? n) with
    | stored v found => simp only [found]; exact kept
    | property p absent found =>
      simp only [absent,found,Option.map_some,Property.recorded,Except.ok.injEq] at constant
      simp only [absent,found,Option.map_some,Property.recorded,constant]
      exact (unloggedLog ..).trans kept
    | method m absent none found =>
      have bare : bs.overload? n [] = some m := found
      simp only [absent,none,bare,Option.map_some,Option.map_none,Method.recorded,
        Except.ok.injEq] at constant
      simp only [absent,none,bare,Option.map_some,Option.map_none,Method.recorded,constant]
      exact (unloggedLog ..).trans kept
    | unknown absent none missing => simp [absent,none,missing] at constant
  call {f vs w} constant kept := by
    simp only [context,isConstantCall,recordedOverload] at constant
    simp only [context,call,recordedOverload]
    cases found : bs.overload? f (vs.map Value.kind) with
    | none => simp [found] at constant
    | some m =>
      simp only [found,Option.map_some,Method.recorded,Except.ok.injEq] at constant
      simp only [Option.map_some,Method.recorded,constant]
      exact (unloggedLog ..).trans kept

end Hosts

theorem Context.ConstantsKeep.scoped {ctx : Context σ} {K : σ → Prop} (quiet : ctx.ConstantsKeep K) :
    ctx.scoped.ConstantsKeep fun s => K s.base where
  name {n s} constant kept := by
    simp only [Context.scoped,Scoped.isConstantVariable] at constant
    simp only [Context.scoped,Scoped.resolve]
    cases found : s.stored? n with
    | some v => exact kept
    | none =>
      simp only [found] at constant
      rw [onBaseState]
      exact quiet.name constant kept
  call {f vs s} constant kept := by
    simp only [Context.scoped,onBaseState]
    exact quiet.call constant kept

section Alone
variable {ctx : Context σ}

structure Context.Answers (ctx : Context σ) : Prop where
  name : ∀ n s, ∃ constant, ctx.isConstantVariable n s = .ok constant
  call : ∀ f ks s, ∃ constant, ctx.isConstantCall f ks s = .ok constant

theorem foldNodeIfOk (foldable : Bool) (kind : FoldKind) (e : Expr) (k : FoldCount) (s : σ) :
    ∃ p t, foldNodeIf ctx foldable kind e k s = .ok p t := by
  cases foldable with
  | false => exact ⟨_,_,rfl⟩
  | true =>
    change ∃ p t, foldNode ctx kind e k s = .ok p t
    unfold foldNode
    cases e.eval ctx s with
    | ok v t => exact ⟨_,_,rfl⟩
    | error x t => exact ⟨_,_,rfl⟩

theorem foldListOk {es : List Expr} (each : ∀ e ∈ es, ∀ s, ∃ p t, e.fold ctx s = .ok p t) (s : σ) :
    ∃ p t, foldList ctx es s = .ok p t := by
  induction es generalizing s with
  | nil => exact ⟨_,_,rfl⟩
  | cons e es ih =>
    obtain ⟨p,m,first⟩ := each e List.mem_cons_self s
    obtain ⟨q,n,rest⟩ := ih (fun e member => each e (List.mem_cons_of_mem _ member)) m
    simp only [foldList]
    rw [Action.bindOk first]
    exact ⟨_,_,Action.bindOk rest⟩

theorem Context.Answers.fold (answers : ctx.Answers) (e : Expr) (s : σ) :
    ∃ p t, e.fold ctx s = .ok p t := by
  induction e using Expr.inductNodes generalizing s with
  | literal v => exact ⟨_,_,rfl⟩
  | empty => exact ⟨_,_,rfl⟩
  | name n =>
    obtain ⟨constant,asked⟩ := answers.name n s
    simp only [Expr.fold]
    rw [Action.bindOk (Action.askOk asked)]
    exact foldNodeIfOk ..
  | assign n e ih =>
    obtain ⟨p,t,folded⟩ := ih s
    simp only [Expr.fold]
    exact ⟨_,_,Action.bindOk folded⟩
  | operation op es takes ih =>
    obtain ⟨p,t,folded⟩ := foldListOk ih s
    rw [Operation.foldNode ctx takes,Action.bindOk folded]
    exact foldNodeIfOk ..
  | call f es ih =>
    obtain ⟨⟨es',k⟩,t,folded⟩ := foldListOk ih s
    simp only [Expr.fold]
    rw [Action.bindOk folded]
    cases literal : es'.mapM Expr.literal? with
    | none => exact ⟨_,_,rfl⟩
    | some vs =>
      obtain ⟨constant,asked⟩ := answers.call f (vs.map Value.kind) t
      change ∃ p m, (Action.ask (ctx.isConstantCall f (vs.map Value.kind)) >>= fun constant =>
        foldNodeIf ctx constant .call (.call f es') k) t = .ok p m
      rw [Action.bindOk (Action.askOk asked)]
      exact foldNodeIfOk ..

theorem settleOk {α : Type} {pass : α → Action σ (α × FoldCount)}
    (each : ∀ a s, ∃ p t, pass a s = .ok p t) (more : Nat) (a : α) (s : σ) :
    ∃ p t, settle pass more a s = .ok p t := by
  induction more generalizing a s with
  | zero =>
    obtain ⟨p,t,first⟩ := each a s
    simp only [settle]
    exact ⟨_,_,Action.bindOk first⟩
  | succ more ih =>
    obtain ⟨p,t,first⟩ := each a s
    simp only [settle]
    rw [Action.bindOk first]
    split
    · exact ⟨_,_,rfl⟩
    · obtain ⟨q,m,rest⟩ := ih p.1 t
      exact ⟨_,_,Action.bindOk rest⟩

theorem Context.Answers.traced (answers : ctx.Answers) : ctx.traced.Answers where
  name n t := answers.name n t.state
  call f ks t := answers.call f ks t.state

theorem closedAnswers : (Context.closed : Context σ).Answers where
  name _ _ := ⟨false,rfl⟩
  call _ _ _ := ⟨false,rfl⟩

theorem closedKeeps (K : Traced σ → Prop) : (Context.closed : Context σ).traced.ConstantsKeep K where
  name constant := by cases constant
  call constant := by cases constant

end Alone

/- A job that may be run over any context. Its requests of the context are all for constants, and it
invokes no host but for constants, also below scopes. Without a context it makes no request, changes
nothing and succeeds. Watching the job does not change it. -/
structure RunsConstants {α : Type} (job : ∀ {τ : Type}, Context τ → Action τ α) : Prop where
  requests : ∀ {σ : Type} (ctx : Context σ) (s : σ),
    Outcome.Related (fun t s => t.state = s) (job ctx.traced ⟨s,[]⟩) (job ctx s) ∧
      ∀ r ∈ (Outcome.state (job ctx.traced ⟨s,[]⟩)).requests, r.Constant ctx
  host : ∀ {η : Type} (bs : Bindings η) (w : Workspace η),
    Outcome.Related (fun m w => m.unrecorded = w) (job bs.recorded.context (w.withLog []))
        (job bs.context w) ∧
      (Outcome.state (job bs.recorded.context (w.withLog []))).host.log = []
  scopes : ∀ {η : Type} (bs : Bindings η) (s : Scoped (Workspace η)),
    Outcome.Related (Context.Above fun m w => m.unrecorded = w)
        (job bs.recorded.context.scoped ⟨s.scopes,s.base.withLog []⟩) (job bs.context.scoped s) ∧
      (Outcome.state
        (job bs.recorded.context.scoped ⟨s.scopes,s.base.withLog []⟩)).base.host.log = []
  alone : ∀ {σ : Type} (s : σ), ∃ result, job Context.closed.traced ⟨s,[]⟩ = .ok result ⟨s,[]⟩

theorem runsConstants {α : Type} {job : ∀ {τ : Type}, Context τ → Action τ α}
    (tracks : ∀ {τ σ : Type} {run : Context τ} {ctx : Context σ} {R : τ → σ → Prop},
      run.TracksAnswers ctx R → ∀ {t s}, R t s → Outcome.Related R (job run t) (job ctx s))
    (keeps : ∀ {σ : Type} {ctx : Context σ} {K : σ → Prop}, ctx.ConstantsKeep K →
      ∀ {s}, K s → K (Outcome.state (job ctx s)))
    (succeeds : ∀ {σ : Type} {ctx : Context σ}, ctx.Answers → ∀ s, ∃ result t, job ctx s = .ok result t) :
    RunsConstants job where
  requests ctx s := by
    constructor
    · exact tracks ctx.tracedTracks rfl
    · apply keeps (requestsConstant ctx)
      exact fun r member => absurd member List.not_mem_nil
  host bs w := ⟨tracks bs.recordedTracks rfl,keeps (bs.logKept []) rfl⟩
  scopes bs s := ⟨tracks bs.recordedTracks.scoped ⟨rfl,rfl⟩,keeps (bs.logKept []).scoped rfl⟩
  alone {σ} s := by
    obtain ⟨result,t,done⟩ := succeeds closedAnswers.traced (⟨s,[]⟩ : Traced σ)
    have kept := keeps (closedKeeps (· = (⟨s,[]⟩ : Traced σ))) rfl
    rw [done] at kept
    cases kept
    exact ⟨result,done⟩

theorem foldingRunsConstants (limit : Nat) :
    (∀ e, RunsConstants fun {_} ctx => foldStatement ctx limit e) ∧
      ∀ es, RunsConstants fun {_} ctx => foldStatements ctx limit es := by
  constructor
  · intro e
    apply runsConstants
    · exact fun tracks _ _ states => tracks.foldStatement limit e states
    · exact fun quiet _ kept => quiet.foldStatement limit e kept
    · exact fun answers s => settleOk answers.fold (limit - 1) e s
  · intro es
    apply runsConstants
    · exact fun tracks _ _ states => tracks.foldStatements limit es states
    · exact fun quiet _ kept => quiet.foldStatements limit es kept
    · exact fun answers s =>
        settleOk (fun es s => foldListOk (fun e _ => answers.fold e) s) (limit - 1) es s

end ArrayCalc
