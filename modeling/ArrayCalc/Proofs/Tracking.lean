import ArrayCalc.Proofs.Operations
import ArrayCalc.Scope
/-! Two contexts side by side. If every request to one has the same outcome as the request to the
other, from related states to related states, then so has every evaluation; and if the two also give
the same answers about constants, so has every traversal. -/
namespace ArrayCalc

namespace Outcome
variable {ε σ τ α β : Type}

inductive Related (R : τ → σ → Prop) : EStateM.Result ε τ α → EStateM.Result ε σ α → Prop where
  | ok {a t s} (states : R t s) : Related R (.ok a t) (.ok a s)
  | error {e t s} (states : R t s) : Related R (.error e t) (.error e s)

variable {R : τ → σ → Prop} {t : τ} {s : σ}

theorem Related.weaken {Q : τ → σ → Prop} {r : EStateM.Result ε τ α} {r' : EStateM.Result ε σ α}
    (h : Related R r r') (weaker : ∀ t s, R t s → Q t s) : Related Q r r' := by
  cases h with
  | ok states => exact .ok (weaker _ _ states)
  | error states => exact .error (weaker _ _ states)

theorem Related.bind {a : Action τ α} {a' : Action σ α} {k : α → Action τ β} {k' : α → Action σ β}
    (first : Related R (a t) (a' s)) (next : ∀ v t s, R t s → Related R (k v t) (k' v s)) :
    Related R ((a >>= k) t) ((a' >>= k') s) := by
  generalize done : a t = r at first
  generalize done' : a' s = r' at first
  cases first with
  | ok states =>
    rw [Action.bindOk done,Action.bindOk done']
    exact next _ _ _ states
  | error states =>
    rw [Action.bindError done,Action.bindError done']
    exact .error states

theorem Related.ofExcept (r : Except EvalError α) (states : R t s) :
    Related R (Action.ofExcept r t) (Action.ofExcept r s) := by
  cases r with
  | ok v => exact .ok states
  | error e => exact .error states

theorem Related.ask {q : τ → Except EvalError α} {q' : σ → Except EvalError α} (same : q t = q' s)
    (states : R t s) : Related R (Action.ask q t) (Action.ask q' s) := by
  cases asked : q' s with
  | ok v =>
    rw [Action.askOk asked,Action.askOk (same.trans asked)]
    exact .ok states
  | error e =>
    rw [Action.askError asked,Action.askError (same.trans asked)]
    exact .error states

end Outcome

namespace Context
variable {σ τ : Type}

structure Tracks (run : Context τ) (ctx : Context σ) (R : τ → σ → Prop) : Prop where
  resolve : ∀ {n t s}, R t s → Outcome.Related R (run.resolve n t) (ctx.resolve n s)
  assign : ∀ {n v t s}, R t s → Outcome.Related R (run.assign n v t) (ctx.assign n v s)
  call : ∀ {f vs t s}, R t s → Outcome.Related R (run.call f vs t) (ctx.call f vs s)

structure TracksAnswers (run : Context τ) (ctx : Context σ) (R : τ → σ → Prop) : Prop
    extends Tracks run ctx R where
  constantVariable : ∀ {n t s}, R t s → run.isConstantVariable n t = ctx.isConstantVariable n s
  constantCall : ∀ {f ks t s}, R t s → run.isConstantCall f ks t = ctx.isConstantCall f ks s

section Evaluation
variable {run : Context τ} {ctx : Context σ} {R : τ → σ → Prop} {t : τ} {s : σ}

theorem listTracks {es : List Expr}
    (each : ∀ e ∈ es, ∀ {t s}, R t s → Outcome.Related R (e.eval run t) (e.eval ctx s))
    (states : R t s) : Outcome.Related R (evalList run es t) (evalList ctx es s) := by
  induction es generalizing t s with
  | nil => exact .ok states
  | cons e es ih =>
    simp only [evalList]
    apply (each e List.mem_cons_self states).bind
    intro v t s states
    apply (ih (fun e member => each e (List.mem_cons_of_mem _ member)) states).bind
    exact fun vs t s states => .ok states

theorem Tracks.eval (tracks : run.Tracks ctx R) (e : Expr) (states : R t s) :
    Outcome.Related R (e.eval run t) (e.eval ctx s) := by
  induction e using Expr.inductNodes generalizing t s with
  | literal v => exact .ok states
  | empty => exact .ok states
  | name n => exact tracks.resolve states
  | assign n e ih =>
    simp only [Expr.eval]
    apply (ih states).bind
    intro v t s states
    exact (tracks.assign states).bind fun _ t s states => .ok states
  | operation op es takes ih =>
    rw [Operation.evalNode run takes,Operation.evalNode ctx takes]
    apply (listTracks (fun e member => ih e member) states).bind
    exact fun vs t s states => .ofExcept _ states
  | call f es ih =>
    simp only [Expr.eval]
    apply (listTracks (fun e member => ih e member) states).bind
    exact fun vs t s states => tracks.call states

theorem Tracks.statements (tracks : run.Tracks ctx R) (es : List Expr) (v : Value) (states : R t s) :
    Outcome.Related R (es.foldlM (fun _ e => e.eval run) v t)
      (es.foldlM (fun _ e => e.eval ctx) v s) := by
  induction es generalizing v t s with
  | nil => exact .ok states
  | cons e es ih =>
    simp only [List.foldlM_cons]
    exact (tracks.eval e states).bind fun v t s states => ih v states

theorem Tracks.evaluate (tracks : run.Tracks ctx R) (source : String) (states : R t s) :
    Outcome.Related R (evaluate run source t) (evaluate ctx source s) := by
  unfold ArrayCalc.evaluate
  cases parse source with
  | error e => exact .error states
  | ok es =>
    have related := tracks.statements es .unit states
    change Outcome.Related R (EStateM.adaptExcept Error.eval (evalStatements run es) t)
      (EStateM.adaptExcept Error.eval (evalStatements ctx es) s)
    simp only [EStateM.adaptExcept,evalStatements]
    generalize es.foldlM (fun _ e => e.eval run) .unit t = r at related
    generalize es.foldlM (fun _ e => e.eval ctx) .unit s = r' at related
    cases related with
    | ok states => exact .ok states
    | error states => exact .error states

end Evaluation

section Traversals
variable {run : Context τ} {ctx : Context σ} {R : τ → σ → Prop} {t : τ} {s : σ}

theorem Tracks.foldNodeIf (tracks : run.Tracks ctx R) {foldable : Bool} {kind : FoldKind} {e : Expr}
    {k : FoldCount} (states : R t s) :
    Outcome.Related R (foldNodeIf run foldable kind e k t) (foldNodeIf ctx foldable kind e k s) := by
  cases foldable with
  | false => exact .ok states
  | true =>
    change Outcome.Related R (foldNode run kind e k t) (foldNode ctx kind e k s)
    have related := tracks.eval e states
    unfold foldNode
    generalize e.eval run t = r at related
    generalize e.eval ctx s = r' at related
    cases related with
    | ok states => exact .ok states
    | error states => exact .ok states

theorem foldListTracks {es : List Expr}
    (each : ∀ e ∈ es, ∀ {t s}, R t s → Outcome.Related R (e.fold run t) (e.fold ctx s))
    (states : R t s) : Outcome.Related R (foldList run es t) (foldList ctx es s) := by
  induction es generalizing t s with
  | nil => exact .ok states
  | cons e es ih =>
    simp only [foldList]
    apply (each e List.mem_cons_self states).bind
    intro p t s states
    apply (ih (fun e member => each e (List.mem_cons_of_mem _ member)) states).bind
    exact fun q t s states => .ok states

theorem TracksAnswers.fold (tracks : run.TracksAnswers ctx R) (e : Expr) (states : R t s) :
    Outcome.Related R (e.fold run t) (e.fold ctx s) := by
  induction e using Expr.inductNodes generalizing t s with
  | literal v => exact .ok states
  | empty => exact .ok states
  | name n =>
    simp only [Expr.fold]
    apply (Outcome.Related.ask (tracks.constantVariable states) states).bind
    exact fun constant t s states => tracks.foldNodeIf states
  | assign n e ih =>
    simp only [Expr.fold]
    exact (ih states).bind fun p t s states => .ok states
  | operation op es takes ih =>
    rw [Operation.foldNode run takes,Operation.foldNode ctx takes]
    apply (foldListTracks (fun e member => ih e member) states).bind
    exact fun p t s states => tracks.foldNodeIf states
  | call f es ih =>
    simp only [Expr.fold]
    apply (foldListTracks (fun e member => ih e member) states).bind
    intro p t s states
    cases p.1.mapM Expr.literal? with
    | none => exact .ok states
    | some vs =>
      apply (Outcome.Related.ask (tracks.constantCall states) states).bind
      exact fun constant t s states => tracks.foldNodeIf states

theorem settleTracks {α : Type} {pass : α → Action τ (α × FoldCount)}
    {pass' : α → Action σ (α × FoldCount)}
    (each : ∀ a {t s}, R t s → Outcome.Related R (pass a t) (pass' a s)) (more : Nat) (a : α)
    (states : R t s) : Outcome.Related R (settle pass more a t) (settle pass' more a s) := by
  induction more generalizing a t s with
  | zero =>
    simp only [settle]
    exact (each a states).bind fun p t s states => .ok states
  | succ more ih =>
    simp only [settle]
    apply (each a states).bind
    intro p t s states
    split
    · exact .ok states
    · exact (ih p.1 states).bind fun q t s states => .ok states

theorem TracksAnswers.foldStatement (tracks : run.TracksAnswers ctx R) (limit : Nat) (e : Expr)
    (states : R t s) :
    Outcome.Related R (foldStatement run limit e t) (foldStatement ctx limit e s) :=
  settleTracks (fun e _ _ states => tracks.fold e states) (limit - 1) e states

theorem TracksAnswers.foldList (tracks : run.TracksAnswers ctx R) (es : List Expr)
    (states : R t s) : Outcome.Related R (foldList run es t) (foldList ctx es s) :=
  foldListTracks (fun e _ _ _ states => tracks.fold e states) states

theorem TracksAnswers.foldStatements (tracks : run.TracksAnswers ctx R) (limit : Nat)
    (es : List Expr) (states : R t s) :
    Outcome.Related R (foldStatements run limit es t) (foldStatements ctx limit es s) :=
  settleTracks (fun es _ _ states => tracks.foldList es states) (limit - 1) es states

end Traversals

section Scopes
variable {α : Type} {run : Context τ} {ctx : Context σ} {R : τ → σ → Prop}

def Above (R : τ → σ → Prop) (m : Scoped τ) (s : Scoped σ) : Prop :=
  m.scopes = s.scopes ∧ R m.base s.base

theorem onBaseRelated {a : Action τ α} {a' : Action σ α} {m : Scoped τ} {s : Scoped σ}
    (same : m.scopes = s.scopes) (related : Outcome.Related R (a m.base) (a' s.base)) :
    Outcome.Related (Above R) (Scoped.onBase a m) (Scoped.onBase a' s) := by
  unfold Scoped.onBase
  generalize a m.base = r at related
  generalize a' s.base = r' at related
  cases related with
  | ok states => exact .ok ⟨same,states⟩
  | error states => exact .error ⟨same,states⟩

theorem storedAbove {m : Scoped τ} {s : Scoped σ} (states : Above R m s) (n : String) :
    m.stored? n = s.stored? n := by
  simp only [Scoped.stored?,states.1]

theorem Tracks.scoped (tracks : run.Tracks ctx R) : run.scoped.Tracks ctx.scoped (Above R) where
  resolve {n m s} states := by
    simp only [Context.scoped,Scoped.resolve,storedAbove states]
    cases s.stored? n with
    | some v => exact .ok states
    | none => exact onBaseRelated states.1 (tracks.resolve states.2)
  assign {n v m s} states := by
    simp only [Context.scoped,Scoped.assign,states.1]
    cases s.scopes with
    | nil => exact onBaseRelated states.1 (tracks.assign states.2)
    | cons inner outer => exact .ok ⟨rfl,states.2⟩
  call states := onBaseRelated states.1 (tracks.call states.2)

theorem TracksAnswers.scoped (tracks : run.TracksAnswers ctx R) :
    run.scoped.TracksAnswers ctx.scoped (Above R) where
  toTracks := tracks.toTracks.scoped
  constantVariable {n m s} states := by
    simp only [Context.scoped,Scoped.isConstantVariable,storedAbove states]
    cases s.stored? n with
    | some v => rfl
    | none => exact tracks.constantVariable states.2
  constantCall states := tracks.constantCall states.2

end Scopes
end Context
end ArrayCalc
