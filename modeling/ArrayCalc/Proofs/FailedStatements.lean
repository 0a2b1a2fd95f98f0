import ArrayCalc.Proofs.Batches
import ArrayCalc.Proofs.ParsedStatements
import ArrayCalc.Proofs.Requests
/-! A statement that fails leaves the variables as the statements before it left them. A chain of
assignments is evaluated from the inside out, so this rests on two things: no assignment stands below
an operator, and a context takes every assignment once it has taken one. -/
namespace ArrayCalc

section Atomicity
variable {σ V : Type}

/- Only assignments change the variables. One that is refused changes nothing at all, and behind one
that is accepted every other is accepted. -/
structure Context.Atomic (ctx : Context σ) (vars : σ → V) : Prop where
  resolve : ∀ n s, vars (Outcome.state (ctx.resolve n s)) = vars s
  call : ∀ f vs s, vars (Outcome.state (ctx.call f vs s)) = vars s
  refused : ∀ {n v s e t}, ctx.assign n v s = .error e t → t = s
  accepted : ∀ {n v s t}, ctx.assign n v s = .ok () t → ∀ n' v', ∃ m, ctx.assign n' v' t = .ok () m

def Expr.assigned : Expr → Expr
  | .assign _ e => e.assigned
  | e => e

theorem assignedBody {u : Usage} {e : Expr} (within : e.Within u.readOnly) : e.assigned = e := by
  cases e with
  | assign n e => exact within.1.elim
  | _ => rfl

theorem assignedWithin {u : Usage} {e : Expr} (root : e.RootAssigned u.readOnly) :
    e.assigned.Within u.readOnly := by
  induction root with
  | body within => rwa [assignedBody within]
  | assign n value ih => exact ih

variable {ctx : Context σ} {vars : σ → V} {u : Usage}

theorem Context.Atomic.preserves (A : ctx.Atomic vars) (kept : V) :
    ctx.Preserves u.readOnly fun s => vars s = kept where
  resolve _ same := (A.resolve ..).trans same
  call _ same := (A.call ..).trans same
  assign written := written.elim

theorem Context.Atomic.chain (A : ctx.Atomic vars) {e : Expr} (root : e.RootAssigned u.readOnly)
    {s t : σ} {v : Value} (done : e.eval ctx s = .ok v t) :
    e.assigned = e ∨ ∀ n w, ∃ m, ctx.assign n w t = .ok () m := by
  cases root with
  | body within => exact .inl (assignedBody within)
  | assign n value =>
    simp only [Expr.eval] at done
    obtain ⟨w,m,_,done⟩ := Action.bindOkInv done
    obtain ⟨_,m',stored,last⟩ := Action.bindOkInv done
    cases last
    exact .inr (A.accepted stored)

theorem Context.Atomic.failed (A : ctx.Atomic vars) {e : Expr} (root : e.RootAssigned u.readOnly)
    {s t : σ} {x : EvalError} (done : e.eval ctx s = .error x t) :
    t = Outcome.state (e.assigned.eval ctx s) := by
  induction root generalizing x t with
  | body within => rw [assignedBody within,done,Outcome.stateError]
  | @assign n e value ih =>
    simp only [Expr.eval] at done
    cases first : e.eval ctx s with
    | error y m =>
      rw [Action.bindError first] at done
      cases done
      exact ih first
    | ok v m =>
      rw [Action.bindOk first] at done
      cases stored : ctx.assign n v m with
      | ok _ m' =>
        rw [Action.bindOk stored] at done
        contradiction
      | error y m' =>
        rw [Action.bindError stored] at done
        cases done
        obtain alone | accepts := A.chain value first
        · rw [A.refused stored,Expr.assigned,alone,first,Outcome.stateOk]
        · obtain ⟨m'',taken⟩ := accepts n v
          rw [taken] at stored
          contradiction

theorem Context.Atomic.untouched (A : ctx.Atomic vars) {e : Expr} (root : e.RootAssigned u.readOnly)
    {s t : σ} {x : EvalError} (done : e.eval ctx s = .error x t) : vars t = vars s := by
  rw [A.failed root done]
  exact (A.preserves (vars s)).eval e.assigned (assignedWithin root) rfl

end Atomicity

section Contexts
variable {σ V η : Type}

theorem emptyAtomic : (Context.empty : Context σ).Atomic (fun s => s) where
  resolve _ _ := rfl
  call _ _ _ := rfl
  refused refusal := by cases refusal; rfl
  accepted taken := by cases taken

theorem stateProject {τ α : Type} (π : τ → σ) (r : Outcome τ α) :
    Outcome.state (Outcome.project π r) = π (Outcome.state r) := by
  cases r <;> rfl

theorem Bindings.atomic {bs : Bindings η} (keeps : bs.KeepsVariables) :
    bs.context.Atomic Workspace.store where
  resolve n w := by
    have plain := bs.recordedOver.resolve n (w.withLog [])
    rw [show bs.context.resolve n w = _ from plain.symm,stateProject]
    exact resolveKeeps keeps n (w.withLog [])
  call f vs w := by
    have plain := bs.recordedOver.call f vs (w.withLog [])
    rw [show bs.context.call f vs w = _ from plain.symm,stateProject]
    exact callKeeps keeps f vs (w.withLog [])
  refused {n v w e t} refusal := by
    obtain ⟨host,store⟩ := w
    cases store with
    | none => cases refusal; rfl
    | some store => cases refusal
  accepted {n v w t} taken n' v' := by
    obtain ⟨host,store⟩ := w
    cases store with
    | none => cases taken
    | some store => cases taken; exact ⟨_,rfl⟩

def Scoped.variables (vars : σ → V) (s : Scoped σ) : List Store × V := (s.scopes,vars s.base)

theorem Context.Atomic.scoped {ctx : Context σ} {vars : σ → V} (A : ctx.Atomic vars) :
    ctx.scoped.Atomic (Scoped.variables vars) where
  resolve n s := by
    simp only [Context.scoped,Scoped.resolve]
    cases s.stored? n with
    | some v => rfl
    | none => rw [onBaseState,Scoped.variables,A.resolve,Scoped.variables]
  call f vs s := by
    simp only [Context.scoped,onBaseState]
    rw [Scoped.variables,A.call,Scoped.variables]
  refused {n v s e t} refusal := by
    obtain ⟨scopes,base⟩ := s
    cases scopes with
    | cons inner outer => cases refusal
    | nil =>
      simp only [Context.scoped,Scoped.assign,Scoped.onBase] at refusal
      cases stored : ctx.assign n v base with
      | ok _ m => simp [stored] at refusal
      | error y m =>
        rw [stored] at refusal
        cases refusal
        rw [A.refused stored]
  accepted {n v s t} taken n' v' := by
    obtain ⟨scopes,base⟩ := s
    cases scopes with
    | cons inner outer =>
      cases taken
      exact ⟨_,rfl⟩
    | nil =>
      simp only [Context.scoped,Scoped.assign,Scoped.onBase] at taken
      cases stored : ctx.assign n v base with
      | error y m => simp [stored] at taken
      | ok _ m =>
        rw [stored] at taken
        cases taken
        obtain ⟨m',again⟩ := A.accepted stored n' v'
        exact ⟨⟨[],m'⟩,by simp only [Context.scoped,Scoped.assign,Scoped.onBase,again]⟩

end Contexts

section Programs
variable {σ V : Type}

/- The statements before `statement` are evaluated, from state `s` to state `m`, and there `statement`
itself fails. -/
structure StopsAt (ctx : Context σ) (es : List Expr) (s : σ) (statement : Expr) (m : σ)
    (e : EvalError) (t : σ) : Prop where
  before : ∃ earlier later v, es = earlier ++ statement :: later ∧
    evalStatements ctx earlier s = .ok v m
  failed : statement.eval ctx m = .error e t

theorem stopsSomewhere {ctx : Context σ} {es : List Expr} {v : Value} {s t : σ} {e : EvalError}
    (done : es.foldlM (fun _ e => e.eval ctx) v s = .error e t) :
    ∃ earlier statement later w m, es = earlier ++ statement :: later ∧
      earlier.foldlM (fun _ e => e.eval ctx) v s = .ok w m ∧ statement.eval ctx m = .error e t := by
  induction es generalizing v s with
  | nil => cases done
  | cons first rest ih =>
    rw [List.foldlM_cons] at done
    cases evaluated : first.eval ctx s with
    | error x m =>
      rw [Action.bindError evaluated] at done
      cases done
      exact ⟨[],first,rest,v,s,rfl,rfl,evaluated⟩
    | ok w m =>
      rw [Action.bindOk evaluated] at done
      obtain ⟨earlier,statement,later,last,n,rfl,before,failed⟩ := ih done
      refine ⟨first :: earlier,statement,later,last,n,rfl,?_,failed⟩
      rw [List.foldlM_cons,Action.bindOk evaluated,before]

theorem evalStops {ctx : Context σ} {es : List Expr} {s t : σ} {e : EvalError} :
    evalStatements ctx es s = .error e t ↔ ∃ statement m, StopsAt ctx es s statement m e t := by
  constructor
  · intro done
    obtain ⟨earlier,statement,later,v,m,same,before,failed⟩ := stopsSomewhere done
    exact ⟨statement,m,⟨earlier,later,v,same,before⟩,failed⟩
  · rintro ⟨statement,m,⟨earlier,later,v,rfl,before⟩,failed⟩
    unfold evalStatements at before ⊢
    rw [List.foldlM_append,Action.bindOk before,List.foldlM_cons]
    exact Action.bindError failed

theorem evaluateStops {ctx : Context σ} {source : String} {es : List Expr}
    (parsed : parse source = .ok es) {s t : σ} {x : Error} :
    evaluate ctx source s = .error x t ↔
      ∃ e statement m, x = .eval e ∧ StopsAt ctx es s statement m e t := by
  rw [evaluateParsed ctx parsed]
  simp only [EStateM.adaptExcept]
  cases done : evalStatements ctx es s with
  | ok v m =>
    constructor
    · intro failed
      cases failed
    · rintro ⟨e,statement,n,rfl,stops⟩
      rw [evalStops.mpr ⟨statement,n,stops⟩] at done
      contradiction
  | error e m =>
    constructor
    · intro failed
      cases failed
      obtain ⟨statement,n,stops⟩ := evalStops.mp done
      exact ⟨e,statement,n,rfl,stops⟩
    · rintro ⟨e',statement,n,rfl,stops⟩
      rw [evalStops.mpr ⟨statement,n,stops⟩] at done
      cases done
      rfl

/- What a text that fails leaves behind in the state `s`. One that is not in the language makes no
request at all. Any other fails just where a statement of it does; that statement assigns nothing: it
leaves the variables, and altogether what the assigned value, in which nothing is assigned, leaves. -/
structure FailsUntouched (ctx : Context σ) (vars : σ → V) (source : String) (s : σ) : Prop where
  unparsed : ∀ e, parse source = .error e → evaluate ctx source s = .error (.parse e) s ∧
    evaluate ctx.traced source ⟨s,[]⟩ = .error (.parse e) ⟨s,[]⟩
  stops : ∀ es, parse source = .ok es → ∀ x t, evaluate ctx source s = .error x t ↔
    ∃ e statement m, x = .eval e ∧ StopsAt ctx es s statement m e t
  untouched : ∀ es, parse source = .ok es → ∀ statement m e t, StopsAt ctx es s statement m e t →
    vars t = vars m ∧ t = Outcome.state (statement.assigned.eval ctx m) ∧
      statement.assigned.Within Usage.anything.readOnly

theorem Context.Atomic.fails {ctx : Context σ} {vars : σ → V} (A : ctx.Atomic vars) (source : String)
    (s : σ) : FailsUntouched ctx vars source s where
  unparsed e unread := by
    simp only [evaluate,unread]
    exact ⟨rfl,rfl⟩
  stops es parsed x t := evaluateStops parsed
  untouched es parsed statement m e t stops := by
    obtain ⟨⟨earlier,later,v,same,_⟩,failed⟩ := stops
    have root : statement.RootAssigned Usage.anything.readOnly :=
      parsedRooted parsed (fun _ _ _ _ => ⟨trivial,trivial⟩) statement (by simp [same])
    exact ⟨A.untouched root failed,A.failed root failed,assignedWithin root⟩

end Programs

theorem failedStatementUntouched {η : Type} (bs : Bindings η) (keeps : bs.KeepsVariables)
    (source : String) :
    (∀ w, FailsUntouched bs.context Workspace.store source w) ∧
    (∀ s, FailsUntouched bs.context.scoped (Scoped.variables Workspace.store) source s) ∧
    ∀ {σ : Type}, (∀ s : σ, FailsUntouched Context.empty (fun s => s) source s) ∧
      ∀ s : Scoped σ, FailsUntouched Context.empty.scoped (Scoped.variables fun b => b) source s := by
  have atomic := Bindings.atomic keeps
  exact ⟨atomic.fails source,atomic.scoped.fails source,
    emptyAtomic.fails source,emptyAtomic.scoped.fails source⟩

theorem chainParsed : parse "a = 'x'; b = c = a + nope" = .ok
    [.assign "a" (.literal (.ofText "x")),
      .assign "b" (.assign "c" (.binary .add (.variable "a") (.variable "nope")))] :=
  parsedTokens [.name "a",.assign,.quoted "x",.separator,.name "b",.assign,.name "c",.assign,.name "a",
    .plus,.name "nope"] (by decide +kernel) rfl

theorem chainStops :
    let kept : Workspace Nat := ⟨0,some (NameMap.empty.insert "a" (.ofText "x"))⟩
    StopsAt (Bindings.ofList counting).context
      [.assign "a" (.literal (.ofText "x")),
        .assign "b" (.assign "c" (.binary .add (.variable "a") (.variable "nope")))] ⟨0,some .empty⟩
      (.assign "b" (.assign "c" (.binary .add (.variable "a") (.variable "nope")))) kept
      (.unknownName "nope") kept :=
  ⟨⟨[_],[],.ofText "x",rfl,rfl⟩,rfl⟩

theorem chainUntouched :
    (Bindings.ofList counting).KeepsVariables ∧
    ∃ t, evaluate (Bindings.ofList counting).context "a = 'x'; b = c = a + nope" ⟨0,some .empty⟩ =
      .error (.eval (.unknownName "nope")) t ∧
        t.store = some (NameMap.empty.insert "a" (.ofText "x")) := by
  have fails := (failedStatementUntouched (Bindings.ofList counting) countingKeepsVariables
    "a = 'x'; b = c = a + nope").1 ⟨0,some .empty⟩
  refine ⟨countingKeepsVariables,_,?_,(fails.untouched _ chainParsed _ _ _ _ chainStops).1⟩
  exact (fails.stops _ chainParsed _ _).mpr ⟨_,_,_,rfl,chainStops⟩

end ArrayCalc
