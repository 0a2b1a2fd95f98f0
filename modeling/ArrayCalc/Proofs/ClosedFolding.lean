import ArrayCalc.Proofs.Requests
/-! Folding without a context. No name and no call is taken for constant then, so only operations on
literals are folded, and these mean the same wherever they are evaluated. A folded tree therefore
answers as the tree does in every context, and asks of it the same in the same order. -/
namespace ArrayCalc
variable {σ τ : Type}

theorem closedFoldable (start : σ) (run : Context τ) :
    Foldable Context.closed start run .anything (fun _ => True) (fun _ => False) := by
  refine Truthful.foldable ⟨?_,?_,?_,?_⟩ ⟨fun _ _ => trivial,fun _ _ => trivial,fun _ _ => trivial⟩
  · intro n _ constant
    cases constant
  · intro n e s _ unknown
    cases unknown
  · intro f vs _ constant
    cases constant
  · intro f vs e s _ unknown
    cases unknown

def Expr.Equivalent (e e' : Expr) : Prop :=
  ∀ {τ : Type} (ctx : Context τ) (s : τ), e'.eval ctx s = e.eval ctx s

theorem Expr.Equivalent.trans {e m e' : Expr} (first : e.Equivalent m) (second : m.Equivalent e') :
    e.Equivalent e' := fun ctx s => (second ctx s).trans (first ctx s)

theorem closedFold {e e' : Expr} {k : FoldCount} {s t : σ}
    (folded : e.fold Context.closed s = .ok (e',k) t) : e.Equivalent e' := by
  intro τ ctx m
  have folds := (closedFoldable s ctx).folds e (withinAnything e)
  rw [folded] at folds
  exact ((folds.2.2 m trivial).alike.eq fun _ gone => gone).symm

def EquivalentLists (es es' : List Expr) : Prop :=
  ∀ {τ : Type} (ctx : Context τ) (v : Value) (s : τ),
    es'.foldlM (fun _ e => e.eval ctx) v s = es.foldlM (fun _ e => e.eval ctx) v s

theorem EquivalentLists.trans {es ms es' : List Expr} (first : EquivalentLists es ms)
    (second : EquivalentLists ms es') : EquivalentLists es es' :=
  fun ctx v s => (second ctx v s).trans (first ctx v s)

theorem EquivalentLists.cons {e e' : Expr} {es es' : List Expr} (first : e.Equivalent e')
    (rest : EquivalentLists es es') : EquivalentLists (e :: es) (e' :: es') := by
  intro τ ctx v s
  simp only [List.foldlM_cons]
  cases done : e.eval ctx s with
  | ok w t => rw [Action.bindOk done,Action.bindOk ((first ctx s).trans done),rest ctx w t]
  | error x t => rw [Action.bindError done,Action.bindError ((first ctx s).trans done)]

theorem closedFoldList {es es' : List Expr} {k : FoldCount} {s t : σ}
    (folded : foldList Context.closed es s = .ok (es',k) t) : EquivalentLists es es' := by
  induction es generalizing es' k s with
  | nil => cases folded; exact fun ctx v s => rfl
  | cons e es ih =>
    simp only [foldList] at folded
    obtain ⟨⟨e₁,j⟩,m,first,folded⟩ := Action.bindOkInv folded
    obtain ⟨⟨es₁,i⟩,n,rest,folded⟩ := Action.bindOkInv folded
    cases folded
    exact EquivalentLists.cons (closedFold first) (ih rest)

theorem settleRelates {α : Type} {pass : α → Action σ (α × FoldCount)} {R : α → α → Prop}
    (trans : ∀ {a b c}, R a b → R b c → R a c)
    (each : ∀ {a a' k s t}, pass a s = .ok (a',k) t → R a a') (more : Nat) {a a' : α}
    {stats : FoldStats} {s t : σ} (settled : settle pass more a s = .ok (a',stats) t) : R a a' :=
  settleTotals (R := fun _ => R) trans each more settled

theorem closedTracks : (Context.closed : Context τ).TracksAnswers (Context.closed : Context σ)
    fun _ _ => True where
  resolve _ := .error trivial
  assign _ := .error trivial
  call _ := .error trivial
  constantVariable _ := rfl
  constantCall _ := rfl

theorem closedQuiet (s : σ) : (Context.closed : Context σ).ConstantsKeep (· = s) where
  name constant := by cases constant
  call constant := by cases constant

theorem closedResult {α : Type} {job : ∀ {τ : Type}, Context τ → Action τ α}
    (succeeds : ∃ result t, job Context.closed () = .ok result t)
    (tracks : ∀ {σ : Type} (s : σ),
      Outcome.Related (fun _ _ => True) (job Context.closed ()) (job Context.closed s))
    (keeps : ∀ {σ : Type} (s : σ), Outcome.state (job Context.closed s) = s) :
    ∃ result, ∀ {σ : Type} (s : σ), job Context.closed s = .ok result s := by
  obtain ⟨result,_,done⟩ := succeeds
  refine ⟨result,fun s => ?_⟩
  have related := tracks s
  have kept := keeps s
  rw [done] at related
  generalize job Context.closed s = r at related kept
  cases related with
  | ok _ => exact congrArg _ kept

theorem closedStatement (limit : Nat) (e : Expr) :
    ∃ result, ∀ {σ : Type} (s : σ), foldStatement Context.closed limit e s = .ok result s := by
  refine @closedResult _ (fun {_} ctx => foldStatement ctx limit e) ?_ ?_ ?_
  · exact settleOk closedAnswers.fold (limit - 1) e ()
  · exact fun s => closedTracks.foldStatement limit e trivial
  · exact fun s => (closedQuiet s).foldStatement limit e rfl

theorem closedStatements (limit : Nat) (es : List Expr) :
    ∃ result, ∀ {σ : Type} (s : σ), foldStatements Context.closed limit es s = .ok result s := by
  refine @closedResult _ (fun {_} ctx => foldStatements ctx limit es) ?_ ?_ ?_
  · exact settleOk (fun es s => foldListOk (fun e _ => closedAnswers.fold e) s) (limit - 1) es ()
  · exact fun s => closedTracks.foldStatements limit es trivial
  · exact fun s => (closedQuiet s).foldStatements limit es rfl

/- Two jobs that no context can tell apart: from every state the same outcome, by the same requests. -/
structure SameRuns (job job' : ∀ {τ : Type}, Context τ → Action τ Value) : Prop where
  outcome : ∀ {τ : Type} (ctx : Context τ) (s : τ), job' ctx s = job ctx s
  requests : ∀ {τ : Type} (ctx : Context τ) (s : τ),
    (Outcome.state (job' ctx.traced ⟨s,[]⟩)).requests = (Outcome.state (job ctx.traced ⟨s,[]⟩)).requests

theorem sameRuns {job job' : ∀ {τ : Type}, Context τ → Action τ Value}
    (same : ∀ {τ : Type} (ctx : Context τ) (s : τ), job' ctx s = job ctx s) : SameRuns job job' :=
  ⟨same,fun ctx s => by rw [same ctx.traced]⟩

theorem closedFoldingSound (limit : Nat) :
    (∀ e, ∃ e' stats,
      (∀ {σ : Type} (s : σ), foldStatement Context.closed limit e s = .ok (e',stats) s) ∧
        SameRuns (fun {_} ctx => e.eval ctx) (fun {_} ctx => e'.eval ctx)) ∧
    ∀ es, ∃ es' stats,
      (∀ {σ : Type} (s : σ), foldStatements Context.closed limit es s = .ok (es',stats) s) ∧
        SameRuns (fun {_} ctx => evalStatements ctx es) (fun {_} ctx => evalStatements ctx es') := by
  constructor
  · intro e
    obtain ⟨⟨e',stats⟩,folded⟩ := closedStatement limit e
    have same : e.Equivalent e' :=
      settleRelates (R := Expr.Equivalent) .trans closedFold (limit - 1) (folded ())
    exact ⟨e',stats,folded,sameRuns same⟩
  · intro es
    obtain ⟨⟨es',stats⟩,folded⟩ := closedStatements limit es
    have same : EquivalentLists es es' :=
      settleRelates (R := EquivalentLists) .trans closedFoldList (limit - 1) (folded ())
    exact ⟨es',stats,folded,sameRuns fun ctx s => same ctx .unit s⟩

end ArrayCalc
