import ArrayCalc.Proofs.OperatorBounds
import ArrayCalc.Proofs.LibraryBounds
import ArrayCalc.Proofs.Lexing
import ArrayCalc.Proofs.Overlay
import ArrayCalc.Proofs.ParsedStatements
import ArrayCalc.Proofs.UnfoldedSession
import ArrayCalc.Proofs.ValueInvariants
/-! Whatever a session is given, its arrays have elements: those it answers with, those it keeps as
variables and those it folds into statements. That is also what keeps its functions within the
arrays they read. -/
namespace ArrayCalc

section Watching
variable {η : Type}

def Property.watched (name : String) (p : Property η) : Property (Recorded η) :=
  ⟨p.constant,logged (.read name) p.read⟩

def Method.watched (name : String) (m : Method η) : Method (Recorded η) :=
  ⟨m.constant,m.parameters,fun vs => logged (.called name m.parameters vs) (m.invoke vs)⟩

def Bindings.watched (bs : Bindings η) : Bindings (Recorded η) := bs.map Property.watched Method.watched

theorem Bindings.watchedProperty (bs : Bindings η) (name : String) :
    bs.watched.property? name = (bs.property? name).map (Property.watched name) :=
  bs.mapProperty ..

theorem Bindings.watchedOverload (bs : Bindings η) (name : String) (ks : List Kind) :
    bs.watched.overload? name ks = (bs.overload? name ks).map (Method.watched name) :=
  bs.mapOverload _ Method.watched (fun _ _ => rfl) ..

theorem Bindings.watchedTracks (bs : Bindings η) :
    bs.watched.context.TracksAnswers bs.context fun w m => w.unrecorded = m := by
  apply mappedTracks (mappedOver ..)
  · exact fun _ _ => rfl
  · exact fun _ _ => rfl
  · exact fun _ _ => rfl
  · exact fun _ _ => rfl
  · exact fun _ _ _ => projectRecord false ..
  · exact fun _ _ _ _ => projectRecord false ..

end Watching

section Lines
variable {σ τ : Type}

def statementOver (ctx : Context σ) (folding : Bool) (e : Expr) : Action σ Value := fun s =>
  if folding then
    match foldStatement ctx traversalLimit e s with
    | .ok (folded,_) s => folded.eval ctx s
    | .error _ s => e.eval ctx s
  else e.eval ctx s

def lineOver (ctx : Context σ) (folding : Bool) (es : List Expr) : Action σ Value := do
  let v ← es.foldlM (fun _ e => statementOver ctx folding e) .unit
  unless v.isUnit do ctx.assign Session.answer v
  return v

theorem statementOverSession (folding : Bool) (e : Expr) :
    statementOver Session.context folding e = Session.evalStatement folding e := by
  funext w
  unfold statementOver Session.evalStatement
  cases folding with
  | false => rfl
  | true =>
    cases foldStatement Session.context traversalLimit e w <;> rfl

theorem lineOverSession (folding : Bool) (es : List Expr) :
    lineOver Session.context folding es = Session.evalLine folding es := by
  simp only [lineOver,Session.evalLine,statementOverSession]

section
variable {run : Context τ} {ctx : Context σ} {R : τ → σ → Prop} {t : τ} {s : σ}

theorem Context.TracksAnswers.statement (tracks : run.TracksAnswers ctx R) (folding : Bool) (e : Expr)
    (states : R t s) :
    Outcome.Related R (statementOver run folding e t) (statementOver ctx folding e s) := by
  unfold statementOver
  cases folding with
  | false => exact tracks.eval e states
  | true =>
    have related := tracks.foldStatement traversalLimit e states
    simp only [if_true]
    generalize ArrayCalc.foldStatement run traversalLimit e t = r at related
    generalize ArrayCalc.foldStatement ctx traversalLimit e s = r' at related
    cases related with
    | ok states => exact tracks.eval _ states
    | error states => exact tracks.eval e states

theorem Context.TracksAnswers.line (tracks : run.TracksAnswers ctx R) (folding : Bool)
    (es : List Expr) (states : R t s) :
    Outcome.Related R (lineOver run folding es t) (lineOver ctx folding es s) := by
  have statements : ∀ v {t s}, R t s → Outcome.Related R
      (es.foldlM (fun _ e => statementOver run folding e) v t)
      (es.foldlM (fun _ e => statementOver ctx folding e) v s) := by
    induction es with
    | nil => exact fun v t s states => .ok states
    | cons e es ih =>
      intro v t s states
      simp only [List.foldlM_cons]
      exact (tracks.statement folding e states).bind fun v t s states => ih v states
  unfold lineOver
  apply (statements .unit states).bind
  intro v t s states
  cases v.isUnit with
  | true => exact .ok states
  | false => exact (tracks.assign states).bind fun _ t s states => .ok states

end

section
variable {ctx : Context σ} {K : σ → Prop} {V : Value → Prop} {s : σ}

theorem Context.Maintains.statement (M : ctx.Maintains K V) (folding : Bool) {e : Expr}
    (literals : e.Literals V) (kept : K s) : Outcome.Yields K V (statementOver ctx folding e s) := by
  unfold statementOver
  cases folding with
  | false => exact M.eval literals kept
  | true =>
    have done := M.foldStatement traversalLimit literals kept
    simp only [if_true]
    cases folded : ArrayCalc.foldStatement ctx traversalLimit e s with
    | ok p t => rw [folded] at done; exact M.eval done.1 done.2
    | error x t => rw [folded] at done; exact M.eval literals done

theorem Context.Maintains.line (M : ctx.Maintains K V) (folding : Bool) {es : List Expr}
    (literals : ∀ e ∈ es, e.Literals V) (kept : K s) :
    Outcome.Yields K V (lineOver ctx folding es s) := by
  have statements : ∀ v {s}, V v → K s →
      Outcome.Yields K V (es.foldlM (fun _ e => statementOver ctx folding e) v s) := by
    induction es with
    | nil => exact fun v s holds kept => ⟨holds,kept⟩
    | cons e es ih =>
      intro v s holds kept
      simp only [List.foldlM_cons]
      apply (M.statement folding (literals e List.mem_cons_self) kept).bind
      exact fun v t holds kept =>
        ih (fun e member => literals e (List.mem_cons_of_mem _ member)) v holds kept
  unfold lineOver
  apply (statements .unit M.unit kept).bind
  intro v t holds kept
  cases v.isUnit with
  | true => exact ⟨holds,kept⟩
  | false => exact (M.assign holds kept).bind fun _ t _ kept => ⟨holds,kept⟩

theorem Context.Maintains.tracked {run : Context τ} {R : τ → σ → Prop} {H : τ → Prop}
    (M : run.Maintains H V) (tracks : run.Tracks ctx R) (follows : ∀ s, K s → ∃ t, R t s ∧ H t)
    (leads : ∀ t s, R t s → H t → K s) : ctx.Maintains K V := by
  have through {α : Type} {P : α → Prop} {r : Outcome τ α} {r' : Outcome σ α}
      (related : Outcome.Related R r r') (done : Outcome.Yields H P r) : Outcome.Yields K P r' := by
    cases related with
    | ok states => exact ⟨done.1,leads _ _ states done.2⟩
    | error states => exact leads _ _ states done
  exact {
    unit := M.unit
    apply := M.apply
    resolve := fun {n s} kept => by
      obtain ⟨t,states,held⟩ := follows s kept
      exact through (tracks.resolve states) (M.resolve held)
    assign := fun {n v s} holds kept => by
      obtain ⟨t,states,held⟩ := follows s kept
      exact through (tracks.assign states) (M.assign holds held)
    call := fun {f vs s} holds kept => by
      obtain ⟨t,states,held⟩ := follows s kept
      exact through (tracks.call states) (M.call holds held) }

end
end Lines

def StoreFilled (store : Store) : Prop := ∀ n v, store.get? n = some v → v.Filled

def Workspace.Filled {η : Type} (w : Workspace η) : Prop := ∃ store, w.store = some store ∧ StoreFilled store

theorem emptyFilled : StoreFilled .empty := by
  intro n v found
  rw [NameMap.emptyGet] at found
  contradiction

theorem insertFilled {store : Store} (filled : StoreFilled store) (n : String) {v : Value}
    (value : v.Filled) : StoreFilled (store.insert n v) := by
  intro m u found
  rw [NameMap.getInsert] at found
  split at found
  · cases found
    exact value
  · exact filled m u found

namespace Session

inductive InBounds : Invocation → Prop where
  | read (name) : InBounds (.read name)
  | clear : InBounds (.called "clear" [] [])
  | function {f ps vs body r} (reading : Functions.Reading f ps body)
      (inside : body vs = Checked.inside r) (same : ∀ w, context.call f vs w = Action.ofExcept r w) :
      InBounds (.called f ps vs)

def Watched (w : Workspace (Recorded Unit)) : Prop := w.Filled ∧ ∀ i ∈ w.host.log, InBounds i

theorem watchedAgain {w : Workspace (Recorded Unit)} (kept : Watched w) {store : Store}
    (filled : StoreFilled store) {i : Invocation} (inside : InBounds i) :
    Watched ⟨⟨w.host.host,w.host.log ++ [i]⟩,some store⟩ := by
  refine ⟨⟨store,rfl,filled⟩,fun j member => ?_⟩
  rcases List.mem_append.mp member with earlier | last
  · exact kept.2 j earlier
  · cases List.mem_singleton.mp last
    exact inside

theorem loggedSteady {a : Action (Workspace Unit) Value} {r : Except EvalError Value}
    (steady : ∀ w, a w = Action.ofExcept r w) (i : Invocation) (w : Workspace (Recorded Unit)) :
    logged i a w = Action.ofExcept r ⟨⟨w.host.host,w.host.log ++ [i]⟩,w.store⟩ := by
  simp only [logged,unlogged,steady]
  cases r <;> rfl

theorem invocationYields {i : Invocation} {a : Action (Workspace Unit) Value}
    {r : Except EvalError Value} (steady : ∀ w, a w = Action.ofExcept r w)
    (filled : ∀ v, r = .ok v → v.Filled) (inside : InBounds i) {w : Workspace (Recorded Unit)}
    (kept : Watched w) : Outcome.Yields Watched Value.Filled (logged i a w) := by
  obtain ⟨store,same,values⟩ := kept.1
  rw [loggedSteady steady,same]
  exact .ofExcept filled (watchedAgain kept values inside)

theorem methodYields {f : String} {m : Method Unit} {vs : List Value}
    (found : bindings.overload? f (vs.map Value.kind) = some m) (filled : ∀ v ∈ vs, v.Filled)
    {w : Workspace (Recorded Unit)} (kept : Watched w) :
    Outcome.Yields Watched Value.Filled
      (logged (.called f m.parameters vs) (m.invoke vs) w) := by
  obtain ⟨declared,accepts⟩ := Bindings.overloadDeclared found
  cases Functions.librarySafe _ declared with
  | function reading safe =>
    obtain ⟨r,inside,steady,result⟩ := safe (fittingOf accepts) filled
    refine invocationYields steady result (.function reading inside fun w => ?_) kept
    simp only [context,Bindings.context,Bindings.call,found,steady]
  | clear bare forgets =>
    have none : vs = [] := by
      have fitting := fittingOf accepts
      rw [bare] at fitting
      exact fitting.nil
    subst none
    obtain ⟨store,same,_⟩ := kept.1
    rw [bare]
    simp only [logged,unlogged,forgets]
    refine ⟨by simp [Value.Filled,Value.length?],?_⟩
    change Watched ⟨⟨w.host.host,_⟩,w.store.map fun _ => .empty⟩
    rw [same]
    exact watchedAgain kept emptyFilled .clear

theorem watchedMaintains : bindings.watched.context.Maintains Watched Value.Filled where
  unit := by simp [Value.Filled,Value.length?]
  apply := operationFilled
  resolve {n w} kept := by
    simp only [Bindings.context,Bindings.resolve,Bindings.watchedProperty,Bindings.watchedOverload]
    cases bindings.resolution n (w.stored? n) with
    | stored v found =>
      obtain ⟨store,same,values⟩ := kept.1
      have stored : w.stored? n = some v := found
      simp only [found]
      simp only [Workspace.stored?,same,Option.bind_some] at stored
      exact ⟨values n v stored,kept⟩
    | property p absent found =>
      simp only [absent,found,Option.map_some]
      cases Functions.librarySafe _ (Bindings.propertyDeclared found) with
      | property steady filled => exact invocationYields steady filled (.read n) kept
    | method m absent none found =>
      have bare : bindings.overload? n [] = some m := found
      simp only [absent,none,bare,Option.map_some,Option.map_none]
      exact methodYields found (fun v member => absurd member List.not_mem_nil) kept
    | unknown absent none missing =>
      simp only [absent,none,missing,Option.map_none]
      exact kept
  assign {n v w} filled kept := by
    obtain ⟨store,same,values⟩ := kept.1
    simp only [Bindings.context,Bindings.assign,same]
    exact ⟨trivial,⟨_,rfl,insertFilled values n filled⟩,kept.2⟩
  call {f vs w} filled kept := by
    simp only [Bindings.context,Bindings.call,Bindings.watchedOverload]
    cases found : bindings.overload? f (vs.map Value.kind) with
    | some m => exact methodYields found filled kept
    | none => exact kept

theorem contextMaintains : context.Maintains Workspace.Filled Value.Filled := by
  apply watchedMaintains.tracked bindings.watchedTracks.toTracks
  · intro w filled
    exact ⟨w.withLog [],rfl,filled,fun i member => absurd member List.not_mem_nil⟩
  · rintro w m rfl kept
    exact kept.1

def foldedTree? (folding : Bool) (e : Expr) (w : Workspace Unit) : Option Expr :=
  if folding then
    match foldStatement context traversalLimit e w with
    | .ok (folded,_) _ => some folded
    | .error _ _ => none
  else none

def foldedTrees (folding : Bool) : List Expr → Workspace Unit → List Expr
  | [], _ => []
  | e :: es, w => (foldedTree? folding e w).toList ++
    match evalStatement folding e w with
    | .ok _ m => foldedTrees folding es m
    | .error _ _ => []

theorem foldedTreeFilled {folding : Bool} {e t : Expr} {w : Workspace Unit}
    (literals : e.Literals Value.Filled) (filled : w.Filled)
    (folded : foldedTree? folding e w = some t) : t.Literals Value.Filled := by
  unfold foldedTree? at folded
  cases folding with
  | false => contradiction
  | true =>
    have done := contextMaintains.foldStatement traversalLimit literals filled
    simp only [if_true] at folded
    cases result : foldStatement context traversalLimit e w with
    | ok p m =>
      rw [result] at done folded
      cases folded
      exact done.1
    | error x m =>
      rw [result] at folded
      contradiction

theorem foldedTreesFilled (folding : Bool) {es : List Expr}
    (literals : ∀ e ∈ es, e.Literals Value.Filled) {w : Workspace Unit} (filled : w.Filled) :
    ∀ t ∈ foldedTrees folding es w, t.Literals Value.Filled := by
  induction es generalizing w with
  | nil => exact fun t member => absurd member List.not_mem_nil
  | cons e es ih =>
    obtain ⟨first,later⟩ := List.forall_mem_cons.mp literals
    have done := contextMaintains.statement folding first filled
    rw [statementOverSession] at done
    intro t member
    rcases List.mem_append.mp member with here | rest
    · exact foldedTreeFilled first filled (Option.mem_toList.mp here)
    · generalize evalStatement folding e w = r at done rest
      cases r with
      | ok v m => exact ih later done.2 t rest
      | error x m => contradiction

namespace Step

def source : Step → String
  | .evaluate input => Text.trim input
  | _ => ""

def statements (step : Step) : List Expr :=
  match parse step.source with
  | .ok es => es
  | .error _ => []

def folded (s : Session) (step : Step) : List Expr :=
  foldedTrees s.folding step.statements ⟨(),some s.store⟩

def watched (s : Session) (step : Step) : Outcome (Workspace (Recorded Unit)) Value :=
  lineOver bindings.watched.context s.folding step.statements
    ((⟨(),some s.store⟩ : Workspace Unit).withLog [])

end Step

/- A step answers with, keeps and folds only arrays that have elements; what it invokes of the library
stays in bounds, and so do the pieces it cuts its text into. -/
structure Sound (s : Session) (step : Step) : Prop where
  answer : ∀ v, (step.run s).1 = some (.ok v) → v.Filled
  store : StoreFilled (step.run s).2.store
  folded : ∀ t ∈ step.folded s, t.Literals Value.Filled
  watched : Outcome.project Workspace.unrecorded (step.watched s) =
    evalLine s.folding step.statements ⟨(),some s.store⟩
  invocations : ∀ i ∈ (Outcome.state (step.watched s)).host.log, InBounds i
  text : ∀ l ∈ lexemes step.source, l.span.Within step.source

theorem derivedFilled {c ts e} (h : Grammar.Derives c ts e) : e.Literals Value.Filled := by
  induction h with
  | _ => simp_all [Expr.Literals,LiteralsList,literalsListIff,Value.Filled,Value.length?,Value.ofBool,
      Value.ofNumber,Value.ofText,Shaped.length?,or_imp]

theorem parsedFilled {source : String} {es : List Expr} (parsed : parse source = .ok es) :
    ∀ e ∈ es, e.Literals Value.Filled := by
  refine parsedEach (P := Expr.Literals Value.Filled) parsed (fun ts e assigned => ?_) trivial
  induction assigned with
  | value derived => exact derivedFilled derived
  | assign target value ih => exact ih

theorem statementsFilled (step : Step) : ∀ e ∈ step.statements, e.Literals Value.Filled := by
  unfold Step.statements
  cases parsed : parse step.source with
  | error e => exact fun t member => absurd member List.not_mem_nil
  | ok es => exact parsedFilled parsed

theorem evaluateFilled {s : Session} (filled : StoreFilled s.store) (input : String) :
    (∀ v, (s.evaluate input).1 = .ok v → v.Filled) ∧ StoreFilled (s.evaluate input).2.store := by
  unfold evaluate
  cases parsed : parse (Text.trim input) with
  | error e => exact ⟨fun v answered => by contradiction,filled⟩
  | ok es =>
    have done := contextMaintains.line s.folding (parsedFilled parsed)
      (s := ⟨(),some s.store⟩) ⟨s.store,rfl,filled⟩
    rw [lineOverSession] at done
    dsimp only
    generalize evalLine s.folding es ⟨(),some s.store⟩ = r at done
    cases r with
    | ok v w =>
      obtain ⟨value,store,same,values⟩ := done
      refine ⟨fun u answered => ?_,?_⟩
      · cases answered
        exact value
      · simp only [same,Option.getD_some]
        exact values
    | error e w =>
      obtain ⟨store,same,values⟩ := done
      refine ⟨fun u answered => by contradiction,?_⟩
      simp only [same,Option.getD_some]
      exact values

theorem stepSound {s : Session} (filled : StoreFilled s.store) (step : Step) : s.Sound step where
  answer := by
    cases step with
    | evaluate input =>
      intro v answered
      exact (evaluateFilled filled input).1 v (Option.some.inj answered)
    | setFolding on => exact fun v answered => by contradiction
    | reset => exact fun v answered => by contradiction
  store := by
    cases step with
    | evaluate input => exact (evaluateFilled filled input).2
    | setFolding on => exact filled
    | reset => exact emptyFilled
  folded := foldedTreesFilled s.folding (statementsFilled step) ⟨s.store,rfl,filled⟩
  watched := by
    rw [← lineOverSession]
    exact Context.projectIff.mpr (bindings.watchedTracks.line s.folding step.statements rfl)
  invocations := by
    have start : Watched ((⟨(),some s.store⟩ : Workspace Unit).withLog []) :=
      ⟨⟨s.store,rfl,filled⟩,fun i member => absurd member List.not_mem_nil⟩
    exact (watchedMaintains.line s.folding (statementsFilled step) start).kept.2
  text l member := lexemeWithin member

def after (s : Session) (script : List Step) : Session := script.foldl (fun s step => (step.run s).2) s

theorem afterFilled {s : Session} (filled : StoreFilled s.store) (script : List Step) :
    StoreFilled (s.after script).store := by
  induction script generalizing s with
  | nil => exact filled
  | cons step script ih => exact ih (stepSound filled step).store

/- No array of a session is empty, and nothing is read out of bounds: not by an operator, whatever its
operands, and not by a function of the library that a step calls. -/
theorem arraysFilled (script : List Step) (step : Step) :
    (∀ (op : Operation) vs, op.apply? vs = Checked.inside (op.apply vs)) ∧
      (new.after script).Sound step :=
  ⟨operationInBounds,stepSound (afterFilled emptyFilled script) step⟩

end Session
end ArrayCalc
