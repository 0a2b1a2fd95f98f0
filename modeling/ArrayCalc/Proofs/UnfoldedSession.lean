import ArrayCalc.Proofs.LibraryFunctions
import ArrayCalc.Proofs.ParsedStatements
/-! Folding cannot be told from a session's answers and variables. The session is compared, step by
step, with one that never folds. Only `clear` can make a difference, since it forgets variables that
folding has already read: what stands around it then fails either way, but not with the same error. -/
namespace ArrayCalc

theorem Truthful.project {σ τ ρ : Type} {ctx : Context σ} {start : σ} {run : Context τ}
    {plain : Context ρ} {π : τ → ρ} {u : Usage} {I : τ → Prop} {J : ρ → Prop}
    (T : Truthful ctx start run u I) (covers : run.Over plain π) (lift : ∀ s, J s → ∃ t, I t ∧ π t = s) :
    Truthful ctx start plain u J where
  constantName read constant := by
    obtain ⟨r,folded,runs⟩ := T.constantName read constant
    refine ⟨r,folded,fun s kept => ?_⟩
    obtain ⟨t,inside,rfl⟩ := lift s kept
    rw [← covers.resolve,runs t inside,Context.projectOfExcept]
  unknownName {n e s} read unknown kept := by
    obtain ⟨t,inside,rfl⟩ := lift s kept
    obtain ⟨x,m,failed⟩ := T.unknownName read unknown inside
    exact ⟨x,π m,by rw [← covers.resolve,failed]; rfl⟩
  constantCall called constant := by
    obtain ⟨r,folded,runs⟩ := T.constantCall called constant
    refine ⟨r,folded,fun s kept => ?_⟩
    obtain ⟨t,inside,rfl⟩ := lift s kept
    rw [← covers.call,runs t inside,Context.projectOfExcept]
  unknownCall {f vs e s} called unknown kept := by
    obtain ⟨t,inside,rfl⟩ := lift s kept
    obtain ⟨x,m,failed⟩ := T.unknownCall called unknown inside
    exact ⟨x,π m,by rw [← covers.call,failed]; rfl⟩

namespace Session

def clearing (P : Prop) : Usage := ⟨fun n => n = "clear" → P,fun f => f = "clear" → P,fun _ => False⟩

section Folding
variable {P : Prop} {f : String} {vs : List Value} {w : Workspace Unit} {r : Outcome (Workspace Unit) Value}

theorem Acts.stays (acts : Acts f vs w r) (used : f = "clear" → P) :
    Stays (· = w) (fun m => P ∧ m = w.reset) r := by
  cases acts with
  | keeps same => exact .inl same
  | forgets clear => exact .inr ⟨w.reset,rfl,used clear,rfl⟩

theorem resetAgain (w : Workspace Unit) : w.reset.reset = w.reset := by
  obtain ⟨host,_ | store⟩ := w <;> rfl

theorem Acts.lost (acts : Acts f vs w.reset r) : Outcome.state r = w.reset := by
  cases acts with
  | keeps same => exact same
  | forgets => exact resetAgain w

theorem Acts.refuses (acts : Acts f vs w r) (unit : .unit ∈ vs) : r.Fails := by
  cases acts with
  | keeps _ refuses => exact refuses unit
  | forgets _ bare => rw [bare] at unit; contradiction

theorem foldable (P : Prop) (w : Workspace Unit) :
    Foldable context w context (clearing P) (· = w) fun m => P ∧ m = w.reset where
  toTruthful := (Bindings.truthful bindingsHonest _ w).project bindings.recordedOver
    fun s kept => ⟨s.withLog [],congrArg Workspace.store kept,rfl⟩
  resolveStays {n s} read kept := by
    subst kept
    exact (resolveActs n s).stays read
  callStays {f vs s} called kept := by
    subst kept
    exact (callActs f vs s).stays called
  assignStays written := written.elim
  lost := {
    resolve := fun {n s} _ ⟨used,gone⟩ => ⟨used,by subst gone; exact (resolveActs n _).lost⟩
    call := fun {f vs s} _ ⟨used,gone⟩ => ⟨used,by subst gone; exact (callActs f vs _).lost⟩
    assign := fun written => written.elim }
  lostUnique gone gone' := gone.2.trans gone'.2.symm
  unitRefused {f vs s} _ _ unit := (callActs f vs s).refuses unit

end Folding

theorem statementAlike {P : Prop} {e : Expr} (root : e.RootAssigned (clearing P)) (folding : Bool)
    (w : Workspace Unit) :
    Alike (fun _ => P) (e.eval context w) (evalStatement folding e w) := by
  unfold evalStatement
  split
  · have settled := (foldable P w).settles (traversalLimit - 1) root
    unfold foldStatement
    cases folded : settle (Expr.fold context) (traversalLimit - 1) e w with
    | ok p s =>
      rw [folded] at settled
      obtain ⟨rfl,_,alike⟩ := settled
      exact (alike s rfl).weaken fun _ => And.left
    | error x s =>
      rw [folded] at settled
      obtain ⟨rfl,_⟩ := settled
      exact .same _
  · exact .same _

theorem statementsAlike {P : Prop} {es : List Expr} (roots : ∀ e ∈ es, e.RootAssigned (clearing P))
    (folding : Bool) (v : Value) (w : Workspace Unit) :
    Alike (fun _ => P) (es.foldlM (fun _ e => e.eval context) v w)
      (es.foldlM (fun _ e => evalStatement folding e) v w) := by
  induction es generalizing v w with
  | nil => exact .same _
  | cons e es ih =>
    simp only [List.foldlM_cons]
    have first := statementAlike (roots e List.mem_cons_self) folding w
    exact first.andThen (ih fun e member => roots e (List.mem_cons_of_mem _ member))

theorem Acts.keepsStore {f : String} {vs : List Value} {w : Workspace Unit}
    {r : Outcome (Workspace Unit) Value} (acts : Acts f vs w r) (kept : w.store.isSome = true) :
    (Outcome.state r).store.isSome = true := by
  cases acts with
  | keeps same => rwa [same]
  | forgets => simpa [Workspace.reset] using kept

theorem storeKept : context.Preserves .anything fun w => w.store.isSome = true where
  resolve _ kept := (resolveActs _ _).keepsStore kept
  call _ kept := (callActs _ _ _).keepsStore kept
  assign {n v w} _ kept := by
    obtain ⟨host,_ | store⟩ := w
    · contradiction
    · rfl

theorem statementsKeepStore (es : List Expr) (v : Value) {w : Workspace Unit}
    (kept : w.store.isSome = true) :
    (Outcome.state (es.foldlM (fun _ e => e.eval context) v w)).store.isSome = true := by
  induction es generalizing v w with
  | nil => exact kept
  | cons e es ih =>
    simp only [List.foldlM_cons]
    exact thenKeeps (K := fun w : Workspace Unit => w.store.isSome = true)
      (storeKept.eval e (withinAnything e) kept) fun v t left => ih v left

theorem lineError {folding : Bool} {es : List Expr} {w m : Workspace Unit} {e : EvalError}
    (failed : es.foldlM (fun _ e => evalStatement folding e) .unit w = .error e m) :
    evalLine folding es w = .error e m := by
  unfold evalLine
  exact Action.bindError failed

theorem lineOk {folding : Bool} {es : List Expr} {w : Workspace Unit} {v : Value} {store : Store}
    (done : es.foldlM (fun _ e => evalStatement folding e) .unit w = .ok v ⟨(),some store⟩) :
    evalLine folding es w = .ok v ⟨(),some (if v.isUnit then store else store.insert answer v)⟩ := by
  unfold evalLine
  rw [Action.bindOk done]
  cases v.isUnit <;> rfl

/- A session without folding: the statements as parsed, in order, against the same library. The last
value is kept as the answer unless it is unit. -/
def evaluateUnfolded (store : Store) (input : String) : Except Error Value × Store :=
  match parse (Text.trim input) with
  | .error e => (.error (.parse e),store)
  | .ok es =>
    match evalStatements context es ⟨(),some store⟩ with
    | .error e w => (.error (.eval e),w.store.getD .empty)
    | .ok v w =>
      let kept := w.store.getD .empty
      (.ok v,if v.isUnit then kept else kept.insert answer v)

inductive Step where
  | evaluate (input : String)
  | setFolding (on : Bool)
  | reset
  deriving DecidableEq, Repr

namespace Step

def run : Step → Session → Option (Except Error Value) × Session
  | .evaluate input, s => (some (s.evaluate input).1,(s.evaluate input).2)
  | .setFolding on, s => (none,{ s with folding := on })
  | .reset, s => (none,s.reset)

def unfolded : Step → Store → Option (Except Error Value) × Store
  | .evaluate input, store => (some (evaluateUnfolded store input).1,(evaluateUnfolded store input).2)
  | .setFolding _, store => (none,store)
  | .reset, _ => (none,.empty)

end Step

def Mentions (name input : String) : Prop :=
  ∃ l ∈ lexemes (Text.trim input), l.token = .ok (.name name)

inductive Answers : Step → Option (Except Error Value) → Option (Except Error Value) → Prop where
  | setFolding (on) : Answers (.setFolding on) none none
  | reset : Answers .reset none none
  | value (input v) : Answers (.evaluate input) (some (.ok v)) (some (.ok v))
  | parse (input e) : Answers (.evaluate input) (some (.error (.parse e))) (some (.error (.parse e)))
  | eval (input e e') (same : ¬Mentions "clear" input → e = e') :
      Answers (.evaluate input) (some (.error (.eval e))) (some (.error (.eval e')))

def Indistinguishable : Session → Store → List Step → Prop
  | _, _, [] => True
  | s, store, step :: script =>
    Answers step (step.run s).1 (step.unfolded store).1 ∧
      (step.run s).2.store = (step.unfolded store).2 ∧
      Indistinguishable (step.run s).2 (step.unfolded store).2 script

theorem evaluateAnswers (s : Session) (input : String) :
    Answers (.evaluate input) (some (s.evaluate input).1) (some (evaluateUnfolded s.store input).1) ∧
      (s.evaluate input).2.store = (evaluateUnfolded s.store input).2 := by
  unfold evaluate evaluateUnfolded
  cases parsed : parse (Text.trim input) with
  | error e => exact ⟨.parse input e,rfl⟩
  | ok es =>
    have roots : ∀ e ∈ es, e.RootAssigned (clearing (Mentions "clear" input)) := by
      refine parsedRooted parsed fun l member n token => ?_
      have mentions : n = "clear" → Mentions "clear" input := fun same => ⟨l,member,same ▸ token⟩
      exact ⟨mentions,mentions⟩
    have alike := statementsAlike roots s.folding .unit ⟨(),some s.store⟩
    have kept := statementsKeepStore es .unit (w := ⟨(),some s.store⟩) rfl
    simp only [evalStatements]
    generalize es.foldlM (fun _ e => e.eval context) .unit ⟨(),some s.store⟩ = r at alike kept
    generalize folded :
      es.foldlM (fun _ e => evalStatement s.folding e) .unit ⟨(),some s.store⟩ = r' at alike
    cases alike with
    | @failed x x' m lost =>
      rw [lineError folded]
      exact ⟨.eval input _ _ fun absent => absurd lost absent,rfl⟩
    | same =>
      cases r with
      | error x m =>
        rw [lineError folded]
        exact ⟨.eval input x x fun _ => rfl,rfl⟩
      | ok v m =>
        obtain ⟨host,_ | store⟩ := m
        · contradiction
        · rw [lineOk folded]
          exact ⟨.value input v,rfl⟩

theorem stepAnswers (s : Session) (step : Step) :
    Answers step (step.run s).1 (step.unfolded s.store).1 ∧
      (step.run s).2.store = (step.unfolded s.store).2 := by
  cases step with
  | evaluate input => exact evaluateAnswers s input
  | setFolding on => exact ⟨.setFolding on,rfl⟩
  | reset => exact ⟨.reset,rfl⟩

theorem foldingInvisible (s : Session) (script : List Step) : Indistinguishable s s.store script := by
  induction script generalizing s with
  | nil => trivial
  | cons step script ih =>
    obtain ⟨answers,store⟩ := stepAnswers s step
    refine ⟨answers,store,?_⟩
    rw [← store]
    exact ih (step.run s).2

end Session
end ArrayCalc
