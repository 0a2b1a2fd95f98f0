import ArrayCalc.Proofs.HonestFolding
import ArrayCalc.Proofs.Overlay
import ArrayCalc.Proofs.ParsedStatements
/-! Folding statements together. All of them are folded against the variables there are at first, but
evaluated one after the other, each with what those before it have assigned. That makes no difference
if none of them reads a name that one before it assigns: the answers folding has relied on then stay
true along the whole run. -/
namespace ArrayCalc

mutual

def Expr.mentions : Expr → List String
  | .literal _ => []
  | .empty => []
  | .variable n => [n]
  | .assign _ e => e.mentions
  | .unary _ e => e.mentions
  | .binary _ l r => l.mentions ++ r.mentions
  | .select c y n => c.mentions ++ y.mentions ++ n.mentions
  | .array es => mentionsList es
  | .call _ es => mentionsList es

def mentionsList : List Expr → List String
  | [] => []
  | e :: es => e.mentions ++ mentionsList es

end

def Expr.targets : Expr → List String
  | .assign n e => n :: e.targets
  | _ => []

def Usage.sparing (names : List String) : Usage := ⟨fun n => n ∉ names,fun _ => True,fun _ => False⟩

section Names
variable {names : List String}

theorem mentionsListIff {n : String} {es : List Expr} :
    n ∈ mentionsList es ↔ ∃ e ∈ es, n ∈ e.mentions := by
  induction es with
  | nil => simp [mentionsList]
  | cons e es ih => simp [mentionsList,ih]

theorem mentionsNode {n : String} {op : Operation} {es : List Expr} (takes : op.Takes es.length) :
    n ∈ (op.node es).mentions ↔ n ∈ mentionsList es := by
  cases Operation.operandsOf takes <;> simp [Operation.node,Expr.mentions,mentionsList]

theorem withinSparing (e : Expr) (within : e.Within Usage.anything.readOnly)
    (spared : ∀ n ∈ names, n ∉ e.mentions) : e.Within (.sparing names) := by
  induction e using Expr.inductNodes with
  | literal v => exact trivial
  | empty => exact trivial
  | name n => exact fun member => spared n member (List.mem_singleton_self n)
  | assign n e ih => exact within.1.elim
  | operation op es takes ih =>
    have operands := withinListIff.mp ((withinNode takes).mp within)
    refine (withinNode takes).mpr (withinListIff.mpr fun e member => ?_)
    refine ih e member (operands e member) fun n listed mentioned => ?_
    exact spared n listed ((mentionsNode takes).mpr (mentionsListIff.mpr ⟨e,member,mentioned⟩))
  | call f es ih =>
    have arguments := withinListIff.mp within.2
    refine ⟨trivial,withinListIff.mpr fun e member => ?_⟩
    refine ih e member (arguments e member) fun n listed mentioned => ?_
    exact spared n listed (mentionsListIff.mpr ⟨e,member,mentioned⟩)

theorem rootSparing {e : Expr} (root : e.RootAssigned Usage.anything.readOnly)
    (spared : ∀ n ∈ names, n ∉ e.mentions) : e.RootAssigned (.sparing names) := by
  induction root with
  | body within => exact .body (withinSparing _ within spared)
  | assign n value ih => exact .assign n (ih spared)

theorem targetsBody {e : Expr} (within : e.Within (.sparing names)) : e.targets = [] := by
  cases e with
  | assign n e => exact within.1.elim
  | _ => rfl

def Independent : List String → List Expr → Prop
  | _, [] => True
  | names, e :: es => e.RootAssigned (.sparing names) ∧ Independent (e.targets ++ names) es

theorem independentOf {es : List Expr} (rooted : ∀ e ∈ es, e.RootAssigned Usage.anything.readOnly)
    (apart : es.Pairwise fun e later => ∀ n ∈ e.targets, n ∉ later.mentions)
    (spared : ∀ e ∈ es, ∀ n ∈ names, n ∉ e.mentions) : Independent names es := by
  induction es generalizing names with
  | nil => exact trivial
  | cons e es ih =>
    obtain ⟨first,rest⟩ := List.pairwise_cons.mp apart
    refine ⟨rootSparing (rooted e List.mem_cons_self) (spared e List.mem_cons_self),?_⟩
    refine ih (fun e member => rooted e (List.mem_cons_of_mem _ member)) rest ?_
    intro later member n listed
    rcases List.mem_append.mp listed with assigned | earlier
    · exact first later member n assigned
    · exact spared later (List.mem_cons_of_mem _ member) n earlier

end Names

section Programs
variable {σ τ : Type} {ctx : Context σ} {start : σ} {run : Context τ} {I : List String → τ → Prop}
  {names : List String}

/- The states `I names` of `run` are those in which only the variables `names` may differ from what
they are in `start`. What `ctx` says there is borne out for everything else. -/
structure FoldableApart (ctx : Context σ) (start : σ) (run : Context τ)
    (I : List String → τ → Prop) : Prop where
  truthful : ∀ names, Truthful ctx start run (.sparing names) (I names)
  preserves : ∀ names, run.Preserves (.sparing names) (I names)
  assign : ∀ {names n v s}, I names s → I (n :: names) (Outcome.state (run.assign n v s))
  more : ∀ {names names' s}, names ⊆ names' → I names s → I names' s

theorem FoldableApart.foldable (F : FoldableApart ctx start run I) (names : List String) :
    Foldable ctx start run (.sparing names) (I names) (fun _ => False) :=
  (F.truthful names).foldable (F.preserves names)

theorem FoldableApart.statement (F : FoldableApart ctx start run I) {e : Expr}
    (root : e.RootAssigned (.sparing names)) {s : τ} (kept : I names s) :
    I (e.targets ++ names) (Outcome.state (e.eval run s)) := by
  induction root with
  | body within =>
    rw [targetsBody within]
    exact (F.preserves names).eval _ within kept
  | @assign n e value ih =>
    simp only [Expr.eval,Expr.targets,List.cons_append]
    have stored : ∀ v t, I (n :: (e.targets ++ names)) t →
        I (n :: (e.targets ++ names)) (Outcome.state (run.assign n v t)) :=
      fun v t left => F.more (by simp) (F.assign left)
    refine thenKeeps (F.more (by simp) ih) fun v t left => ?_
    exact thenKeeps (stored v t left) fun _ m left => left

theorem FoldableApart.targets (F : FoldableApart ctx start run I) {e e' : Expr} {k : FoldCount}
    {s : σ} (root : e.RootAssigned (.sparing names)) (folded : e.fold ctx start = .ok (e',k) s) :
    e'.targets = e.targets := by
  induction root generalizing e' k with
  | body within =>
    have folds := (F.foldable names).folds _ within
    rw [folded] at folds
    rw [targetsBody within,targetsBody folds.2.1]
  | @assign n e value ih =>
    simp only [Expr.fold] at folded
    obtain ⟨⟨m,j⟩,t,first,last⟩ := Action.bindOkInv folded
    cases last
    simp only [Expr.targets,ih first]

def SameProgram (run : Context τ) (K : τ → Prop) (es es' : List Expr) : Prop :=
  ∀ v t, K t → es.foldlM (fun _ e => e.eval run) v t = es'.foldlM (fun _ e => e.eval run) v t

def FailingProgram (run : Context τ) (K : τ → Prop) (es : List Expr) : Prop :=
  ∀ v t, K t → Outcome.Fails (es.foldlM (fun _ e => e.eval run) v t)

theorem programChains (run : Context τ) (K : τ → Prop) :
    Chains (SameProgram run K) (FailingProgram run K) where
  refl _ _ _ _ := rfl
  trans first second v t kept := (first v t kept).trans (second v t kept)
  bad same fails v t kept := same v t kept ▸ fails v t kept

theorem FoldableApart.cons (F : FoldableApart ctx start run I) {e e' : Expr} {es es' : List Expr}
    (root : e.RootAssigned (.sparing names)) (same : ∀ t, I names t → e.eval run t = e'.eval run t)
    (rest : SameProgram run (I (e.targets ++ names)) es es') :
    SameProgram run (I names) (e :: es) (e' :: es') := by
  intro v t kept
  have after := F.statement root kept
  simp only [List.foldlM_cons]
  cases done : e.eval run t with
  | error x m => rw [Action.bindError done,Action.bindError ((same t kept).symm.trans done)]
  | ok w m =>
    rw [done] at after
    rw [Action.bindOk done,Action.bindOk ((same t kept).symm.trans done)]
    exact rest w m after

theorem FoldableApart.failing (F : FoldableApart ctx start run I) {e : Expr} {es : List Expr}
    (root : e.RootAssigned (.sparing names)) (rest : FailingProgram run (I (e.targets ++ names)) es) :
    FailingProgram run (I names) (e :: es) := by
  intro v t kept
  have after := F.statement root kept
  simp only [List.foldlM_cons]
  cases done : e.eval run t with
  | error x m => exact ⟨x,m,Action.bindError done⟩
  | ok w m =>
    rw [done] at after
    rw [Action.bindOk done]
    exact rest w m after

/- By the statements, with the names that have been assigned before the one at hand. -/
theorem FoldableApart.pass (F : FoldableApart ctx start run I) {es : List Expr}
    (independent : Independent names es) :
    Rewrites start (Independent names) (SameProgram run (I names)) (FailingProgram run (I names)) es
      (foldList ctx es start) := by
  induction es generalizing names with
  | nil => exact ⟨rfl,trivial,fun _ _ _ => rfl⟩
  | cons e es ih =>
    obtain ⟨root,later⟩ := independent
    have head := (F.foldable names).foldsStatement root
    have tail := ih later
    simp only [foldList]
    cases first : e.fold ctx start with
    | error x s =>
      rw [first] at head
      rw [Action.bindError first]
      refine ⟨head.1,fun v t kept => ?_⟩
      rw [List.foldlM_cons]
      exact Action.bindFails (head.2 t kept)
    | ok p s =>
      obtain ⟨e',j⟩ := p
      have targets := F.targets root first
      rw [first] at head
      obtain ⟨rfl,root',alike⟩ := head
      rw [Action.bindOk first]
      cases rest : foldList ctx es s with
      | error x s' =>
        rw [rest] at tail
        obtain ⟨rfl,fails⟩ := tail
        exact (Action.bindError rest).symm ▸ ⟨rfl,F.failing root fails⟩
      | ok q s' =>
        obtain ⟨es',k⟩ := q
        rw [rest] at tail
        obtain ⟨rfl,independent',same⟩ := tail
        have equal : ∀ t, I names t → e.eval run t = e'.eval run t :=
          fun t kept => (alike t kept).eq fun _ gone => gone
        refine (Action.bindOk rest).symm ▸ ⟨rfl,⟨root',?_⟩,F.cons root equal same⟩
        rwa [targets]

theorem FoldableApart.settles (F : FoldableApart ctx start run I) (limit : Nat) {es : List Expr}
    (independent : Independent names es) :
    Rewrites start (Independent names) (SameProgram run (I names)) (FailingProgram run (I names)) es
      (foldStatements ctx limit es start) :=
  (programChains run (I names)).settle F.pass (limit - 1) independent

end Programs

section Contexts
variable {η σ τ : Type}

theorem Bindings.foldableApart {bs : Bindings η} (honest : bs.Honest) (keeps : bs.KeepsVariables)
    (w : Workspace η) :
    FoldableApart bs.context w bs.recorded.context
      fun names m => ∀ n ∉ names, m.stored? n = w.stored? n where
  truthful names := truthfulWhere honest fun read kept => kept _ read
  preserves names := {
    resolve := fun {n m} _ kept other spared => by
      rw [Workspace.stored?,resolveKeeps keeps n m]
      exact kept other spared
    call := fun {f vs m} _ kept other spared => by
      rw [Workspace.stored?,callKeeps keeps f vs m]
      exact kept other spared
    assign := fun written => written.elim }
  assign {names n v m} kept other spared := by
    obtain ⟨different,outside⟩ := not_or.mp (List.mem_cons.not.mp spared)
    obtain ⟨host,store⟩ := m
    cases store with
    | none => exact kept other outside
    | some store =>
      change (store.insert n v).get? other = w.stored? other
      rw [NameMap.getInsert,if_neg different]
      exact kept other outside
  more inside kept n spared := kept n fun member => spared (inside member)

theorem emptyFoldableApart (start : σ) :
    FoldableApart Context.empty start Context.empty (fun _ (_ : σ) => True) where
  truthful names := {
    constantName := fun _ constant => by cases constant
    unknownName := fun _ _ _ => ⟨_,_,rfl⟩
    constantCall := fun _ constant => by cases constant
    unknownCall := fun _ _ _ => ⟨_,_,rfl⟩ }
  preserves names := ⟨fun _ _ => trivial,fun _ _ => trivial,fun _ _ => trivial⟩
  assign _ := trivial
  more _ _ := trivial

theorem FoldableApart.scoped {ctx : Context σ} {s : Scoped σ} {run : Context τ}
    {I : List String → τ → Prop} (F : FoldableApart ctx s.base run I) :
    FoldableApart ctx.scoped s run.scoped
      fun names m => (∀ n ∉ names, m.stored? n = s.stored? n) ∧ I names m.base where
  truthful names := (F.truthful names).scoped And.right fun read kept => kept.1 _ read
  preserves names := {
    resolve := fun {n m} read kept => by
      simp only [Context.scoped,Scoped.resolve]
      cases m.stored? n with
      | some v => exact kept
      | none =>
        rw [onBaseState]
        exact ⟨kept.1,(F.preserves names).resolve read kept.2⟩
    call := fun {f vs m} called kept => by
      simp only [Context.scoped,onBaseState]
      exact ⟨kept.1,(F.preserves names).call called kept.2⟩
    assign := fun written => written.elim }
  assign {names n v m} kept := by
    have below : I (n :: names) m.base := F.more (List.subset_cons_self n names) kept.2
    obtain ⟨scopes,base⟩ := m
    cases scopes with
    | nil =>
      simp only [Context.scoped,Scoped.assign,onBaseState]
      exact ⟨fun other spared => kept.1 other fun member => spared (List.mem_cons_of_mem _ member),
        F.assign kept.2⟩
    | cons inner outer =>
      refine ⟨fun other spared => ?_,below⟩
      obtain ⟨different,outside⟩ := not_or.mp (List.mem_cons.not.mp spared)
      have same := kept.1 other outside
      simp only [Scoped.stored?,List.findSome?_cons] at same
      simp only [Context.scoped,Scoped.assign,Outcome.stateOk,Scoped.stored?,List.findSome?_cons,
        NameMap.getInsert,if_neg different]
      exact same
  more inside kept := ⟨fun n spared => kept.1 n fun member => spared (inside member),F.more inside kept.2⟩

end Contexts

namespace Bindings
variable {η : Type}

def programInvocations (bs : Bindings η) (es : List Expr) (w : Workspace η) : List Invocation :=
  (Outcome.state (evalStatements bs.recorded.context es (w.withLog []))).host.log

def scopedProgramInvocations (bs : Bindings η) (es : List Expr) (s : Scoped (Workspace η)) :
    List Invocation :=
  (Outcome.state
    (evalStatements bs.recorded.context.scoped es ⟨s.scopes,s.base.withLog []⟩)).base.host.log

end Bindings

/- Folding the statements together in state `s` changes nothing that evaluating them in order can tell,
and fails only before a failure. -/
def ProgramFoldingKeeps {σ : Type} (ctx : Context σ) (calls : List Expr → σ → List Invocation)
    (limit : Nat) (es : List Expr) (s : σ) : Prop :=
  match foldStatements ctx limit es s with
  | .ok (es',_) m =>
    m = s ∧ evalStatements ctx es' s = evalStatements ctx es s ∧ calls es' s = calls es s
  | .error _ m => m = s ∧ Outcome.Fails (evalStatements ctx es s)

theorem Context.Over.statements {σ τ : Type} {run : Context τ} {ctx : Context σ} {π : τ → σ}
    (covers : run.Over ctx π) (es : List Expr) (t : τ) :
    Outcome.project π (evalStatements run es t) = evalStatements ctx es (π t) :=
  projectIff.mpr (covers.tracks.statements es .unit rfl)

theorem Context.Over.refl {σ : Type} (ctx : Context σ) : ctx.Over ctx id := by
  have same {α : Type} (r : Outcome σ α) : Outcome.project id r = r := by cases r <;> rfl
  exact ⟨fun _ _ => same _,fun _ _ _ => same _,fun _ _ _ => same _⟩

theorem programKeepsOver {σ τ : Type} {ctx : Context σ} {run : Context τ} {π : τ → σ}
    {I : List String → τ → Prop} {es : List Expr} {m : τ} (covers : run.Over ctx π)
    (F : FoldableApart ctx (π m) run I) (kept : I [] m) (independent : Independent [] es)
    (log : τ → List Invocation) {c : List Expr → σ → List Invocation}
    (calls : ∀ es, c es (π m) = log (Outcome.state (evalStatements run es m))) (limit : Nat) :
    ProgramFoldingKeeps ctx c limit es (π m) := by
  have settled := F.settles limit independent
  unfold ProgramFoldingKeeps
  cases folded : foldStatements ctx limit es (π m) with
  | ok p s =>
    rw [folded] at settled
    have same : evalStatements run es m = evalStatements run p.1 m := settled.2.2 .unit m kept
    refine ⟨settled.1,?_,?_⟩
    · rw [← covers.statements,← covers.statements,same]
    · rw [calls,calls,same]
  | error e s =>
    rw [folded] at settled
    obtain ⟨x,n,failed⟩ := settled.2 .unit m kept
    have stopped : evalStatements run es m = .error x n := failed
    refine ⟨settled.1,x,π n,?_⟩
    rw [← covers.statements,stopped]
    rfl

theorem programFoldingSafe {η : Type} (bs : Bindings η) (honest : bs.Honest)
    (keeps : bs.KeepsVariables) (limit : Nat) {source : String} {es : List Expr}
    (parsed : parse source = .ok es)
    (apart : es.Pairwise fun e later => ∀ n ∈ e.targets, n ∉ later.mentions) :
    (∀ w, ProgramFoldingKeeps bs.context bs.programInvocations limit es w) ∧
    (∀ s, ProgramFoldingKeeps bs.context.scoped bs.scopedProgramInvocations limit es s) ∧
    ∀ {σ : Type} (s : Scoped σ),
      ProgramFoldingKeeps Context.empty.scoped (fun _ _ => []) limit es s := by
  have rooted := parsedRooted (u := Usage.anything.readOnly) parsed fun _ _ _ _ => ⟨trivial,trivial⟩
  have independent : Independent [] es := independentOf rooted apart (by simp)
  refine ⟨fun w => ?_,fun s => ?_,fun s => ?_⟩
  · have F := Bindings.foldableApart honest keeps w
    exact programKeepsOver (m := w.withLog []) bs.recordedOver F (fun _ _ => rfl) independent
      (·.host.log) (fun _ => rfl) limit
  · have F := (Bindings.foldableApart honest keeps s.base).scoped (s := s)
    exact programKeepsOver (m := ⟨s.scopes,s.base.withLog []⟩) bs.recordedOver.scoped F
      ⟨fun _ _ => rfl,fun _ _ => rfl⟩ independent (·.base.host.log)
      (c := bs.scopedProgramInvocations) (fun _ => rfl) limit
  · have F := (emptyFoldableApart s.base).scoped (s := s)
    exact programKeepsOver (m := s) (.refl _) F ⟨fun _ _ => rfl,trivial⟩ independent
      (fun _ => []) (fun _ => rfl) limit

def tickProgram : List Expr := [
  .assign "a" (.binary .add (.call "tick" []) (.binary .mul (.variable "scale") (.variable "x"))),
  .assign "x" (.assign "b" (.literal (.ofText "y"))),
  .variable "count"]

theorem tickProgramParsed : parse "a = tick() + scale * x; x = b = 'y'; count" = .ok tickProgram :=
  parsedTokens [.name "a",.assign,.name "tick",.openParen,.closeParen,.plus,.name "scale",.star,.name "x",
    .separator,.name "x",.assign,.name "b",.assign,.quoted "y",.separator,.name "count"]
    (by decide +kernel) rfl

theorem tickProgramApart :
    tickProgram.Pairwise fun e later => ∀ n ∈ e.targets, n ∉ later.mentions := by
  decide

theorem tickProgramFoldsSafely :
    ((Bindings.ofList counting).Honest ∧ (Bindings.ofList counting).KeepsVariables ∧
      tickProgram.Pairwise fun e later => ∀ n ∈ e.targets, n ∉ later.mentions) ∧
    (let w : Workspace Nat := ⟨0,some (NameMap.empty.insert "x" (.ofNumber 5.0))⟩
     (∃ p, foldStatements (Bindings.ofList counting).context 100 tickProgram w = .ok p w) ∧
       ProgramFoldingKeeps (Bindings.ofList counting).context
         (Bindings.ofList counting).programInvocations 100 tickProgram w) ∧
    ProgramFoldingKeeps (Bindings.ofList counting).context.scoped
      (Bindings.ofList counting).scopedProgramInvocations 100 tickProgram
      ⟨[.empty,NameMap.empty.insert "x" (.ofNumber 5.0)],⟨0,none⟩⟩ := by
  have kept := programFoldingSafe (Bindings.ofList counting) countingHonest countingKeepsVariables 100
    tickProgramParsed tickProgramApart
  exact ⟨⟨countingHonest,countingKeepsVariables,tickProgramApart⟩,⟨⟨_,rfl⟩,kept.1 _⟩,kept.2.1 _⟩

end ArrayCalc
