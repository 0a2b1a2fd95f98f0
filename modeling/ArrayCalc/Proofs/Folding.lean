import ArrayCalc.Proofs.Operations
import ArrayCalc.Proofs.Usage
/-! What folding keeps. A tree is folded against one context and state, and the tree and its folded
form are then evaluated in a second context, which may be the same one. As long as evaluation stays
among states in which the answers of the first context are still true, both do the same. An action
may also leave those states for good, giving unit: what consumes unit fails, in both trees. -/
namespace ArrayCalc
variable {σ τ : Type}

theorem withinNode {u : Usage} {op : Operation} {es : List Expr} (takes : op.Takes es.length) :
    (op.node es).Within u ↔ WithinList u es := by
  cases Operation.operandsOf takes <;> simp [Operation.node,Expr.Within,WithinList]

theorem withinAnything (e : Expr) : e.Within .anything := by
  induction e using Expr.inductNodes with
  | literal v => exact trivial
  | empty => exact trivial
  | name n => exact trivial
  | assign n e ih => exact ⟨trivial,ih⟩
  | operation op es takes ih => exact (withinNode takes).mpr (withinListIff.mpr ih)
  | call f es ih => exact ⟨trivial,withinListIff.mpr ih⟩

section Preservation
variable {run : Context τ} {u : Usage} {K : τ → Prop}

structure Context.Preserves (run : Context τ) (u : Usage) (K : τ → Prop) : Prop where
  resolve : ∀ {n s}, u.reads n → K s → K (Outcome.state (run.resolve n s))
  call : ∀ {f vs s}, u.calls f → K s → K (Outcome.state (run.call f vs s))
  assign : ∀ {n v s}, u.writes n → K s → K (Outcome.state (run.assign n v s))

theorem thenKeeps {α β : Type} {a : Action τ α} {k : α → Action τ β} {s : τ}
    (first : K (Outcome.state (a s))) (next : ∀ v t, K t → K (Outcome.state (k v t))) :
    K (Outcome.state ((a >>= k) s)) := by
  cases done : a s with
  | error e t =>
    rw [Action.bindError done]
    rwa [done] at first
  | ok v t =>
    rw [Action.bindOk done]
    exact next v t (by rwa [done] at first)

theorem evalListKeeps {es : List Expr}
    (each : ∀ e ∈ es, ∀ s, K s → K (Outcome.state (e.eval run s))) {s : τ} (kept : K s) :
    K (Outcome.state (evalList run es s)) := by
  induction es generalizing s with
  | nil => exact kept
  | cons e es ih =>
    simp only [evalList]
    refine thenKeeps (each e List.mem_cons_self s kept) fun v t left => ?_
    have tail := ih (fun e member => each e (List.mem_cons_of_mem _ member)) left
    exact thenKeeps tail fun vs m left => left

theorem Context.Preserves.eval (P : run.Preserves u K) (e : Expr) (within : e.Within u) {s : τ}
    (kept : K s) : K (Outcome.state (e.eval run s)) := by
  induction e using Expr.inductNodes generalizing s with
  | literal v => exact kept
  | empty => exact kept
  | name n => exact P.resolve within kept
  | assign n e ih =>
    simp only [Expr.eval]
    refine thenKeeps (ih within.2 kept) fun v t left => ?_
    exact thenKeeps (P.assign within.1 left) fun _ m left => left
  | operation op es takes ih =>
    have operands := withinListIff.mp ((withinNode takes).mp within)
    rw [Operation.evalNode run takes]
    refine thenKeeps (evalListKeeps (fun e member s kept => ih e member (operands e member) kept) kept)
      fun vs t left => ?_
    rwa [Action.stateOfExcept]
  | call f es ih =>
    have arguments := withinListIff.mp within.2
    simp only [Expr.eval]
    exact thenKeeps (evalListKeeps (fun e member s kept => ih e member (arguments e member) kept) kept)
      fun vs t left => P.call within.1 left

theorem Context.Preserves.evalList (P : run.Preserves u K) {es : List Expr} (within : WithinList u es)
    {s : τ} (kept : K s) : K (Outcome.state (evalList run es s)) :=
  evalListKeeps (fun e member _ kept => P.eval e (withinListIff.mp within e member) kept) kept

end Preservation

/- The outcome keeps to the states `I`, or it is unit in a state of `W`. -/
def Stays (I W : τ → Prop) (r : Outcome τ Value) : Prop := I r.state ∨ ∃ s, r = .ok .unit s ∧ W s

/- What `run` does in states of `I` bears out what `ctx` says in state `start`, for the names in
use: what is constant is the same everywhere and what is unknown fails. -/
structure Truthful (ctx : Context σ) (start : σ) (run : Context τ) (u : Usage) (I : τ → Prop) :
    Prop where
  constantName : ∀ {n}, u.reads n → ctx.isConstantVariable n start = .ok true →
    ∃ r, ctx.resolve n start = Action.ofExcept r start ∧
      ∀ s, I s → run.resolve n s = Action.ofExcept r s
  unknownName : ∀ {n e s}, u.reads n → ctx.isConstantVariable n start = .error e → I s →
    Outcome.Fails (run.resolve n s)
  constantCall : ∀ {f vs}, u.calls f → ctx.isConstantCall f (vs.map Value.kind) start = .ok true →
    ∃ r, ctx.call f vs start = Action.ofExcept r start ∧
      ∀ s, I s → run.call f vs s = Action.ofExcept r s
  unknownCall : ∀ {f vs e s}, u.calls f → ctx.isConstantCall f (vs.map Value.kind) start = .error e →
    I s → Outcome.Fails (run.call f vs s)

/- Evaluation in `run` stays in states of `I`, but for actions that lose variables: those give unit
in a state of `W`, of which there is at most one, and from which no action leads away. -/
structure Foldable (ctx : Context σ) (start : σ) (run : Context τ) (u : Usage) (I W : τ → Prop) :
    Prop extends Truthful ctx start run u I where
  resolveStays : ∀ {n s}, u.reads n → I s → Stays I W (run.resolve n s)
  callStays : ∀ {f vs s}, u.calls f → I s → Stays I W (run.call f vs s)
  assignStays : ∀ {n v s}, u.writes n → I s → I (Outcome.state (run.assign n v s))
  lost : run.Preserves u W
  lostUnique : ∀ {s t}, W s → W t → s = t
  unitRefused : ∀ {f vs s}, u.calls f → W s → .unit ∈ vs → Outcome.Fails (run.call f vs s)

theorem Truthful.foldable {ctx : Context σ} {start : σ} {run : Context τ} {u : Usage} {I : τ → Prop}
    (T : Truthful ctx start run u I) (P : run.Preserves u I) :
    Foldable ctx start run u I (fun _ => False) where
  toTruthful := T
  resolveStays read kept := .inl (P.resolve read kept)
  callStays called kept := .inl (P.call called kept)
  assignStays := P.assign
  lost := ⟨fun _ gone => gone,fun _ gone => gone,fun _ gone => gone⟩
  lostUnique gone := gone.elim
  unitRefused _ gone := gone.elim

inductive Agree (I W : τ → Prop) : Outcome τ Value → Outcome τ Value → Prop where
  | same {r} (kept : I r.state) : Agree I W r r
  | unit {s} (lost : W s) : Agree I W (.ok .unit s) (.ok .unit s)
  | failed {e e' s} (lost : W s) : Agree I W (.error e s) (.error e' s)

def Spoiled (W : τ → Prop) (r : Outcome τ (List Value)) : Prop :=
  W r.state ∧ ∀ vs s, r = .ok vs s → .unit ∈ vs

inductive AgreeList (I W : τ → Prop) : Outcome τ (List Value) → Outcome τ (List Value) → Prop where
  | same {r} (kept : I r.state) : AgreeList I W r r
  | spoiled {r r'} (left : Spoiled W r) (right : Spoiled W r') : AgreeList I W r r'

section Agreement
variable {I W : τ → Prop}

theorem Stays.agree {r : Outcome τ Value} (h : Stays I W r) : Agree I W r r := by
  rcases h with kept | ⟨s,rfl,lost⟩
  · exact .same kept
  · exact .unit lost

theorem Agree.fails {r r' : Outcome τ Value} (h : Agree I W r r') (failed : r'.Fails) : r.Fails := by
  cases h with
  | same _ => exact failed
  | unit _ => exact failed
  | failed _ => exact ⟨_,_,rfl⟩

theorem spoiledError {e : EvalError} {s : τ} (lost : W s) : Spoiled W (.error e s) :=
  ⟨lost,fun _ _ h => nomatch h⟩

theorem spoiledCons {a : Action τ (List Value)} {s : τ} (v : Value) (h : Spoiled W (a s)) :
    Spoiled W ((a >>= fun vs => pure (v :: vs)) s) := by
  cases rest : a s with
  | ok vs t =>
    rw [rest] at h
    rw [Action.bindOk rest]
    refine ⟨h.1,fun ws m same => ?_⟩
    cases same
    exact List.mem_cons_of_mem _ (h.2 vs t rfl)
  | error e t =>
    rw [rest] at h
    rw [Action.bindError rest]
    exact spoiledError h.1

theorem spoiledUnit {a : Action τ (List Value)} {s : τ} (lost : W (Outcome.state (a s))) :
    Spoiled W ((a >>= fun vs => pure (.unit :: vs)) s) := by
  cases rest : a s with
  | ok vs t =>
    rw [rest] at lost
    rw [Action.bindOk rest]
    refine ⟨lost,fun ws m same => ?_⟩
    cases same
    exact List.mem_cons_self
  | error e t =>
    rw [rest] at lost
    rw [Action.bindError rest]
    exact spoiledError lost

theorem AgreeList.cons {a a' : Action τ Value} {b b' : Action τ (List Value)} {s : τ}
    (head : Agree I W (a s) (a' s)) (tail : ∀ t, I t → AgreeList I W (b t) (b' t))
    (lost : ∀ t, W t → W (Outcome.state (b t))) (lost' : ∀ t, W t → W (Outcome.state (b' t))) :
    AgreeList I W ((a >>= fun v => b >>= fun vs => pure (v :: vs)) s)
      ((a' >>= fun v => b' >>= fun vs => pure (v :: vs)) s) := by
  generalize first : a s = r at head
  generalize first' : a' s = r' at head
  cases head with
  | same kept =>
    cases r with
    | error e t =>
      rw [Action.bindError first,Action.bindError first']
      exact .same kept
    | ok v t =>
      rw [Action.bindOk first,Action.bindOk first']
      have rest := tail t kept
      generalize second : b t = q at rest
      generalize second' : b' t = q' at rest
      cases rest with
      | same kept =>
        cases q with
        | error e m =>
          rw [Action.bindError second,Action.bindError second']
          exact .same kept
        | ok vs m =>
          rw [Action.bindOk second,Action.bindOk second']
          exact .same kept
      | spoiled left right => exact .spoiled (spoiledCons v (second ▸ left)) (spoiledCons v (second' ▸ right))
  | unit gone =>
    rw [Action.bindOk first,Action.bindOk first']
    exact .spoiled (spoiledUnit (lost _ gone)) (spoiledUnit (lost' _ gone))
  | failed gone =>
    rw [Action.bindError first,Action.bindError first']
    exact .spoiled (spoiledError gone) (spoiledError gone)

theorem spoiledFails {a : Action τ (List Value)} {k : List Value → Action τ Value} {s : τ}
    (operands : Spoiled W (a s)) (lost : ∀ vs t, W t → W (Outcome.state (k vs t)))
    (refuses : ∀ vs t, W t → .unit ∈ vs → Outcome.Fails (k vs t)) :
    ∃ e t, (a >>= k) s = .error e t ∧ W t := by
  cases done : a s with
  | error e t =>
    rw [done] at operands
    exact ⟨e,t,Action.bindError done,operands.1⟩
  | ok vs t =>
    rw [done] at operands
    obtain ⟨e,m,failed⟩ := refuses vs t operands.1 (operands.2 vs t rfl)
    refine ⟨e,m,(Action.bindOk done).trans failed,?_⟩
    have left := lost vs t operands.1
    rwa [failed] at left

theorem AgreeList.finish {a a' : Action τ (List Value)} {k : List Value → Action τ Value} {s : τ}
    (operands : AgreeList I W (a s) (a' s)) (stays : ∀ vs t, I t → Stays I W (k vs t))
    (lost : ∀ vs t, W t → W (Outcome.state (k vs t)))
    (refuses : ∀ vs t, W t → .unit ∈ vs → Outcome.Fails (k vs t))
    (unique : ∀ t m, W t → W m → t = m) : Agree I W ((a >>= k) s) ((a' >>= k) s) := by
  generalize first : a s = r at operands
  generalize first' : a' s = r' at operands
  cases operands with
  | same kept =>
    cases r with
    | error e t =>
      rw [Action.bindError first,Action.bindError first']
      exact .same kept
    | ok vs t =>
      rw [Action.bindOk first,Action.bindOk first']
      exact (stays vs t kept).agree
  | spoiled left right =>
    obtain ⟨e,t,failed,gone⟩ := spoiledFails (first ▸ left) lost refuses
    obtain ⟨e',t',failed',gone'⟩ := spoiledFails (first' ▸ right) lost refuses
    cases unique t t' gone gone'
    rw [failed,failed']
    exact .failed gone

theorem Agree.assign {a a' : Action τ Value} {store : Value → Action τ Unit} {s : τ}
    (value : Agree I W (a s) (a' s)) (stays : ∀ v t, I t → I (Outcome.state (store v t)))
    (lost : ∀ v t, W t → W (Outcome.state (store v t))) :
    Agree I W ((a >>= fun v => store v >>= fun _ => pure v) s)
      ((a' >>= fun v => store v >>= fun _ => pure v) s) := by
  generalize first : a s = r at value
  generalize first' : a' s = r' at value
  cases value with
  | same kept =>
    cases r with
    | error e t =>
      rw [Action.bindError first,Action.bindError first']
      exact .same kept
    | ok v t =>
      rw [Action.bindOk first,Action.bindOk first']
      have after := stays v t kept
      cases stored : store v t with
      | ok _ m => rw [stored] at after; rw [Action.bindOk stored]; exact .same after
      | error e m => rw [stored] at after; rw [Action.bindError stored]; exact .same after
  | unit gone =>
    rw [Action.bindOk first,Action.bindOk first']
    have after := lost .unit _ gone
    cases stored : store .unit _ with
    | ok _ m => rw [stored] at after; rw [Action.bindOk stored]; exact .unit after
    | error e m => rw [stored] at after; rw [Action.bindError stored]; exact .failed after
  | failed gone =>
    rw [Action.bindError first,Action.bindError first']
    exact .failed gone

end Agreement

theorem literalsOf {es : List Expr} (h : es.all Expr.isLiteral = true) :
    ∃ vs : List Value, es = vs.map Expr.literal := by
  induction es with
  | nil => exact ⟨[],rfl⟩
  | cons e es ih =>
    obtain ⟨head,tail⟩ := Bool.and_eq_true_iff.mp ((List.all_cons ..).symm.trans h)
    obtain ⟨vs,rfl⟩ := ih tail
    cases e with
    | literal v => exact ⟨v :: vs,rfl⟩
    | _ => contradiction

theorem literalValues {es : List Expr} {vs : List Value} (h : es.mapM Expr.literal? = some vs) :
    es = vs.map Expr.literal := by
  induction es generalizing vs with
  | nil => cases vs <;> simp_all
  | cons e es ih =>
    simp only [List.mapM_cons,Option.bind_eq_bind,Option.bind_eq_some_iff] at h
    obtain ⟨v,head,ws,tail,last⟩ := h
    cases Option.some.inj last
    cases e with
    | literal w => cases head; rw [ih tail]; rfl
    | _ => contradiction

theorem evalLiterals (ctx : Context σ) (vs : List Value) (s : σ) :
    evalList ctx (vs.map Expr.literal) s = .ok vs s := by
  induction vs with
  | nil => rfl
  | cons v vs ih =>
    simp only [List.map_cons,evalList,Expr.eval,pure_bind]
    exact Action.bindOk ih

theorem evalLiteralNode (ctx : Context σ) {op : Operation} {vs : List Value}
    (takes : op.Takes (vs.map Expr.literal).length) (s : σ) :
    (op.node (vs.map Expr.literal)).eval ctx s = Action.ofExcept (op.apply vs) s := by
  rw [Operation.evalNode ctx takes]
  exact Action.bindOk (evalLiterals ctx vs s)

theorem evalLiteralCall (ctx : Context σ) (f : String) (vs : List Value) (s : σ) :
    (Expr.call f (vs.map Expr.literal)).eval ctx s = ctx.call f vs s := by
  simp only [Expr.eval]
  exact Action.bindOk (evalLiterals ctx vs s)

section Simulation
variable {ctx : Context σ} {start : σ} {run : Context τ} {u : Usage} {I W : τ → Prop}

def Folds (start : σ) (run : Context τ) (u : Usage) (I W : τ → Prop) (e : Expr) :
    Outcome σ (Expr × FoldCount) → Prop
  | .ok (e',_) s => s = start ∧ e'.Within u ∧
    ∀ t, I t → Agree I W (e.eval run t) (e'.eval run t)
  | .error _ s => s = start ∧ ∀ t, I t → Outcome.Fails (e.eval run t)

def FoldsList (start : σ) (run : Context τ) (u : Usage) (I W : τ → Prop) (es : List Expr) :
    Outcome σ (List Expr × FoldCount) → Prop
  | .ok (es',_) s => s = start ∧ es'.length = es.length ∧ WithinList u es' ∧
    ∀ t, I t → AgreeList I W (evalList run es t) (evalList run es' t)
  | .error _ s => s = start ∧ ∀ t, I t → ∀ vs m, evalList run es t = .ok vs m → .unit ∈ vs ∧ W m

theorem Foldable.foldsList (F : Foldable ctx start run u I W) (es : List Expr)
    (within : WithinList u es) (each : ∀ e ∈ es, Folds start run u I W e (e.fold ctx start)) :
    FoldsList start run u I W es (foldList ctx es start) := by
  induction es with
  | nil => exact ⟨rfl,rfl,trivial,fun t kept => .same kept⟩
  | cons e es ih =>
    have head := each e List.mem_cons_self
    have tail := ih within.2 fun e member => each e (List.mem_cons_of_mem _ member)
    simp only [foldList]
    cases first : e.fold ctx start with
    | error x s =>
      rw [first] at head
      rw [Action.bindError first]
      refine ⟨head.1,fun t kept vs m done => ?_⟩
      obtain ⟨y,n,failed⟩ := head.2 t kept
      simp only [evalList] at done
      rw [Action.bindError failed] at done
      contradiction
    | ok p s =>
      obtain ⟨e',j⟩ := p
      rw [first] at head
      obtain ⟨rfl,headWithin,headAgrees⟩ := head
      rw [Action.bindOk first]
      cases rest : foldList ctx es s with
      | error x s' =>
        rw [rest] at tail
        change FoldsList s run u I W (e :: es) ((foldList ctx es >>= _) s)
        rw [Action.bindError rest]
        refine ⟨tail.1,fun t kept vs m done => ?_⟩
        simp only [evalList] at done
        obtain ⟨v,n,evaluated,done⟩ := Action.bindOkInv done
        obtain ⟨ws,n',others,last⟩ := Action.bindOkInv done
        cases last
        /- The first operand either leaves the state as good as it was, or it is unit itself. -/
        have agreed := headAgrees t kept
        rw [evaluated] at agreed
        generalize e'.eval run t = r at agreed
        cases agreed with
        | same kept =>
          obtain ⟨member,gone⟩ := tail.2 n kept ws _ others
          exact ⟨List.mem_cons_of_mem _ member,gone⟩
        | unit gone =>
          have left := F.lost.evalList within.2 gone
          rw [others] at left
          exact ⟨List.mem_cons_self,left⟩
      | ok q s' =>
        obtain ⟨es',k⟩ := q
        rw [rest] at tail
        obtain ⟨rfl,lengths,tailWithin,tailAgrees⟩ := tail
        change FoldsList s' run u I W (e :: es) ((foldList ctx es >>= _) s')
        rw [Action.bindOk rest]
        refine ⟨rfl,by simp [lengths],⟨headWithin,tailWithin⟩,fun t kept => ?_⟩
        simp only [evalList]
        exact .cons (headAgrees t kept) tailAgrees (fun _ gone => F.lost.evalList within.2 gone)
          (fun _ gone => F.lost.evalList tailWithin gone)

theorem foldNodeKeeps {e : Expr} {r : Except EvalError Value} (kind : FoldKind) (k : FoldCount)
    (within : e.Within u) (folded : e.eval ctx start = Action.ofExcept r start)
    (runs : ∀ t, I t → e.eval run t = Action.ofExcept r t) :
    ∃ e' k', foldNode ctx kind e k start = .ok (e',k') start ∧ e'.Within u ∧
      ∀ t, I t → e'.eval run t = e.eval run t := by
  cases r with
  | ok v =>
    refine ⟨.literal v,k + .of kind,?_,trivial,fun t kept => (runs t kept).symm⟩
    simp only [foldNode,folded]
    rfl
  | error x =>
    refine ⟨e,k,?_,within,fun t _ => rfl⟩
    simp only [foldNode,folded]
    rfl

theorem Folds.replace {e m : Expr} {kind : FoldKind} {k : FoldCount} {foldable : Bool}
    (within : m.Within u) (agrees : ∀ t, I t → Agree I W (e.eval run t) (m.eval run t))
    (steady : foldable = true → ∃ r, m.eval ctx start = Action.ofExcept r start ∧
      ∀ t, I t → m.eval run t = Action.ofExcept r t) :
    Folds start run u I W e (foldNodeIf ctx foldable kind m k start) := by
  cases foldable with
  | false => exact ⟨rfl,within,agrees⟩
  | true =>
    obtain ⟨r,folded,runs⟩ := steady rfl
    obtain ⟨e',k',result,within',same⟩ := foldNodeKeeps kind k within folded runs
    simp only [foldNodeIf,if_true,result]
    refine ⟨rfl,within',fun t kept => ?_⟩
    rw [same t kept]
    exact agrees t kept

theorem Foldable.foldsOperation (F : Foldable ctx start run u I W) {op : Operation}
    {es : List Expr} (takes : op.Takes es.length)
    (operands : FoldsList start run u I W es (foldList ctx es start)) :
    Folds start run u I W (op.node es) ((op.node es).fold ctx start) := by
  rw [Operation.foldNode ctx takes]
  cases folded : foldList ctx es start with
  | error x s =>
    rw [folded] at operands
    rw [Action.bindError folded]
    refine ⟨operands.1,fun t kept => ?_⟩
    rw [Operation.evalNode run takes]
    cases done : evalList run es t with
    | error y m => exact ⟨y,m,Action.bindError done⟩
    | ok vs m =>
      rw [Action.bindOk done]
      obtain ⟨y,refused⟩ := op.refusesUnit (operands.2 t kept vs m done).1
      exact ⟨y,m,by rw [refused]; rfl⟩
  | ok p s =>
    obtain ⟨es',k⟩ := p
    rw [folded] at operands
    obtain ⟨rfl,lengths,within,agrees⟩ := operands
    rw [Action.bindOk folded]
    have takes' : op.Takes es'.length := by rwa [lengths]
    refine .replace ((withinNode takes').mpr within) (fun t kept => ?_) fun literal => ?_
    · rw [Operation.evalNode run takes,Operation.evalNode run takes']
      refine (agrees t kept).finish (fun vs m kept => ?_) (fun vs m gone => ?_)
        (fun vs m _ unit => ?_) fun _ _ => F.lostUnique
      · exact .inl (by rwa [Action.stateOfExcept])
      · rwa [Action.stateOfExcept]
      · obtain ⟨y,refused⟩ := op.refusesUnit unit
        exact ⟨y,m,by rw [refused]; rfl⟩
    · obtain ⟨vs,rfl⟩ := literalsOf literal
      exact ⟨op.apply vs,evalLiteralNode ctx takes' s,fun t _ => evalLiteralNode run takes' t⟩

theorem Foldable.foldsCall (F : Foldable ctx start run u I W) {f : String} {es : List Expr}
    (called : u.calls f) (arguments : FoldsList start run u I W es (foldList ctx es start)) :
    Folds start run u I W (.call f es) ((Expr.call f es).fold ctx start) := by
  simp only [Expr.fold]
  cases folded : foldList ctx es start with
  | error x s =>
    rw [folded] at arguments
    rw [Action.bindError folded]
    refine ⟨arguments.1,fun t kept => ?_⟩
    simp only [Expr.eval]
    cases done : evalList run es t with
    | error y m => exact ⟨y,m,Action.bindError done⟩
    | ok vs m =>
      rw [Action.bindOk done]
      obtain ⟨unit,gone⟩ := arguments.2 t kept vs m done
      exact F.unitRefused called gone unit
  | ok p s =>
    obtain ⟨es',k⟩ := p
    rw [folded] at arguments
    obtain ⟨rfl,_,within,agrees⟩ := arguments
    rw [Action.bindOk folded]
    have callAgrees : ∀ t, I t →
        Agree I W ((Expr.call f es).eval run t) ((Expr.call f es').eval run t) := by
      intro t kept
      simp only [Expr.eval]
      exact (agrees t kept).finish (fun vs m kept => F.callStays called kept)
        (fun vs m gone => F.lost.call called gone) (fun vs m gone => F.unitRefused called gone)
        fun _ _ => F.lostUnique
    cases literal : es'.mapM Expr.literal? with
    | none => exact ⟨rfl,⟨called,within⟩,callAgrees⟩
    | some vs =>
      cases literalValues literal
      change Folds s run u I W (.call f es)
        ((Action.ask (ctx.isConstantCall f (vs.map Value.kind)) >>= fun constant =>
          foldNodeIf ctx constant .call (.call f (vs.map Expr.literal)) k) s)
      cases asked : ctx.isConstantCall f (vs.map Value.kind) s with
      | error x =>
        rw [Action.bindError (Action.askError asked)]
        refine ⟨rfl,fun t kept => (callAgrees t kept).fails ?_⟩
        rw [evalLiteralCall]
        exact F.unknownCall called asked kept
      | ok constant =>
        rw [Action.bindOk (Action.askOk asked)]
        refine .replace ⟨called,within⟩ callAgrees fun steady => ?_
        subst constant
        obtain ⟨r,folds,runs⟩ := F.constantCall called asked
        refine ⟨r,?_,fun t kept => ?_⟩
        · rw [evalLiteralCall,folds]
        · rw [evalLiteralCall,runs t kept]

theorem Foldable.foldsName (F : Foldable ctx start run u I W) {n : String} (read : u.reads n) :
    Folds start run u I W (.variable n) ((Expr.variable n).fold ctx start) := by
  simp only [Expr.fold]
  cases asked : ctx.isConstantVariable n start with
  | error x =>
    rw [Action.bindError (Action.askError asked)]
    exact ⟨rfl,fun t kept => F.unknownName read asked kept⟩
  | ok constant =>
    rw [Action.bindOk (Action.askOk asked)]
    refine .replace read (fun t kept => (F.resolveStays read kept).agree) fun steady => ?_
    subst constant
    exact F.constantName read asked

theorem Foldable.folds (F : Foldable ctx start run u I W) (e : Expr) (within : e.Within u) :
    Folds start run u I W e (e.fold ctx start) := by
  induction e using Expr.inductNodes with
  | literal v => exact ⟨rfl,trivial,fun t kept => .same kept⟩
  | empty => exact ⟨rfl,trivial,fun t kept => .same kept⟩
  | name n => exact F.foldsName within
  | assign n e ih =>
    have value := ih within.2
    simp only [Expr.fold]
    cases folded : e.fold ctx start with
    | error x s =>
      rw [folded] at value
      rw [Action.bindError folded]
      refine ⟨value.1,fun t kept => ?_⟩
      simp only [Expr.eval]
      exact Action.bindFails (value.2 t kept)
    | ok p s =>
      obtain ⟨e',k⟩ := p
      rw [folded] at value
      obtain ⟨rfl,within',agrees⟩ := value
      rw [Action.bindOk folded]
      refine ⟨rfl,⟨within.1,within'⟩,fun t kept => ?_⟩
      simp only [Expr.eval]
      exact (agrees t kept).assign (fun v m kept => F.assignStays within.1 kept)
        (fun v m gone => F.lost.assign within.1 gone)
  | operation op es takes ih =>
    have operands := (withinNode takes).mp within
    refine F.foldsOperation takes (F.foldsList es operands fun e member => ?_)
    exact ih e member (withinListIff.mp operands e member)
  | call f es ih =>
    refine F.foldsCall within.1 (F.foldsList es within.2 fun e member => ?_)
    exact ih e member (withinListIff.mp within.2 e member)

end Simulation
end ArrayCalc
