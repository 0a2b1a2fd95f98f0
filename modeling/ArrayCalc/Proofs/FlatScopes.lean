import ArrayCalc.Proofs.HonestFolding
import ArrayCalc.Proofs.Overlay
/-! Scopes over a context are one flat store: the overlay of all scopes, the innermost on top and the
variables of the context itself at the bottom. Whatever is asked of the scopes and whatever is run in
them, flat declared bindings with that one store give the same answers. Only the innermost scope is
ever written, so leaving it gives back the variables from before it was entered. -/
namespace ArrayCalc

section Flattening
variable {σ θ : Type}

/- The context `ctx` has the variables `kept` and apart from them the bindings `fs`, for a host that
`view` makes of its state. None of the bindings writes variables. -/
structure Flattens (ctx : Context σ) (kept : σ → Option Store) (fs : Bindings θ) (view : σ → θ) :
    Prop where
  resolveStored : ∀ {b n v}, (kept b).bind (·.get? n) = some v → ctx.resolve n b = .ok v b
  constantStored : ∀ {b n v}, (kept b).bind (·.get? n) = some v →
    ctx.isConstantVariable n b = .ok true
  resolveBound : ∀ {b n st}, (kept b).bind (·.get? n) = none → st.get? n = none →
    Outcome.Related (fun m f => kept m = kept b ∧ f = ⟨view m,some st⟩) (ctx.resolve n b)
      (fs.context.resolve n ⟨view b,some st⟩)
  constantBound : ∀ {b n st}, (kept b).bind (·.get? n) = none → st.get? n = none →
    ctx.isConstantVariable n b = fs.context.isConstantVariable n ⟨view b,some st⟩
  call : ∀ {b f vs st}, Outcome.Related (fun m f => kept m = kept b ∧ f = ⟨view m,some st⟩)
    (ctx.call f vs b) (fs.context.call f vs ⟨view b,some st⟩)
  constantCall : ∀ {b f ks w}, ctx.isConstantCall f ks b = fs.context.isConstantCall f ks w

def flattened (kept : σ → Option Store) (view : σ → θ) (s : Scoped σ) : Workspace θ :=
  ⟨view s.base,some (overlays s.scopes ((kept s.base).getD .empty))⟩

structure Flat (kept : σ → Option Store) (view : σ → θ) (below : List Store) (store : Option Store)
    (s : Scoped σ) (f : Workspace θ) : Prop where
  outer : ∃ inner, s.scopes = inner :: below
  lowest : kept s.base = store
  flat : f = flattened kept view s

variable {ctx : Context σ} {kept : σ → Option Store} {fs : Bindings θ} {view : σ → θ}
  {below : List Store} {store : Option Store}

theorem getFlattened (s : Scoped σ) (n : String) :
    (flattened kept view s).stored? n = (s.stored? n).or ((kept s.base).bind (·.get? n)) := by
  simp only [flattened,Workspace.stored?,Option.bind_some,getOverlays,Scoped.stored?]
  cases kept s.base <;> rfl

theorem onBaseFlat {α : Type} {s : Scoped σ} {f : Workspace θ} {a : Action σ α}
    {a' : Action (Workspace θ) α} (states : Flat kept view below store s f)
    (related : Outcome.Related (fun m g => kept m = kept s.base ∧ g = ⟨view m,f.store⟩) (a s.base)
      (a' f)) : Outcome.Related (Flat kept view below store) (Scoped.onBase a s) (a' f) := by
  have stays : ∀ m g, kept m = kept s.base ∧ g = ⟨view m,f.store⟩ →
      Flat kept view below store ⟨s.scopes,m⟩ g := by
    rintro m g ⟨same,rfl⟩
    refine ⟨states.outer,same.trans states.lowest,?_⟩
    rw [states.flat]
    simp only [flattened,same]
  unfold Scoped.onBase
  generalize a s.base = r at related
  generalize a' f = r' at related
  cases related with
  | ok after => exact .ok (stays _ _ after)
  | error after => exact .error (stays _ _ after)

theorem Flattens.resolve (F : Flattens ctx kept fs view) {n : String} {s : Scoped σ}
    {f : Workspace θ} (states : Flat kept view below store s f) :
    Outcome.Related (Flat kept view below store) (Scoped.resolve ctx n s) (fs.context.resolve n f) := by
  have seen : (flattened kept view s).stored? n = _ := getFlattened s n
  rw [← states.flat] at seen
  cases found : s.stored? n with
  | some v =>
    rw [found] at seen
    simp only [Scoped.resolve,found,Bindings.context,Bindings.resolve,seen,Option.some_or]
    exact .ok states
  | none =>
    rw [found,Option.none_or] at seen
    simp only [Scoped.resolve,found]
    cases lower : (kept s.base).bind (·.get? n) with
    | some v =>
      rw [lower] at seen
      apply onBaseFlat states
      simp only [F.resolveStored lower,Bindings.context,Bindings.resolve,seen]
      exact .ok ⟨rfl,by rw [states.flat]; rfl⟩
    | none =>
      rw [lower] at seen
      apply onBaseFlat states
      cases states.flat
      exact F.resolveBound lower seen

theorem Flattens.constantVariable (F : Flattens ctx kept fs view) {n : String} {s : Scoped σ}
    {f : Workspace θ} (states : Flat kept view below store s f) :
    ctx.scoped.isConstantVariable n s = fs.context.isConstantVariable n f := by
  have seen : (flattened kept view s).stored? n = _ := getFlattened s n
  rw [← states.flat] at seen
  simp only [Context.scoped,Scoped.isConstantVariable]
  cases found : s.stored? n with
  | some v =>
    rw [found] at seen
    simp only [Bindings.context,Bindings.isConstantVariable,seen,Option.some_or]
  | none =>
    rw [found,Option.none_or] at seen
    cases lower : (kept s.base).bind (·.get? n) with
    | some v =>
      rw [lower] at seen
      simp only [F.constantStored lower,Bindings.context,Bindings.isConstantVariable,seen]
    | none =>
      rw [lower] at seen
      cases states.flat
      exact F.constantBound lower seen

theorem Flattens.tracks (F : Flattens ctx kept fs view) (below : List Store) (store : Option Store) :
    ctx.scoped.TracksAnswers fs.context (Flat kept view below store) where
  resolve states := F.resolve states
  assign {n v s f} states := by
    obtain ⟨scopes,base⟩ := s
    obtain ⟨⟨inner,rfl⟩,same,rfl⟩ := states
    refine .ok ⟨⟨inner.insert n v,rfl⟩,same,?_⟩
    simp only [flattened,overlaysInsert]
  call {f vs s w} states := by
    apply onBaseFlat states
    cases states.flat
    exact F.call
  constantVariable states := F.constantVariable states
  constantCall _ := F.constantCall

end Flattening

section Hosts
variable {η θ α : Type}

def Alongside (view : Workspace η → θ) (a : Action (Workspace η) α) (a' : Action (Workspace θ) α) :
    Prop :=
  ∀ w st, Outcome.Related (fun m f => m.store = w.store ∧ f = ⟨view m,st⟩) (a w) (a' ⟨view w,st⟩)

theorem flattensMapped {bs : Bindings η} {fs : Bindings θ} {view : Workspace η → θ}
    {f : String → Property η → Property θ} {g : String → Method η → Method θ}
    (properties : ∀ n, fs.property? n = (bs.property? n).map (f n))
    (overloads : ∀ n ks, fs.overload? n ks = (bs.overload? n ks).map (g n))
    (flags : ∀ n p, (f n p).constant = p.constant) (flags' : ∀ n m, (g n m).constant = m.constant)
    (reads : ∀ {n p}, bs.property? n = some p → Alongside view p.read (f n p).read)
    (invokes : ∀ {n vs m}, bs.overload? n (vs.map Value.kind) = some m →
      Alongside view (m.invoke vs) ((g n m).invoke vs)) :
    Flattens bs.context Workspace.store fs view where
  resolveStored {w n v} found := by
    have stored : w.stored? n = some v := found
    simp only [Bindings.context,Bindings.resolve,stored]
  constantStored {w n v} found := by
    have stored : w.stored? n = some v := found
    simp only [Bindings.context,Bindings.isConstantVariable,stored]
  resolveBound {w n st} missing absent := by
    have above : (⟨view w,some st⟩ : Workspace θ).stored? n = none := absent
    simp only [Bindings.context,Bindings.resolve,above,properties,overloads]
    cases bs.resolution n (w.stored? n) with
    | stored v found => rw [show w.stored? n = none from missing] at found; contradiction
    | property p absent found =>
      simp only [absent,found,Option.map_some]
      exact reads found w (some st)
    | method m absent none found =>
      have bare : bs.overload? n [] = some m := found
      simp only [absent,none,bare,Option.map_some,Option.map_none]
      exact invokes found w (some st)
    | unknown absent none unbound =>
      simp only [absent,none,unbound,Option.map_none]
      exact .error ⟨rfl,rfl⟩
  constantBound {w n st} missing absent := by
    have above : (⟨view w,some st⟩ : Workspace θ).stored? n = none := absent
    have below : w.stored? n = none := missing
    simp only [Bindings.context,Bindings.isConstantVariable,above,below,properties,overloads]
    cases bs.property? n with
    | some p => simp only [Option.map_some,flags]
    | none =>
      cases bs.overload? n [] with
      | some m => simp only [Option.map_some,Option.map_none,flags']
      | none => rfl
  call {w f vs st} := by
    simp only [Bindings.context,Bindings.call,overloads]
    cases found : bs.overload? f (vs.map Value.kind) with
    | some m => exact invokes found w (some st)
    | none => exact .error ⟨rfl,rfl⟩
  constantCall {w f ks m} := by
    simp only [Bindings.context,Bindings.isConstantCall,overloads]
    cases bs.overload? f ks with
    | some m => simp only [Option.map_some,flags']
    | none => rfl

/- An action of a host that brings its workspace along: the variables in there are the host's own
business, those next to it are not. -/
def aside (a : Action (Workspace η) α) : Action (Workspace (Workspace η)) α := fun w =>
  match a w.host with
  | .ok v m => .ok v { w with host := m }
  | .error e m => .error e { w with host := m }

def Property.aside (p : Property η) : Property (Workspace η) := ⟨p.constant,ArrayCalc.aside p.read⟩

def Method.aside (m : Method η) : Method (Workspace η) :=
  ⟨m.constant,m.parameters,fun vs => ArrayCalc.aside (m.invoke vs)⟩

def Bindings.aside (bs : Bindings η) : Bindings (Workspace η) :=
  bs.map (fun _ => Property.aside) (fun _ => Method.aside)

theorem asideAlongside {a : Action (Workspace η) α}
    (keeps : ∀ w, (Outcome.state (a w)).store = w.store) : Alongside id a (aside a) := by
  intro w st
  have kept := keeps w
  simp only [aside,id]
  cases done : a w with
  | ok v m => rw [done] at kept; exact .ok ⟨kept,rfl⟩
  | error e m => rw [done] at kept; exact .error ⟨kept,rfl⟩

theorem flattensAside {bs : Bindings η} (keeps : bs.KeepsVariables) :
    Flattens bs.context Workspace.store bs.aside id :=
  flattensMapped (f := fun _ => Property.aside) (g := fun _ => Method.aside) (bs.mapProperty _ _)
    (bs.mapOverload _ _ fun _ _ => rfl) (fun _ _ => rfl) (fun _ _ => rfl)
    (fun found => asideAlongside (keeps.property found))
    (fun found => asideAlongside (keeps.method found))

def Unaware (a : Action (Workspace η) α) : Prop :=
  ∀ w store, a ⟨w.host,store⟩ = Outcome.project (fun m => ⟨m.host,store⟩) (a w)

structure Bindings.Unaware (bs : Bindings η) : Prop where
  property : ∀ {n p}, bs.property? n = some p → ArrayCalc.Unaware p.read
  method : ∀ {f vs m}, bs.overload? f (vs.map Value.kind) = some m → ArrayCalc.Unaware (m.invoke vs)

theorem unawareAlongside {a : Action (Workspace η) α} (unaware : Unaware a) :
    Alongside Workspace.host a a := by
  intro w st
  have other := unaware w st
  have own := unaware w w.store
  rw [other]
  cases done : a w with
  | ok v m =>
    rw [done] at own
    exact .ok ⟨congrArg (fun r => (Outcome.state r).store) own,rfl⟩
  | error e m =>
    rw [done] at own
    exact .error ⟨congrArg (fun r => (Outcome.state r).store) own,rfl⟩

theorem flattensUnaware {bs : Bindings η} (unaware : bs.Unaware) :
    Flattens bs.context Workspace.store bs Workspace.host := by
  apply flattensMapped (f := fun _ p => p) (g := fun _ m => m)
  · exact fun n => Option.map_id'.symm
  · exact fun n ks => Option.map_id'.symm
  · exact fun _ _ => rfl
  · exact fun _ _ => rfl
  · exact fun found => unawareAlongside (unaware.property found)
  · exact fun found => unawareAlongside (unaware.method found)

theorem flattensEmpty {σ : Type} :
    Flattens (Context.empty : Context σ) (fun _ => none) (Bindings.empty : Bindings σ) id where
  resolveStored found := by cases found
  constantStored found := by cases found
  resolveBound {b n st} _ absent := by
    have above : (⟨b,some st⟩ : Workspace σ).stored? n = none := absent
    simp only [Bindings.context,Bindings.resolve,id,above]
    exact .error ⟨trivial,rfl⟩
  constantBound {b n st} _ absent := by
    have above : (⟨b,some st⟩ : Workspace σ).stored? n = none := absent
    simp only [Bindings.context,Bindings.isConstantVariable,id,above]
    rfl
  call := .error ⟨rfl,rfl⟩
  constantCall := rfl

end Hosts

inductive Use where
  | program (source : String)
  | fold (limit : Nat) (es : List Expr)
  | resolve (name : String)
  | assign (name : String) (v : Value)
  | call (name : String) (arguments : List Value)
  | isConstantVariable (name : String)
  | isConstantCall (name : String) (arguments : List Kind)

inductive Answer where
  | program (r : Except Error Value)
  | folded (r : Except EvalError (List Expr × FoldStats))
  | value (r : Except EvalError Value)
  | assigned (r : Except EvalError Unit)
  | constant (r : Except EvalError Bool)

section Scripts
variable {σ τ : Type}

def reply {ε α : Type} (make : Except ε α → Answer) : EStateM.Result ε σ α → Answer × σ
  | .ok a s => (make (.ok a),s)
  | .error e s => (make (.error e),s)

namespace Use

def run (ctx : Context σ) : Use → σ → Answer × σ
  | .program source, s => reply .program (evaluate ctx source s)
  | .fold limit es, s => reply .folded (foldStatements ctx limit es s)
  | .resolve n, s => reply .value (ctx.resolve n s)
  | .assign n v, s => reply .assigned (ctx.assign n v s)
  | .call f vs, s => reply .value (ctx.call f vs s)
  | .isConstantVariable n, s => (.constant (ctx.isConstantVariable n s),s)
  | .isConstantCall f ks, s => (.constant (ctx.isConstantCall f ks s),s)

def runAll (ctx : Context σ) : List Use → σ → List Answer × σ
  | [], s => ([],s)
  | use :: script, s =>
    ((use.run ctx s).1 :: (runAll ctx script (use.run ctx s).2).1,
      (runAll ctx script (use.run ctx s).2).2)

end Use

variable {run : Context τ} {ctx : Context σ} {R : τ → σ → Prop} {t : τ} {s : σ}

theorem replySame {ε α : Type} {r : EStateM.Result ε τ α} {r' : EStateM.Result ε σ α}
    (make : Except ε α → Answer) (related : Outcome.Related R r r') :
    (reply make r).1 = (reply make r').1 ∧ R (reply make r).2 (reply make r').2 := by
  cases related with
  | ok states => exact ⟨rfl,states⟩
  | error states => exact ⟨rfl,states⟩

theorem Context.TracksAnswers.use (tracks : run.TracksAnswers ctx R) (use : Use) (states : R t s) :
    (use.run run t).1 = (use.run ctx s).1 ∧ R (use.run run t).2 (use.run ctx s).2 := by
  cases use with
  | program source => exact replySame _ (tracks.evaluate source states)
  | fold limit es => exact replySame _ (tracks.foldStatements limit es states)
  | resolve n => exact replySame _ (tracks.resolve states)
  | assign n v => exact replySame _ (tracks.assign states)
  | call f vs => exact replySame _ (tracks.call states)
  | isConstantVariable n => exact ⟨congrArg _ (tracks.constantVariable states),states⟩
  | isConstantCall f ks => exact ⟨congrArg _ (tracks.constantCall states),states⟩

theorem Context.TracksAnswers.uses (tracks : run.TracksAnswers ctx R) (script : List Use)
    (states : R t s) :
    (Use.runAll run script t).1 = (Use.runAll ctx script s).1 ∧
      R (Use.runAll run script t).2 (Use.runAll ctx script s).2 := by
  induction script generalizing t s with
  | nil => exact ⟨rfl,states⟩
  | cons use script ih =>
    obtain ⟨answer,after⟩ := tracks.use use states
    obtain ⟨answers,last⟩ := ih after
    simp only [Use.runAll]
    exact ⟨by rw [answer,answers],last⟩

end Scripts

section Scopes
variable {σ θ : Type}

/- Scopes over `ctx` and the bindings `fs` with one store, used by the same script. Before the script
the store is the overlay of the scopes, and so it is afterwards. -/
structure BehavesFlat (ctx : Context σ) (kept : σ → Option Store) (fs : Bindings θ) (view : σ → θ) :
    Prop where
  answers : ∀ s script, s.scopes ≠ [] → (Use.runAll ctx.scoped script s).1 =
    (Use.runAll fs.context script (flattened kept view s)).1
  overlay : ∀ s script, s.scopes ≠ [] → (Use.runAll fs.context script (flattened kept view s)).2 =
    flattened kept view (Use.runAll ctx.scoped script s).2
  below : ∀ s script, s.scopes ≠ [] →
    (Use.runAll ctx.scoped script s).2.scopes.tail = s.scopes.tail ∧
      kept (Use.runAll ctx.scoped script s).2.base = kept s.base
  leave : ∀ s script, ∃ left, (Use.runAll ctx.scoped script s.enter).2.leave? = some left ∧
    left.scopes = s.scopes ∧ kept left.base = kept s.base ∧
      (flattened kept view left).store = (flattened kept view s).store

variable {ctx : Context σ} {kept : σ → Option Store} {fs : Bindings θ} {view : σ → θ}

theorem flatStart {s : Scoped σ} (entered : s.scopes ≠ []) :
    Flat kept view s.scopes.tail (kept s.base) s (flattened kept view s) := by
  obtain ⟨inner,outer,scopes⟩ := List.exists_cons_of_ne_nil entered
  exact ⟨⟨inner,by rw [scopes]; rfl⟩,rfl,rfl⟩

theorem Flattens.behaves (F : Flattens ctx kept fs view) : BehavesFlat ctx kept fs view where
  answers s script entered := ((F.tracks ..).uses script (flatStart entered)).1
  overlay s script entered := ((F.tracks ..).uses script (flatStart entered)).2.flat
  below s script entered := by
    have last := ((F.tracks ..).uses script (flatStart entered)).2
    obtain ⟨inner,scopes⟩ := last.outer
    exact ⟨by rw [scopes]; rfl,last.lowest⟩
  leave s script := by
    have last := ((F.tracks ..).uses script (flatStart (s := s.enter) (List.cons_ne_nil _ _))).2
    obtain ⟨inner,scopes⟩ := last.outer
    have lowest := last.lowest
    generalize (Use.runAll ctx.scoped script s.enter).2 = after at scopes lowest
    refine ⟨⟨s.scopes,after.base⟩,?_,rfl,lowest,?_⟩
    · simp only [Scoped.leave?,scopes]
      rfl
    · simp only [flattened,lowest]
      rfl

end Scopes

theorem scopesBehaveFlat {η : Type} (bs : Bindings η) (keeps : bs.KeepsVariables) :
    BehavesFlat bs.context Workspace.store bs.aside id ∧
      (bs.Unaware → BehavesFlat bs.context Workspace.store bs Workspace.host) ∧
      ∀ σ : Type, BehavesFlat (Context.empty : Context σ) (fun _ => none) Bindings.empty id :=
  ⟨(flattensAside keeps).behaves,fun unaware => (flattensUnaware unaware).behaves,
    fun _ => flattensEmpty.behaves⟩

theorem countingUnaware : (Bindings.ofList counting).Unaware where
  property found := by
    have declared := Bindings.propertyDeclared found
    simp only [counting,List.mem_cons,Binding.property.injEq,reduceCtorEq,List.not_mem_nil,or_false]
      at declared
    rcases declared with ⟨-,rfl⟩ | ⟨-,rfl⟩ <;> exact fun _ _ => rfl
  method found := by
    have declared := (Bindings.overloadDeclared found).1
    simp only [counting,List.mem_cons,Binding.method.injEq,reduceCtorEq,List.not_mem_nil,or_false,
      false_or] at declared
    rcases declared with ⟨-,rfl⟩ | ⟨-,rfl⟩
    · intro w store
      dsimp only
      cases arrayOf _ <;> rfl
    · exact fun _ _ => rfl

theorem countingScopesFlat :
    ((Bindings.ofList counting).KeepsVariables ∧ (Bindings.ofList counting).Unaware) ∧
    (let s : Scoped (Workspace Nat) := ⟨[.empty,NameMap.empty.insert "x" (.ofNumber 5.0)],⟨0,none⟩⟩
     let script := [Use.program "x = tick() + x; count",.isConstantVariable "x"]
     (Use.runAll (Bindings.ofList counting).context.scoped script s).1 =
       (Use.runAll (Bindings.ofList counting).context script
         ⟨0,some (NameMap.empty.insert "x" (.ofNumber 5.0))⟩).1 ∧
     (Use.runAll (Bindings.ofList counting).context.scoped script s).2.scopes.tail =
       [NameMap.empty.insert "x" (.ofNumber 5.0)]) := by
  have flat := (scopesBehaveFlat (Bindings.ofList counting) countingKeepsVariables).2.1 countingUnaware
  refine ⟨⟨countingKeepsVariables,countingUnaware⟩,?_,?_⟩
  · exact flat.answers _ _ (List.cons_ne_nil _ _)
  · exact (flat.below _ _ (List.cons_ne_nil _ _)).1

end ArrayCalc
