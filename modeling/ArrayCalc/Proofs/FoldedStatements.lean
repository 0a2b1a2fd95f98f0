import ArrayCalc.Proofs.Folding
/-! Folding a statement, with its assignments at the root, by repeated traversals. Each traversal
starts from the same state, so what one of them keeps, all of them keep. -/
namespace ArrayCalc
variable {σ τ : Type}

inductive Alike (W : τ → Prop) : Outcome τ Value → Outcome τ Value → Prop where
  | same (r) : Alike W r r
  | failed {e e' s} (lost : W s) : Alike W (.error e s) (.error e' s)

section Alikeness
variable {I W : τ → Prop} {r r' q : Outcome τ Value}

theorem Agree.alike (h : Agree I W r r') : Alike W r r' := by
  cases h with
  | same _ => exact .same _
  | unit _ => exact .same _
  | failed lost => exact .failed lost

theorem Alike.trans (first : Alike W r q) (second : Alike W q r') : Alike W r r' := by
  cases first with
  | same _ => exact second
  | failed lost =>
    cases second with
    | same _ => exact .failed lost
    | failed _ => exact .failed lost

theorem Alike.fails (h : Alike W r r') (failed : r'.Fails) : r.Fails := by
  cases h with
  | same _ => exact failed
  | failed _ => exact ⟨_,_,rfl⟩

theorem Alike.andThen {a a' : Action τ Value} {k k' : Value → Action τ Value} {s : τ}
    (first : Alike W (a s) (a' s)) (next : ∀ v t, Alike W (k v t) (k' v t)) :
    Alike W ((a >>= k) s) ((a' >>= k') s) := by
  generalize done : a s = r at first
  generalize done' : a' s = r' at first
  cases first with
  | same _ =>
    cases r with
    | ok v t =>
      rw [Action.bindOk done,Action.bindOk done']
      exact next v t
    | error e t =>
      rw [Action.bindError done,Action.bindError done']
      exact .same _
  | failed lost =>
    rw [Action.bindError done,Action.bindError done']
    exact .failed lost

theorem Alike.weaken {V : τ → Prop} (h : Alike W r r') (weaker : ∀ s, W s → V s) : Alike V r r' := by
  cases h with
  | same _ => exact .same _
  | failed lost => exact .failed (weaker _ lost)

theorem Alike.eq (h : Alike W r r') (never : ∀ s, ¬W s) : r = r' := by
  cases h with
  | same _ => rfl
  | failed lost => exact absurd lost (never _)

end Alikeness

section Rewriting
variable {α β γ : Type} {start : σ} {P : α → Prop} {R : α → α → Prop} {Bad : α → Prop}

/- A rewriting of `a` from the state `start`. It leaves the state as it is and gives something with `P`
that stands in the relation `R` to `a`; or it fails, and `a` was bad. -/
def Rewrites (start : σ) (P : α → Prop) (R : α → α → Prop) (Bad : α → Prop) (a : α) :
    Outcome σ (α × β) → Prop
  | .ok (a',_) s => s = start ∧ P a' ∧ R a a'
  | .error _ s => s = start ∧ Bad a

structure Chains (R : α → α → Prop) (Bad : α → Prop) : Prop where
  refl : ∀ a, R a a
  trans : ∀ {a b c}, R a b → R b c → R a c
  bad : ∀ {a b}, R a b → Bad b → Bad a

theorem Chains.again (chains : Chains R Bad) {a m : α} {r : Outcome σ (α × β)} (first : R a m)
    (rest : Rewrites start P R Bad m r) : Rewrites start P R Bad a r := by
  cases r with
  | ok p s => exact ⟨rest.1,rest.2.1,chains.trans first rest.2.2⟩
  | error x s => exact ⟨rest.1,chains.bad first rest.2⟩

theorem Chains.andThen (chains : Chains R Bad) {a : α} {first : Action σ (α × β)}
    {next : α × β → Action σ (α × γ)} (rewrites : Rewrites start P R Bad a (first start))
    (rest : ∀ m c, P m → Rewrites start P R Bad m (next (m,c) start)) :
    Rewrites start P R Bad a ((first >>= next) start) := by
  cases done : first start with
  | error x s =>
    rw [done] at rewrites
    rw [Action.bindError done]
    exact rewrites
  | ok p s =>
    obtain ⟨m,c⟩ := p
    rw [done] at rewrites
    obtain ⟨rfl,holds,related⟩ := rewrites
    rw [Action.bindOk done]
    exact chains.again related (rest m c holds)

theorem Chains.stop (chains : Chains R Bad) {a : α} (holds : P a) (c : β) :
    Rewrites start P R Bad a (.ok (a,c) start) := ⟨rfl,holds,chains.refl a⟩

theorem Chains.settle (chains : Chains R Bad) {pass : α → Action σ (α × FoldCount)}
    (each : ∀ {a}, P a → Rewrites start P R Bad a (pass a start)) (more : Nat) {a : α} (holds : P a) :
    Rewrites start P R Bad a (settle pass more a start) := by
  induction more generalizing a with
  | zero =>
    simp only [ArrayCalc.settle]
    exact chains.andThen (each holds) fun m c holds => chains.stop holds _
  | succ more ih =>
    simp only [ArrayCalc.settle]
    refine chains.andThen (each holds) fun m c holds => ?_
    split
    · exact chains.stop holds _
    · exact chains.andThen (ih holds) fun m c holds => chains.stop holds _

end Rewriting

section Statements
variable {α : Type} {ctx : Context σ} {start : σ} {run : Context τ} {u : Usage} {I W : τ → Prop}

def FoldsStatement (start : σ) (run : Context τ) (u : Usage) (I W : τ → Prop) :
    Expr → Outcome σ (Expr × α) → Prop :=
  Rewrites start (Expr.RootAssigned u) (fun e e' => ∀ t, I t → Alike W (e.eval run t) (e'.eval run t))
    fun e => ∀ t, I t → Outcome.Fails (e.eval run t)

theorem alikeChains (run : Context τ) (I W : τ → Prop) :
    Chains (fun e e' : Expr => ∀ t, I t → Alike W (e.eval run t) (e'.eval run t))
      fun e => ∀ t, I t → Outcome.Fails (e.eval run t) where
  refl _ _ _ := .same _
  trans first second t kept := (first t kept).trans (second t kept)
  bad alike fails t kept := (alike t kept).fails (fails t kept)

theorem Foldable.foldsStatement (F : Foldable ctx start run u I W) {e : Expr}
    (root : e.RootAssigned u) : FoldsStatement start run u I W e (e.fold ctx start) := by
  induction root with
  | @body e within =>
    have folds := F.folds e within
    cases folded : e.fold ctx start with
    | error x s => rwa [folded] at folds
    | ok p s =>
      rw [folded] at folds
      obtain ⟨same,within',agrees⟩ := folds
      exact ⟨same,.body within',fun t kept => (agrees t kept).alike⟩
  | @assign n e value ih =>
    simp only [Expr.fold]
    cases folded : e.fold ctx start with
    | error x s =>
      rw [folded] at ih
      rw [Action.bindError folded]
      refine ⟨ih.1,fun t kept => ?_⟩
      simp only [Expr.eval]
      exact Action.bindFails (ih.2 t kept)
    | ok p s =>
      obtain ⟨e',k⟩ := p
      rw [folded] at ih
      obtain ⟨same,root',alike⟩ := ih
      rw [Action.bindOk folded]
      refine ⟨same,.assign n root',fun t kept => ?_⟩
      simp only [Expr.eval]
      exact (alike t kept).andThen fun v t => .same _

theorem Foldable.settles (F : Foldable ctx start run u I W) (more : Nat) {e : Expr}
    (root : e.RootAssigned u) :
    FoldsStatement start run u I W e (settle (Expr.fold ctx) more e start) :=
  (alikeChains run I W).settle F.foldsStatement more root

end Statements
end ArrayCalc
