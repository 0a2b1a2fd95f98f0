import ArrayCalc.Eval
/-! Outcomes of actions: a value or an error, either way with the state that is left. An action that
goes on after another one is taken apart here, so that no later proof opens the bind of actions. -/
namespace ArrayCalc

abbrev Outcome (σ α : Type) := EStateM.Result EvalError σ α

namespace Outcome
variable {σ α : Type}

def state : Outcome σ α → σ
  | .ok _ s => s
  | .error _ s => s

def Fails (r : Outcome σ α) : Prop := ∃ e s, r = .error e s

@[simp] theorem stateOk (a : α) (s : σ) : state (.ok a s : Outcome σ α) = s := rfl
@[simp] theorem stateError (e : EvalError) (s : σ) : state (.error e s : Outcome σ α) = s := rfl

end Outcome

namespace Action
variable {σ α β : Type} {a : Action σ α} {f : α → Action σ β} {s t : σ}

theorem bindOk {v : α} (h : a s = .ok v t) : (a >>= f) s = f v t := by
  change EStateM.bind a f s = f v t
  simp only [EStateM.bind,h]

theorem bindError {e : EvalError} (h : a s = .error e t) : (a >>= f) s = .error e t := by
  change EStateM.bind a f s = .error e t
  simp only [EStateM.bind,h]

theorem bindOkInv {w : β} (h : (a >>= f) s = .ok w t) :
    ∃ v m, a s = .ok v m ∧ f v m = .ok w t := by
  cases first : a s with
  | ok v m => exact ⟨v,m,rfl,(bindOk first).symm.trans h⟩
  | error e m =>
    rw [bindError first] at h
    contradiction

theorem bindFails (h : Outcome.Fails (a s)) : Outcome.Fails ((a >>= f) s) := by
  obtain ⟨e,t,failed⟩ := h
  exact ⟨e,t,bindError failed⟩

@[simp] theorem stateOfExcept (r : Except EvalError α) : Outcome.state (ofExcept r s) = s := by
  cases r <;> rfl

theorem askOk {q : σ → Except EvalError α} {v : α} (h : q s = .ok v) : ask q s = .ok v s := by
  simp only [ask,h]

theorem askError {q : σ → Except EvalError α} {e : EvalError} (h : q s = .error e) :
    ask q s = .error e s := by
  simp only [ask,h]

end Action
end ArrayCalc
