import ArrayCalc.Proofs.FilterBounds
import ArrayCalc.Proofs.LibraryFunctions
/-! Arrays with elements. No operator and no function of the library makes an empty array from
arrays that have elements. -/
namespace ArrayCalc

namespace Shaped
variable {α β γ δ : Type}

def Filled (s : Shaped α) : Prop := s.length? ≠ some 0

theorem mapFilled {s : Shaped α} (f : α → β) (filled : s.Filled) : (s.map f).Filled := by
  cases s with
  | scalar a => exact filled
  | array as => simpa [Filled,length?,map] using filled

theorem zipWithFilled {f : α → β → γ} {x : Shaped α} {y : Shaped β} {r : Shaped γ}
    (zipped : zipWith f x y = some r) (left : x.Filled) (right : y.Filled) : r.Filled := by
  unfold zipWith at zipped
  split at zipped
  · cases zipped
    exact mapFilled _ right
  · cases zipped
    exact mapFilled _ left
  · cases zipped
    simpa [Filled,length?] using right
  · cases zipped
    simpa [Filled,length?] using left
  · split at zipped
    · cases zipped
      simp_all [Filled,length?]
    · contradiction

theorem zipWith3Filled {f : α → β → γ → δ} {x : Shaped α} {y : Shaped β} {z : Shaped γ} {r : Shaped δ}
    (zipped : zipWith3 f x y z = some r) (first : x.Filled) (second : y.Filled) (third : z.Filled) :
    r.Filled := by
  obtain ⟨g,pairs,rest⟩ := Option.bind_eq_some_iff.mp zipped
  exact zipWithFilled rest (zipWithFilled pairs first second) third

end Shaped

def Value.Filled (v : Value) : Prop := v.length? ≠ some 0

section Operators
variable {α β γ : Type}

theorem combineFilled {make : Shaped γ → Value} (same : ∀ r, (make r).length? = r.length?)
    {f : α → β → γ} {a : Shaped α} {b : Shaped β} {v : Value} (done : combine make f a b = .ok v)
    (left : a.Filled) (right : b.Filled) : v.Filled := by
  unfold combine at done
  cases zipped : a.zipWith f b with
  | none => rw [zipped] at done; contradiction
  | some r =>
    rw [zipped] at done
    cases done
    rw [Value.Filled,same]
    exact Shaped.zipWithFilled zipped left right

theorem onNumbersFilled {f : Float → Float → Float} {a b v : Value}
    (done : onNumbers f a b = .ok v) (left : a.Filled) (right : b.Filled) : v.Filled := by
  unfold onNumbers at done
  split at done
  · exact combineFilled (fun _ => rfl) done left right
  · contradiction

theorem pickedFilled {make : α → Value} (scalar : ∀ a, (make a).length? = none) {as : List α}
    {i : Float} {v : Value} (done : make <$> pick as i = .ok v) : v.Filled := by
  cases picked : pick as i with
  | error e => rw [picked] at done; contradiction
  | ok a =>
    rw [picked] at done
    cases done
    simp [Value.Filled,scalar]

theorem unaryFilled {op : UnaryOp} {a v : Value} (done : op.apply a = .ok v) (filled : a.Filled) :
    v.Filled := by
  unfold UnaryOp.apply at done
  split at done
  · cases done; exact Shaped.mapFilled _ filled
  · cases done; exact Shaped.mapFilled _ filled
  · contradiction

theorem compareNumbersFilled {f : Float → Float → Bool} {a b v : Value}
    (done : compareNumbers f a b = .ok v) (left : a.Filled) (right : b.Filled) : v.Filled := by
  unfold compareNumbers at done
  split at done
  · exact combineFilled (fun _ => rfl) done left right
  · contradiction

theorem onBoolsFilled {f : Bool → Bool → Bool} {a b v : Value}
    (done : onBools f a b = .ok v) (left : a.Filled) (right : b.Filled) : v.Filled := by
  unfold onBools at done
  split at done
  · exact combineFilled (fun _ => rfl) done left right
  · contradiction

theorem addValuesFilled {a b v : Value} (done : addValues a b = .ok v) (left : a.Filled)
    (right : b.Filled) : v.Filled := by
  unfold addValues at done
  split at done
  · exact combineFilled (fun _ => rfl) done left right
  · exact combineFilled (fun _ => rfl) done left right
  · cases done; exact left
  · cases done; exact left
  · contradiction

theorem equalValuesFilled {negated : Bool} {a b v : Value} (done : equalValues negated a b = .ok v)
    (left : a.Filled) (right : b.Filled) : v.Filled := by
  unfold equalValues at done
  split at done
  · exact combineFilled (fun _ => rfl) done left right
  · exact combineFilled (fun _ => rfl) done left right
  · contradiction

theorem elementFilled {a b v : Value} (done : elementAt a b = .ok v) : v.Filled := by
  unfold elementAt at done
  split at done
  · exact pickedFilled (fun _ => rfl) done
  · exact pickedFilled (fun _ => rfl) done
  · exact pickedFilled (fun _ => rfl) done
  · contradiction

theorem binaryFilled {op : BinaryOp} {a b v : Value} (done : op.apply a b = .ok v)
    (left : a.Filled) (right : b.Filled) : v.Filled := by
  cases op with
  | add => exact addValuesFilled done left right
  | sub | mul | div | pow => exact onNumbersFilled done left right
  | less | lessEqual | greater | greaterEqual => exact compareNumbersFilled done left right
  | equal | notEqual => exact equalValuesFilled done left right
  | and | or => exact onBoolsFilled done left right
  | index => exact elementFilled done

theorem chooseFilled {make : Shaped α → Value} (same : ∀ r, (make r).length? = r.length?)
    {c : Shaped Bool} {a b : Shaped α} {v : Value} (done : chooseShaped make c a b = .ok v)
    (condition : c.Filled) (yes : a.Filled) (no : b.Filled) : v.Filled := by
  unfold chooseShaped combine3 at done
  split at done
  · rename_i r zipped
    cases done
    rw [Value.Filled,same]
    exact Shaped.zipWith3Filled zipped condition yes no
  · contradiction

theorem selectFilled {c a b v : Value} (done : select c a b = .ok v) (condition : c.Filled)
    (yes : a.Filled) (no : b.Filled) : v.Filled := by
  unfold select at done
  split at done
  · exact chooseFilled (fun _ => rfl) done condition yes no
  · exact chooseFilled (fun _ => rfl) done condition yes no
  · exact chooseFilled (fun _ => rfl) done condition yes no
  · contradiction

theorem collectedFilled {view : Value → Option α} {make : Shaped α → Value}
    (same : ∀ r, (make r).length? = r.length?) {u v : Value} {vs : List Value}
    (done : make <$> collect view (u :: vs) = .ok v) : v.Filled := by
  unfold collect at done
  split at done
  · rename_i as seen
    cases done
    simp only [List.mapM_cons,Option.bind_eq_bind,Option.bind_eq_some_iff] at seen
    obtain ⟨a,_,rest,_,last⟩ := seen
    cases last
    simp [Value.Filled,same,Shaped.length?]
  · contradiction

theorem arrayFilled {vs : List Value} {v : Value} (done : arrayOf vs = .ok v) : v.Filled := by
  unfold arrayOf at done
  split at done
  · contradiction
  · exact collectedFilled (fun _ => rfl) done
  · exact collectedFilled (fun _ => rfl) done
  · exact collectedFilled (fun _ => rfl) done
  · contradiction

theorem operationFilled {op : Operation} {vs : List Value} {v : Value}
    (filled : ∀ v ∈ vs, v.Filled) (done : op.apply vs = .ok v) : v.Filled := by
  unfold Operation.apply at done
  split at done
  · exact unaryFilled done (filled _ (by simp))
  · exact binaryFilled done (filled _ (by simp)) (filled _ (by simp))
  · exact selectFilled done (filled _ (by simp)) (filled _ (by simp)) (filled _ (by simp))
  · exact arrayFilled done

end Operators
end ArrayCalc
