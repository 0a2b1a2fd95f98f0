import ArrayCalc.Proofs.PointwiseOperators
/-! Equality of numbers beside their order. Of two finite numbers neither of which is above the other
the difference is zero, so they are equal within the tolerance. Infinities are level with themselves
too, but have no difference, and are not equal to anything. -/
namespace ArrayCalc

namespace Number
open Float.Model Float.Model.UnpackedFloat

theorem leIff (x y : Float) : x ≤ y ↔ x.toModel.unpack.le y.toModel.unpack = true :=
  decide_eq_true_iff

inductive Level : UnpackedFloat → UnpackedFloat → Prop where
  | infinite (s : Sign) : Level (.infinity s) (.infinity s)
  | zero (s t : Sign) : Level (.zero s) (.zero t)
  | finite (s : Sign) {m : Nat} (e : Int) (positive : 0 < m) :
    Level (.finite s m e positive) (.finite s m e positive)

theorem sameParts {e f : Int} {m n : Nat} (le : ((compare e f).then (compare m n)).isLE = true)
    (ge : ((compare f e).then (compare n m)).isLE = true) : e = f ∧ m = n := by
  simp only [Ordering.isLE_then_iff_or,Int.compare_eq_lt,Int.compare_eq_eq,Nat.isLE_compare] at le ge
  omega

theorem level {u v : UnpackedFloat} (le : u.le v = true) (ge : v.le u = true) : Level u v := by
  cases u with
  | notANumber => contradiction
  | infinity s =>
    cases v with
    | infinity t => cases s <;> cases t <;> first | contradiction | exact .infinite _
    | notANumber | zero | finite => cases s <;> contradiction
  | zero s =>
    cases v with
    | zero t => exact .zero s t
    | notANumber => contradiction
    | infinity t | finite t => cases t <;> contradiction
  | finite s m e positive =>
    cases v with
    | notANumber => contradiction
    | infinity t => cases t <;> contradiction
    | zero t => cases s <;> contradiction
    | finite t n f positive' =>
      cases s <;> cases t
      · have le : ((compare e f).then (compare m n)).swap.isLE = true := le
        have ge : ((compare f e).then (compare n m)).swap.isLE = true := ge
        rw [Ordering.swap_then,Int.compare_swap,Nat.compare_swap] at le ge
        obtain ⟨rfl,rfl⟩ := sameParts ge le
        exact .finite ..
      · contradiction
      · contradiction
      · obtain ⟨rfl,rfl⟩ := sameParts le ge
        exact .finite ..

theorem levelSelf {u : UnpackedFloat} (number : u.isNaN = false) : Level u u := by
  cases u with
  | notANumber => contradiction
  | infinity s => exact .infinite s
  | zero s => exact .zero s s
  | finite s m e positive => exact .finite s e positive

theorem differenceSelf (s : Sign) {m : Nat} (e : Int) (positive : 0 < m) :
    UnpackedFloat.sub Format.binary64 (.finite s m e positive) (.finite s m e positive) =
      .zero .positive := by
  change normalize Format.binary64 (_ - _) _ _ = _
  rw [Int.sub_self]
  rfl

theorem nearUnpacked (x y : Float) : near x y = decide (Float.ofModel (.pack (Float.Model.unpack
    (.pack (UnpackedFloat.sub Format.binary64 x.toModel.unpack y.toModel.unpack))).abs) ≤ tolerance) :=
  rfl

theorem nearLevel {x y : Float} (flat : Level x.toModel.unpack y.toModel.unpack) :
    near x y = x.isFinite ∧ near x y = y.isFinite := by
  rw [nearUnpacked]
  change _ = x.toModel.unpack.isFinite ∧ _ = y.toModel.unpack.isFinite
  generalize x.toModel.unpack = u at flat ⊢
  generalize y.toModel.unpack = v at flat ⊢
  cases flat with
  | infinite s => cases s <;> decide
  | zero s t => cases s <;> cases t <;> decide
  | finite s e positive =>
    rw [differenceSelf]
    change _ = true ∧ _ = true
    decide

theorem nearSelf (x : Float) : near x x = x.isFinite := by
  cases number : x.toModel.unpack.isNaN with
  | false => exact (nearLevel (levelSelf number)).1
  | true =>
    rw [nearUnpacked]
    change _ = x.toModel.unpack.isFinite
    cases unpacked : x.toModel.unpack with
    | notANumber => decide
    | infinity | zero | finite =>
      rw [unpacked] at number
      contradiction

end Number

namespace Shaped
variable {α β γ : Type}

theorem atMap (f : α → β) (x : Shaped α) (i : Nat) : (x.map f).at? i = (x.at? i).map f := by
  cases x with
  | scalar a => rfl
  | array as => exact List.getElem?_map

theorem viewAt {x : Shaped α} {i : Nat} {a : α} (shown : x.at? i = some a) : x.view i = some a := by
  cases x with
  | scalar b => exact shown
  | array as =>
    obtain ⟨inside,_⟩ := List.getElem?_eq_some_iff.mp shown
    exact (viewInside inside).trans shown

theorem zipWithSelf (f : α → α → β) (x : Shaped α) : zipWith f x x = some (x.map fun a => f a a) := by
  match x with
  | .scalar a => rfl
  | .array [] => rfl
  | .array [a] => rfl
  | .array (a :: b :: as) => simp [zipWith,map]

theorem pairedOf {x : Shaped α} {y : Shaped β} (fits : resultLength [x.length?,y.length?] ≠ none) :
    ∃ p, zipWith Prod.mk x y = some p ∧
      ∀ i a b, p.at? i = some (a,b) → x.view i = some a ∧ y.view i = some b := by
  cases paired : zipWith Prod.mk x y with
  | none =>
    have length := zipWithLength Prod.mk x y
    rw [paired,← resultLengthTwo] at length
    exact absurd length.symm fits
  | some p =>
    refine ⟨p,rfl,fun i a b shown => ?_⟩
    have shown := (zipWithView paired i).symm.trans (viewAt shown)
    obtain ⟨a',b',left,right,same⟩ := view2Shown shown
    cases same
    exact ⟨left,right⟩

theorem combinePairs {x : Shaped α} {y : Shaped β} {p : Shaped (α × β)}
    (paired : zipWith Prod.mk x y = some p) (make : Shaped γ → Value) (f : α → β → γ) :
    combine make f x y = .ok (make (p.map fun q => f q.1 q.2)) := by
  rw [combineOutcome,← mapZipWith Prod.mk (fun q => f q.1 q.2),paired]
  rfl

end Shaped

inductive Negates : Except EvalError Value → Except EvalError Value → Prop where
  | error (e : EvalError) : Negates (.error e) (.error e)
  | ok (s : Shaped Bool) : Negates (.ok (.bool s)) (.ok (.bool (s.map (!·))))

theorem combineNegates {α : Type} (f : α → α → Bool) (x y : Shaped α) :
    Negates (combine .bool (fun a b => f a b != false) x y)
      (combine .bool (fun a b => f a b != true) x y) := by
  have opposite : Shaped.zipWith (fun a b => f a b != true) x y =
      (Shaped.zipWith (fun a b => f a b != false) x y).map (.map (!·)) := by
    rw [Shaped.mapZipWith]
    simp
  rw [Shaped.combineOutcome,Shaped.combineOutcome,opposite]
  cases Shaped.zipWith (fun a b => f a b != false) x y with
  | none => exact .error _
  | some s => exact .ok s

theorem equalNegates (a b : Value) :
    Negates (BinaryOp.equal.apply a b) (BinaryOp.notEqual.apply a b) := by
  rcases a with x | x | x | _ <;> rcases b with y | y | y | _
  case number.number => exact combineNegates near x y
  case bool.bool => exact combineNegates (· == ·) x y
  all_goals exact .error _

theorem equalNumbers (x y : Shaped Float) :
    BinaryOp.equal.apply (.number x) (.number y) = combine .bool near x y := by
  have tolerated : (fun a b => near a b != false) = near := by simp
  exact congrArg (combine .bool · x y) tolerated

theorem equalSelf (x : Shaped Float) :
    BinaryOp.equal.apply (.number x) (.number x) = .ok (.bool (x.map Float.isFinite)) := by
  rw [equalNumbers,Shaped.combineOutcome,Shaped.zipWithSelf]
  simp only [Number.nearSelf]
  rfl

theorem equalityOrdered (x y : Shaped Float) (u v : Value) :
    (Shaped.resultLength [x.length?,y.length?] ≠ none → ∃ le ge eq,
      BinaryOp.lessEqual.apply (.number x) (.number y) = .ok (.bool le) ∧
      BinaryOp.greaterEqual.apply (.number x) (.number y) = .ok (.bool ge) ∧
      BinaryOp.equal.apply (.number x) (.number y) = .ok (.bool eq) ∧
      eq.length? = le.length? ∧ eq.length? = ge.length? ∧
      ∀ i, le.at? i = some true → ge.at? i = some true → ∃ a b, x.view i = some a ∧
        y.view i = some b ∧ eq.at? i = some a.isFinite ∧ eq.at? i = some b.isFinite) ∧
    BinaryOp.equal.apply (.number x) (.number x) = .ok (.bool (x.map Float.isFinite)) ∧
    Negates (BinaryOp.equal.apply u v) (BinaryOp.notEqual.apply u v) := by
  refine ⟨fun fits => ?_,equalSelf x,equalNegates u v⟩
  obtain ⟨p,paired,shows⟩ := Shaped.pairedOf fits
  have compared := Shaped.combinePairs paired Value.bool
  refine ⟨_,_,_,compared _,compared _,(equalNumbers x y).trans (compared near),?_,?_,?_⟩
  · rw [Shaped.lengthMap,Shaped.lengthMap]
  · rw [Shaped.lengthMap,Shaped.lengthMap]
  · intro i le ge
    rw [Shaped.atMap] at le ge
    obtain ⟨⟨a,b⟩,shown,le⟩ := Option.map_eq_some_iff.mp le
    rw [shown,Option.map_some,Option.some.injEq] at ge
    obtain ⟨left,right⟩ := shows i a b shown
    have flat := Number.level ((Number.leIff a b).mp (of_decide_eq_true le))
      ((Number.leIff b a).mp (of_decide_eq_true ge))
    obtain ⟨first,second⟩ := Number.nearLevel flat
    refine ⟨a,b,left,right,?_,?_⟩
    · rw [Shaped.atMap,shown,Option.map_some,first]
    · rw [Shaped.atMap,shown,Option.map_some,second]

theorem zerosEqual : Shaped.resultLength [(Shaped.array [0.0,1.0 / 0.0]).length?,
      (Shaped.array [-0.0,1.0 / 0.0]).length?] ≠ none ∧
    ∃ eq, BinaryOp.equal.apply (.number (.array [0.0,1.0 / 0.0]))
        (.number (.array [-0.0,1.0 / 0.0])) = .ok (.bool eq) ∧
      ∃ a b : Float, (Shaped.array [0.0,1.0 / 0.0]).view 0 = some a ∧
        (Shaped.array [-0.0,1.0 / 0.0]).view 0 = some b ∧
        eq.at? 0 = some a.isFinite ∧ eq.at? 0 = some b.isFinite := by
  have fits : Shaped.resultLength [(Shaped.array [0.0,1.0 / 0.0]).length?,
      (Shaped.array [-0.0,1.0 / 0.0]).length?] ≠ none := by decide
  obtain ⟨le,ge,eq,below,above,same,_,_,level⟩ :=
    (equalityOrdered _ _ (.ofBool true) (.ofBool false)).1 fits
  have evaluated : BinaryOp.lessEqual.apply (.number (.array [0.0,1.0 / 0.0]))
      (.number (.array [-0.0,1.0 / 0.0])) = .ok (.bool (.array [true,true])) := by decide
  have evaluated' : BinaryOp.greaterEqual.apply (.number (.array [0.0,1.0 / 0.0]))
      (.number (.array [-0.0,1.0 / 0.0])) = .ok (.bool (.array [true,true])) := by decide
  cases below.symm.trans evaluated
  cases above.symm.trans evaluated'
  exact ⟨fits,eq,same,level 0 rfl rfl⟩

theorem infinityUnequal :
    let x : Value := .number (.array [0.0,1.0 / 0.0])
    let y : Value := .number (.array [-0.0,1.0 / 0.0])
    BinaryOp.lessEqual.apply x y = .ok (.bool (.array [true,true])) ∧
    BinaryOp.greaterEqual.apply x y = .ok (.bool (.array [true,true])) ∧
    BinaryOp.equal.apply x y = .ok (.bool (.array [true,false])) := by
  decide

end ArrayCalc
