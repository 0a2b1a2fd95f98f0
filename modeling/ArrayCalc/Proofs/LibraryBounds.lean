import ArrayCalc.Proofs.FilledArrays
import ArrayCalc.Proofs.WholeNumbers
import Mathlib.Data.List.Forall2
/-! The functions of the library by position: each takes its arguments out of the list it was called
with, and some go on to read arrays. Called with fitting arguments and arrays that have elements,
none reads out of bounds, and none gives an empty array. -/
namespace ArrayCalc

def numberAt (vs : List Value) (i : Nat) : Option Float := vs[i]?.bind Value.number?
def numbersAt (vs : List Value) (i : Nat) : Option (List Float) := vs[i]?.bind Value.numbers?

namespace Functions
open Checked

def evenlySpaced? (start stop count : Float) : Checked EvalError Value :=
  match Number.floorInt? count with
  | some n =>
    if 1 ≤ n ∧ n ≤ 100000000 then return .ofNumbers (spaced start stop (← minus? n.toNat 1))
    else throw (.spacingCount (Number.whole .down count))
  | none => throw (.spacingCount count)

def elementOf? (xs : List Float) (index : Float) : Checked EvalError Value := do
  let slot ← inside (slotOf xs.length index)
  return .ofNumber (← (xs[slot]? : Option Float))

def signal? (r : Checked Filter.Fault (List Float)) : Checked EvalError Value :=
  ExceptT.mk (r.run.map signal)

def ofOrder? (design : Nat → Option (List Float)) (order : Float) : Checked EvalError Value :=
  signal? do design (← inside (Filter.orderOf order))

def byDesign? (design : Nat → Option (List Float)) (x : List Float) : Checked EvalError Value :=
  signal? do Filter.zeroPhase? (← design (← inside (Filter.halfOrderFor x.length))) [1.0] x

inductive Reading : String → List Parameter → (List Value → Checked EvalError Value) → Prop where
  | one (name f) : Reading name [.any] fun vs => do
    inside (mapNumbers f (← (vs[0]? : Option Value)))
  | two (name f) : Reading name [.any,.any] fun vs => do
    lift? Value.numberShape? .number f (← (vs[0]? : Option Value)) (← (vs[1]? : Option Value))
  | logBase : Reading "log" [.any,anyNumber] fun vs => do
    let base ← numberAt vs 1
    inside (mapNumbers (fun x => x.log / base.log) (← (vs[0]? : Option Value)))
  | linspace : Reading "linspace" [anyNumber,anyNumber,anyNumber] fun vs => do
    evenlySpaced? (← numberAt vs 0) (← numberAt vs 1) (← numberAt vs 2)
  | element : Reading "element" [anyNumbers,anyNumber] fun vs => do
    elementOf? (← numbersAt vs 0) (← numberAt vs 1)
  | len : Reading "len" [.any] fun vs => do inside (lengthOf (← (vs[0]? : Option Value)))
  | filterForward : Reading "filter" [anyNumbers,anyNumbers] fun vs => do
    signal? (Filter.response? (← numbersAt vs 0) [1.0] [] (← numbersAt vs 1))
  | filter : Reading "filter" [anyNumbers,anyNumbers,anyNumbers] fun vs => do
    signal? (Filter.response? (← numbersAt vs 0) (← numbersAt vs 1) [] (← numbersAt vs 2))
  | filterFrom : Reading "filter" [anyNumbers,anyNumbers,anyNumbers,anyNumbers] fun vs => do
    signal? (Filter.response? (← numbersAt vs 0) (← numbersAt vs 1) (← numbersAt vs 3)
      (← numbersAt vs 2))
  | filtfiltForward : Reading "filtfilt" [anyNumbers,anyNumbers] fun vs => do
    signal? (Filter.zeroPhase? (← numbersAt vs 0) [1.0] (← numbersAt vs 1))
  | filtfilt : Reading "filtfilt" [anyNumbers,anyNumbers,anyNumbers] fun vs => do
    signal? (Filter.zeroPhase? (← numbersAt vs 0) (← numbersAt vs 1) (← numbersAt vs 2))
  | lowPassDesign : Reading "LowPassFIRCoefficients" [anyNumber,anyNumber,anyNumber] fun vs => do
    ofOrder? (Filter.lowPass? (← numberAt vs 0) (← numberAt vs 1)) (← numberAt vs 2)
  | scaledDesign :
    Reading "LowPassFIRCoefficients" [anyNumber,anyNumber,anyNumber,anyNumber] fun vs => do
    let cutoff ← numberAt vs 0
    let rate ← numberAt vs 1
    let order ← numberAt vs 2
    let gain ← numberAt vs 3
    signal? do Filter.scaledLowPass? cutoff rate (← inside (Filter.orderOf order)) gain
  | highPassDesign : Reading "HighPassFIRCoefficients" [anyNumber,anyNumber,anyNumber] fun vs => do
    ofOrder? (Filter.highPass? (← numberAt vs 0) (← numberAt vs 1)) (← numberAt vs 2)
  | bandPassDesign :
    Reading "BandPassFIRCoefficients" [anyNumber,anyNumber,anyNumber,anyNumber] fun vs => do
    ofOrder? (Filter.bandPass? (← numberAt vs 0) (← numberAt vs 1) (← numberAt vs 2))
      (← numberAt vs 3)
  | bandStopDesign :
    Reading "BandStopFIRCoefficients" [anyNumber,anyNumber,anyNumber,anyNumber] fun vs => do
    ofOrder? (Filter.bandStop? (← numberAt vs 0) (← numberAt vs 1) (← numberAt vs 2))
      (← numberAt vs 3)
  | lowPass : Reading "LowPass" [anyNumbers,anyNumber,anyNumber] fun vs => do
    byDesign? (Filter.lowPass? (← numberAt vs 1) (← numberAt vs 2)) (← numbersAt vs 0)
  | highPass : Reading "HighPass" [anyNumbers,anyNumber,anyNumber] fun vs => do
    byDesign? (Filter.highPass? (← numberAt vs 1) (← numberAt vs 2)) (← numbersAt vs 0)
  | bandPass : Reading "BandPass" [anyNumbers,anyNumber,anyNumber,anyNumber] fun vs => do
    byDesign? (Filter.bandPass? (← numberAt vs 1) (← numberAt vs 2) (← numberAt vs 3))
      (← numbersAt vs 0)
  | bandStop : Reading "BandStop" [anyNumbers,anyNumber,anyNumber,anyNumber] fun vs => do
    byDesign? (Filter.bandStop? (← numberAt vs 1) (← numberAt vs 2) (← numberAt vs 3))
      (← numbersAt vs 0)

end Functions

def Fitting (ps : List Parameter) (vs : List Value) : Prop :=
  List.Forall₂ (fun p v => p.accepts v.kind = true) ps vs

theorem fittingOf {η : Type} {m : Method η} {vs : List Value}
    (accepts : m.accepts (vs.map Value.kind) = true) : Fitting m.parameters vs := by
  simp only [Method.accepts,Bool.and_eq_true,decide_eq_true_eq,List.all_eq_true] at accepts
  obtain ⟨length,each⟩ := accepts
  have kinds : List.Forall₂ (fun p k => p.accepts k = true) m.parameters (vs.map Value.kind) :=
    List.forall₂_iff_zip.mpr ⟨length,fun member => each _ member⟩
  exact List.forall₂_map_right_iff.mp kinds

namespace Fitting
variable {ps : List Parameter} {vs : List Value}

theorem nil (h : Fitting [] vs) : vs = [] := by
  cases h
  rfl

theorem any (h : Fitting (.any :: ps) vs) : ∃ v rest, vs = v :: rest ∧ Fitting ps rest := by
  cases h with
  | cons first rest => exact ⟨_,_,rfl,rest⟩

theorem number (h : Fitting (Functions.anyNumber :: ps) vs) :
    ∃ x rest, vs = .number (.scalar x) :: rest ∧ Fitting ps rest := by
  cases h with
  | @cons _ v _ _ first rest =>
    rcases v with (x | xs) | (x | xs) | (x | xs) | _
    · exact ⟨x,_,rfl,rest⟩
    all_goals contradiction

theorem numbers (h : Fitting (Functions.anyNumbers :: ps) vs) :
    ∃ xs rest, vs = .number (.array xs) :: rest ∧ Fitting ps rest := by
  cases h with
  | @cons _ v _ _ first rest =>
    rcases v with (x | xs) | (x | xs) | (x | xs) | _
    · contradiction
    · exact ⟨xs,_,rfl,rest⟩
    all_goals contradiction

open Functions (anyNumber)

theorem twoNumbers (h : Fitting [anyNumber,anyNumber] vs) :
    ∃ x y, vs = [.number (.scalar x),.number (.scalar y)] := by
  obtain ⟨x,_,rfl,second⟩ := h.number
  obtain ⟨y,_,rfl,rest⟩ := second.number
  exact ⟨x,y,by rw [rest.nil]⟩

theorem threeNumbers (h : Fitting [anyNumber,anyNumber,anyNumber] vs) :
    ∃ x y z, vs = [.number (.scalar x),.number (.scalar y),.number (.scalar z)] := by
  obtain ⟨x,_,rfl,others⟩ := h.number
  obtain ⟨y,z,rfl⟩ := others.twoNumbers
  exact ⟨x,y,z,rfl⟩

theorem fourNumbers (h : Fitting [anyNumber,anyNumber,anyNumber,anyNumber] vs) :
    ∃ x y z w, vs =
      [.number (.scalar x),.number (.scalar y),.number (.scalar z),.number (.scalar w)] := by
  obtain ⟨x,_,rfl,others⟩ := h.number
  obtain ⟨y,z,w,rfl⟩ := others.threeNumbers
  exact ⟨x,y,z,w,rfl⟩

end Fitting

inductive Binding.Safe {η : Type} : Binding η → Prop where
  | property {n p r} (steady : ∀ w, p.read w = Action.ofExcept r w)
      (filled : ∀ v, r = .ok v → v.Filled) : Safe (.property n p)
  | function {n m body} (reading : Functions.Reading n m.parameters body)
      (safe : ∀ {vs}, Fitting m.parameters vs → (∀ v ∈ vs, v.Filled) → ∃ r,
        body vs = Checked.inside r ∧ (∀ w, m.invoke vs w = Action.ofExcept r w) ∧
          ∀ v, r = .ok v → v.Filled) : Safe (.method n m)
  | clear {m} (bare : m.parameters = []) (forgets : ∀ w, m.invoke [] w = .ok .unit w.reset) :
      Safe (.method "clear" m)

namespace Functions
open Checked
variable {η : Type}

theorem numberFilled (x : Float) : (Value.ofNumber x).Filled := by
  simp [Value.Filled,Value.length?,Value.ofNumber,Shaped.length?]

theorem constantSafe (name : String) (x : Float) : (constant name x : Binding η).Safe :=
  .property (r := .ok (.ofNumber x)) (fun _ => rfl) fun v same => by
    cases same
    exact numberFilled x

theorem functionSafe {name : String} {parameters : List Parameter}
    {f : List Value → Option (Except EvalError Value)} {body : List Value → Checked EvalError Value}
    (reading : Reading name parameters body)
    (safe : ∀ {vs}, Fitting parameters vs → (∀ v ∈ vs, v.Filled) → ∃ r,
      f vs = some r ∧ body vs = inside r ∧ ∀ v, r = .ok v → v.Filled) :
    (function name parameters f : Binding η).Safe := by
  refine .function reading fun fitting filled => ?_
  obtain ⟨r,found,inBounds,result⟩ := safe fitting filled
  refine ⟨r,inBounds,fun w => ?_,result⟩
  simp only [found,Option.getD_some]

theorem mapNumbersFilled {f : Float → Float} {a v : Value} (done : mapNumbers f a = .ok v)
    (filled : a.Filled) : v.Filled := by
  unfold mapNumbers at done
  split at done
  · cases done
    exact Shaped.mapFilled _ filled
  · contradiction

theorem ofOneSafe (name : String) (f : Float → Float) : (ofOne name f : Binding η).Safe := by
  refine functionSafe (.one name f) fun fitting filled => ?_
  obtain ⟨a,_,rfl,rest⟩ := fitting.any
  cases rest.nil
  exact ⟨_,rfl,rfl,fun v done => mapNumbersFilled done (filled a (by simp))⟩

theorem ofTwoSafe (name : String) (f : Float → Float → Float) :
    (ofTwo name f : Binding η).Safe := by
  refine functionSafe (.two name f) fun fitting filled => ?_
  obtain ⟨a,_,rfl,second⟩ := fitting.any
  obtain ⟨b,_,rfl,rest⟩ := second.any
  cases rest.nil
  exact ⟨_,rfl,onNumbersInBounds f a b,
    fun v done => onNumbersFilled done (filled a (by simp)) (filled b (by simp))⟩

theorem logBaseSafe : (logBase : Binding η).Safe := by
  refine functionSafe .logBase fun fitting filled => ?_
  obtain ⟨a,_,rfl,second⟩ := fitting.any
  obtain ⟨base,_,rfl,rest⟩ := second.number
  cases rest.nil
  exact ⟨_,rfl,rfl,fun v done => mapNumbersFilled done (filled a (by simp))⟩

theorem elementarySafe : ∀ d ∈ (elementary : List (Binding η)), d.Safe := by
  simp [elementary,constantSafe,ofOneSafe,ofTwoSafe,logBaseSafe]

theorem numbersFilled {xs : List Float} : (Value.number (.array xs)).Filled ↔ xs ≠ [] := by
  simp [Value.Filled,Value.length?,Shaped.length?]

theorem evenlySpacedInBounds (start stop count : Float) :
    evenlySpaced? start stop count = inside (evenlySpaced start stop count) := by
  unfold evenlySpaced? evenlySpaced
  cases Number.floorInt? count with
  | none => rfl
  | some n =>
    by_cases range : 1 ≤ n ∧ n ≤ 100000000
    · simp only [if_pos range,minusInside (show 1 ≤ n.toNat by omega),readSome,pure_bind]
      rfl
    · simp only [if_neg range]
      rfl

theorem evenlySpacedFilled {start stop count : Float} {v : Value}
    (done : evenlySpaced start stop count = .ok v) : v.Filled := by
  unfold evenlySpaced at done
  split at done
  · split at done
    · cases done
      exact numbersFilled.mpr (by simp [spaced])
    · contradiction
  · contradiction

theorem nanUnrounded {index : Float} (nan : index.isNaN = true) : Number.nearestInt? index = none := by
  have nan : index.toModel.unpack.isNaN = true := nan
  unfold Number.nearestInt? Number.whole?
  cases unpacked : index.toModel.unpack with
  | notANumber | infinity s => rfl
  | zero s | finite s m e positive =>
    rw [unpacked] at nan
    contradiction

/- What becomes of an index: not-a-number is the first slot, a whole number in range its own. -/
inductive Slotted (length : Nat) (index : Float) : Except EvalError Nat → Prop where
  | nan (nan : index.isNaN = true) : Slotted length index (.ok 0)
  | outside (number : index.isNaN = false)
    (out : ∀ r, Number.Rounds index r → ¬(0 ≤ r ∧ r < length)) :
    Slotted length index (.error .elementOutOfRange)
  | inside {r : ℤ} (number : index.isNaN = false) (rounds : Number.Rounds index r) (low : 0 ≤ r)
    (high : r < length) : Slotted length index (.ok (min r.toNat (2 ^ 64 - 1)))

theorem slotOfIf {length : Nat} {index i : Float} (made : Number.whole .nearest index = i)
    {low high : Prop} [Decidable low] [Decidable high] (below : i < 0.0 ↔ low)
    (beyond : Number.atLeast length i = true ↔ high) :
    slotOf length index = if low ∨ high then .error .elementOutOfRange else .ok i.toUInt64.toNat := by
  subst made
  unfold slotOf
  simp only [below,beyond]

theorem slotted (length : Nat) (index : Float) : Slotted length index (slotOf length index) := by
  cases rounded : Number.nearestInt? index with
  | some r =>
    have rounds := (Number.nearestIntIff index r).mp rounded
    have value := Number.wholeValue rounds
    have number : index.isNaN = false := Bool.eq_false_of_not_eq_true fun nan => by
      cases rounded.symm.trans (nanUnrounded nan)
    have below : Number.whole .nearest index < 0.0 ↔ r < 0 :=
      (Number.negativeIff value).trans Int.cast_lt_zero
    have beyond : Number.atLeast length (Number.whole .nearest index) = true ↔ (length : ℤ) ≤ r :=
      (Number.atLeastIff value length).trans (by exact_mod_cast Iff.rfl)
    rw [slotOfIf rfl below beyond]
    by_cases out : r < 0 ∨ (length : ℤ) ≤ r
    · rw [if_pos out]
      refine .outside number fun r' rounds' => ?_
      cases rounded.symm.trans ((Number.nearestIntIff index r').mpr rounds')
      omega
    · rw [if_neg out]
      have natural : Number.rational? (Number.whole .nearest index) = some (r.toNat : ℚ) := by
        rw [value]
        exact congrArg _ (by exact_mod_cast (Int.toNat_of_nonneg (by omega)).symm)
      rw [Number.wholeWord natural]
      exact .inside number rounds (by omega) (by omega)
  | none =>
    have unrounded (r : ℤ) (rounds : Number.Rounds index r) : False := by
      cases rounded.symm.trans ((Number.nearestIntIff index r).mpr rounds)
    cases unpacked : index.toModel.unpack with
    | zero | finite =>
      rw [Number.nearestInt?,Number.whole?,unpacked] at rounded
      cases rounded
    | infinity s =>
      have kept : Number.whole .nearest index = index := by rw [Number.whole,unpacked]
      have number : index.isNaN = false := congrArg Float.Model.UnpackedFloat.isNaN unpacked
      have out : index < 0.0 ∨ Number.atLeast length index = true := by
        cases s with
        | negative => exact .inl (by rw [Number.lessIff,unpacked]; rfl)
        | positive => exact .inr (by rw [Number.atLeast,unpacked]; rfl)
      rw [slotOfIf kept Iff.rfl Iff.rfl,if_pos out]
      exact .outside number fun r rounds => (unrounded r rounds).elim
    | notANumber =>
      have kept : Number.whole .nearest index = index := by rw [Number.whole,unpacked]
      have nan : index.isNaN = true := congrArg Float.Model.UnpackedFloat.isNaN unpacked
      have within : ¬(index < 0.0 ∨ Number.atLeast length index = true) := by
        rw [Number.lessIff,Number.atLeast,unpacked]
        exact not_or.mpr ⟨Bool.false_ne_true,Bool.false_ne_true⟩
      have first : index.toUInt64.toNat = 0 := by
        rw [Number.wordClamped,unpacked]
        rfl
      rw [slotOfIf kept Iff.rfl Iff.rfl,if_neg within,first]
      exact .nan nan

theorem elementAtSlot {xs : List Float} {index : Float} {slot : Nat}
    (done : slotOf xs.length index = .ok slot) (within : slot < xs.length) :
    elementOf xs index = .ok (.ofNumber xs[slot]) := by
  simp only [elementOf,done,bind,Except.bind,List.getElem?_eq_getElem within]
  rfl

theorem elementOfInBounds {xs : List Float} (filled : xs ≠ []) (index : Float) :
    elementOf? xs index = inside (elementOf xs index) := by
  have first := List.length_pos_iff.mpr filled
  have read {slot : Nat} (within : slot < xs.length) (done : slotOf xs.length index = .ok slot) :
      elementOf? xs index = inside (elementOf xs index) := by
    rw [elementAtSlot done within,elementOf?,done,insideOk,pure_bind,List.getElem?_eq_getElem within]
    rfl
  generalize result : slotOf xs.length index = slot at read
  cases result ▸ slotted xs.length index with
  | outside =>
    unfold elementOf? elementOf
    rw [result]
    rfl
  | nan => exact read first rfl
  | inside _ _ low high => exact read (by omega) rfl

theorem elementOfFilled {xs : List Float} {index : Float} {v : Value}
    (done : elementOf xs index = .ok v) : v.Filled := by
  obtain ⟨slot,_,done⟩ := exceptOk done
  split at done
  · cases done
    exact numberFilled _
  · contradiction

theorem signalFilled {r : Except Filter.Fault (List Float)} {v : Value} (done : signal r = .ok v)
    (some : ∀ xs, r = .ok xs → xs ≠ []) : v.Filled := by
  unfold signal at done
  split at done
  · cases done
    exact numbersFilled.mpr (some _ rfl)
  · contradiction

theorem responseFilled {b a start x : List Float} {v : Value} (filled : x ≠ [])
    (done : signal (Filter.response b a start x) = .ok v) : v.Filled := by
  refine signalFilled done fun y result => ?_
  rw [← List.length_pos_iff,Filter.responseLength result,List.length_pos_iff]
  exact filled

theorem zeroPhaseFilled {b a x : List Float} {v : Value} (filled : x ≠ [])
    (done : signal (Filter.zeroPhase b a x) = .ok v) : v.Filled := by
  refine signalFilled done fun y result => ?_
  rw [← List.length_pos_iff,Filter.zeroPhaseLength result,List.length_pos_iff]
  exact filled

theorem filterMethodsSafe : ∀ d ∈ (filterMethods : List (Binding η)), d.Safe := by
  simp only [filterMethods,List.forall_mem_cons]
  refine ⟨functionSafe .filterForward fun fitting filled => ?_,
    functionSafe .filter fun fitting filled => ?_,functionSafe .filterFrom fun fitting filled => ?_,
    functionSafe .filtfiltForward fun fitting filled => ?_,
    functionSafe .filtfilt fun fitting filled => ?_,List.forall_mem_nil _⟩
  · obtain ⟨b,_,rfl,second⟩ := fitting.numbers
    obtain ⟨x,_,rfl,rest⟩ := second.numbers
    cases rest.nil
    have some := numbersFilled.mp (filled (.number (.array x)) (by simp))
    exact ⟨_,rfl,congrArg signal? (Filter.responseInBounds ..),fun v => responseFilled some⟩
  · obtain ⟨b,_,rfl,second⟩ := fitting.numbers
    obtain ⟨a,_,rfl,third⟩ := second.numbers
    obtain ⟨x,_,rfl,rest⟩ := third.numbers
    cases rest.nil
    have some := numbersFilled.mp (filled (.number (.array x)) (by simp))
    exact ⟨_,rfl,congrArg signal? (Filter.responseInBounds ..),fun v => responseFilled some⟩
  · obtain ⟨b,_,rfl,second⟩ := fitting.numbers
    obtain ⟨a,_,rfl,third⟩ := second.numbers
    obtain ⟨x,_,rfl,fourth⟩ := third.numbers
    obtain ⟨start,_,rfl,rest⟩ := fourth.numbers
    cases rest.nil
    have some := numbersFilled.mp (filled (.number (.array x)) (by simp))
    exact ⟨_,rfl,congrArg signal? (Filter.responseInBounds ..),fun v => responseFilled some⟩
  · obtain ⟨b,_,rfl,second⟩ := fitting.numbers
    obtain ⟨x,_,rfl,rest⟩ := second.numbers
    cases rest.nil
    have some := numbersFilled.mp (filled (.number (.array x)) (by simp))
    exact ⟨_,rfl,congrArg signal? (Filter.zeroPhaseInBounds ..),fun v => zeroPhaseFilled some⟩
  · obtain ⟨b,_,rfl,second⟩ := fitting.numbers
    obtain ⟨a,_,rfl,third⟩ := second.numbers
    obtain ⟨x,_,rfl,rest⟩ := third.numbers
    cases rest.nil
    have some := numbersFilled.mp (filled (.number (.array x)) (by simp))
    exact ⟨_,rfl,congrArg signal? (Filter.zeroPhaseInBounds ..),fun v => zeroPhaseFilled some⟩

section Designs
variable {design? : Nat → Option (List Float)} {design : Nat → List Float}

theorem ofOrderInBounds (same : ∀ half, design? half = some (design half)) (order : Float) :
    ofOrder? design? order = inside (signal do return design (← Filter.orderOf order)) := by
  unfold ofOrder?
  rw [insideBind (k := fun half => pure (design half)) fun half _ => by rw [same]; rfl]
  rfl

theorem ofOrderFilled (taps : ∀ half, (design half).length = 2 * half + 1) {order : Float}
    {v : Value} (done : signal (do return design (← Filter.orderOf order)) = .ok v) : v.Filled := by
  refine signalFilled done fun xs result => ?_
  obtain ⟨half,_,result⟩ := exceptOk result
  cases result
  exact List.ne_nil_of_length_pos (by rw [taps]; omega)

theorem byDesignInBounds (same : ∀ half, design? half = some (design half)) (x : List Float) :
    byDesign? design? x = inside (byDesign design x) := by
  unfold byDesign? byDesign
  rw [insideBind (k := fun half => Filter.zeroPhase (design half) [1.0] x) fun half _ => by
    rw [same]; exact Filter.zeroPhaseInBounds (design half) [1.0] x]
  rfl

theorem byDesignFilled {x : List Float} {v : Value} (filled : x ≠ [])
    (done : byDesign design x = .ok v) : v.Filled := by
  refine signalFilled done fun xs result => ?_
  obtain ⟨half,_,result⟩ := exceptOk result
  rw [← List.length_pos_iff,Filter.zeroPhaseLength result,List.length_pos_iff]
  exact filled

end Designs

theorem scaledFilled {cutoff rate order gain : Float} {v : Value}
    (done : signal (do Filter.scaledLowPass cutoff rate (← Filter.orderOf order) gain) = .ok v) :
    v.Filled := by
  refine signalFilled done fun xs result => ?_
  obtain ⟨half,_,result⟩ := exceptOk result
  unfold Filter.scaledLowPass at result
  split at result
  · cases result
    apply List.ne_nil_of_length_pos
    rw [List.length_map,Filter.lowPassLength]
    omega
  · contradiction

theorem designMethodsSafe : ∀ d ∈ (designMethods : List (Binding η)), d.Safe := by
  simp only [designMethods,List.forall_mem_cons]
  refine ⟨functionSafe .lowPassDesign fun fitting _ => ?_,
    functionSafe .scaledDesign fun fitting _ => ?_,
    functionSafe .highPassDesign fun fitting _ => ?_,
    functionSafe .bandPassDesign fun fitting _ => ?_,
    functionSafe .bandStopDesign fun fitting _ => ?_,List.forall_mem_nil _⟩
  · obtain ⟨cutoff,rate,order,rfl⟩ := fitting.threeNumbers
    exact ⟨_,rfl,ofOrderInBounds (Filter.lowPassInBounds cutoff rate) order,
      fun v => ofOrderFilled (Filter.lowPassLength cutoff rate)⟩
  · obtain ⟨cutoff,rate,order,gain,rfl⟩ := fitting.fourNumbers
    refine ⟨_,rfl,?_,fun v => scaledFilled⟩
    exact congrArg signal? (insideBind fun half _ =>
      Filter.scaledLowPassInBounds cutoff rate half gain)
  · obtain ⟨cutoff,rate,order,rfl⟩ := fitting.threeNumbers
    exact ⟨_,rfl,ofOrderInBounds (Filter.highPassInBounds cutoff rate) order,
      fun v => ofOrderFilled (Filter.highPassLength cutoff rate)⟩
  · obtain ⟨low,high,rate,order,rfl⟩ := fitting.fourNumbers
    exact ⟨_,rfl,ofOrderInBounds (Filter.bandPassInBounds low high rate) order,
      fun v => ofOrderFilled (Filter.bandPassLength low high rate)⟩
  · obtain ⟨low,high,rate,order,rfl⟩ := fitting.fourNumbers
    exact ⟨_,rfl,ofOrderInBounds (Filter.bandStopInBounds low high rate) order,
      fun v => ofOrderFilled (Filter.bandStopLength low high rate)⟩

theorem passMethodsSafe : ∀ d ∈ (passMethods : List (Binding η)), d.Safe := by
  simp only [passMethods,List.forall_mem_cons]
  refine ⟨functionSafe .lowPass fun fitting filled => ?_,
    functionSafe .highPass fun fitting filled => ?_,
    functionSafe .bandPass fun fitting filled => ?_,
    functionSafe .bandStop fun fitting filled => ?_,List.forall_mem_nil _⟩
  · obtain ⟨x,_,rfl,others⟩ := fitting.numbers
    obtain ⟨cutoff,rate,rfl⟩ := others.twoNumbers
    have some := numbersFilled.mp (filled (.number (.array x)) (by simp))
    exact ⟨_,rfl,byDesignInBounds (Filter.lowPassInBounds cutoff rate) x,fun v => byDesignFilled some⟩
  · obtain ⟨x,_,rfl,others⟩ := fitting.numbers
    obtain ⟨cutoff,rate,rfl⟩ := others.twoNumbers
    have some := numbersFilled.mp (filled (.number (.array x)) (by simp))
    exact ⟨_,rfl,byDesignInBounds (Filter.highPassInBounds cutoff rate) x,
      fun v => byDesignFilled some⟩
  · obtain ⟨x,_,rfl,others⟩ := fitting.numbers
    obtain ⟨low,high,rate,rfl⟩ := others.threeNumbers
    have some := numbersFilled.mp (filled (.number (.array x)) (by simp))
    exact ⟨_,rfl,byDesignInBounds (Filter.bandPassInBounds low high rate) x,
      fun v => byDesignFilled some⟩
  · obtain ⟨x,_,rfl,others⟩ := fitting.numbers
    obtain ⟨low,high,rate,rfl⟩ := others.threeNumbers
    have some := numbersFilled.mp (filled (.number (.array x)) (by simp))
    exact ⟨_,rfl,byDesignInBounds (Filter.bandStopInBounds low high rate) x,
      fun v => byDesignFilled some⟩

theorem lengthFilled {a v : Value} (done : lengthOf a = .ok v) : v.Filled := by
  unfold lengthOf at done
  split at done
  · cases done
    exact numberFilled _
  · contradiction

theorem arraysSafe : ∀ d ∈ (arrays : List (Binding η)), d.Safe := by
  simp only [arrays,List.forall_mem_cons]
  refine ⟨functionSafe .linspace fun fitting _ => ?_,functionSafe .element fun fitting filled => ?_,
    functionSafe .len fun fitting _ => ?_,.clear rfl fun _ => rfl,List.forall_mem_nil _⟩
  · obtain ⟨start,stop,count,rfl⟩ := fitting.threeNumbers
    exact ⟨_,rfl,evenlySpacedInBounds start stop count,fun v => evenlySpacedFilled⟩
  · obtain ⟨xs,_,rfl,second⟩ := fitting.numbers
    obtain ⟨index,_,rfl,rest⟩ := second.number
    cases rest.nil
    have some := numbersFilled.mp (filled (.number (.array xs)) (by simp))
    exact ⟨_,rfl,elementOfInBounds some index,fun v => elementOfFilled⟩
  · obtain ⟨a,_,rfl,rest⟩ := fitting.any
    cases rest.nil
    exact ⟨_,rfl,rfl,fun v => lengthFilled⟩

theorem librarySafe : ∀ d ∈ (library : List (Binding η)), d.Safe := by
  simp only [library,filtering,List.forall_mem_append]
  exact ⟨⟨elementarySafe,⟨filterMethodsSafe,designMethodsSafe⟩,passMethodsSafe⟩,arraysSafe⟩

end Functions
end ArrayCalc
