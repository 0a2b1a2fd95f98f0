import ArrayCalc.Proofs.ExactValues
import ArrayCalc.Proofs.LengthRules
import ArrayCalc.Proofs.PointwiseOperators
/-! Elements of arrays by index. An index selects the position it rounds to, counted from the end if it
is negative, and there is one exactly if it is in range. All of it can be done in words of 64 bits, as
long as the length is one. -/
namespace ArrayCalc

def Selects (length : Nat) (index : Float) (i : Nat) : Prop :=
  ∃ r, Number.Rounds index r ∧ -length ≤ r ∧ r ≤ length - 1 ∧ (i : ℤ) = if 0 ≤ r then r else length + r

def OutOfRange (length : Nat) (e : EvalError) : Prop :=
  ∃ shown : String, e.message =
    "array index " ++ shown ++ " is out of range 0..." ++ toString ((length : ℤ) - 1)

section Positions
variable {length : Nat} {index : Float}

def wrapped (length : Nat) (r : ℤ) : ℤ := if r < 0 then r + length else r

inductive Located (length : Nat) (index : Float) : Except EvalError (Fin length) → Prop where
  | wordless (large : ∀ r, Number.nearestInt? index = some r → 2 ^ 63 ≤ r.natAbs) :
    Located length index (.error (.indexNotAnInteger index (length - 1)))
  | outside {r} (rounded : Number.nearestInt? index = some r) (small : r.natAbs < 2 ^ 63)
    (out : ¬(0 ≤ wrapped length r ∧ wrapped length r < length)) :
    Located length index (.error (.indexOutOfRange (wrapped length r) (length - 1)))
  | inside {r} (rounded : Number.nearestInt? index = some r) (small : r.natAbs < 2 ^ 63)
    (i : Fin length) (same : (i : ℤ) = wrapped length r) : Located length index (.ok i)

theorem located (length : Nat) (index : Float) : Located length index (position length index) := by
  unfold position
  cases rounded : Number.nearestInt? index with
  | none => exact .wordless fun r rounded' => by cases rounded.symm.trans rounded'
  | some r =>
    by_cases large : Nat.pow 2 63 ≤ r.natAbs
    · simp only [if_pos large]
      exact .wordless fun r' rounded' => by cases rounded.symm.trans rounded'; exact large
    · simp only [if_neg large]
      have small := Nat.lt_of_not_le large
      by_cases range : 0 ≤ wrapped length r ∧ wrapped length r < length
      · have inside : (⟨(wrapped length r).toNat,by omega⟩ : Fin length).val = wrapped length r := by
          simp [range.1]
        have same := Located.inside rounded small _ inside
        exact (dif_pos range).symm ▸ same
      · exact (dif_neg range).symm ▸ Located.outside rounded small range

theorem wrappedRange (length : Nat) (r : ℤ) :
    (0 ≤ wrapped length r ∧ wrapped length r < length) ↔ -length ≤ r ∧ r ≤ length - 1 := by
  unfold wrapped
  split <;> omega

theorem positionIff (fits : length < 2 ^ 63) (i : Fin length) :
    position length index = .ok i ↔ Selects length index i := by
  generalize result : position length index = p
  cases result ▸ located length index with
  | wordless large =>
    refine ⟨fun done => by contradiction,?_⟩
    rintro ⟨r,rounds,low,high,_⟩
    have beyond := large r ((Number.nearestIntIff index r).mpr rounds)
    omega
  | @outside r rounded small out =>
    refine ⟨fun done => by contradiction,?_⟩
    rintro ⟨r',rounds,low,high,_⟩
    cases rounds.unique ((Number.nearestIntIff index r).mp rounded)
    exact absurd ((wrappedRange length r).mpr ⟨low,high⟩) out
  | @inside r rounded small j same =>
    have range := (wrappedRange length r).mp (by omega)
    unfold wrapped at same
    constructor
    · rintro ⟨⟩
      refine ⟨r,(Number.nearestIntIff index r).mp rounded,range.1,range.2,?_⟩
      split at same <;> split <;> omega
    · rintro ⟨r',rounds,_,_,same'⟩
      cases rounds.unique ((Number.nearestIntIff index r).mp rounded)
      refine congrArg _ (Fin.ext ?_)
      split at same <;> split at same' <;> omega

theorem positionRefused {e : EvalError} (failed : position length index = .error e) :
    OutOfRange length e := by
  cases failed ▸ located length index with
  | wordless large => exact ⟨Number.text index,rfl⟩
  | @outside r _ _ _ => exact ⟨toString (wrapped length r),rfl⟩

end Positions

section Words

def word? (i : ℤ) : Option ℤ := if -2 ^ 63 ≤ i ∧ i < 2 ^ 63 then some i else none

theorem wordInside {i : ℤ} (low : -2 ^ 63 ≤ i) (high : i < 2 ^ 63) : word? i = some i :=
  if_pos ⟨low,high⟩

def wrapped? (count r : ℤ) : Option ℤ := if r < 0 then word? (r + count) else some r

theorem wrappedInside {length : Nat} {r : ℤ} (fits : length < 2 ^ 63) (low : -2 ^ 63 ≤ r) :
    wrapped? length r = some (wrapped length r) := by
  unfold wrapped? wrapped
  split
  · exact wordInside (by omega) (by omega)
  · rfl

/- The position by arithmetic in words. Each conversion to a word and back, the sum and the difference
may be out of range and then come to nothing. -/
def position? (length : Nat) (index : Float) : Checked EvalError Nat := do
  let count ← word? length
  let last ← word? (count - 1)
  match Number.nearestInt? index with
  | none => throw (.indexNotAnInteger index last)
  | some r =>
    if 2 ^ 63 ≤ r.natAbs then throw (.indexNotAnInteger index last)
    else
      let i ← word? r
      let i ← wrapped? count i
      if 0 ≤ i ∧ i ≤ last then i.toNat? else throw (.indexOutOfRange i last)

def element? (e : Element) (as : List e.Carrier) (index : Float) : Checked EvalError Value := do
  let i ← position? as.length index
  let a ← (as[i]? : Option e.Carrier)
  return .of e (.scalar a)

open Checked

theorem positionInWords {length : Nat} (fits : length < 2 ^ 63) (index : Float) :
    position? length index = inside (Fin.val <$> position length index) := by
  have count : word? length = some (length : ℤ) := wordInside (by omega) (by omega)
  have last : word? (length - 1) = some ((length : ℤ) - 1) := wordInside (by omega) (by omega)
  simp only [position?,count,last,readSome,pure_bind]
  generalize result : position length index = p
  cases result ▸ located length index with
  | wordless large =>
    cases rounded : Number.nearestInt? index with
    | none => rfl
    | some r => exact if_pos (large r rounded)
  | @outside r rounded small out =>
    have beyond : ¬(0 ≤ wrapped length r ∧ wrapped length r ≤ length - 1) := by omega
    rw [rounded]
    simp only [if_neg (Nat.not_le.mpr small),wordInside (i := r) (by omega) (by omega),
      wrappedInside (r := r) fits (by omega),readSome,pure_bind,if_neg beyond]
    rfl
  | @inside r rounded small i same =>
    have within : 0 ≤ wrapped length r ∧ wrapped length r ≤ length - 1 := by omega
    rw [rounded]
    simp only [if_neg (Nat.not_le.mpr small),wordInside (i := r) (by omega) (by omega),
      wrappedInside (r := r) fits (by omega),readSome,pure_bind,if_pos within]
    rw [← same]
    rfl

theorem indexPicks (e : Element) (as : List e.Carrier) (index : Float) :
    BinaryOp.index.apply (.of e (.array as)) (.ofNumber index) =
      (fun i => .of e (.scalar (as.get i))) <$> position as.length index := by
  cases e <;> simp only [BinaryOp.apply,Value.of,Value.ofNumber,elementAt,pick,Functor.map_map] <;> rfl

theorem elementInWords (e : Element) {as : List e.Carrier} (fits : as.length < 2 ^ 63) (index : Float) :
    element? e as index = inside (BinaryOp.index.apply (.of e (.array as)) (.ofNumber index)) := by
  rw [element?,positionInWords fits,indexPicks]
  cases position as.length index with
  | error e => rfl
  | ok i =>
    change inside (.ok i.val) >>= _ = _
    rw [insideOk,pure_bind,List.getElem?_eq_getElem i.isLt]
    rfl

end Words

section Access
variable {e : Element} {as : List e.Carrier} {index : Float}

theorem accessIff (fits : as.length < 2 ^ 63) (v : Value) :
    BinaryOp.index.apply (.of e (.array as)) (.ofNumber index) = .ok v ↔
      ∃ i a, Selects as.length index i ∧ as[i]? = some a ∧ v = .of e (.scalar a) := by
  rw [indexPicks]
  constructor
  · intro done
    cases found : position as.length index with
    | error err =>
      rw [found] at done
      contradiction
    | ok i =>
      rw [found] at done
      cases done
      exact ⟨i,as.get i,(positionIff fits i).mp found,List.getElem?_eq_getElem i.isLt,rfl⟩
  · rintro ⟨i,a,selects,shown,rfl⟩
    obtain ⟨inside,rfl⟩ := List.getElem?_eq_some_iff.mp shown
    rw [(positionIff fits ⟨i,inside⟩).mpr selects]
    rfl

theorem accessUnrounded (unrounded : Number.nearestInt? index = none) :
    BinaryOp.index.apply (.of e (.array as)) (.ofNumber index) =
      .error (.indexNotAnInteger index (as.length - 1)) := by
  rw [indexPicks,position,unrounded]
  rfl

theorem accessRefused {err : EvalError}
    (failed : BinaryOp.index.apply (.of e (.array as)) (.ofNumber index) = .error err) :
    OutOfRange as.length err := by
  rw [indexPicks] at failed
  cases found : position as.length index with
  | error err' =>
    rw [found] at failed
    cases failed
    exact positionRefused found
  | ok i =>
    rw [found] at failed
    contradiction

theorem selectsInside {length : Nat} {index : Float} {r : ℤ} (rounds : Number.Rounds index r)
    (low : -length ≤ r) (high : r ≤ length - 1) : ∃ i < length, Selects length index i := by
  refine ⟨(if 0 ≤ r then r else length + r).toNat,?_,r,rounds,low,high,?_⟩
  all_goals split <;> omega

theorem elementSelected (e : Element) (as : List e.Carrier) (fits : as.length < 2 ^ 63) (index : Float) :
    let access := BinaryOp.index.apply (.of e (.array as)) (.ofNumber index)
    ((∃ v, access = .ok v) ↔
      ∃ r, Number.Rounds index r ∧ -as.length ≤ r ∧ r ≤ as.length - 1) ∧
    (∀ v, access = .ok v ↔
      ∃ i a, Selects as.length index i ∧ as[i]? = some a ∧ v = .of e (.scalar a)) ∧
    (∀ err, access = .error err → OutOfRange as.length err) ∧
    element? e as index = Checked.inside access := by
  refine ⟨⟨?_,?_⟩,accessIff fits,fun _ => accessRefused,elementInWords e fits index⟩
  · rintro ⟨v,done⟩
    obtain ⟨_,_,⟨r,rounds,low,high,_⟩,_⟩ := (accessIff fits v).mp done
    exact ⟨r,rounds,low,high⟩
  · rintro ⟨r,rounds,low,high⟩
    obtain ⟨i,inside,selects⟩ := selectsInside rounds low high
    exact ⟨_,(accessIff fits _).mpr ⟨i,as[i],selects,List.getElem?_eq_getElem inside,rfl⟩⟩

theorem halfwaySelected : Number.Rounds (-2.5) (-2) ∧ ["a","b","c"].length < 2 ^ 63 ∧
    BinaryOp.index.apply (.text (.array ["a","b","c"])) (.ofNumber (-2.5)) = .ok (.ofText "b") ∧
    element? .text ["a","b","c"] (-2.5) = Checked.inside (.ok (.ofText "b")) := by
  have rounds : Number.Rounds (-2.5) (-2) := (Number.nearestIntIff _ _).mp (by decide)
  have fits : ["a","b","c"].length < 2 ^ 63 := by decide
  obtain ⟨_,answers,_,words⟩ := elementSelected .text ["a","b","c"] fits (-2.5)
  have done := (answers (.ofText "b")).mpr ⟨1,"b",⟨-2,rounds,by decide,by decide,by decide⟩,rfl,rfl⟩
  exact ⟨rounds,fits,done,words.trans (congrArg _ done)⟩

end Access

namespace Functions
variable {xs : List Float} {index : Float}

theorem elementOfNan (filled : xs ≠ []) (nan : index.isNaN = true) :
    elementOf xs index = .ok (.ofNumber (xs.head filled)) := by
  generalize result : slotOf xs.length index = slot
  cases result ▸ slotted xs.length index with
  | nan => rw [elementAtSlot result (List.length_pos_iff.mpr filled),List.head_eq_getElem]
  | outside number | inside number => cases nan.symm.trans number

theorem elementOfIff (fits : xs.length < 2 ^ 63) (number : index.isNaN = false) (v : Value) :
    elementOf xs index = .ok v ↔
      ∃ r x, Number.Rounds index r ∧ 0 ≤ r ∧ xs[r.toNat]? = some x ∧ v = .ofNumber x := by
  generalize result : slotOf xs.length index = slot
  cases result ▸ slotted xs.length index with
  | nan nan => cases nan.symm.trans number
  | outside _ out =>
    rw [elementOf,result]
    refine ⟨fun done => by contradiction,?_⟩
    rintro ⟨r,x,rounds,low,shown,_⟩
    obtain ⟨high,_⟩ := List.getElem?_eq_some_iff.mp shown
    exact absurd ⟨low,by omega⟩ (out r rounds)
  | @inside r _ rounds low high =>
    have slot : min r.toNat (2 ^ 64 - 1) = r.toNat := by omega
    rw [slot] at result
    have within : r.toNat < xs.length := by omega
    rw [elementAtSlot result within]
    constructor
    · rintro ⟨⟩
      exact ⟨r,_,rounds,low,List.getElem?_eq_getElem within,rfl⟩
    · rintro ⟨r',x,rounds',_,shown,rfl⟩
      cases rounds.unique rounds'
      obtain ⟨_,rfl⟩ := List.getElem?_eq_some_iff.mp shown
      rfl

theorem elementCalled {η : Type} (xs : List Float) (index : Float) :
    (Bindings.ofList (library (η := η))).call "element" [.ofNumbers xs,.ofNumber index] =
      Action.ofExcept (elementOf xs index) := by
  rw [callAlone rfl rfl]
  rfl

theorem ofExceptIff {σ : Type} {r : Except EvalError Value} {s t : σ} {v : Value} :
    Action.ofExcept r s = .ok v t ↔ r = .ok v ∧ s = t := by
  cases r with
  | ok u =>
    change EStateM.Result.ok u s = .ok v t ↔ _
    simp
  | error e =>
    change EStateM.Result.error e s = .ok v t ↔ _
    simp

theorem elementAgrees {η : Type} {xs : List Float} (filled : xs ≠ []) (fits : xs.length < 2 ^ 63)
    (index : Float) (w : Workspace η) :
    let called := (Bindings.ofList library).call "element" [.ofNumbers xs,.ofNumber index] w
    let indexed := BinaryOp.index.apply (.ofNumbers xs) (.ofNumber index)
    if index.isNaN then called = .ok (.ofNumber (xs.head filled)) w ∧ ∃ err, indexed = .error err
    else
      ((∃ v, called = .ok v w) ↔ ∃ r, Number.Rounds index r ∧ 0 ≤ r ∧ r < xs.length) ∧
      ∀ v w', called = .ok v w' → indexed = .ok v := by
  dsimp only
  rw [elementCalled]
  split
  · rename_i nan
    rw [elementOfNan filled nan]
    exact ⟨rfl,_,accessUnrounded (e := .number) (nanUnrounded nan)⟩
  · rename_i number
    have answers := @elementOfIff xs index fits (Bool.eq_false_of_not_eq_true number)
    refine ⟨⟨?_,?_⟩,?_⟩
    · rintro ⟨v,done⟩
      obtain ⟨r,x,rounds,low,shown,_⟩ := (answers v).mp (ofExceptIff.mp done).1
      obtain ⟨high,_⟩ := List.getElem?_eq_some_iff.mp shown
      exact ⟨r,rounds,low,by omega⟩
    · rintro ⟨r,rounds,low,high⟩
      have inside : r.toNat < xs.length := by omega
      have done := (answers (.ofNumber xs[r.toNat])).mpr
        ⟨r,_,rounds,low,List.getElem?_eq_getElem inside,rfl⟩
      exact ⟨_,ofExceptIff.mpr ⟨done,rfl⟩⟩
    · intro v w' done
      obtain ⟨r,x,rounds,low,shown,same⟩ := (answers v).mp (ofExceptIff.mp done).1
      obtain ⟨high,_⟩ := List.getElem?_eq_some_iff.mp shown
      have selects : Selects xs.length index r.toNat :=
        ⟨r,rounds,by omega,by omega,by rw [if_pos low,Int.toNat_of_nonneg low]⟩
      exact (accessIff (e := .number) fits v).mpr ⟨r.toNat,x,selects,shown,same⟩

theorem halfwayAgrees : [4.0,5.0,6.0] ≠ ([] : List Float) ∧ [4.0,5.0,6.0].length < 2 ^ 63 ∧
    Number.Rounds 1.5 2 ∧
    ∃ v, (Bindings.ofList library).call "element" [.ofNumbers [4.0,5.0,6.0],.ofNumber 1.5]
        (⟨(),none⟩ : Workspace Unit) = .ok v ⟨(),none⟩ ∧
      BinaryOp.index.apply (.ofNumbers [4.0,5.0,6.0]) (.ofNumber 1.5) = .ok v := by
  have filled : [4.0,5.0,6.0] ≠ ([] : List Float) := List.cons_ne_nil _ _
  have fits : [4.0,5.0,6.0].length < 2 ^ 63 := by decide
  have rounds : Number.Rounds 1.5 2 := (Number.nearestIntIff _ _).mp (by decide)
  have agrees := elementAgrees filled fits 1.5 (⟨(),none⟩ : Workspace Unit)
  rw [if_neg (by decide)] at agrees
  obtain ⟨v,called⟩ := agrees.1.mpr ⟨2,rounds,by decide,by decide⟩
  exact ⟨filled,fits,rounds,v,called,agrees.2 v _ called⟩

theorem nanDisagrees : (Bindings.ofList library).call "element"
      [.ofNumbers [4.0,5.0,6.0],.ofNumber (0.0 / 0.0)] (⟨(),none⟩ : Workspace Unit) =
        .ok (.ofNumber 4.0) ⟨(),none⟩ ∧
    ∃ err, BinaryOp.index.apply (.ofNumbers [4.0,5.0,6.0]) (.ofNumber (0.0 / 0.0)) = .error err := by
  have nan : (0.0 / 0.0 : Float).isNaN = true := by decide
  constructor
  · rw [elementCalled,elementOfNan (List.cons_ne_nil _ _) nan]
    rfl
  · exact ⟨_,accessUnrounded (e := .number) (nanUnrounded nan)⟩

end Functions
end ArrayCalc
