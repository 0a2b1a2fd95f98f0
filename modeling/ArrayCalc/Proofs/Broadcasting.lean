import ArrayCalc.Proofs.OperatorBounds
import Mathlib.Logic.Relation
/-! The shape of what operands combine to. An array of one element counts as that element wherever
another operand is longer or shorter; all other arrays need the same length, which is that of the
result. At every position the result is the function of what the operands show there. In which order
arrays of one element are taken for their element makes no difference. -/
namespace ArrayCalc

namespace Shaped
variable {α β γ δ : Type}

section Lengths

/- The length of the result for operands of these lengths: none at all if their arrays do not fit
together, and no length if all of them are scalars. -/
def resultLength (lengths : List (Option Nat)) : Option (Option Nat) :=
  match lengths.filterMap id, (lengths.filterMap id).filter (· ≠ 1) with
  | [], _ => some none
  | _, [] => some (some 1)
  | _, n :: others => if ∀ m ∈ others, m = n then some (some n) else none

def fitLengths : Option Nat → Option Nat → Option (Option Nat)
  | none, l => some l
  | l, none => some l
  | some n, some m => if n = 1 then some (some m) else if m = 1 ∨ m = n then some (some n) else none

theorem fitScalar (l : Option Nat) : fitLengths l none = some l := by cases l <;> rfl

theorem fitSingle (n : Nat) : fitLengths (some n) (some 1) = some (some n) := by
  by_cases single : n = 1 <;> simp [fitLengths,single]

theorem resultLengthTwo (a b : Option Nat) : resultLength [a,b] = fitLengths a b := by
  cases a with
  | none =>
    cases b with
    | none => rfl
    | some m => by_cases single : m = 1 <;> simp [resultLength,fitLengths,single]
  | some n =>
    cases b with
    | none => by_cases single : n = 1 <;> simp [resultLength,fitLengths,single]
    | some m =>
      by_cases single : n = 1 <;> by_cases single' : m = 1 <;>
        simp [resultLength,fitLengths,single,single']

theorem resultLengthScalar (before after : List (Option Nat)) :
    resultLength (before ++ none :: after) = resultLength (before ++ after) := by
  simp [resultLength]

theorem resultLengthThree (a b c : Option Nat) :
    resultLength [a,b,c] = (fitLengths a b).bind (fitLengths · c) := by
  cases a with
  | none => exact (resultLengthScalar [] [b,c]).trans (resultLengthTwo b c)
  | some n =>
    cases b with
    | none => exact (resultLengthScalar [some n] [c]).trans (resultLengthTwo _ c)
    | some m =>
      cases c with
      | none =>
        have two := (resultLengthScalar [some n,some m] []).trans (resultLengthTwo (some n) (some m))
        refine two.trans ?_
        cases fitLengths (some n) (some m) with
        | none => rfl
        | some l => exact (fitScalar l).symm
      | some k =>
        by_cases single : n = 1 <;> by_cases single' : m = 1 <;> by_cases single'' : k = 1 <;>
          by_cases same : m = n <;> simp [resultLength,fitLengths,single,single',single'',same]

example : resultLength [some 1,none,some 3] = some (some 3) ∧
    resultLength [some 1,some 0] = some (some 0) ∧ resultLength [some 2,some 1,some 3] = none := by
  decide

end Lengths

section Views

def view (x : Shaped α) (i : Nat) : Option α := x.sole.at? i

def view2 (f : α → β → γ) (x : Shaped α) (y : Shaped β) (i : Nat) : Option γ := do
  return f (← x.view i) (← y.view i)

def view3 (f : α → β → γ → δ) (x : Shaped α) (y : Shaped β) (z : Shaped γ) (i : Nat) : Option δ := do
  return f (← x.view i) (← y.view i) (← z.view i)

theorem viewArray {as : List α} (more : as.length ≠ 1) (i : Nat) : (array as).view i = as[i]? := by
  match as with
  | [] => rfl
  | a :: a' :: as => rfl

theorem viewInside {as : List α} {i : Nat} (inside : i < as.length) : (array as).view i = as[i]? := by
  by_cases single : as.length = 1
  · obtain ⟨a,rfl⟩ := List.length_eq_one_iff.mp single
    obtain rfl : i = 0 := by simpa using inside
    rfl
  · exact viewArray single i

theorem view2Shown {f : α → β → γ} {x : Shaped α} {y : Shaped β} {i : Nat} {c : γ}
    (item : view2 f x y i = some c) : ∃ a b, x.view i = some a ∧ y.view i = some b ∧ f a b = c := by
  simp only [view2,Option.bind_eq_bind,Option.bind_eq_some_iff,Option.pure_def,Option.some.injEq] at item
  obtain ⟨a,left,b,right,same⟩ := item
  exact ⟨a,b,left,right,same⟩

theorem view3Shown {f : α → β → γ → δ} {x : Shaped α} {y : Shaped β} {z : Shaped γ} {i : Nat} {d : δ}
    (item : view3 f x y z i = some d) :
    ∃ a b c, x.view i = some a ∧ y.view i = some b ∧ z.view i = some c ∧ f a b c = d := by
  simp only [view3,Option.bind_eq_bind,Option.bind_eq_some_iff,Option.pure_def,Option.some.injEq] at item
  obtain ⟨a,first,b,second,c,third,same⟩ := item
  exact ⟨a,b,c,first,second,third,same⟩

theorem viewMap (f : α → β) (x : Shaped α) (i : Nat) : (x.map f).view i = (x.view i).map f := by
  rw [view,← mapSole,view]
  cases x.sole with
  | scalar a => rfl
  | array as => exact List.getElem?_map

theorem lengthMap (f : α → β) (x : Shaped α) : (x.map f).length? = x.length? := by
  cases x with
  | scalar a => rfl
  | array as => exact congrArg some (List.length_map f)

end Views

section Combining

inductive Combined (f : α → β → γ) : Shaped α → Shaped β → Option (Shaped γ) → Prop where
  | left {x y a} (shown : ∀ i, x.view i = some a)
      (fits : fitLengths x.length? y.length? = some y.length?) : Combined f x y (some (y.map (f a)))
  | right {x y b} (shown : ∀ i, y.view i = some b)
      (fits : fitLengths x.length? y.length? = some x.length?) : Combined f x y (some (x.map (f · b)))
  | both {as bs} (more : as.length ≠ 1) (same : as.length = bs.length) :
      Combined f (.array as) (.array bs) (some (.array (as.zipWith f bs)))
  | different {as bs} (more : as.length ≠ 1) (more' : bs.length ≠ 1)
      (apart : as.length ≠ bs.length) : Combined f (.array as) (.array bs) none

theorem zipWithCombined (f : α → β → γ) (x : Shaped α) (y : Shaped β) :
    Combined f x y (zipWith f x y) := by
  cases x with
  | scalar a => exact .left (fun _ => rfl) rfl
  | array as =>
    cases y with
    | scalar b => exact .right (fun _ => rfl) (fitScalar _)
    | array bs =>
      by_cases single : as.length = 1
      · obtain ⟨a,rfl⟩ := List.length_eq_one_iff.mp single
        exact .left (fun _ => rfl) rfl
      · by_cases single' : bs.length = 1
        · obtain ⟨b,rfl⟩ := List.length_eq_one_iff.mp single'
          rw [← zipWithSoleRight]
          exact .right (fun _ => rfl) (fitSingle _)
        · rw [zipWithArrays f single single']
          by_cases same : as.length = bs.length
          · rw [if_pos same]
            exact .both single same
          · rw [if_neg same]
            exact .different single single' same

theorem zipWithLength (f : α → β → γ) (x : Shaped α) (y : Shaped β) :
    (zipWith f x y).map length? = fitLengths x.length? y.length? := by
  generalize zipped : zipWith f x y = r
  cases zipped ▸ zipWithCombined f x y with
  | left _ fits => rw [fits,Option.map_some,lengthMap]
  | right _ fits => rw [fits,Option.map_some,lengthMap]
  | both more same => simp [fitLengths,length?,same]
  | different more more' apart => simp [fitLengths,length?,more,more',Ne.symm apart]

theorem zipWithView {f : α → β → γ} {x : Shaped α} {y : Shaped β} {r : Shaped γ}
    (zipped : zipWith f x y = some r) (i : Nat) : r.view i = view2 f x y i := by
  cases zipped ▸ zipWithCombined f x y with
  | left shown _ =>
    rw [viewMap,view2,shown]
    cases y.view i <;> rfl
  | right shown _ =>
    rw [viewMap,view2,shown]
    cases x.view i <;> rfl
  | @both as bs more same =>
    have more' : bs.length ≠ 1 := same ▸ more
    have length : (as.zipWith f bs).length = as.length := by simp [same]
    rw [viewArray (length ▸ more),view2,viewArray more,viewArray more',List.getElem?_zipWith]
    cases as[i]? <;> cases bs[i]? <;> rfl

theorem zipWith3Length (f : α → β → γ → δ) (x : Shaped α) (y : Shaped β) (z : Shaped γ) :
    (zipWith3 f x y z).map length? = resultLength [x.length?,y.length?,z.length?] := by
  rw [resultLengthThree,← zipWithLength f x y,zipWith3]
  cases zipWith f x y with
  | none => rfl
  | some r => exact zipWithLength _ r z

theorem zipWith3View {f : α → β → γ → δ} {x : Shaped α} {y : Shaped β} {z : Shaped γ} {r : Shaped δ}
    (zipped : zipWith3 f x y z = some r) (i : Nat) : r.view i = view3 f x y z i := by
  obtain ⟨g,first,second⟩ := Option.bind_eq_some_iff.mp zipped
  rw [zipWithView second,view2,zipWithView first,view2,view3]
  cases x.view i <;> cases y.view i <;> cases z.view i <;> rfl

def outcome (make : Shaped γ → Value) (mismatch : EvalError) : Option (Shaped γ) → Except EvalError Value
  | some r => .ok (make r)
  | none => .error mismatch

theorem combineOutcome (make : Shaped γ → Value) (f : α → β → γ) (x : Shaped α) (y : Shaped β) :
    combine make f x y = outcome make .binaryLengths (zipWith f x y) := by
  rw [combine]
  cases zipWith f x y <;> rfl

theorem combine3Outcome (make : Shaped δ → Value) (f : α → β → γ → δ) (x : Shaped α) (y : Shaped β)
    (z : Shaped γ) : combine3 make f x y z = outcome make .ternaryLengths (zipWith3 f x y z) := by
  rw [combine3]
  cases zipWith3 f x y z <;> rfl

end Combining

section Orders

inductive PairStep : Shaped α × Shaped β → Shaped α × Shaped β → Prop where
  | first (a bs) : PairStep (.array [a],.array bs) (.scalar a,.array bs)
  | second (as b) : PairStep (.array as,.array [b]) (.array as,.scalar b)

inductive TripleStep : Shaped α × Shaped β × Shaped γ → Shaped α × Shaped β × Shaped γ → Prop where
  | first {a y z} (two : 2 ≤ arrays [some 1,y.length?,z.length?]) :
      TripleStep (.array [a],y,z) (.scalar a,y,z)
  | second {x b z} (two : 2 ≤ arrays [x.length?,some 1,z.length?]) :
      TripleStep (x,.array [b],z) (x,.scalar b,z)
  | third {x y c} (two : 2 ≤ arrays [x.length?,y.length?,some 1]) :
      TripleStep (x,y,.array [c]) (x,y,.scalar c)

def pairLengths (p : Shaped α × Shaped β) : List (Option Nat) := [p.1.length?,p.2.length?]

def tripleLengths (p : Shaped α × Shaped β × Shaped γ) : List (Option Nat) :=
  [p.1.length?,p.2.1.length?,p.2.2.length?]

theorem pairStepSame (f : α → β → γ) {p q : Shaped α × Shaped β} (step : PairStep p q) :
    zipWith f q.1 q.2 = zipWith f p.1 p.2 := by
  cases step with
  | first a bs => exact zipWithSole f (.array [a]) bs
  | second as b => exact zipWithSoleRight f as (.array [b])

theorem tripleStepSame (f : α → β → γ → δ) {p q : Shaped α × Shaped β × Shaped γ}
    (step : TripleStep p q) : zipWith3 f q.1 q.2.1 q.2.2 = zipWith3 f p.1 p.2.1 p.2.2 := by
  cases step with
  | @first a y z two => exact zipWith3SoleFirst (x := .array [a]) f two
  | @second x b z two => exact zipWith3SoleSecond (y := .array [b]) f two
  | @third x y c two => exact zipWith3SoleThird (z := .array [c]) f two

theorem pairStepFewer {p q : Shaped α × Shaped β} (step : PairStep p q) :
    arrays (pairLengths q) < arrays (pairLengths p) := by
  cases step <;> simp [pairLengths,arrays,length?]

theorem tripleStepFewer {p q : Shaped α × Shaped β × Shaped γ} (step : TripleStep p q) :
    arrays (tripleLengths q) < arrays (tripleLengths p) := by
  cases step <;> simp [tripleLengths,arrays,length?,List.countP_cons]

theorem singleLength {x : Shaped α} (single : x.length? = some 1) : ∃ a, x = .array [a] := by
  cases x with
  | scalar a => contradiction
  | array as =>
    obtain ⟨a,rfl⟩ := List.length_eq_one_iff.mp (Option.some.inj single)
    exact ⟨a,rfl⟩

theorem pairStepOn {p : Shaped α × Shaped β} (reducible : ¬Irreducible (pairLengths p)) :
    ∃ q, PairStep p q := by
  obtain ⟨x,y⟩ := p
  obtain ⟨two,single⟩ := Classical.not_imp.mp reducible
  simp only [pairLengths,not_not,List.mem_cons,List.not_mem_nil,or_false] at two single
  cases x with
  | scalar a => exact absurd two (oneArray y.length?).2.2
  | array as =>
    cases y with
    | scalar b => exact absurd two (oneArray (some as.length)).2.2
    | array bs =>
      rcases single with first | second
      · obtain ⟨a,same⟩ := singleLength first.symm
        rw [same]
        exact ⟨_,.first a bs⟩
      · obtain ⟨b,same⟩ := singleLength second.symm
        rw [same]
        exact ⟨_,.second as b⟩

theorem tripleStepOn {p : Shaped α × Shaped β × Shaped γ}
    (reducible : ¬Irreducible (tripleLengths p)) : ∃ q, TripleStep p q := by
  obtain ⟨x,y,z⟩ := p
  obtain ⟨two,single⟩ := Classical.not_imp.mp reducible
  simp only [tripleLengths,not_not,List.mem_cons,List.not_mem_nil,or_false] at two single
  rcases single with first | second | third
  · obtain ⟨a,rfl⟩ := singleLength first.symm
    exact ⟨_,.first two⟩
  · obtain ⟨b,rfl⟩ := singleLength second.symm
    exact ⟨_,.second two⟩
  · obtain ⟨c,rfl⟩ := singleLength third.symm
    exact ⟨_,.third two⟩

/- Reductions from `start` on come to an end, and wherever they do, the operands that are left can be
read by position, up to their common length: no position is out of bounds, and `result` comes of it. -/
structure OrderFree {S : Type} (step : S → S → Prop) (lengths : S → List (Option Nat))
    (item : S → Nat → Option δ) (make : Shaped δ → Value) (mismatch : EvalError) (start : S)
    (result : Except EvalError Value) : Prop where
  ends : ∃ last, Relation.ReflTransGen step start last ∧ Irreducible (lengths last)
  same : ∀ last, Relation.ReflTransGen step start last → Irreducible (lengths last) →
    (spread? (lengths last) (item last)).map (outcome make mismatch) = some result

section Reductions
variable {S : Type} {step : S → S → Prop} {lengths : S → List (Option Nat)}
  {item : S → Nat → Option δ} {result : S → Option (Shaped δ)}

theorem reductionsEnd (fewer : ∀ p q, step p q → arrays (lengths q) < arrays (lengths p))
    (goesOn : ∀ p, ¬Irreducible (lengths p) → ∃ q, step p q) (start : S) :
    ∃ last, Relation.ReflTransGen step start last ∧ Irreducible (lengths last) := by
  /- By the number of operands that are still arrays. -/
  induction count : arrays (lengths start) using Nat.strongRecOn generalizing start with
  | _ n ih =>
    by_cases done : Irreducible (lengths start)
    · exact ⟨start,.refl,done⟩
    · obtain ⟨next,first⟩ := goesOn start done
      obtain ⟨last,rest,done⟩ := ih _ (count ▸ fewer start next first) next rfl
      exact ⟨last,rest.head first,done⟩

theorem reductionsSame (keeps : ∀ p q, step p q → result q = result p) {start last : S}
    (reduced : Relation.ReflTransGen step start last) : result last = result start := by
  induction reduced with
  | refl => rfl
  | tail _ next ih => exact (keeps _ _ next).trans ih

theorem orderFree (reads : ∀ p, Irreducible (lengths p) → Reads (lengths p) (item p) (result p))
    (keeps : ∀ p q, step p q → result q = result p)
    (fewer : ∀ p q, step p q → arrays (lengths q) < arrays (lengths p))
    (goesOn : ∀ p, ¬Irreducible (lengths p) → ∃ q, step p q) (make : Shaped δ → Value)
    (mismatch : EvalError) (start : S) :
    OrderFree step lengths item make mismatch start (outcome make mismatch (result start)) where
  ends := reductionsEnd fewer goesOn start
  same last reduced done := by
    rw [(reads last done).spread,reductionsSame keeps reduced,Option.map_some]

end Reductions

def pairItem (f : α → β → γ) (p : Shaped α × Shaped β) (i : Nat) : Option γ := do
  return f (← p.1.at? i) (← p.2.at? i)

def tripleItem (f : α → β → γ → δ) (p : Shaped α × Shaped β × Shaped γ) (i : Nat) : Option δ := do
  return f (← p.1.at? i) (← p.2.1.at? i) (← p.2.2.at? i)

theorem combineOrderFree (make : Shaped γ → Value) (f : α → β → γ) (x : Shaped α) (y : Shaped β) :
    OrderFree PairStep pairLengths (pairItem f) make .binaryLengths (x,y) (combine make f x y) := by
  have reads (p : Shaped α × Shaped β) (done : Irreducible (pairLengths p)) :
      Reads (pairLengths p) (pairItem f p) (zipWith f p.1 p.2) := zipWithReads f p.1 p.2 done
  rw [combineOutcome]
  exact orderFree reads (fun _ _ => pairStepSame f) (fun _ _ => pairStepFewer) (fun _ => pairStepOn)
    make _ (x,y)

theorem combine3OrderFree (make : Shaped δ → Value) (f : α → β → γ → δ) (x : Shaped α) (y : Shaped β)
    (z : Shaped γ) : OrderFree TripleStep tripleLengths (tripleItem f) make .ternaryLengths (x,y,z)
      (combine3 make f x y z) := by
  have reads (p : Shaped α × Shaped β × Shaped γ) (done : Irreducible (tripleLengths p)) :
      Reads (tripleLengths p) (tripleItem f p) (zipWith3 f p.1 p.2.1 p.2.2) :=
    zipWith3Reads f p.1 p.2.1 p.2.2 done
  rw [combine3Outcome]
  exact orderFree reads (fun _ _ => tripleStepSame f) (fun _ _ => tripleStepFewer)
    (fun _ => tripleStepOn) make _ (x,y,z)

end Orders

section Laws

/- The result for operands of these lengths that together show `item` at each position. Where it is an
array, all of its positions are shown by every operand. -/
def ShapeLaw (lengths : List (Option Nat)) (item : Nat → Option γ) (make : Shaped γ → Value)
    (mismatch : EvalError) (result : Except EvalError Value) : Prop :=
  match resultLength lengths with
  | none => result = .error mismatch
  | some none => ∃ c, (∀ i, item i = some c) ∧ result = .ok (make (.scalar c))
  | some (some n) =>
    ∃ cs, cs.length = n ∧ (∀ i < n, item i = cs[i]?) ∧ result = .ok (make (.array cs))

theorem shapeLaw {lengths : List (Option Nat)} {item : Nat → Option γ} {r : Option (Shaped γ)}
    (length : r.map length? = resultLength lengths)
    (views : ∀ {s}, r = some s → ∀ i, s.view i = item i) (make : Shaped γ → Value)
    (mismatch : EvalError) : ShapeLaw lengths item make mismatch (outcome make mismatch r) := by
  rw [ShapeLaw,← length]
  cases r with
  | none => rfl
  | some s =>
    cases s with
    | scalar c => exact ⟨c,fun i => (views rfl i).symm,rfl⟩
    | array cs => exact ⟨cs,rfl,fun i inside => (views rfl i).symm.trans (viewInside inside),rfl⟩

theorem combineLaw (make : Shaped γ → Value) (f : α → β → γ) (x : Shaped α) (y : Shaped β) :
    ShapeLaw [x.length?,y.length?] (view2 f x y) make .binaryLengths (combine make f x y) := by
  rw [combineOutcome]
  exact shapeLaw ((zipWithLength f x y).trans (resultLengthTwo ..).symm) zipWithView make _

theorem combine3Law (make : Shaped δ → Value) (f : α → β → γ → δ) (x : Shaped α) (y : Shaped β)
    (z : Shaped γ) : ShapeLaw [x.length?,y.length?,z.length?] (view3 f x y z) make .ternaryLengths
      (combine3 make f x y z) := by
  rw [combine3Outcome]
  exact shapeLaw (zipWith3Length f x y z) zipWith3View make _

theorem operandsBroadcast :
    (∀ (make : Shaped γ → Value) (f : α → β → γ) (x : Shaped α) (y : Shaped β),
      ShapeLaw [x.length?,y.length?] (view2 f x y) make .binaryLengths (combine make f x y) ∧
      OrderFree PairStep pairLengths (pairItem f) make .binaryLengths (x,y) (combine make f x y)) ∧
    ∀ (make : Shaped δ → Value) (f : α → β → γ → δ) (x : Shaped α) (y : Shaped β) (z : Shaped γ),
      ShapeLaw [x.length?,y.length?,z.length?] (view3 f x y z) make .ternaryLengths
        (combine3 make f x y z) ∧
      OrderFree TripleStep tripleLengths (tripleItem f) make .ternaryLengths (x,y,z)
        (combine3 make f x y z) :=
  ⟨fun make f x y => ⟨combineLaw make f x y,combineOrderFree make f x y⟩,
    fun make f x y z => ⟨combine3Law make f x y z,combine3OrderFree make f x y z⟩⟩

end Laws
end Shaped
end ArrayCalc
