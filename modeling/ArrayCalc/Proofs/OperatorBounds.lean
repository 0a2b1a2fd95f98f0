import ArrayCalc.Proofs.Operations
/-! How operators read their operands: position by position, up to the common length of those that
are arrays. There is nothing to read beyond the end of an array, so such a reading may come to
nothing; it never does, whatever the operands, and what it gives is what the operator gives. -/
namespace ArrayCalc

/- Reads arrays by position: nothing comes of it once a position is out of bounds. -/
abbrev Checked (ε α : Type) := ExceptT ε Option α

namespace Checked
variable {ε α β : Type}

def inside (r : Except ε α) : Checked ε α := (some r : Option (Except ε α))

@[simp] theorem insideOk (a : α) : (inside (.ok a) : Checked ε α) = pure a := rfl

theorem insideBind {r : Except ε α} {k : α → Except ε β} {next : α → Checked ε β}
    (each : ∀ a, r = .ok a → next a = inside (k a)) : inside r >>= next = inside (r >>= k) := by
  cases r with
  | error e => rfl
  | ok a => exact each a rfl

@[simp] theorem readSome (a : α) : (liftM (some a) : Checked ε α) = pure a := rfl

end Checked

section Readings
variable {α β : Type}

theorem readPositions {item : Nat → Option α} {as : List α} {n : Nat} (reached : n ≤ as.length)
    (each : ∀ i < n, item i = as[i]?) : (List.range n).mapM item = some (as.take n) := by
  induction n with
  | zero => rfl
  | succ n ih =>
    have last : item n = some as[n] := by
      rw [each n (Nat.lt_succ_self n),List.getElem?_eq_getElem]
    have before := ih (by omega) fun i less => each i (by omega)
    simp only [List.range_succ,List.mapM_append,before,List.mapM_cons,List.mapM_nil,last]
    rw [List.take_add_one,List.getElem?_eq_getElem]
    rfl

theorem readAll {item : Nat → Option α} {as : List α} (each : ∀ i < as.length, item i = as[i]?) :
    (List.range as.length).mapM item = some as := by
  rw [readPositions (Nat.le_refl _) each,List.take_length]

end Readings

namespace Shaped
variable {α β γ δ : Type}

def at? : Shaped α → Nat → Option α
  | .scalar a, _ => some a
  | .array as, i => as[i]?

def sole : Shaped α → Shaped α
  | .array [a] => .scalar a
  | s => s

def arrays (lengths : List (Option Nat)) : Nat := lengths.countP Option.isSome

def joinLength : Option Nat → Option Nat → Option (Option Nat)
  | none, length => some length
  | some n, none => some (some n)
  | some n, some m => if n = m then some (some n) else none

def commonLength (lengths : List (Option Nat)) : Option (Option Nat) :=
  lengths.foldlM joinLength none

def gather? (length : Option Nat) (item : Nat → Option α) : Option (Shaped α) :=
  match length with
  | none => Shaped.scalar <$> item 0
  | some n => Shaped.array <$> (List.range n).mapM item

/- An element for every position up to the common length. The outer option is about the reading, the
inner one about the lengths. -/
def spread? (lengths : List (Option Nat)) (item : Nat → Option α) : Option (Option (Shaped α)) :=
  match commonLength lengths with
  | none => some none
  | some length => some <$> gather? length item

def broadcast? (f : α → β → γ → δ) (x : Shaped α) (y : Shaped β) (z : Shaped γ) :
    Option (Option (Shaped δ)) :=
  let x := if 2 ≤ arrays [x.length?,y.length?,z.length?] then x.sole else x
  let y := if 2 ≤ arrays [x.length?,y.length?,z.length?] then y.sole else y
  let z := if 2 ≤ arrays [x.length?,y.length?,z.length?] then z.sole else z
  spread? [x.length?,y.length?,z.length?] fun i => do
    return f (← x.at? i) (← y.at? i) (← z.at? i)

def Reads (lengths : List (Option Nat)) (item : Nat → Option α) : Option (Shaped α) → Prop
  | none => commonLength lengths = none
  | some r => commonLength lengths = some r.length? ∧
    ∀ i, (∀ n ∈ r.length?, i < n) → item i = r.at? i

theorem Reads.spread {lengths : List (Option Nat)} {item : Nat → Option α} {r : Option (Shaped α)}
    (reads : Reads lengths item r) : spread? lengths item = some r := by
  cases r with
  | none =>
    have different : commonLength lengths = none := reads
    simp only [spread?,different]
  | some r =>
    obtain ⟨length,each⟩ := reads
    simp only [spread?,length]
    cases r with
    | scalar a =>
      simp only [gather?,length?,each 0 (by simp [length?])]
      rfl
    | array as =>
      have read : (List.range as.length).mapM item = some as :=
        readAll fun i inside => each i (by simpa [length?] using inside)
      simp only [gather?,length?,read]
      rfl

theorem zipWithScalar (f : α → β → γ) (a : α) (y : Shaped β) :
    zipWith f (.scalar a) y = some (y.map (f a)) := rfl

theorem zipWithScalarRight (f : α → β → γ) (x : Shaped α) (b : β) :
    zipWith f x (.scalar b) = some (x.map (f · b)) := by
  cases x <;> rfl

theorem zipWithArrays (f : α → β → γ) {as : List α} {bs : List β} (more : as.length ≠ 1)
    (more' : bs.length ≠ 1) : zipWith f (.array as) (.array bs) =
      if as.length = bs.length then some (.array (as.zipWith f bs)) else none := by
  match as, bs with
  | [], [] => rfl
  | [], b :: b' :: bs => rfl
  | a :: a' :: as, [] => rfl
  | a :: a' :: as, b :: b' :: bs => rfl

theorem commonLengthTwo (a b : Option Nat) : commonLength [a,b] = joinLength a b := by
  simp [commonLength,joinLength]

theorem commonLengthThree (a b c : Option Nat) :
    commonLength [a,b,c] = (joinLength a b).bind (joinLength · c) := by
  simp [commonLength,joinLength]

def Irreducible (lengths : List (Option Nat)) : Prop := 2 ≤ arrays lengths → some 1 ∉ lengths

theorem zipWithReads (f : α → β → γ) (x : Shaped α) (y : Shaped β)
    (plural : Irreducible [x.length?,y.length?]) :
    Reads [x.length?,y.length?] (fun i => do return f (← x.at? i) (← y.at? i)) (zipWith f x y) := by
  cases x with
  | scalar a =>
    cases y with
    | scalar b => exact ⟨rfl,fun i _ => rfl⟩
    | array bs =>
      refine ⟨by simp [commonLengthTwo,joinLength,length?,map],fun i _ => ?_⟩
      simp only [at?,map,List.getElem?_map]
      cases bs[i]? <;> rfl
  | array as =>
    cases y with
    | scalar b =>
      refine ⟨by simp [commonLengthTwo,joinLength,length?,map],fun i _ => ?_⟩
      simp only [at?,map,List.getElem?_map]
      cases as[i]? <;> rfl
    | array bs =>
      have more := plural (by simp [arrays,length?])
      simp only [length?,List.mem_cons,Option.some.injEq,List.not_mem_nil,or_false,not_or] at more
      rw [zipWithArrays f (Ne.symm more.1) (Ne.symm more.2)]
      by_cases same : as.length = bs.length
      · rw [if_pos same]
        refine ⟨by simp [commonLengthTwo,joinLength,length?,same],fun i _ => ?_⟩
        simp only [at?,List.getElem?_zipWith]
        cases as[i]? <;> cases bs[i]? <;> rfl
      · rw [if_neg same]
        simp [Reads,commonLengthTwo,joinLength,length?,same]

theorem joinLengthLeft {a b l : Option Nat} (joined : joinLength a b = some l) : ∀ n ∈ a, n ∈ l := by
  rintro n ⟨⟩
  cases b with
  | none => cases joined; rfl
  | some m =>
    by_cases same : n = m
    · simp only [joinLength,if_pos same] at joined
      cases joined
      rfl
    · simp [joinLength,same] at joined

theorem irreducibleFirst {a b c : Option Nat} (plural : Irreducible [a,b,c]) : Irreducible [a,b] := by
  intro two single
  have three : arrays [a,b] ≤ arrays [a,b,c] := by
    simp only [arrays,List.countP_cons]
    omega
  exact plural (Nat.le_trans two three) (by simp at single ⊢; tauto)

theorem irreducibleJoined {a b c l : Option Nat} (plural : Irreducible [a,b,c])
    (joined : joinLength a b = some l) : Irreducible [l,c] := by
  cases a with
  | none =>
    cases joined
    simpa [Irreducible,arrays,List.countP_cons] using plural
  | some n =>
    cases b with
    | none =>
      cases joined
      simpa [Irreducible,arrays,List.countP_cons] using plural
    | some m =>
      have more := plural (by simp [arrays,List.countP_cons])
      by_cases same : n = m
      · simp only [joinLength,if_pos same] at joined
        cases joined
        exact fun _ single => more (by simp at single ⊢; tauto)
      · simp [joinLength,same] at joined

theorem zipWith3Reads (f : α → β → γ → δ) (x : Shaped α) (y : Shaped β) (z : Shaped γ)
    (plural : Irreducible [x.length?,y.length?,z.length?]) :
    Reads [x.length?,y.length?,z.length?]
      (fun i => do return f (← x.at? i) (← y.at? i) (← z.at? i)) (zipWith3 f x y z) := by
  have first := zipWithReads f x y (irreducibleFirst plural)
  rw [zipWith3]
  cases zipped : zipWith f x y with
  | none =>
    rw [zipped] at first
    have different : joinLength x.length? y.length? = none := by rw [← commonLengthTwo]; exact first
    simp only [Option.bind_none,Reads,commonLengthThree,different]
  | some r =>
    rw [zipped] at first
    obtain ⟨length,items⟩ := first
    rw [commonLengthTwo] at length
    have second := zipWithReads (fun h c => h c) r z (irreducibleJoined plural length)
    have joined : commonLength [x.length?,y.length?,z.length?] = commonLength [r.length?,z.length?] := by
      rw [commonLengthThree,length,commonLengthTwo,Option.bind_some]
    rw [Option.bind_some]
    cases zipped' : zipWith (fun h c => h c) r z with
    | none =>
      rw [zipped'] at second
      exact joined.trans second
    | some d =>
      rw [zipped'] at second
      obtain ⟨length',items'⟩ := second
      refine ⟨joined.trans length',fun i inside => ?_⟩
      rw [commonLengthTwo] at length'
      have operands := items i fun n member => inside n (joinLengthLeft length' n member)
      have last := items' i inside
      dsimp only at operands last ⊢
      rw [← last,← operands]
      cases x.at? i <;> cases y.at? i <;> cases z.at? i <;> rfl

theorem zipWithSole (f : α → β → γ) (x : Shaped α) (bs : List β) :
    zipWith f x.sole (.array bs) = zipWith f x (.array bs) := by
  match x with
  | .scalar a => rfl
  | .array [] => rfl
  | .array [a] => rfl
  | .array (a :: a' :: as) => rfl

theorem zipWithSoleRight (f : α → β → γ) (as : List α) (y : Shaped β) :
    zipWith f (.array as) y.sole = zipWith f (.array as) y := by
  match as, y with
  | _, .scalar b => rfl
  | _, .array [] => rfl
  | [], .array [b] => rfl
  | [a], .array [b] => rfl
  | a :: a' :: as, .array [b] => rfl
  | _, .array (b :: b' :: bs) => rfl

theorem mapSole (f : α → β) (x : Shaped α) : x.sole.map f = (x.map f).sole := by
  match x with
  | .scalar a => rfl
  | .array [] => rfl
  | .array [a] => rfl
  | .array (a :: a' :: as) => rfl

def reduced (length : Option Nat) : Option Nat := if length = some 1 then none else length

theorem soleLength (x : Shaped α) :
    x.sole.length? = reduced x.length? := by
  match x with
  | .scalar a => rfl
  | .array [] => rfl
  | .array [a] => rfl
  | .array (a :: a' :: as) => simp [sole,length?,reduced]

theorem zipWithToScalar {f : α → β → γ} {x : Shaped α} {y : Shaped β} {c : γ}
    (zipped : zipWith f x y = some (.scalar c)) : (∃ a, x = .scalar a) ∧ ∃ b, y = .scalar b := by
  cases x with
  | scalar a =>
    cases y with
    | scalar b => exact ⟨⟨a,rfl⟩,b,rfl⟩
    | array bs => simp [zipWithScalar,map] at zipped
  | array as =>
    cases y with
    | scalar b => simp [zipWithScalarRight,map] at zipped
    | array bs =>
      unfold zipWith at zipped
      split at zipped <;> simp_all

theorem oneArray (length : Option Nat) : ¬2 ≤ arrays [length,none,none] ∧
    ¬2 ≤ arrays [none,length,none] ∧ ¬2 ≤ arrays [none,none,length] := by
  cases length <;> simp [arrays]

section Reduction
variable {x : Shaped α} {y : Shaped β} {z : Shaped γ} (f : α → β → γ → δ)
  (two : 2 ≤ arrays [x.length?,y.length?,z.length?])
include two

theorem zipWith3SoleFirst : zipWith3 f x.sole y z = zipWith3 f x y z := by
  cases y with
  | array bs => rw [zipWith3,zipWith3,zipWithSole]
  | scalar b =>
    cases z with
    | array cs =>
      rw [zipWith3,zipWith3,zipWithScalarRight,zipWithScalarRight,Option.bind_some,mapSole,
        zipWithSole,Option.bind_some]
    | scalar c => exact absurd two (oneArray x.length?).1

theorem zipWith3SoleSecond : zipWith3 f x y.sole z = zipWith3 f x y z := by
  cases x with
  | array as => rw [zipWith3,zipWith3,zipWithSoleRight]
  | scalar a =>
    cases z with
    | array cs =>
      rw [zipWith3,zipWith3,zipWithScalar,zipWithScalar,Option.bind_some,mapSole,zipWithSole,
        Option.bind_some]
    | scalar c => exact absurd two (oneArray y.length?).2.1

theorem zipWith3SoleThird : zipWith3 f x y z.sole = zipWith3 f x y z := by
  rw [zipWith3,zipWith3]
  cases zipped : zipWith f x y with
  | none => rfl
  | some r =>
    rw [Option.bind_some,Option.bind_some]
    cases r with
    | array fs => exact zipWithSoleRight _ fs z
    | scalar g =>
      obtain ⟨⟨a,rfl⟩,⟨b,rfl⟩⟩ := zipWithToScalar zipped
      exact absurd two (oneArray z.length?).2.2

end Reduction

theorem irreducibleReduced {a b c a' b' c' : Option Nat}
    (first : a' = if 2 ≤ arrays [a,b,c] then reduced a else a)
    (second : b' = if 2 ≤ arrays [a',b,c] then reduced b else b)
    (third : c' = if 2 ≤ arrays [a',b',c] then reduced c else c) : Irreducible [a',b',c'] := by
  simp only [Irreducible,arrays,reduced,List.countP_cons,List.countP_nil,List.mem_cons] at *
  grind

theorem broadcastInBounds (f : α → β → γ → δ) (x : Shaped α) (y : Shaped β) (z : Shaped γ) :
    broadcast? f x y z = some (zipWith3 f x y z) := by
  generalize first : (if 2 ≤ arrays [x.length?,y.length?,z.length?] then x.sole else x) = x'
  generalize second : (if 2 ≤ arrays [x'.length?,y.length?,z.length?] then y.sole else y) = y'
  generalize third : (if 2 ≤ arrays [x'.length?,y'.length?,z.length?] then z.sole else z) = z'
  have same : zipWith3 f x' y' z' = zipWith3 f x y z := by
    calc
      zipWith3 f x' y' z' = zipWith3 f x' y' z := by
        rw [← third]
        split
        · exact zipWith3SoleThird f ‹_›
        · rfl
      _ = zipWith3 f x' y z := by
        rw [← second]
        split
        · exact zipWith3SoleSecond f ‹_›
        · rfl
      _ = zipWith3 f x y z := by
        rw [← first]
        split
        · exact zipWith3SoleFirst f ‹_›
        · rfl
  have plural : Irreducible [x'.length?,y'.length?,z'.length?] := by
    apply irreducibleReduced (a := x.length?) (b := y.length?) (c := z.length?)
    · rw [← first,apply_ite length?,soleLength,reduced]
    · rw [← second,apply_ite length?,soleLength,reduced]
    · rw [← third,apply_ite length?,soleLength,reduced]
  simp only [broadcast?,first,second,third]
  rw [(zipWith3Reads f x' y' z' plural).spread,same]

theorem mapZipWith (f : α → β → γ) (g : γ → δ) (x : Shaped α) (y : Shaped β) :
    (zipWith f x y).map (map g) = zipWith (fun a b => g (f a b)) x y := by
  cases x with
  | scalar a => cases y <;> simp [zipWithScalar,map]
  | array as =>
    cases y with
    | scalar b => simp [zipWithScalarRight,map]
    | array bs =>
      unfold zipWith
      split <;> simp_all [map]

def broadcastTwo? (f : α → β → γ) (x : Shaped α) (y : Shaped β) : Option (Option (Shaped γ)) :=
  broadcast? (fun a b _ => f a b) x y (.scalar ())

theorem broadcastTwoInBounds (f : α → β → γ) (x : Shaped α) (y : Shaped β) :
    broadcastTwo? f x y = some (zipWith f x y) := by
  rw [broadcastTwo?,broadcastInBounds,zipWith3,← mapZipWith (fun a b (_ : Unit) => f a b) (· ()) x y]
  cases zipWith (fun a b (_ : Unit) => f a b) x y with
  | none => rfl
  | some r => rw [Option.bind_some,zipWithScalarRight,Option.map_some]

end Shaped

section Operators
variable {α γ : Type}

namespace Value

def numberShape? : Value → Option (Shaped Float)
  | .number v => some v
  | _ => none

def textShape? : Value → Option (Shaped String)
  | .text v => some v
  | _ => none

def boolShape? : Value → Option (Shaped Bool)
  | .bool v => some v
  | _ => none

end Value

open Checked

def lift? (view : Value → Option (Shaped α)) (make : Shaped γ → Value) (f : α → α → γ) (a b : Value) :
    Checked EvalError Value :=
  match view a, view b with
  | some x, some y => do
    match ← (Shaped.broadcastTwo? f x y : Option (Option (Shaped γ))) with
    | some r => return make r
    | none => throw .binaryLengths
  | _, _ => throw (.binaryKinds a.kind b.kind)

def addValues? (a b : Value) : Checked EvalError Value :=
  match a, b with
  | .text (.scalar s), .text (.scalar t) => return .ofText (s ++ t)
  | .text (.scalar s), .number (.scalar x) => return .ofText (s ++ Number.text x)
  | .number (.scalar x), .text (.scalar s) => return .ofText (Number.text x ++ s)
  | .text (.array _), _ | _, .text (.array _) => lift? Value.textShape? .text (· ++ ·) a b
  | _, _ => lift? Value.numberShape? .number (· + ·) a b

def equalValues? (negated : Bool) (a b : Value) : Checked EvalError Value :=
  if a.boolShape?.isSome && b.boolShape?.isSome then
    lift? Value.boolShape? .bool (fun x y => (x == y) != negated) a b
  else lift? Value.numberShape? .bool (fun x y => near x y != negated) a b

def pick? (as : List α) (index : Float) : Checked EvalError α := do
  let i ← inside (position as.length index)
  (as[i.val]? : Option α)

def elementAt? : Value → Value → Checked EvalError Value
  | .number (.array xs), .number (.scalar i) => .ofNumber <$> pick? xs i
  | .text (.array ss), .number (.scalar i) => .ofText <$> pick? ss i
  | .bool (.array bs), .number (.scalar i) => .ofBool <$> pick? bs i
  | a, b => throw (.elementKinds a.kind b.kind)

def BinaryOp.apply? : BinaryOp → Value → Value → Checked EvalError Value
  | .add => addValues?
  | .sub => lift? Value.numberShape? .number (· - ·)
  | .mul => lift? Value.numberShape? .number (· * ·)
  | .div => lift? Value.numberShape? .number (· / ·)
  | .pow => lift? Value.numberShape? .number Float.pow
  | .less => lift? Value.numberShape? .bool fun x y => x < y
  | .lessEqual => lift? Value.numberShape? .bool fun x y => x ≤ y
  | .greater => lift? Value.numberShape? .bool fun x y => y < x
  | .greaterEqual => lift? Value.numberShape? .bool fun x y => y ≤ x
  | .equal => equalValues? false
  | .notEqual => equalValues? true
  | .and => lift? Value.boolShape? .bool (· && ·)
  | .or => lift? Value.boolShape? .bool (· || ·)
  | .index => elementAt?

def choose? (view : Value → Option (Shaped α)) (make : Shaped α → Value) (c a b : Value) :
    Checked EvalError Value :=
  match c.boolShape?, view a, view b with
  | some t, some x, some y => do
    match ← (Shaped.broadcast? (fun t x y => if t then x else y) t x y :
      Option (Option (Shaped α))) with
    | some r => return make r
    | none => throw .ternaryLengths
  | _, _, _ => throw (.ternaryKinds c.kind a.kind b.kind)

def select? (c a b : Value) : Checked EvalError Value :=
  if a.numberShape?.isSome && b.numberShape?.isSome then choose? Value.numberShape? .number c a b
  else if a.textShape?.isSome && b.textShape?.isSome then choose? Value.textShape? .text c a b
  else if a.boolShape?.isSome && b.boolShape?.isSome then choose? Value.boolShape? .bool c a b
  else throw (.ternaryKinds c.kind a.kind b.kind)

def Operation.apply? : Operation → List Value → Checked EvalError Value
  | .unary op, [a] => inside (op.apply a)
  | .binary op, [a,b] => op.apply? a b
  | .select, [c,a,b] => select? c a b
  | _, vs => inside (arrayOf vs)

theorem liftInBounds {view : Value → Option (Shaped α)} {make : Shaped γ → Value} {f : α → α → γ}
    {a b : Value} {x y : Shaped α} (left : view a = some x) (right : view b = some y) :
    lift? view make f a b = inside (combine make f x y) := by
  simp only [lift?,left,right,Shaped.broadcastTwoInBounds,readSome,pure_bind,combine]
  cases x.zipWith f y <;> rfl

theorem liftNumbers (make : Shaped γ → Value) (f : Float → Float → γ) (x y : Shaped Float) :
    lift? Value.numberShape? make f (.number x) (.number y) = inside (combine make f x y) :=
  liftInBounds rfl rfl

theorem liftTexts (make : Shaped γ → Value) (f : String → String → γ) (x y : Shaped String) :
    lift? Value.textShape? make f (.text x) (.text y) = inside (combine make f x y) :=
  liftInBounds rfl rfl

theorem liftBools (make : Shaped γ → Value) (f : Bool → Bool → γ) (x y : Shaped Bool) :
    lift? Value.boolShape? make f (.bool x) (.bool y) = inside (combine make f x y) :=
  liftInBounds rfl rfl

theorem onNumbersInBounds (f : Float → Float → Float) (a b : Value) :
    lift? Value.numberShape? .number f a b = inside (onNumbers f a b) := by
  rcases a with x | x | x | _ <;> rcases b with y | y | y | _
  case number.number => exact liftNumbers ..
  all_goals rfl

theorem compareNumbersInBounds (f : Float → Float → Bool) (a b : Value) :
    lift? Value.numberShape? .bool f a b = inside (compareNumbers f a b) := by
  rcases a with x | x | x | _ <;> rcases b with y | y | y | _
  case number.number => exact liftNumbers ..
  all_goals rfl

theorem onBoolsInBounds (f : Bool → Bool → Bool) (a b : Value) :
    lift? Value.boolShape? .bool f a b = inside (onBools f a b) := by
  rcases a with x | x | x | _ <;> rcases b with y | y | y | _
  case bool.bool => exact liftBools ..
  all_goals rfl

theorem addValuesInBounds (a b : Value) : addValues? a b = inside (addValues a b) := by
  rcases a with (x | x) | (x | x) | x | _ <;> rcases b with (y | y) | (y | y) | y | _
  case number.scalar.number.scalar | number.scalar.number.array | number.array.number.scalar |
      number.array.number.array => exact liftNumbers ..
  case text.scalar.text.array | text.array.text.scalar | text.array.text.array => exact liftTexts ..
  all_goals rfl

theorem equalValuesInBounds (negated : Bool) (a b : Value) :
    equalValues? negated a b = inside (equalValues negated a b) := by
  rcases a with x | x | x | _ <;> rcases b with y | y | y | _
  case number.number => exact liftNumbers ..
  case bool.bool => exact liftBools ..
  all_goals rfl

theorem pickInBounds (as : List α) (index : Float) : pick? as index = inside (pick as index) := by
  unfold pick? pick
  cases position as.length index with
  | error e => rfl
  | ok i =>
    rw [insideOk,pure_bind,List.getElem?_eq_getElem i.isLt]
    rfl

theorem elementAtInBounds (a b : Value) : elementAt? a b = inside (elementAt a b) := by
  rcases a with (x | xs) | (x | xs) | (x | xs) | _ <;> rcases b with (y | y) | y | y | _
  all_goals first
    | rfl
    | (simp only [elementAt?,elementAt,pickInBounds]
       cases pick xs y <;> rfl)

theorem binaryInBounds (op : BinaryOp) (a b : Value) : op.apply? a b = inside (op.apply a b) := by
  cases op with
  | add => exact addValuesInBounds a b
  | sub | mul | div | pow => exact onNumbersInBounds _ a b
  | less | lessEqual | greater | greaterEqual => exact compareNumbersInBounds _ a b
  | equal | notEqual => exact equalValuesInBounds _ a b
  | and | or => exact onBoolsInBounds _ a b
  | index => exact elementAtInBounds a b

theorem chooseInBounds (view : Value → Option (Shaped α)) (make : Shaped α → Value)
    (t : Shaped Bool) (a b : Value) {x y : Shaped α} (yes : view a = some x) (no : view b = some y) :
    choose? view make (.bool t) a b = inside (chooseShaped make t x y) := by
  simp only [choose?,Value.boolShape?,yes,no,Shaped.broadcastInBounds,readSome,pure_bind,chooseShaped,
    combine3]
  cases Shaped.zipWith3 (fun t x y => if t = true then x else y) t x y <;> rfl

theorem selectInBounds (c a b : Value) : select? c a b = inside (select c a b) := by
  rcases c with t | t | t | _ <;> rcases a with x | x | x | _ <;> rcases b with y | y | y | _
  case bool.number.number => exact chooseInBounds Value.numberShape? .number t (.number x) (.number y) rfl rfl
  case bool.text.text => exact chooseInBounds Value.textShape? .text t (.text x) (.text y) rfl rfl
  case bool.bool.bool => exact chooseInBounds Value.boolShape? .bool t (.bool x) (.bool y) rfl rfl
  all_goals rfl

theorem operationInBounds (op : Operation) (vs : List Value) :
    op.apply? vs = inside (op.apply vs) := by
  fun_cases Operation.apply? op vs
  · rfl
  · exact binaryInBounds ..
  · exact selectInBounds ..
  · unfold Operation.apply
    split <;> simp_all

end Operators
end ArrayCalc
