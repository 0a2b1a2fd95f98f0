import ArrayCalc.Filter.Design
import ArrayCalc.Proofs.OperatorBounds
/-! Filters by position. The delay line is shifted in place, slot by slot, and signals are cut at
computed positions; every read, write, cut and difference may be out of bounds and then comes to
nothing. None ever is, and what comes out is the response itself. -/
namespace ArrayCalc

theorem exceptOk {ε α β : Type} {r : Except ε α} {k : α → Except ε β} {b : β}
    (done : r >>= k = .ok b) : ∃ a, r = .ok a ∧ k a = .ok b := by
  cases r with
  | error e => contradiction
  | ok a => exact ⟨a,rfl,done⟩

section Positions
variable {α : Type}

def minus? (a b : Nat) : Option Nat := if b ≤ a then some (a - b) else none

def put? (as : List α) (i : Nat) (a : α) : Option (List α) :=
  if i < as.length then some (as.set i a) else none

def slice? (as : List α) (start stop : Nat) : Option (List α) :=
  if start ≤ stop ∧ stop ≤ as.length then some ((as.drop start).take (stop - start)) else none

theorem minusInside {a b : Nat} (less : b ≤ a) : minus? a b = some (a - b) := if_pos less

theorem putInside {as : List α} {i : Nat} (a : α) (less : i < as.length) :
    put? as i a = some (as.set i a) := if_pos less

theorem sliceInside {as : List α} {start stop : Nat} (ordered : start ≤ stop)
    (reached : stop ≤ as.length) :
    slice? as start stop = some ((as.drop start).take (stop - start)) := if_pos ⟨ordered,reached⟩

end Positions

namespace Filter

@[simp] theorem fitLength {α : Type} [Zero α] (n : Nat) (xs : List α) : (fit n xs).length = n := by
  simp only [fit,List.length_append,List.length_take,List.length_replicate]
  omega

theorem pairsSome {α : Type} [Zero α] [Div α] [Gauge α] {b a : List α} {ps : List (α × α)}
    (paired : coefficientPairs b a = .ok ps) : ps ≠ [] := by
  unfold coefficientPairs at paired
  split at paired
  · contradiction
  · split at paired
    · contradiction
    · cases paired
      apply List.ne_nil_of_length_pos
      simp only [List.length_zip,fitLength,List.length_cons]
      omega

theorem headInBounds {α : Type} [Zero α] {x : List α} (filled : x ≠ []) : x[0]? = some (x.headD 0) := by
  obtain ⟨a,x,rfl⟩ := List.exists_cons_of_ne_nil filled
  rfl

theorem lastInBounds {α : Type} [Zero α] {x : List α} (filled : x ≠ []) :
    x[x.length - 1]? = some (x.getLastD 0) := by
  rw [← List.getLast?_eq_getElem?,List.getLast?_eq_some_getLast filled]
  obtain ⟨a,x,rfl⟩ := List.exists_cons_of_ne_nil filled
  rfl

section
variable {α : Type} [Zero α] [Add α] [Sub α]

def reflect? (n : Nat) (x : List α) : Option (List α) := do
  let first ← x[0]?
  let final ← minus? x.length 1
  let last ← x[final]?
  let ahead ← slice? x 1 (n + 1)
  let behind ← slice? x (← minus? final n) final
  return ahead.reverse.map (first + first - ·) ++ x ++ behind.reverse.map (last + last - ·)

theorem reflectInBounds {n : Nat} {x : List α} (longer : n < x.length) :
    reflect? n x = some (reflect n x) := by
  have filled : x ≠ [] := List.ne_nil_of_length_pos (by omega)
  have width : x.length - 1 - (x.length - 1 - n) = n := by omega
  simp only [reflect?,headInBounds filled,lastInBounds filled,Option.bind_eq_bind,Option.bind_some,
    minusInside (show 1 ≤ x.length by omega),minusInside (show n ≤ x.length - 1 by omega),
    sliceInside (show 1 ≤ n + 1 by omega) longer,
    sliceInside (show x.length - 1 - n ≤ x.length - 1 by omega) (Nat.sub_le ..),
    Nat.add_sub_cancel,width]
  rfl

theorem reflectLength {n : Nat} {x : List α}
    (longer : n < x.length) : (reflect n x).length = n + x.length + n := by
  simp only [reflect,List.length_append,List.length_map,List.length_reverse,List.length_take,
    List.length_drop]
  omega

end

section
variable {α : Type} [Add α] [Sub α] [Mul α]

def shift? (b a : List α) (x y : α) (held : List α) (k : Nat) : Option (List α) := do
  put? held k ((← b[k + 1]?) * x - (← a[k + 1]?) * y + (← held[k + 1]?))

theorem shiftLoop {ps : List (α × α)} {held : List α} (fits : held.length = ps.length) (x y : α)
    {m : Nat} (reached : m < ps.length) :
    (List.range m).foldlM (shift? (ps.map Prod.fst) (ps.map Prod.snd) x y) held =
      some ((ps.tail.zipWith (fun p z => p.1 * x - p.2 * y + z) held.tail).take m ++ held.drop m) := by
  induction m with
  | zero => simp
  | succ m ih =>
    have reached' : m + 1 < held.length := by omega
    generalize zipped : ps.tail.zipWith (fun p z => p.1 * x - p.2 * y + z) held.tail = new at ih ⊢
    have length : (new.take m).length = m := by simp [← zipped]; omega
    have slot : new[m]? = some (ps[m + 1].1 * x - ps[m + 1].2 * y + held[m + 1]) := by
      simp [← zipped,List.getElem?_zipWith,reached,reached']
    have behind : (new.take m ++ held.drop m)[m + 1]? = some held[m + 1] := by
      rw [List.getElem?_append_right (by omega),length,List.getElem?_drop]
      simp [reached']
    have shifted : shift? (ps.map Prod.fst) (ps.map Prod.snd) x y (new.take m ++ held.drop m) m =
        some (new.take (m + 1) ++ held.drop (m + 1)) := by
      simp only [shift?,behind,List.getElem?_map,List.getElem?_eq_getElem reached,Option.map_some,
        Option.bind_eq_bind,Option.bind_some]
      have room : m < (new.take m ++ held.drop m).length := by
        rw [List.length_append,length,List.length_drop]
        omega
      rw [putInside _ room,List.set_append_right _ _ (by omega),length,Nat.sub_self,
        List.drop_eq_getElem_cons (by omega),List.set_cons_zero,List.take_add_one,slot]
      simp
    rw [List.range_succ,List.foldlM_append,ih (by omega)]
    simpa using shifted

variable [Zero α]

def advance? (b a held : List α) (x : α) : Option (α × List α) := do
  let y := (← b[0]?) * x + (← held[0]?)
  let last ← minus? b.length 1
  let held ← (List.range last).foldlM (shift? b a x y) held
  return (y,← put? held last 0)

theorem advanceLength (ps : List (α × α)) {held : List α} (filled : ps ≠ [])
    (fits : held.length = ps.length) (x : α) : (advance ps held x).2.length = ps.length := by
  have positive := List.length_pos_iff.mpr filled
  simp [advance]
  omega

theorem advanceInBounds {ps : List (α × α)} {held : List α} (filled : ps ≠ [])
    (fits : held.length = ps.length) (x : α) :
    advance? (ps.map Prod.fst) (ps.map Prod.snd) held x = some (advance ps held x) := by
  obtain ⟨p,ps,rfl⟩ := List.exists_cons_of_ne_nil filled
  obtain ⟨z,held,rfl⟩ := List.exists_cons_of_length_eq_add_one fits
  have fits' : held.length = ps.length := by simpa using fits
  have shifted := shiftLoop fits x (p.1 * x + z) (m := ps.length) (by simp)
  have zipped : (ps.zipWith (fun q w => q.1 * x - q.2 * (p.1 * x + z) + w) held).length = ps.length := by
    simp [fits']
  obtain ⟨w,final⟩ : ∃ w, (z :: held).drop ps.length = [w] :=
    List.length_eq_one_iff.mp (by simp [fits'])
  simp only [List.tail_cons,final,List.take_of_length_le (Nat.le_of_eq zipped)] at shifted
  have less : minus? (p.1 :: ps.map Prod.fst).length 1 = some ps.length := by
    rw [minusInside (by simp)]
    simp
  simp only [List.map_cons] at shifted ⊢
  simp only [advance?,less,shifted,List.getElem?_cons_zero,Option.bind_eq_bind,Option.bind_some]
  rw [putInside _ (by simp [fits']),List.set_append_right _ _ (by omega),zipped,Nat.sub_self]
  rfl

theorem outputsBefore (ps : List (α × α)) (held ys xs : List α) :
    (xs.foldl (fun (ys,held) x => let (y,next) := advance ps held x; (y :: ys,next)) (ys,held)).1 =
      (run ps held xs).reverse ++ ys := by
  induction xs generalizing held ys with
  | nil => rfl
  | cons x xs ih =>
    have unrolled : run ps held (x :: xs) =
        (xs.foldl _ ([(advance ps held x).1],(advance ps held x).2)).1.reverse := rfl
    rw [List.foldl_cons,unrolled,ih,ih]
    simp

theorem runCons (ps : List (α × α)) (held : List α) (x : α) (xs : List α) :
    run ps held (x :: xs) = (advance ps held x).1 :: run ps (advance ps held x).2 xs := by
  rw [run,List.foldl_cons,outputsBefore]
  simp

@[simp] theorem runLength (ps : List (α × α)) (held xs : List α) :
    (run ps held xs).length = xs.length := by
  induction xs generalizing held with
  | nil => rfl
  | cons x xs ih => simp [runCons,ih]

def run? (b a : List α) : List α → List α → Option (List α)
  | _, [] => some []
  | held, x :: xs => do
    let (y,held) ← advance? b a held x
    return y :: (← run? b a held xs)

theorem runInBounds {ps : List (α × α)} {held : List α} (filled : ps ≠ [])
    (fits : held.length = ps.length) (xs : List α) :
    run? (ps.map Prod.fst) (ps.map Prod.snd) held xs = some (run ps held xs) := by
  induction xs generalizing held with
  | nil => rfl
  | cons x xs ih =>
    simp only [run?,advanceInBounds filled fits,Option.bind_eq_bind,Option.bind_some,runCons,
      ih (advanceLength ps filled fits x)]
    rfl

variable [Div α] [Gauge α]

def response? (b a start x : List α) : Checked Fault (List α) := do
  let ps ← Checked.inside (coefficientPairs b a)
  run? (ps.map Prod.fst) (ps.map Prod.snd) (fit ps.length start) x

theorem responseInBounds (b a start x : List α) :
    response? b a start x = Checked.inside (response b a start x) := by
  unfold response? response
  cases paired : coefficientPairs b a with
  | error e => rfl
  | ok ps =>
    simp only [Checked.insideOk,pure_bind,runInBounds (pairsSome paired) (fitLength ..)]
    rfl

theorem responseLength {b a start x y : List α} (done : response b a start x = .ok y) :
    y.length = x.length := by
  unfold response at done
  cases paired : coefficientPairs b a with
  | error e => rw [paired] at done; contradiction
  | ok ps =>
    rw [paired] at done
    cases done
    exact runLength ..

variable [Neg α]

def seed? (ps : List (α × α)) : Option (List α) :=
  let gain := total (ps.map Prod.fst) / total (ps.map Prod.snd)
  if Gauge.isFinite gain then (tailSums (ps.map fun p => p.1 - gain * p.2)).tail?
  else some (List.replicate (ps.length - 1) 0)

theorem seedInBounds {ps : List (α × α)} (filled : ps ≠ []) : seed? ps = some (seed ps) := by
  obtain ⟨p,ps,rfl⟩ := List.exists_cons_of_ne_nil filled
  unfold seed? seed
  dsimp only
  split <;> rfl

def zeroPhase? (b a x : List α) : Checked Fault (List α) := do
  let ps ← Checked.inside (coefficientPairs b a)
  let n := 3 * ps.length
  if x.length ≤ n then throw .signalTooShort
  let (b,a) := ps.unzip
  let start ← seed? ps
  let extended ← reflect? n x
  let first ← (extended[0]? : Option α)
  let forward ← response? b a (start.map (· * first)) extended
  let last ← (forward[(← minus? forward.length 1)]? : Option α)
  let backward ← response? b a (start.map (· * last)) forward.reverse
  slice? backward.reverse n (n + x.length)

theorem zeroPhaseInBounds (b a x : List α) :
    zeroPhase? b a x = Checked.inside (zeroPhase b a x) := by
  unfold zeroPhase? zeroPhase
  apply Checked.insideBind
  intro ps paired
  dsimp only
  by_cases short : x.length ≤ 3 * ps.length
  · simp only [if_pos short]
    rfl
  · have longer : 3 * ps.length < x.length := by omega
    have extended := reflectLength longer
    have filled : reflect (3 * ps.length) x ≠ [] := List.ne_nil_of_length_pos (by omega)
    simp only [if_neg short,pure_bind,seedInBounds (pairsSome paired),reflectInBounds longer,
      Checked.readSome,headInBounds filled,responseInBounds]
    apply Checked.insideBind
    intro forward done
    have length := responseLength done
    have filled' : forward ≠ [] := List.ne_nil_of_length_pos (by omega)
    simp only [pure_bind,minusInside (show 1 ≤ forward.length by omega),lastInBounds filled',
      Checked.readSome]
    apply Checked.insideBind
    intro backward done'
    have length' := responseLength done'
    have cut : 3 * ps.length + x.length ≤ backward.reverse.length := by
      rw [List.length_reverse] at length' ⊢
      omega
    rw [sliceInside (Nat.le_add_right ..) cut,Nat.add_sub_cancel_left]
    rfl

theorem zeroPhaseLength {b a x y : List α} (done : zeroPhase b a x = .ok y) :
    y.length = x.length := by
  unfold zeroPhase at done
  obtain ⟨ps,paired,done⟩ := exceptOk done
  by_cases short : x.length ≤ 3 * ps.length
  · simp only [if_pos short] at done
    contradiction
  · simp only [if_neg short] at done
    obtain ⟨forward,first,done⟩ := exceptOk done
    obtain ⟨backward,second,done⟩ := exceptOk done
    have length := responseLength first
    have length' := responseLength second
    rw [reflectLength (by omega)] at length
    cases done
    simp only [List.length_reverse,List.length_take,List.length_drop] at length' ⊢
    omega

end

section Design
variable (cutoff low high rate : Float) (half : Nat)

def hamming? (taps : Nat) : Option (List Float) :=
  if taps = 1 then some [1.0]
  else do
    let m := Float.ofNat (← minus? taps 1)
    return (List.range taps).map fun k => 0.54 - 0.46 * (2.0 * pi * Float.ofNat k / m).cos

def unitImpulse? : Option (List Float) := put? (List.replicate (2 * half + 1) 0.0) half 1.0

def lowPass? : Option (List Float) := do
  let nu := 2.0 * cutoff / rate
  return unitSum ((← hamming? (2 * half + 1)).mapIdx fun k w =>
    nu * sinc (nu * (Float.ofNat k - Float.ofNat half)) * w)

def scaledLowPass? (gain : Float) : Checked Fault (List Float) :=
  if gain > 0.0 && gain.isFinite then return (← lowPass? cutoff rate half).map (· * gain)
  else throw (.gainNotPositive gain)

def highPass? : Option (List Float) := do
  return (← unitImpulse? half).zipWith (· - ·) (← lowPass? cutoff rate half)

def bandStop? : Option (List Float) := do
  return (← lowPass? low rate half).zipWith (· + ·) (← highPass? high rate half)

def bandPass? : Option (List Float) := do
  return (← unitImpulse? half).zipWith (· - ·) (← bandStop? low high rate half)

theorem hammingInBounds {taps : Nat} (positive : 0 < taps) : hamming? taps = some (hamming taps) := by
  unfold hamming? hamming
  rw [minusInside (show 1 ≤ taps from positive)]
  split <;> rfl

theorem unitImpulseInBounds : unitImpulse? half = some (unitImpulse half) := by
  have split : List.replicate (2 * half + 1) (0.0 : Float) =
      List.replicate half 0.0 ++ 0.0 :: List.replicate half 0.0 := by
    rw [← List.replicate_succ,List.replicate_append_replicate]
    congr 1
    omega
  rw [unitImpulse?,putInside _ (by simp; omega),split,List.set_append_right _ _ (by simp)]
  simp [unitImpulse]

theorem lowPassInBounds : lowPass? cutoff rate half = some (lowPass cutoff rate half) := by
  rw [lowPass?,hammingInBounds (Nat.succ_pos _)]
  rfl

theorem scaledLowPassInBounds (gain : Float) : scaledLowPass? cutoff rate half gain =
    Checked.inside (scaledLowPass cutoff rate half gain) := by
  unfold scaledLowPass? scaledLowPass
  rw [lowPassInBounds]
  split <;> rfl

theorem highPassInBounds : highPass? cutoff rate half = some (highPass cutoff rate half) := by
  rw [highPass?,unitImpulseInBounds,lowPassInBounds]
  rfl

theorem bandStopInBounds : bandStop? low high rate half = some (bandStop low high rate half) := by
  rw [bandStop?,lowPassInBounds,highPassInBounds]
  rfl

theorem bandPassInBounds : bandPass? low high rate half = some (bandPass low high rate half) := by
  rw [bandPass?,unitImpulseInBounds,bandStopInBounds]
  rfl

theorem hammingLength (taps : Nat) : (hamming taps).length = taps := by
  unfold hamming
  split
  · rename_i one
    exact one.symm
  · simp

theorem unitSumLength (xs : List Float) : (unitSum xs).length = xs.length := by
  unfold unitSum
  dsimp only
  split
  · rfl
  · exact List.length_map ..

theorem lowPassLength : (lowPass cutoff rate half).length = 2 * half + 1 := by
  simp [lowPass,unitSumLength,hammingLength]

theorem unitImpulseLength : (unitImpulse half).length = 2 * half + 1 := by
  simp [unitImpulse]
  omega

theorem highPassLength : (highPass cutoff rate half).length = 2 * half + 1 := by
  simp [highPass,unitImpulseLength,lowPassLength]

theorem bandStopLength : (bandStop low high rate half).length = 2 * half + 1 := by
  simp [bandStop,lowPassLength,highPassLength]

theorem bandPassLength : (bandPass low high rate half).length = 2 * half + 1 := by
  simp [bandPass,unitImpulseLength,bandStopLength]

end Design
end Filter
end ArrayCalc
