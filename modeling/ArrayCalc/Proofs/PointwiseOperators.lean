import ArrayCalc.Proofs.Broadcasting
import Mathlib.Data.List.Forall2
/-! Operators on arrays are those on scalars, position by position. If an operator takes its operands,
it takes what they show at each position, and that gives the elements of the result. Conversely it
takes operands that fit together if it takes what they show. Only a text and a number are added as
scalars and not as arrays. -/
namespace ArrayCalc

def Element.Carrier : Element → Type
  | .number => Float
  | .text => String
  | .bool => Bool

namespace Value

def of : (e : Element) → Shaped e.Carrier → Value
  | .number => .number
  | .text => .text
  | .bool => .bool

def element? : Value → Option Element
  | .number _ => some .number
  | .text _ => some .text
  | .bool _ => some .bool
  | .unit => none

def read (reading : {α : Type} → Shaped α → Option α) : Value → Option Value
  | .number v => (reading v).map .ofNumber
  | .text v => (reading v).map .ofText
  | .bool v => (reading v).map .ofBool
  | .unit => some .unit

def view (v : Value) (i : Nat) : Option Value := v.read (·.view i)

def at? (v : Value) (i : Nat) : Option Value := v.read (·.at? i)

theorem ofElement {v : Value} {e : Element} (sort : v.element? = some e) : ∃ x, v = .of e x := by
  cases v <;> cases sort <;> exact ⟨_,rfl⟩

theorem lengthOf (e : Element) (x : Shaped e.Carrier) : (of e x).length? = x.length? := by
  cases e <;> rfl

theorem readOf (reading : {α : Type} → Shaped α → Option α) (e : Element) (x : Shaped e.Carrier) :
    (of e x).read reading = (reading x).map fun a => .of e (.scalar a) := by
  cases e <;> rfl

theorem viewOf {e : Element} {x : Shaped e.Carrier} {i : Nat} {a : e.Carrier}
    (shown : x.view i = some a) : (of e x).view i = some (.of e (.scalar a)) := by
  rw [view,readOf,shown,Option.map_some]

theorem viewElement {v u : Value} {i : Nat} (shown : v.view i = some u) : u.element? = v.element? := by
  cases v with
  | number v | text v | bool v =>
    obtain ⟨a,_,rfl⟩ := Option.map_eq_some_iff.mp shown
    rfl
  | unit =>
    cases shown
    rfl

theorem arrayLength {v : Value} (array : v.kind.isArray) : v.length? ≠ none := by
  rcases v with (x | x) | (x | x) | (x | x) | _ <;>
    simp_all [kind,kindOf,Kind.isArray,length?,Shaped.length?]

end Value

namespace Shaped

theorem resultLengthScalars {lengths : List (Option Nat)} (scalars : resultLength lengths = some none) :
    ∀ l ∈ lengths, l = none := by
  unfold resultLength at scalars
  split at scalars
  · exact List.filterMap_eq_nil_iff.mp ‹_›
  · cases scalars
  · split at scalars <;> cases scalars

theorem resultLengthMember {lengths : List (Option Nat)} {n m : Nat}
    (fits : resultLength lengths = some (some n)) (member : some m ∈ lengths) : m = 1 ∨ m = n := by
  by_cases single : m = 1
  · exact .inl single
  · have plural : m ∈ (lengths.filterMap id).filter (· ≠ 1) := by simp [member,single]
    unfold resultLength at fits
    split at fits
    · cases fits
    · rename_i singles _
      rw [singles] at plural
      cases plural
    · rename_i first others several _
      split at fits
      · rename_i same
        cases fits
        rw [several] at plural
        exact .inr ((List.mem_cons.mp plural).elim id (same m))
      · cases fits

theorem viewFits {α : Type} {x : Shaped α} {i n : Nat} (inside : i < n)
    (fits : ∀ m ∈ x.length?, m = 1 ∨ m = n) : ∃ a, x.view i = some a := by
  cases x with
  | scalar a => exact ⟨a,rfl⟩
  | array as =>
    rcases fits as.length rfl with single | same
    · obtain ⟨a,rfl⟩ := List.length_eq_one_iff.mp single
      exact ⟨a,rfl⟩
    · subst same
      exact ⟨as[i],(viewInside inside).trans (List.getElem?_eq_getElem inside)⟩

end Shaped

def Shown (i : Nat) (vs us : List Value) : Prop := List.Forall₂ (fun v u => v.view i = some u) vs us

def SameSorts (vs us : List Value) : Prop := List.Forall₂ (fun v u => u.element? = v.element?) vs us

theorem shownSorts {i : Nat} {vs us : List Value} (shown : Shown i vs us) : SameSorts vs us :=
  List.Forall₂.imp (fun _ _ => Value.viewElement) shown

theorem shownInside {vs : List Value} {i n : Nat} (inside : i < n)
    (fits : ∀ m, some m ∈ vs.map Value.length? → m = 1 ∨ m = n) : ∃ us, Shown i vs us := by
  induction vs with
  | nil => exact ⟨[],.nil⟩
  | cons v vs ih =>
    obtain ⟨us,rest⟩ := ih fun m member => fits m (.tail _ member)
    have first (m : Nat) (length : v.length? = some m) : m = 1 ∨ m = n := fits m (length ▸ .head _)
    cases sort : v.element? with
    | none =>
      cases v <;> cases sort
      exact ⟨.unit :: us,.cons rfl rest⟩
    | some e =>
      obtain ⟨x,rfl⟩ := Value.ofElement sort
      rw [Value.lengthOf] at first
      obtain ⟨a,shown⟩ := Shaped.viewFits inside first
      exact ⟨_ :: us,.cons (Value.viewOf shown) rest⟩

def Elementwise (op : Operation) (vs : List Value) : Prop :=
  ∀ r, op.apply vs = .ok r → ∃ n, r.length? = some n ∧
    Shaped.resultLength (vs.map Value.length?) = some (some n) ∧
    ∀ i < n, ∃ us w, Shown i vs us ∧ op.apply us = .ok w ∧ r.at? i = some w

def Assembled (op : Operation) (vs : List Value) : Prop :=
  ∀ n, Shaped.resultLength (vs.map Value.length?) = some (some n) → 1 ≤ n →
    (∀ i < n, ∀ us, Shown i vs us → ∃ w, op.apply us = .ok w) → ∃ r, op.apply vs = .ok r

/- An operator goes through the shapes of operands with an element function, or it does not take any
operands of their sorts. -/
inductive Treats (op : Operation) (vs : List Value) : Prop where
  | lifts {e : Element} {item : Nat → Option e.Carrier} {mismatch : EvalError}
      (law : Shaped.ShapeLaw (vs.map Value.length?) item (.of e) mismatch (op.apply vs))
      (each : ∀ i c, item i = some c → ∃ us, Shown i vs us ∧ op.apply us = .ok (.of e (.scalar c)))
  | refuses (each : ∀ us, SameSorts vs us → ∃ e, op.apply us = .error e)

theorem refusedElementwise {op : Operation} {vs : List Value} {e : EvalError}
    (refused : op.apply vs = .error e) : Elementwise op vs := by
  intro r done
  cases done.symm.trans refused

theorem Treats.elementwise {op : Operation} {vs : List Value} (treats : Treats op vs)
    (array : ∃ v ∈ vs, v.kind.isArray) : Elementwise op vs := by
  cases treats with
  | lifts law each =>
    intro r done
    unfold Shaped.ShapeLaw at law
    split at law
    · cases done.symm.trans law
    · obtain ⟨v,member,isArray⟩ := array
      have scalar := Shaped.resultLengthScalars ‹_› _ (List.mem_map_of_mem member)
      exact absurd scalar (Value.arrayLength isArray)
    · rename_i n fits
      obtain ⟨cs,rfl,items,made⟩ := law
      obtain rfl : r = _ := Except.ok.inj (done.symm.trans made)
      refine ⟨cs.length,Value.lengthOf ..,fits,fun i inside => ?_⟩
      have item := (items i inside).trans (List.getElem?_eq_getElem inside)
      obtain ⟨us,shown,scalar⟩ := each i _ item
      refine ⟨us,_,shown,scalar,?_⟩
      rw [Value.at?,Value.readOf,Shaped.at?,List.getElem?_eq_getElem inside,Option.map_some]
  | refuses each =>
    obtain ⟨e,refused⟩ := each vs (List.forall₂_same.mpr fun _ _ => rfl)
    exact refusedElementwise refused

theorem Treats.assembled {op : Operation} {vs : List Value} (treats : Treats op vs) :
    Assembled op vs := by
  intro n fits filled scalars
  cases treats with
  | lifts law each =>
    rw [Shaped.ShapeLaw,fits] at law
    obtain ⟨cs,_,_,made⟩ := law
    exact ⟨_,made⟩
  | refuses each =>
    obtain ⟨us,shown⟩ := shownInside filled fun m => Shaped.resultLengthMember fits
    obtain ⟨w,done⟩ := scalars 0 filled us shown
    obtain ⟨e,refused⟩ := each us (shownSorts shown)
    cases done.symm.trans refused

def BinaryOp.sorts : BinaryOp → List Element
  | .add => [.number,.text]
  | .sub | .mul | .div | .pow | .less | .lessEqual | .greater | .greaterEqual => [.number]
  | .equal | .notEqual => [.number,.bool]
  | .and | .or => [.bool]
  | .index => []

def Mixed (a b : Value) : Prop :=
  (a.element? = some .text ∧ b.element? = some .number) ∨
    (a.element? = some .number ∧ b.element? = some .text)

instance (a b : Value) : Decidable (Mixed a b) := inferInstanceAs (Decidable (_ ∨ _))

section Pairs
variable {op : BinaryOp} {a b : Value}

theorem onNumbersRefuses (f : Float → Float → Float)
    (other : ¬(a.element? = some .number ∧ b.element? = some .number)) :
    onNumbers f a b = .error (.binaryKinds a.kind b.kind) := by
  unfold onNumbers
  split
  · exact absurd ⟨rfl,rfl⟩ other
  · rfl

theorem compareNumbersRefuses (f : Float → Float → Bool)
    (other : ¬(a.element? = some .number ∧ b.element? = some .number)) :
    compareNumbers f a b = .error (.binaryKinds a.kind b.kind) := by
  unfold compareNumbers
  split
  · exact absurd ⟨rfl,rfl⟩ other
  · rfl

theorem onBoolsRefuses (f : Bool → Bool → Bool)
    (other : ¬(a.element? = some .bool ∧ b.element? = some .bool)) :
    onBools f a b = .error (.binaryKinds a.kind b.kind) := by
  unfold onBools
  split
  · exact absurd ⟨rfl,rfl⟩ other
  · rfl

theorem equalValuesRefuses (negated : Bool)
    (other : ∀ e ∈ [Element.number,.bool], ¬(a.element? = some e ∧ b.element? = some e)) :
    equalValues negated a b = .error (.binaryKinds a.kind b.kind) := by
  unfold equalValues
  split
  · exact absurd ⟨rfl,rfl⟩ (other .bool (by decide))
  · exact absurd ⟨rfl,rfl⟩ (other .number (by decide))
  · rfl

theorem addValuesRefuses
    (other : ∀ e ∈ [Element.number,.text], ¬(a.element? = some e ∧ b.element? = some e))
    (apart : ¬Mixed a b) : addValues a b = .error (.binaryKinds a.kind b.kind) := by
  unfold addValues
  split
  · exact absurd ⟨rfl,rfl⟩ (other .number (by decide))
  · exact absurd ⟨rfl,rfl⟩ (other .text (by decide))
  · exact absurd (.inl ⟨rfl,rfl⟩) apart
  · exact absurd (.inr ⟨rfl,rfl⟩) apart
  · rfl

theorem mixedArrayRefused (mixed : Mixed a b) (array : ∃ v ∈ [a,b], v.kind.isArray) :
    addValues a b = .error (.binaryKinds a.kind b.kind) := by
  unfold addValues
  split
  · rcases mixed with ⟨⟨⟩,_⟩ | ⟨_,⟨⟩⟩
  · rcases mixed with ⟨_,⟨⟩⟩ | ⟨⟨⟩,_⟩
  · simp [Value.kind,Value.kindOf,Kind.isArray] at array
  · simp [Value.kind,Value.kindOf,Kind.isArray] at array
  · rfl

theorem binaryRefuses (reads : op ≠ .index)
    (other : ∀ e ∈ op.sorts, ¬(a.element? = some e ∧ b.element? = some e))
    (apart : ¬(op = .add ∧ Mixed a b)) : op.apply a b = .error (.binaryKinds a.kind b.kind) := by
  cases op with
  | add => exact addValuesRefuses other fun mixed => apart ⟨rfl,mixed⟩
  | sub | mul | div | pow => exact onNumbersRefuses _ (other .number (.head _))
  | less | lessEqual | greater | greaterEqual => exact compareNumbersRefuses _ (other .number (.head _))
  | equal | notEqual => exact equalValuesRefuses _ other
  | and | or => exact onBoolsRefuses _ (other .bool (.head _))
  | index => contradiction

theorem binaryLifts {e : Element} (taken : e ∈ op.sorts) : ∃ (r : Element)
    (f : e.Carrier → e.Carrier → r.Carrier),
      ∀ x y, op.apply (.of e x) (.of e y) = combine (.of r) f x y := by
  cases op with
  | add =>
    rcases List.mem_pair.mp taken with rfl | rfl
    · exact ⟨.number,_,fun _ _ => rfl⟩
    · exact ⟨.text,_,fun _ _ => rfl⟩
  | sub | mul | div | pow =>
    cases List.mem_singleton.mp taken
    exact ⟨.number,_,fun _ _ => rfl⟩
  | less | lessEqual | greater | greaterEqual =>
    cases List.mem_singleton.mp taken
    exact ⟨.bool,_,fun _ _ => rfl⟩
  | equal | notEqual =>
    rcases List.mem_pair.mp taken with rfl | rfl
    · exact ⟨.bool,_,fun _ _ => rfl⟩
    · exact ⟨.bool,_,fun _ _ => rfl⟩
  | and | or =>
    cases List.mem_singleton.mp taken
    exact ⟨.bool,_,fun _ _ => rfl⟩
  | index => cases taken

theorem binaryTreats (reads : op ≠ .index) (apart : ¬(op = .add ∧ Mixed a b)) :
    Treats (.binary op) [a,b] := by
  by_cases taken : ∃ e ∈ op.sorts, a.element? = some e ∧ b.element? = some e
  · obtain ⟨e,sort,left,right⟩ := taken
    obtain ⟨x,rfl⟩ := Value.ofElement left
    obtain ⟨y,rfl⟩ := Value.ofElement right
    obtain ⟨r,f,lifts⟩ := binaryLifts sort
    have law := Shaped.combineLaw (.of r) f x y
    rw [← lifts,← Value.lengthOf,← Value.lengthOf] at law
    refine .lifts law fun i c item => ?_
    obtain ⟨p,q,left,right,rfl⟩ := Shaped.view2Shown item
    exact ⟨_,.cons (Value.viewOf left) (.cons (Value.viewOf right) .nil),lifts _ _⟩
  · refine .refuses fun us same => ?_
    rcases same with _ | ⟨left,_ | ⟨right,⟨⟩⟩⟩
    refine ⟨_,binaryRefuses reads ?_ ?_⟩
    · rw [left,right]
      simpa using taken
    · rwa [Mixed,left,right]

end Pairs

section Choices
variable {c a b : Value}

theorem selectRefuses
    (other : ¬∃ e, c.element? = some .bool ∧ a.element? = some e ∧ b.element? = some e) :
    select c a b = .error (.ternaryKinds c.kind a.kind b.kind) := by
  unfold select
  split
  · exact absurd ⟨_,rfl,rfl,rfl⟩ other
  · exact absurd ⟨_,rfl,rfl,rfl⟩ other
  · exact absurd ⟨_,rfl,rfl,rfl⟩ other
  · rfl

theorem selectLifts (e : Element) (t : Shaped Bool) (x y : Shaped e.Carrier) :
    select (.bool t) (.of e x) (.of e y) = chooseShaped (.of e) t x y := by
  cases e <;> rfl

theorem selectTreats (c a b : Value) : Treats .select [c,a,b] := by
  by_cases taken : ∃ e, c.element? = some .bool ∧ a.element? = some e ∧ b.element? = some e
  · obtain ⟨e,condition,yes,no⟩ := taken
    obtain ⟨t,rfl⟩ : ∃ t, c = .bool t := Value.ofElement condition
    obtain ⟨x,rfl⟩ := Value.ofElement yes
    obtain ⟨y,rfl⟩ := Value.ofElement no
    have law := Shaped.combine3Law (.of e) (fun (t : Bool) x y => if t then x else y) t x y
    rw [← chooseShaped,← selectLifts,← Value.lengthOf e,← Value.lengthOf e] at law
    refine .lifts law fun i r item => ?_
    obtain ⟨s,p,q,condition,yes,no,rfl⟩ := Shaped.view3Shown item
    refine ⟨_,.cons (Value.viewOf (e := .bool) condition) (.cons (Value.viewOf yes)
      (.cons (Value.viewOf no) .nil)),?_⟩
    exact selectLifts e (.scalar s) (.scalar p) (.scalar q)
  · refine .refuses fun us same => ?_
    rcases same with _ | ⟨condition,_ | ⟨yes,_ | ⟨no,⟨⟩⟩⟩⟩
    refine ⟨_,selectRefuses ?_⟩
    rwa [condition,yes,no]

end Choices

theorem operatorsPointwise :
    (∀ (op : BinaryOp) (a b : Value), op ≠ .index → (∃ v ∈ [a,b], v.kind.isArray) →
      Elementwise (.binary op) [a,b] ∧
      if op = .add ∧ Mixed a b then op.apply a b = .error (.binaryKinds a.kind b.kind)
      else Assembled (.binary op) [a,b]) ∧
    (∀ s x, BinaryOp.add.apply (.ofText s) (.ofNumber x) = .ok (.ofText (s ++ Number.text x)) ∧
      BinaryOp.add.apply (.ofNumber x) (.ofText s) = .ok (.ofText (Number.text x ++ s))) ∧
    ∀ c a b : Value, (∃ v ∈ [c,a,b], v.kind.isArray) →
      Elementwise .select [c,a,b] ∧ Assembled .select [c,a,b] := by
  refine ⟨fun op a b reads array => ?_,fun s x => ⟨rfl,rfl⟩,fun c a b array => ?_⟩
  · split
    · rename_i exception
      obtain ⟨rfl,mixed⟩ := exception
      have refused := mixedArrayRefused mixed array
      exact ⟨refusedElementwise refused,refused⟩
    · rename_i apart
      have treats := binaryTreats reads apart
      exact ⟨treats.elementwise array,treats.assembled⟩
  · have treats := selectTreats c a b
    exact ⟨treats.elementwise array,treats.assembled⟩

theorem flagsPointwise :
    let flags : Value := .bool (.array [true,false])
    let single : Value := .bool (.array [true])
    let words : Value := .text (.array ["a","b"])
    BinaryOp.and.apply flags single = .ok flags ∧
    (Elementwise (.binary .and) [flags,single] ∧ Assembled (.binary .and) [flags,single]) ∧
    BinaryOp.add.apply words (.ofNumber 1) = .error (.binaryKinds (.array .text) (.scalar .number)) ∧
    select flags words (.ofText "c") = .ok (.text (.array ["a","c"])) ∧
    Elementwise .select [flags,words,.ofText "c"] ∧ Assembled .select [flags,words,.ofText "c"] := by
  intro flags single words
  have both := operatorsPointwise.1 .and flags single (by decide) ⟨flags,.head _,rfl⟩
  have mixed := operatorsPointwise.1 .add words (.ofNumber 1) (by decide) ⟨words,.head _,rfl⟩
  have choice := operatorsPointwise.2.2 flags words (.ofText "c") ⟨flags,.head _,rfl⟩
  rw [if_neg fun exception => by cases exception.1] at both
  rw [if_pos ⟨rfl,.inl ⟨rfl,rfl⟩⟩] at mixed
  exact ⟨rfl,both,mixed.2,rfl,choice⟩

end ArrayCalc
