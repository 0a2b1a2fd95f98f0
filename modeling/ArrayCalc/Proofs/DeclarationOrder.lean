import ArrayCalc.Proofs.Invocations
import ArrayCalc.Proofs.Outcomes
import ArrayCalc.Proofs.Overlay
import Mathlib.Data.Finset.Card
import Mathlib.Data.List.Forall2
/-! Declarations are served in their order. A name is read by the first property declared under it and
called by the first overload that admits the arguments, whatever else is declared in between; and what
a context answers about constants is the flag of the declaration it would run. To see which one that
is, declarations are numbered, and each writes down its number when it is run. -/
namespace ArrayCalc

def Parameter.Admits (p : Parameter) (k : Kind) : Prop := p = .any ∨ p = .only k

theorem Parameter.acceptsIff (p : Parameter) (k : Kind) : p.accepts k = true ↔ p.Admits k := by
  cases p <;> simp [accepts,Admits]

namespace Method
variable {η : Type}

def Fits (m : Method η) (ks : List Kind) : Prop := List.Forall₂ Parameter.Admits m.parameters ks

theorem acceptsIff (m : Method η) (ks : List Kind) : m.accepts ks = true ↔ m.Fits ks := by
  simp only [accepts,Fits,Bool.and_eq_true,decide_eq_true_eq,List.all_eq_true,Prod.forall,
    Parameter.acceptsIff,List.forall₂_iff_zip]

end Method

namespace Binding
variable {η : Type}

def name : Binding η → String
  | .property n _ => n
  | .method n _ => n

def constant : Binding η → Bool
  | .property _ p => p.constant
  | .method _ m => m.constant

def run : Binding η → Action (Workspace η) Value
  | .property _ p => p.read
  | .method _ m => m.invoke []

def isMethod : Binding η → Bool
  | .property _ _ => false
  | .method _ _ => true

def propertyName? : Binding η → Option String
  | .property n _ => some n
  | .method _ _ => none

def Reads (name : String) : Binding η → Prop
  | .property n _ => n = name
  | .method _ _ => False

def Takes (name : String) (ks : List Kind) : Binding η → Prop
  | .property _ _ => False
  | .method n m => n = name ∧ m.Fits ks

theorem propertyNone {name : String} {d : Binding η} : d.property? name = none ↔ ¬d.Reads name := by
  cases d with
  | property n q => simp [property?,Reads]
  | method n m => simp [property?,Reads]

end Binding

structure Foremost {α : Type} (P : α → Prop) (ds : List α) (i : Nat) (d : α) : Prop where
  place : ds[i]? = some d
  holds : P d
  before : ∀ j < i, ∀ e, ds[j]? = some e → ¬P e

namespace Foremost
variable {α β : Type} {P : α → Prop} {ds : List α}

theorem splitIff {d : α} : (∃ i, Foremost P ds i d) ↔
    ∃ before after, ds = before ++ d :: after ∧ P d ∧ ∀ e ∈ before, ¬P e := by
  constructor
  · rintro ⟨i,place,holds,before⟩
    obtain ⟨inside,rfl⟩ := List.getElem?_eq_some_iff.mp place
    refine ⟨ds.take i,ds.drop (i + 1),?_,holds,fun e member => ?_⟩
    · rw [← List.drop_eq_getElem_cons inside,List.take_append_drop]
    · obtain ⟨j,bound,rfl⟩ := List.mem_take_iff_getElem.mp member
      exact before j (by omega) _ (List.getElem?_eq_getElem _)
  · rintro ⟨before,after,rfl,holds,none⟩
    refine ⟨before.length,by simp,holds,fun j less e found => ?_⟩
    rw [List.getElem?_append_left less] at found
    exact none e (List.mem_of_getElem? found)

theorem unique {i j : Nat} {d e : α} (h : Foremost P ds i d) (h' : Foremost P ds j e) : i = j := by
  rcases Nat.lt_trichotomy i j with less | same | greater
  · exact absurd h.holds (h'.before i less d h.place)
  · exact same
  · exact absurd h'.holds (h.before j greater e h'.place)

theorem mapIdx {Q : β → Prop} {f : Nat → α → β} (same : ∀ i d, Q (f i d) ↔ P d) {i : Nat} {d : α}
    (h : Foremost P ds i d) : Foremost Q (ds.mapIdx f) i (f i d) where
  place := by rw [List.getElem?_mapIdx,h.place]; rfl
  holds := (same i d).mpr h.holds
  before j less e found := by
    rw [List.getElem?_mapIdx] at found
    obtain ⟨d',earlier,rfl⟩ := Option.map_eq_some_iff.mp found
    exact fun holds => h.before j less d' earlier ((same j d').mp holds)

end Foremost

namespace Bindings
variable {η : Type}

section Lookups
variable (ds : List (Binding η)) (name : String)

theorem propertyFirst (p : Property η) : (ofList ds).property? name = some p ↔
    ∃ i, Foremost (·.Reads name) ds i (.property name p) := by
  rw [propertyOfList,List.findSome?_eq_some_iff,Foremost.splitIff]
  constructor
  · rintro ⟨before,d,after,cut,found,none⟩
    cases Binding.propertyIff.mp found
    exact ⟨before,after,cut,rfl,fun e member => Binding.propertyNone.mp (none e member)⟩
  · rintro ⟨before,after,cut,-,none⟩
    refine ⟨before,_,after,cut,Binding.propertyIff.mpr rfl,fun e member => ?_⟩
    exact Binding.propertyNone.mpr (none e member)

theorem propertyMissing : (ofList ds).property? name = none ↔ ∀ d ∈ ds, ¬d.Reads name := by
  simp only [propertyOfList,List.findSome?_eq_none_iff,Binding.propertyNone]

theorem overloadOfList (ks : List Kind) : (ofList ds).overload? name ks =
    ds.findSome? fun d => (d.method? name).filter (·.accepts ks) := by
  rw [overloadFound,overloadsOfList]
  induction ds with
  | nil => rfl
  | cons d ds ih =>
    rw [List.filterMap_cons,List.findSome?_cons,← ih]
    cases d.method? name with
    | none => rfl
    | some m => cases fits : m.accepts ks <;> simp [fits,Option.filter]

theorem takesIff (ks : List Kind) (d : Binding η) :
    (d.method? name).filter (·.accepts ks) = none ↔ ¬d.Takes name ks := by
  cases d with
  | property n p => simp [Binding.method?,Binding.Takes]
  | method n m =>
    rw [Binding.method?,Binding.Takes,← m.acceptsIff]
    by_cases same : n = name
    · cases fits : m.accepts ks <;> simp [same,fits,Option.filter]
    · simp [same]

theorem overloadFirst (ks : List Kind) (m : Method η) : (ofList ds).overload? name ks = some m ↔
    ∃ i, Foremost (·.Takes name ks) ds i (.method name m) := by
  rw [overloadOfList,List.findSome?_eq_some_iff,Foremost.splitIff]
  constructor
  · rintro ⟨before,d,after,cut,found,none⟩
    obtain ⟨method,accepts⟩ := Option.filter_eq_some_iff.mp found
    cases Binding.methodIff.mp method
    refine ⟨before,after,cut,⟨rfl,(m.acceptsIff ks).mp accepts⟩,fun e member => ?_⟩
    exact (takesIff name ks e).mp (none e member)
  · rintro ⟨before,after,cut,takes,none⟩
    have accepts := (m.acceptsIff ks).mpr takes.2
    refine ⟨before,_,after,cut,?_,fun e member => (takesIff name ks e).mpr (none e member)⟩
    exact Option.filter_eq_some_iff.mpr ⟨Binding.methodIff.mpr rfl,accepts⟩

theorem overloadMissing (ks : List Kind) :
    (ofList ds).overload? name ks = none ↔ ∀ d ∈ ds, ¬d.Takes name ks := by
  simp only [overloadOfList,List.findSome?_eq_none_iff,takesIff]

end Lookups
end Bindings

namespace NameMap
variable {α : Type}

theorem memLookup {entries : List (String × α)} (ascending : Ascending entries) {name : String}
    {a : α} : (name,a) ∈ entries ↔ entries.lookup name = some a := by
  induction entries with
  | nil => simp
  | cons head rest ih =>
    obtain ⟨k,b⟩ := head
    obtain ⟨before,tail⟩ := List.pairwise_cons.mp ascending
    by_cases here : name = k
    · subst name
      have later : (k,a) ∉ rest := fun member => String.lt_irrefl k (before _ member)
      simp [later,eq_comm]
    · rw [lookupTail here,← ih tail]
      simp [here]

theorem memNames (m : NameMap α) (name : String) : name ∈ m.names ↔ (m.get? name).isSome := by
  rw [names,List.mem_map,Option.isSome_iff_exists]
  constructor
  · rintro ⟨⟨n,a⟩,member,rfl⟩
    exact ⟨a,(memLookup m.ascending).mp member⟩
  · rintro ⟨a,found⟩
    exact ⟨(name,a),(memLookup m.ascending).mpr found,rfl⟩

def weigh (weight : α → Nat) (entries : List (String × α)) : Nat :=
  entries.foldr (fun e n => weight e.2 + n) 0

theorem weighUpdate (weight : α → Nat) (name : String) (f : Option α → α)
    {entries : List (String × α)} (ascending : Ascending entries) :
    weigh weight (updateEntries name f entries) + (entries.lookup name).elim 0 weight =
      weigh weight entries + weight (f (entries.lookup name)) := by
  induction entries with
  | nil => simp [updateEntries,weigh]
  | cons head rest ih =>
    obtain ⟨k,a⟩ := head
    obtain ⟨before,tail⟩ := List.pairwise_cons.mp ascending
    simp only [updateEntries]
    split
    · rename_i less
      rw [aheadMissing ascending less]
      simp only [weigh,List.foldr_cons,Option.elim_none]
      omega
    · split
      · rename_i same
        subst k
        rw [List.lookup_cons_self]
        simp only [weigh,List.foldr_cons,Option.elim_some]
        omega
      · rename_i different
        have later := ih tail
        rw [lookupTail different]
        simp only [weigh,List.foldr_cons] at later ⊢
        omega

end NameMap

namespace Bindings
variable {η : Type}

theorem declareNames (bs : Bindings η) (d : Binding η) (name : String) :
    name ∈ (bs.declare d).names ↔ name = d.name ∨ name ∈ bs.names := by
  rw [names,names,NameMap.memNames,NameMap.memNames]
  cases d with
  | property n p => by_cases same : name = n <;> simp [declare,NameMap.getUpdate,Binding.name,same]
  | method n m => by_cases same : name = n <;> simp [declare,NameMap.getUpdate,Binding.name,same]

theorem namesDeclared (ds : List (Binding η)) (name : String) :
    name ∈ (ofList ds).names ↔ ∃ d ∈ ds, d.name = name := by
  have each (bs : Bindings η) : name ∈ (ds.foldl declare bs).names ↔
      name ∈ bs.names ∨ ∃ d ∈ ds, d.name = name := by
    induction ds generalizing bs with
    | nil => simp
    | cons d ds ih =>
      rw [List.foldl_cons,ih,declareNames,List.exists_mem_cons_iff,or_comm (a := name = d.name),
        or_assoc,eq_comm]
  rw [ofList,each,or_iff_right]
  exact List.not_mem_nil

theorem propertyCountDeclared (ds : List (Binding η)) :
    (ofList ds).propertyCount = (ds.filterMap Binding.propertyName?).toFinset.card := by
  have ascending := (ofList ds).bound.ascending
  let owners := ((ofList ds).bound.entries.filter (·.2.property.isSome)).map Prod.fst
  have distinct : owners.Nodup := by
    refine List.pairwise_map.mpr ((ascending.filter _).imp fun less same => ?_)
    exact String.lt_irrefl _ (same ▸ less)
  have same : owners.toFinset = (ds.filterMap Binding.propertyName?).toFinset := by
    ext name
    have owned : name ∈ owners ↔ ((ofList ds).property? name).isSome := by
      simp only [owners,List.mem_map,List.mem_filter,Prod.exists,exists_and_right,exists_eq_right,
        NameMap.memLookup ascending]
      rw [property?,NameMap.get?]
      cases (ofList ds).bound.entries.lookup name <;> simp
    have declared : ((ofList ds).property? name).isSome ↔ ∃ d ∈ ds, d.Reads name := by
      rw [Option.isSome_iff_ne_none,ne_eq,propertyMissing]
      simp
    have named (d : Binding η) : d.propertyName? = some name ↔ d.Reads name := by
      cases d <;> simp [Binding.propertyName?,Binding.Reads]
    simp only [List.mem_toFinset,List.mem_filterMap,owned,declared,named]
  rw [← same,List.toFinset_card_of_nodup distinct,List.length_map,← List.countP_eq_length_filter]
  rfl

theorem updateOverloadCount (bs : Bindings η) {n : String} {f : Option (Bound η) → Bound η} {k : Nat}
    (adds : ∀ b, (f b).overloads.length = b.elim 0 (·.overloads.length) + k) :
    (⟨bs.bound.update n f⟩ : Bindings η).overloadCount = bs.overloadCount + k := by
  have balance := NameMap.weighUpdate (·.overloads.length) n f bs.bound.ascending
  rw [adds] at balance
  simp only [overloadCount,NameMap.update,NameMap.weigh] at balance ⊢
  omega

theorem declareOverloadCount (bs : Bindings η) (d : Binding η) :
    (bs.declare d).overloadCount = bs.overloadCount + if d.isMethod then 1 else 0 := by
  cases d with
  | property n p => exact updateOverloadCount bs fun b => by cases b <;> rfl
  | method n m => exact updateOverloadCount bs fun b => by cases b <;> simp [Binding.isMethod]

theorem overloadCountDeclared (ds : List (Binding η)) :
    (ofList ds).overloadCount = ds.countP Binding.isMethod := by
  have each (bs : Bindings η) :
      (ds.foldl declare bs).overloadCount = bs.overloadCount + ds.countP Binding.isMethod := by
    induction ds generalizing bs with
    | nil => rfl
    | cons d ds ih =>
      rw [List.foldl_cons,ih,declareOverloadCount,List.countP_cons]
      omega
  rw [ofList,each]
  exact Nat.zero_add _

end Bindings

section Numbering
variable {η : Type}

namespace Binding

def numbered (i : Nat) : Binding η → Binding (Logged Nat η)
  | .property n p => .property n ⟨p.constant,logged i p.read⟩
  | .method n m => .method n ⟨m.constant,m.parameters,fun vs => logged i (m.invoke vs)⟩

theorem numberedReads (name : String) (i : Nat) (d : Binding η) :
    (d.numbered i).Reads name ↔ d.Reads name := by cases d <;> rfl

theorem numberedTakes (name : String) (ks : List Kind) (i : Nat) (d : Binding η) :
    (d.numbered i).Takes name ks ↔ d.Takes name ks := by cases d <;> rfl

end Binding

def numbered (ds : List (Binding η)) : List (Binding (Logged Nat η)) := ds.mapIdx Binding.numbered

def ran (ds : List (Binding η))
    (request : Context (Workspace (Logged Nat η)) → Action (Workspace (Logged Nat η)) Value)
    (w : Workspace η) : List Nat :=
  (Outcome.state (request (Bindings.ofList (numbered ds)).context (w.withLog []))).host.log

namespace Bindings

section Numbered
variable {ds : List (Binding η)} {name : String}

theorem numberedNone {P : Binding η → Prop} {Q : Binding (Logged Nat η) → Prop}
    (same : ∀ i d, Q (d.numbered i) ↔ P d) (absent : ∀ d ∈ ds, ¬P d) : ∀ d ∈ numbered ds, ¬Q d := by
  intro d member
  obtain ⟨i,inside,rfl⟩ := List.mem_mapIdx.mp member
  exact fun holds => absent _ (List.getElem_mem inside) ((same i _).mp holds)

theorem numberedProperty {p : Property η} (found : (ofList ds).property? name = some p) :
    ∃ i, Foremost (·.Reads name) ds i (.property name p) ∧
      (ofList (numbered ds)).property? name = some ⟨p.constant,logged i p.read⟩ := by
  obtain ⟨i,first⟩ := (propertyFirst ds name p).mp found
  have again := first.mapIdx (Binding.numberedReads name)
  exact ⟨i,first,(propertyFirst (numbered ds) name _).mpr ⟨i,again⟩⟩

theorem numberedNoProperty (missing : (ofList ds).property? name = none) :
    (ofList (numbered ds)).property? name = none := by
  rw [propertyMissing] at missing ⊢
  exact numberedNone (Binding.numberedReads name) missing

theorem numberedOverload {ks : List Kind} {m : Method η}
    (found : (ofList ds).overload? name ks = some m) :
    ∃ i, Foremost (·.Takes name ks) ds i (.method name m) ∧
      (ofList (numbered ds)).overload? name ks =
        some ⟨m.constant,m.parameters,fun vs => logged i (m.invoke vs)⟩ := by
  obtain ⟨i,first⟩ := (overloadFirst ds name ks m).mp found
  have again := first.mapIdx (Binding.numberedTakes name ks)
  exact ⟨i,first,(overloadFirst (numbered ds) name ks _).mpr ⟨i,again⟩⟩

theorem numberedNoOverload {ks : List Kind} (missing : (ofList ds).overload? name ks = none) :
    (ofList (numbered ds)).overload? name ks = none := by
  rw [overloadMissing] at missing ⊢
  exact numberedNone (Binding.numberedTakes name ks) missing

end Numbered

variable (ds : List (Binding η))

inductive Called (name : String) (vs : List Value) (w : Workspace η) : Prop where
  | method (i m) (first : Foremost (·.Takes name (vs.map Value.kind)) ds i (.method name m))
      (runs : ran ds (·.call name vs) w = [i])
      (answer : (ofList ds).context.isConstantCall name (vs.map Value.kind) w = .ok m.constant)
      (acts : (ofList ds).context.call name vs w = m.invoke vs w)
  | missing (absent : ∀ d ∈ ds, ¬d.Takes name (vs.map Value.kind))
      (runs : ran ds (·.call name vs) w = [])
      (answer : (ofList ds).context.isConstantCall name (vs.map Value.kind) w =
        .error (.noOverload name (vs.map Value.kind)))
      (fails : (ofList ds).context.call name vs w =
        .error (.noOverload name (vs.map Value.kind)) w)

theorem called (name : String) (vs : List Value) (w : Workspace η) : Called ds name vs w := by
  cases found : (ofList ds).overload? name (vs.map Value.kind) with
  | some m =>
    obtain ⟨i,first,found'⟩ := numberedOverload found
    refine .method i m first ?_ ?_ ?_
    · simp only [ran,context,call,found']
      exact unloggedLog ..
    · simp only [context,isConstantCall,found]
    · simp only [context,call,found]
  | none =>
    have found' := numberedNoOverload found
    refine .missing ((overloadMissing ds name _).mp found) ?_ ?_ ?_
    · simp only [ran,context,call,found']
      rfl
    · simp only [context,isConstantCall,found]
    · simp only [context,call,found]
      rfl

inductive Resolved (name : String) (w : Workspace η) : Prop where
  | stored (v) (found : w.stored? name = some v) (runs : ran ds (·.resolve name) w = [])
      (answer : (ofList ds).context.isConstantVariable name w = .ok true)
      (acts : (ofList ds).context.resolve name w = .ok v w)
  | binding (i d) (place : ds[i]? = some d) (named : d.name = name)
      (runs : ran ds (·.resolve name) w = [i])
      (answer : (ofList ds).context.isConstantVariable name w = .ok d.constant)
      (acts : (ofList ds).context.resolve name w = d.run w)
  | unknown (runs : ran ds (·.resolve name) w = [])
      (answer : (ofList ds).context.isConstantVariable name w = .error (.unknownVariable name))
      (fails : (ofList ds).context.resolve name w = .error (.unknownName name) w)

theorem resolved (name : String) (w : Workspace η) : Resolved ds name w := by
  have same : (w.withLog ([] : List Nat)).stored? name = w.stored? name := rfl
  cases stored : w.stored? name with
  | some v =>
    refine .stored v stored ?_ ?_ ?_
    · simp only [ran,context,resolve,same,stored]
      rfl
    · simp only [context,isConstantVariable,stored]
    · simp only [context,resolve,stored]
  | none =>
    cases property : (ofList ds).property? name with
    | some p =>
      obtain ⟨i,first,property'⟩ := numberedProperty property
      refine .binding i _ first.place rfl ?_ ?_ ?_
      · simp only [ran,context,resolve,same,stored,property']
        exact unloggedLog ..
      · simp only [context,isConstantVariable,stored,property]
        rfl
      · simp only [context,resolve,stored,property]
        rfl
    | none =>
      have property' := numberedNoProperty property
      cases found : (ofList ds).overload? name [] with
      | some m =>
        obtain ⟨i,first,found'⟩ := numberedOverload found
        refine .binding i _ first.place rfl ?_ ?_ ?_
        · simp only [ran,context,resolve,same,stored,property',found']
          exact unloggedLog ..
        · simp only [context,isConstantVariable,stored,property,found]
          rfl
        · simp only [context,resolve,stored,property,found]
          rfl
      | none =>
        have found' := numberedNoOverload found
        refine .unknown ?_ ?_ ?_
        · simp only [ran,context,resolve,same,stored,property',found']
          rfl
        · simp only [context,isConstantVariable,stored,property,found]
        · simp only [context,resolve,stored,property,found]

end Bindings

structure DeclaredOrder (ds : List (Binding η)) : Prop where
  property : ∀ name p, (Bindings.ofList ds).property? name = some p ↔
    ∃ i, Foremost (·.Reads name) ds i (.property name p)
  noProperty : ∀ name, (Bindings.ofList ds).property? name = none ↔ ∀ d ∈ ds, ¬d.Reads name
  overload : ∀ name ks m, (Bindings.ofList ds).overload? name ks = some m ↔
    ∃ i, Foremost (·.Takes name ks) ds i (.method name m)
  noOverload : ∀ name ks,
    (Bindings.ofList ds).overload? name ks = none ↔ ∀ d ∈ ds, ¬d.Takes name ks
  ownProperties : ∀ ds' name, ds'.filterMap (·.property? name) = ds.filterMap (·.property? name) →
    (Bindings.ofList ds').property? name = (Bindings.ofList ds).property? name
  ownMethods : ∀ ds' name, ds'.filterMap (·.method? name) = ds.filterMap (·.method? name) →
    ∀ ks, (Bindings.ofList ds').overload? name ks = (Bindings.ofList ds).overload? name ks
  sorted : (Bindings.ofList ds).names.Pairwise (· < ·)
  names : ∀ name, name ∈ (Bindings.ofList ds).names ↔ ∃ d ∈ ds, d.name = name
  propertyCount :
    (Bindings.ofList ds).propertyCount = (ds.filterMap Binding.propertyName?).toFinset.card
  overloadCount : (Bindings.ofList ds).overloadCount = ds.countP Binding.isMethod

structure AnswersFlags (ds : List (Binding η)) (w : Workspace η) : Prop where
  called : ∀ name vs c,
    (Bindings.ofList ds).context.isConstantCall name (vs.map Value.kind) w = .ok c ↔
      ∃ i m, ds[i]? = some (.method name m) ∧ m.constant = c ∧ ran ds (·.call name vs) w = [i] ∧
        (Bindings.ofList ds).context.call name vs w = m.invoke vs w
  calledFirst : ∀ name vs i, ran ds (·.call name vs) w = [i] ↔
    ∃ m, Foremost (·.Takes name (vs.map Value.kind)) ds i (.method name m)
  refused : ∀ name vs,
    (∀ c, (Bindings.ofList ds).context.isConstantCall name (vs.map Value.kind) w ≠ .ok c) →
      ran ds (·.call name vs) w = [] ∧
      ∃ e, (Bindings.ofList ds).context.isConstantCall name (vs.map Value.kind) w = .error e ∧
        (Bindings.ofList ds).context.call name vs w = .error e w
  unknown : ∀ name, (ran ds (·.resolve name) w = [] ∧
      (Bindings.ofList ds).context.resolve name w = .error (.unknownName name) w) ↔
    ∃ e, (Bindings.ofList ds).context.isConstantVariable name w = .error e
  answered : ∀ name c, (Bindings.ofList ds).context.isConstantVariable name w = .ok c →
    (c = true ∧ ran ds (·.resolve name) w = [] ∧ ∃ v, w.stored? name = some v ∧
      (Bindings.ofList ds).context.resolve name w = .ok v w) ∨
    ∃ i d, ds[i]? = some d ∧ d.name = name ∧ d.constant = c ∧ ran ds (·.resolve name) w = [i] ∧
      (Bindings.ofList ds).context.resolve name w = d.run w

namespace Bindings
variable (ds : List (Binding η))

theorem declaredOrder : DeclaredOrder ds where
  property := propertyFirst ds
  noProperty := propertyMissing ds
  overload := overloadFirst ds
  noOverload := overloadMissing ds
  ownProperties ds' name same := by
    rw [propertyOfList,propertyOfList,← List.head?_filterMap,← List.head?_filterMap,same]
  ownMethods ds' name same ks := by
    rw [overloadFound,overloadFound,overloadsOfList,overloadsOfList,same]
  sorted := List.pairwise_map.mpr (ofList ds).bound.ascending
  names := namesDeclared ds
  propertyCount := propertyCountDeclared ds
  overloadCount := overloadCountDeclared ds

theorem answersFlags (w : Workspace η) : AnswersFlags ds w where
  called name vs c := by
    cases called ds name vs w with
    | method i m first runs answer acts =>
      rw [answer]
      constructor
      · intro flag
        exact ⟨i,m,first.place,Except.ok.inj flag,runs,acts⟩
      · rintro ⟨j,m',place,flag,runs',-⟩
        cases List.singleton_inj.mp (runs.symm.trans runs')
        cases Option.some.inj (first.place.symm.trans place)
        rw [flag]
    | missing absent runs answer fails =>
      rw [answer,runs]
      simp
  calledFirst name vs i := by
    cases called ds name vs w with
    | method j m first runs =>
      rw [runs]
      constructor
      · intro same
        cases List.singleton_inj.mp same
        exact ⟨m,first⟩
      · rintro ⟨m',first'⟩
        rw [first.unique first']
    | missing absent runs =>
      rw [runs]
      constructor
      · intro same
        cases same
      · rintro ⟨m,first⟩
        exact absurd first.holds (absent _ (List.mem_of_getElem? first.place))
  refused name vs unanswered := by
    cases called ds name vs w with
    | method i m first runs answer acts => exact absurd answer (unanswered _)
    | missing absent runs answer fails => exact ⟨runs,_,answer,fails⟩
  unknown name := by
    cases resolved ds name w with
    | stored v found runs answer acts => simp [answer,acts]
    | binding i d place named runs answer acts => simp [runs,answer]
    | unknown runs answer fails => simp [runs,answer,fails]
  answered name c answered := by
    cases resolved ds name w with
    | stored v found runs answer acts =>
      cases answer.symm.trans answered
      exact .inl ⟨rfl,runs,v,found,acts⟩
    | binding i d place named runs answer acts =>
      cases answer.symm.trans answered
      exact .inr ⟨i,d,place,named,rfl,runs,acts⟩
    | unknown runs answer fails =>
      rw [answer] at answered
      cases answered

end Bindings

theorem declarationsServed (ds : List (Binding η)) : DeclaredOrder ds ∧ ∀ w, AnswersFlags ds w :=
  ⟨Bindings.declaredOrder ds,Bindings.answersFlags ds⟩

end Numbering
end ArrayCalc
