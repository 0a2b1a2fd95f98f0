import ArrayCalc.Bindings
/-! Look-ups in a map of names after an update, and what a list of declarations binds: the first property
declared under a name, and all its overloads in their order. Bindings may be changed one by one, each in
its place. -/
namespace ArrayCalc

namespace NameMap
variable {α : Type}

theorem lookupBelow {name : String} {entries : List (String × α)}
    (below : ∀ e ∈ entries, name < e.1) : entries.lookup name = none := by
  induction entries with
  | nil => rfl
  | cons head rest ih =>
    have different : name ≠ head.1 := fun same =>
      String.lt_irrefl name (same ▸ below head List.mem_cons_self)
    have later := ih fun e member => below e (List.mem_cons_of_mem _ member)
    rw [List.lookup_cons,beq_false_of_ne different]
    exact later

theorem lookupUpdate {name other : String} {f : Option α → α} {entries : List (String × α)}
    (ascending : Ascending entries) :
    (updateEntries name f entries).lookup other =
      if other = name then some (f (entries.lookup name)) else entries.lookup other := by
  induction entries with
  | nil =>
    by_cases same : other = name
    · simp [updateEntries,same]
    · simp [updateEntries,same]
  | cons head rest ih =>
    obtain ⟨k,a⟩ := head
    obtain ⟨before,tail⟩ := List.pairwise_cons.mp ascending
    simp only [updateEntries]
    split
    · rename_i less
      have absent : ((k,a) :: rest).lookup name = none := by
        refine lookupBelow fun e member => ?_
        rcases List.mem_cons.mp member with rfl | later
        · exact less
        · exact String.lt_trans less (before e later)
      by_cases same : other = name
      · subst other; simp [absent]
      · rw [List.lookup_cons,beq_false_of_ne same,if_neg same]
    · split
      · rename_i _ same
        subst k
        by_cases here : other = name
        · subst other; simp
        · simp [List.lookup_cons,beq_false_of_ne here,here]
      · rename_i _ different
        by_cases here : other = k
        · subst other
          simp [Ne.symm different]
        · rw [List.lookup_cons,beq_false_of_ne here,ih tail]
          by_cases same : other = name
          · subst other
            simp [List.lookup_cons,beq_false_of_ne different]
          · simp [List.lookup_cons,beq_false_of_ne here,same]

theorem getUpdate (m : NameMap α) (name other : String) (f : Option α → α) :
    (m.update name f).get? other = if other = name then some (f (m.get? name)) else m.get? other :=
  lookupUpdate m.ascending

end NameMap

namespace Binding
variable {η : Type}

def property? (name : String) : Binding η → Option (Property η)
  | .property n p => if n = name then some p else none
  | .method _ _ => none

def method? (name : String) : Binding η → Option (Method η)
  | .property _ _ => none
  | .method n m => if n = name then some m else none

theorem propertyIff {name : String} {d : Binding η} {p : Property η} :
    d.property? name = some p ↔ d = .property name p := by
  cases d with
  | property n q => simp [property?]
  | method n m => simp [property?]

theorem methodIff {name : String} {d : Binding η} {m : Method η} :
    d.method? name = some m ↔ d = .method name m := by
  cases d with
  | property n q => simp [method?]
  | method n q => simp [method?]

end Binding

namespace Bindings
variable {η : Type}

theorem declareProperty (bs : Bindings η) (d : Binding η) (name : String) :
    (bs.declare d).property? name = (bs.property? name).or (d.property? name) := by
  cases d with
  | property n p =>
    rw [Binding.property?,property?,property?,declare,NameMap.getUpdate]
    by_cases same : name = n
    · rw [if_pos same,if_pos same.symm,same]
      cases bs.bound.get? n <;> rfl
    · rw [if_neg same,if_neg (Ne.symm same),Option.or_none]
  | method n m =>
    rw [Binding.property?,Option.or_none,property?,property?,declare,NameMap.getUpdate]
    by_cases same : name = n
    · rw [if_pos same,same]
      cases bs.bound.get? n <;> rfl
    · rw [if_neg same]

theorem propertyOfList (ds : List (Binding η)) (name : String) :
    (ofList ds).property? name = ds.findSome? (·.property? name) := by
  have each (bs : Bindings η) : (ds.foldl declare bs).property? name =
      (bs.property? name).or (ds.findSome? (·.property? name)) := by
    induction ds generalizing bs with
    | nil => exact Option.or_none.symm
    | cons d ds ih =>
      rw [List.foldl_cons,ih,declareProperty,Option.or_assoc,List.findSome?_cons]
      cases d.property? name <;> rfl
  exact each empty

def overloads (bs : Bindings η) (name : String) : List (Method η) :=
  (bs.bound.get? name).elim [] Bound.overloads

theorem overloadFound (bs : Bindings η) (name : String) (ks : List Kind) :
    bs.overload? name ks = (bs.overloads name).find? (·.accepts ks) := by
  rw [overload?,overloads]
  cases bs.bound.get? name <;> rfl

theorem declareOverloads (bs : Bindings η) (d : Binding η) (name : String) :
    (bs.declare d).overloads name = bs.overloads name ++ (d.method? name).toList := by
  cases d with
  | property n p =>
    rw [Binding.method?,Option.toList_none,List.append_nil,overloads,overloads,declare,NameMap.getUpdate]
    by_cases same : name = n
    · rw [if_pos same,same]
      cases bs.bound.get? n <;> rfl
    · rw [if_neg same]
  | method n m =>
    rw [Binding.method?,overloads,overloads,declare,NameMap.getUpdate]
    by_cases same : name = n
    · rw [if_pos same,if_pos same.symm,same]
      cases bs.bound.get? n <;> rfl
    · rw [if_neg same,if_neg (Ne.symm same),Option.toList_none,List.append_nil]

theorem overloadsOfList (ds : List (Binding η)) (name : String) :
    (ofList ds).overloads name = ds.filterMap (·.method? name) := by
  have each (bs : Bindings η) :
      (ds.foldl declare bs).overloads name = bs.overloads name ++ ds.filterMap (·.method? name) := by
    induction ds generalizing bs with
    | nil => exact (List.append_nil _).symm
    | cons d ds ih =>
      rw [List.foldl_cons,ih,declareOverloads,List.append_assoc,List.filterMap_cons]
      cases d.method? name <;> rfl
  exact each empty

theorem propertyDeclared {ds : List (Binding η)} {n : String} {p : Property η}
    (found : (ofList ds).property? n = some p) : .property n p ∈ ds := by
  rw [propertyOfList] at found
  obtain ⟨d,member,property⟩ := List.exists_of_findSome?_eq_some found
  cases Binding.propertyIff.mp property
  exact member

theorem overloadDeclared {ds : List (Binding η)} {n : String} {ks : List Kind} {m : Method η}
    (found : (ofList ds).overload? n ks = some m) : .method n m ∈ ds ∧ m.accepts ks = true := by
  rw [overloadFound,overloadsOfList] at found
  obtain ⟨d,member,method⟩ := List.mem_filterMap.mp (List.mem_of_find?_eq_some found)
  cases Binding.methodIff.mp method
  have accepts := List.find?_some found
  exact ⟨member,accepts⟩

end Bindings

theorem ascendingMap {α β : Type} {f : String × α → β} {entries : List (String × α)}
    (h : Ascending entries) : Ascending (entries.map fun e => (e.1,f e)) := by
  unfold Ascending
  rwa [List.pairwise_map]

theorem lookupMap {α β : Type} (f : String → α → β) (entries : List (String × α)) (name : String) :
    (entries.map fun e => (e.1,f e.1 e.2)).lookup name = (entries.lookup name).map (f name) := by
  induction entries with
  | nil => rfl
  | cons head rest ih =>
    obtain ⟨k,a⟩ := head
    simp only [List.map_cons,List.lookup_cons]
    cases here : name == k with
    | true => rw [eq_of_beq here]; rfl
    | false => exact ih

def Bound.map {η θ : Type} (f : String → Property η → Property θ)
    (g : String → Method η → Method θ) (name : String) (b : Bound η) : Bound θ :=
  ⟨b.property.map (f name),b.overloads.map (g name)⟩

namespace Bindings
variable {η θ : Type}

def map (bs : Bindings η) (f : String → Property η → Property θ)
    (g : String → Method η → Method θ) : Bindings θ :=
  ⟨⟨bs.bound.entries.map fun e => (e.1,e.2.map f g e.1),ascendingMap bs.bound.ascending⟩⟩

section
variable (bs : Bindings η) (f : String → Property η → Property θ) (g : String → Method η → Method θ)

theorem mapProperty (name : String) :
    (bs.map f g).property? name = (bs.property? name).map (f name) := by
  simp only [property?,map,NameMap.get?,lookupMap (Bound.map f g)]
  cases bs.bound.entries.lookup name <;> rfl

theorem mapOverload (accepting : ∀ n m, (g n m).parameters = m.parameters) (name : String)
    (ks : List Kind) : (bs.map f g).overload? name ks = (bs.overload? name ks).map (g name) := by
  have accepts : ((fun m => m.accepts ks) ∘ g name) = fun m => m.accepts ks := by
    funext m
    simp only [Function.comp,Method.accepts,accepting]
  simp only [overload?,map,NameMap.get?,lookupMap (Bound.map f g)]
  cases bs.bound.entries.lookup name with
  | none => rfl
  | some b =>
    simp only [Option.map_some,Option.bind_some,Bound.map,List.find?_map,accepts]

end
end Bindings
end ArrayCalc
