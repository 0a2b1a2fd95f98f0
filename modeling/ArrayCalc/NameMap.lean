/-! Finite maps from names, kept as a list in ascending order of names, so that maps with the same
look-ups are equal and the names come out sorted. -/
namespace ArrayCalc

def Ascending {α : Type} (entries : List (String × α)) : Prop :=
  entries.Pairwise fun a b => a.1 < b.1

structure NameMap (α : Type) where
  entries : List (String × α)
  ascending : Ascending entries

namespace NameMap
variable {α : Type}

def updateEntries (name : String) (f : Option α → α) : List (String × α) → List (String × α)
  | [] => [(name, f none)]
  | (k, a) :: rest =>
    if name < k then (name, f none) :: (k, a) :: rest
    else if name = k then (name, f (some a)) :: rest
    else (k, a) :: updateEntries name f rest

theorem memUpdateEntries {name : String} {f : Option α → α} {entries : List (String × α)}
    {e : String × α} (h : e ∈ updateEntries name f entries) : e.1 = name ∨ e ∈ entries := by
  induction entries with
  | nil => simp [updateEntries] at h; simp [h]
  | cons head rest ih =>
    simp only [updateEntries] at h
    split at h
    · rcases List.mem_cons.mp h with rfl | later
      · exact .inl rfl
      · exact .inr later
    · split at h
      · rcases List.mem_cons.mp h with rfl | later
        · exact .inl rfl
        · exact .inr (List.mem_cons_of_mem _ later)
      · rcases List.mem_cons.mp h with rfl | later
        · exact .inr (List.mem_cons_self ..)
        · exact (ih later).imp_right (List.mem_cons_of_mem _)

theorem updateEntriesAscending {name : String} {f : Option α → α} {entries : List (String × α)}
    (h : Ascending entries) : Ascending (updateEntries name f entries) := by
  induction entries with
  | nil => exact List.pairwise_singleton ..
  | cons head rest ih =>
    obtain ⟨before, tail⟩ := List.pairwise_cons.mp h
    simp only [updateEntries]
    split
    · rename_i less
      refine List.pairwise_cons.mpr ⟨fun e inside => ?_, h⟩
      rcases List.mem_cons.mp inside with rfl | later
      · exact less
      · exact String.lt_trans less (before e later)
    · rename_i notLess
      split
      · rename_i same
        exact List.pairwise_cons.mpr ⟨fun e later => same ▸ before e later, tail⟩
      · rename_i different
        refine List.pairwise_cons.mpr ⟨fun e inside => ?_, ih tail⟩
        rcases memUpdateEntries inside with same | later
        · have greater : head.1 < name :=
            Std.lt_of_le_of_ne (String.not_lt.mp notLess) (Ne.symm different)
          exact same ▸ greater
        · exact before e later

def empty : NameMap α := ⟨[], .nil⟩

def get? (m : NameMap α) (name : String) : Option α := m.entries.lookup name

def update (m : NameMap α) (name : String) (f : Option α → α) : NameMap α :=
  ⟨updateEntries name f m.entries, updateEntriesAscending m.ascending⟩

def insert (m : NameMap α) (name : String) (a : α) : NameMap α := m.update name fun _ => a

def names (m : NameMap α) : List String := m.entries.map Prod.fst

end NameMap
end ArrayCalc
