import ArrayCalc.Proofs.Declarations
import ArrayCalc.Scope
/-! Stores laid over each other. Maps with the same look-ups are the same map, so an overlay is known
by what is found in it: what the upper store has, and else what the lower one has. -/
namespace ArrayCalc

namespace NameMap
variable {α : Type}

theorem lookupTail {name other : String} (different : other ≠ name) (a : α)
    (rest : List (String × α)) : ((name,a) :: rest).lookup other = rest.lookup other := by
  rw [List.lookup_cons,beq_false_of_ne different]

theorem aheadMissing {name : String} {k : String} {a : α} {rest : List (String × α)}
    (ascending : Ascending ((k,a) :: rest)) (less : name < k) :
    ((k,a) :: rest).lookup name = none := by
  apply lookupBelow
  intro e member
  rcases List.mem_cons.mp member with rfl | later
  · exact less
  · exact String.lt_trans less ((List.pairwise_cons.mp ascending).1 e later)

theorem entriesDetermined {entries others : List (String × α)} (ascending : Ascending entries)
    (ascending' : Ascending others) (same : ∀ n, entries.lookup n = others.lookup n) :
    entries = others := by
  induction entries generalizing others with
  | nil =>
    cases others with
    | nil => rfl
    | cons head rest =>
      have found := same head.1
      rw [List.lookup_cons_self] at found
      contradiction
  | cons head rest ih =>
    obtain ⟨k,a⟩ := head
    cases others with
    | nil =>
      have found := same k
      rw [List.lookup_cons_self] at found
      contradiction
    | cons head' rest' =>
      obtain ⟨k',a'⟩ := head'
      have found := same k
      rw [List.lookup_cons_self] at found
      have found' := same k'
      rw [List.lookup_cons_self] at found'
      /- Neither head is below the other, since the other list would then not have it. -/
      have notLess : ¬k < k' := fun less => by
        rw [aheadMissing ascending' less] at found
        contradiction
      have notGreater : ¬k' < k := fun greater => by
        rw [aheadMissing ascending greater] at found'
        contradiction
      obtain rfl : k = k' :=
        String.le_antisymm (String.not_lt.mp notGreater) (String.not_lt.mp notLess)
      rw [List.lookup_cons_self] at found
      cases found
      obtain ⟨before,tail⟩ := List.pairwise_cons.mp ascending
      obtain ⟨before',tail'⟩ := List.pairwise_cons.mp ascending'
      have rests : rest = rest' := by
        apply ih tail tail'
        intro n
        by_cases here : n = k
        · subst n
          rw [lookupBelow before,lookupBelow before']
        · have later := same n
          rwa [lookupTail here,lookupTail here] at later
      rw [rests]

theorem determined {m m' : NameMap α} (same : ∀ n, m.get? n = m'.get? n) : m = m' := by
  obtain ⟨entries,ascending⟩ := m
  obtain ⟨others,ascending'⟩ := m'
  cases entriesDetermined ascending ascending' same
  rfl

theorem getInsert (m : NameMap α) (name other : String) (a : α) :
    (m.insert name a).get? other = if other = name then some a else m.get? other :=
  getUpdate m name other fun _ => a

def overlay (upper lower : NameMap α) : NameMap α :=
  upper.entries.foldr (fun e m => m.insert e.1 e.2) lower

theorem getOverlay (upper lower : NameMap α) (name : String) :
    (upper.overlay lower).get? name = (upper.get? name).or (lower.get? name) := by
  obtain ⟨entries,ascending⟩ := upper
  simp only [overlay,get?]
  clear ascending
  induction entries with
  | nil => rfl
  | cons head rest ih =>
    obtain ⟨k,a⟩ := head
    rw [List.foldr_cons]
    change NameMap.get? _ name = _
    rw [getInsert]
    by_cases here : name = k
    · subst name
      rw [if_pos rfl,List.lookup_cons_self]
      rfl
    · rw [if_neg here,lookupTail here]
      exact ih

theorem emptyGet (name : String) : (empty : NameMap α).get? name = none := rfl

end NameMap

def overlays (scopes : List Store) (lowest : Store) : Store := scopes.foldr NameMap.overlay lowest

theorem getOverlays (scopes : List Store) (lowest : Store) (name : String) :
    (overlays scopes lowest).get? name =
      (scopes.findSome? (·.get? name)).or (lowest.get? name) := by
  induction scopes with
  | nil => rfl
  | cons inner outer ih =>
    change (inner.overlay (overlays outer lowest)).get? name = _
    rw [NameMap.getOverlay,ih,List.findSome?_cons]
    cases inner.get? name <;> rfl

theorem overlaysInsert (inner : Store) (outer : List Store) (lowest : Store) (name : String)
    (v : Value) : overlays (inner.insert name v :: outer) lowest =
      (overlays (inner :: outer) lowest).insert name v := by
  apply NameMap.determined
  intro n
  rw [NameMap.getInsert,getOverlays,getOverlays,List.findSome?_cons,List.findSome?_cons,
    NameMap.getInsert]
  by_cases here : n = name
  · rw [if_pos here,if_pos here]
    rfl
  · rw [if_neg here,if_neg here]

end ArrayCalc
