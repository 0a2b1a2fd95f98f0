import ArrayCalc.Proofs.GrammarComplete
import ArrayCalc.Proofs.Usage
/-! The statements of a text assign only at their root, and they use only names that stand in it. -/
namespace ArrayCalc

def Usage.Allows (u : Usage) (ts : List Token) : Prop := ∀ n, .name n ∈ ts → u.reads n ∧ u.calls n

namespace Grammar
variable {u : Usage}

theorem derivesWithin {c ts e} (h : Derives c ts e) (allowed : u.Allows ts) : e.Within u := by
  unfold Usage.Allows at allowed
  induction h with
  | _ => simp_all [Expr.Within,WithinList,withinListIff,or_imp,forall_and]

theorem assignmentRooted {ts e} (h : Assignment ts e) (allowed : u.Allows ts) : e.RootAssigned u := by
  induction h with
  | value derived => exact .body (derivesWithin derived allowed)
  | assign target value ih =>
    exact .assign _ (ih fun n member => allowed n (by simp [member]))

theorem segmentInside {ss : List (List Token)} {s : List Token} (member : s ∈ ss) :
    s ⊆ [Token.separator].intercalate ss := by
  induction ss with
  | nil => contradiction
  | cons head tail ih =>
    cases tail with
    | nil =>
      cases List.mem_singleton.mp member
      simp
    | cons next tail =>
      rw [List.intercalate_cons_cons]
      rcases List.mem_cons.mp member with rfl | later
      · intro t inside
        simp [inside]
      · exact fun t inside => List.mem_append_right _ (ih later inside)

theorem statementsRooted {ss trees} (h : List.Forall₂ Assignment ss trees)
    (allowed : ∀ s ∈ ss, u.Allows s) : ∀ e ∈ trees, e.RootAssigned u := by
  induction h with
  | nil => simp
  | cons first later ih =>
    intro e member
    rcases List.mem_cons.mp member with rfl | member
    · exact assignmentRooted first (allowed _ List.mem_cons_self)
    · exact ih (fun s inside => allowed s (List.mem_cons_of_mem _ inside)) e member

theorem programRooted {ts es} (h : Program ts es) (allowed : u.Allows ts) :
    ∀ e ∈ es, e.RootAssigned u := by
  obtain ⟨trees,statements,rfl⟩ := h
  have joined : [Token.separator].intercalate (segments ts) = ts := List.intercalate_splitOn _
  have each : ∀ s ∈ (segments ts).filter (· ≠ []), u.Allows s := by
    intro s member n inside
    have part := segmentInside (List.mem_of_mem_filter member) inside
    exact allowed n (joined ▸ part)
  intro e member
  rcases List.mem_append.mp member with statement | last
  · exact statementsRooted statements each e statement
  · split at last
    · cases List.mem_singleton.mp last
      exact .body trivial
    · contradiction

theorem statementOf {ss trees} (h : List.Forall₂ Assignment ss trees) {e : Expr} (member : e ∈ trees) :
    ∃ s, Assignment s e := by
  induction h with
  | nil => contradiction
  | cons first later ih =>
    rcases List.mem_cons.mp member with rfl | member
    · exact ⟨_,first⟩
    · exact ih member

theorem programEach {P : Expr → Prop} {ts es} (h : Program ts es)
    (each : ∀ s e, Assignment s e → P e) (empty : P .empty) : ∀ e ∈ es, P e := by
  obtain ⟨trees,statements,rfl⟩ := h
  intro e member
  rcases List.mem_append.mp member with statement | last
  · obtain ⟨s,derived⟩ := statementOf statements statement
    exact each s e derived
  · split at last
    · cases List.mem_singleton.mp last
      exact empty
    · contradiction

end Grammar

theorem parsedEach {P : Expr → Prop} {source : String} {es} (ok : parse source = .ok es)
    (each : ∀ s e, Grammar.Assignment s e → P e) (empty : P .empty) : ∀ e ∈ es, P e := by
  obtain ⟨ts,read,finished⟩ := runOk.mp ok
  exact Grammar.programEach (Grammar.readTokensSound finished) each empty

theorem parsedRooted {u : Usage} {source : String} {es} (ok : parse source = .ok es)
    (allowed : ∀ l ∈ lexemes source, ∀ n, l.token = .ok (.name n) → u.reads n ∧ u.calls n) :
    ∀ e ∈ es, e.RootAssigned u := by
  obtain ⟨ts,read,finished⟩ := runOk.mp ok
  refine Grammar.programRooted (Grammar.readTokensSound finished) fun n member => ?_
  have inside : Except.ok (.name n) ∈ (lexemes source).map Lexeme.token :=
    read ▸ List.mem_map_of_mem member
  obtain ⟨l,stands,token⟩ := List.mem_map.mp inside
  exact allowed l stands n token

end ArrayCalc
