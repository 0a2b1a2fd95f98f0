import ArrayCalc.Proofs.Lexing
import Mathlib.Data.List.Forall2
import Mathlib.Data.String.Basic
/-! A text and its lexemes. They lie in it in order and apart, with nothing but spaces and tabs outside
of them; and the parts of the text that they occupy, written one after the other with a space between,
are cut into the same lexemes again. -/
namespace ArrayCalc

namespace Span

def Covers (s : Span) (offset : Nat) : Prop := s.start ≤ offset ∧ offset < s.stop

def slice (s : Span) (source : String) : String :=
  String.Pos.Raw.extract source ⟨s.start⟩ ⟨s.stop⟩

end Span

/- By the lexemes in order: what is not in the first of them is behind it. -/
theorem tiledGaps {offset cs ls} (h : Tiled offset cs ls) {before after : List Char} {c : Char}
    (cut : cs = before ++ c :: after) (outside : ∀ l ∈ ls, ¬l.span.Covers (offset + byteLength before)) :
    Lexeme.isGap c = true := by
  induction h generalizing before with
  | done => simp at cut
  | @gap offset d rest ls gap later ih =>
    cases before with
    | nil =>
      cases cut
      exact gap
    | cons e before =>
      obtain ⟨same,cut⟩ := List.cons.inj cut
      apply ih cut
      intro l member
      rw [Nat.add_assoc,same]
      exact outside l member
  | @lexeme offset d w rest token ls starts scanned later ih =>
    obtain ⟨x,behind,rest⟩ | ⟨x,inside,rest⟩ := List.append_eq_append_iff.mp cut
    · subst behind
      apply ih rest
      intro l member
      rw [Nat.add_assoc,← byteLengthAppend]
      exact outside l (List.mem_cons_of_mem _ member)
    · cases x with
      | nil =>
        rw [List.append_nil] at inside
        subst inside
        refine @ih [] rest.symm fun l member => ?_
        exact outside l (List.mem_cons_of_mem _ member)
      | cons e x =>
        have some := byteLengthPositive e x
        have covered : offset + byteLength before < offset + byteLength (d :: w) := by
          rw [inside,byteLengthAppend]
          omega
        exact absurd ⟨Nat.le_add_right ..,covered⟩ (outside _ List.mem_cons_self)

theorem Lexeme.scanUnclosed {c : Char} {w rest : List Char}
    (h : scan c (w ++ rest) = (.error .unclosedQuote,w.length)) : rest = [] := by
  unfold scan at h
  split at h
  · obtain ⟨same,_⟩ := Prod.mk.inj h
    unfold ofNumeral at same
    split at same <;> simp at same
  split at h
  · obtain ⟨same,count⟩ := Prod.mk.inj h
    have unclosed : (Quoted.read c (w ++ rest)).1 = .error .unclosed := by
      unfold ofQuoted at same
      split at same <;> simp_all
    exact Quoted.unclosedEnds count unclosed
  split at h
  · simp at h
  · split at h <;> simp at h

theorem tiledAgain {offset cs ls} (h : Tiled offset cs ls) :
    ∃ ws, List.Forall₂ (fun l w => Spans offset cs l.span w) ls ws ∧
      lexed ([' '].intercalate ws) = ls.map Lexeme.token := by
  induction h with
  | done => exact ⟨[],.nil,by simp⟩
  | @gap offset c rest ls gap later ih =>
    obtain ⟨ws,places,again⟩ := ih
    exact ⟨ws,places.imp fun l w place => place.behind [c],again⟩
  | @lexeme offset c w rest token ls starts scanned later ih =>
    obtain ⟨ws,places,again⟩ := ih
    refine ⟨(c :: w) :: ws,.cons ⟨[],rest,rfl,rfl,rfl⟩ ?_,?_⟩
    · exact places.imp fun l v place => place.behind (c :: w)
    rw [List.map_cons,← again]
    cases places with
    | nil =>
      have alone := Lexeme.scanAgain scanned (.nothing rest) (fun _ _ => by simp) fun _ => rfl
      simpa using lexedCons starts alone
    | @cons l v ls vs first others =>
      have closed : token ≠ .error .unclosedQuote := by
        rintro rfl
        cases Lexeme.scanUnclosed scanned
        cases tiledNothing later
      rw [List.intercalate_cons_cons,List.append_assoc,List.singleton_append]
      have spaced := Lexeme.scanAgain scanned (.space rest ([' '].intercalate (v :: vs)))
        (fun _ _ => by simp) fun unclosed => absurd unclosed closed
      rw [lexedCons starts spaced,lexedGap rfl]

theorem sliceText {source : String} {s : Span} {w : List Char} (h : Spans 0 source.toList s w) :
    s.slice source = String.ofList w := by
  obtain ⟨before,after,cut,start,stop⟩ := h
  have size (cs : List Char) : byteLength cs = String.utf8Len cs :=
    (sizeOfList cs).symm.trans (String.utf8ByteSize_ofList cs)
  have text : source = String.ofList (before ++ w ++ after) := by rw [← cut,String.ofList_toList]
  rw [Nat.zero_add,size] at start
  rw [Nat.zero_add,byteLengthAppend,size,size] at stop
  rw [Span.slice,start,stop,text]
  exact String.extract_of_valid before w after

theorem slicesText {source : String} {ls : List Lexeme} {ws : List (List Char)}
    (h : List.Forall₂ (fun l w => Spans 0 source.toList l.span w) ls ws) :
    (ls.map fun l => l.span.slice source) = ws.map String.ofList := by
  induction h with
  | nil => rfl
  | cons first _ ih => rw [List.map_cons,List.map_cons,sliceText first,ih]

structure LexemesTile (source : String) : Prop where
  solid : ∀ l ∈ lexemes source, l.span.start < l.span.stop
  within : ∀ l ∈ lexemes source, l.span.Within source
  ordered : (lexemes source).Pairwise fun a b => a.span.stop ≤ b.span.start
  gaps : ∀ before c after, source.toList = before ++ c :: after →
    (∀ l ∈ lexemes source, ¬l.span.Covers (byteLength before)) → c = ' ' ∨ c = '\t'
  again : (lexemes (" ".intercalate ((lexemes source).map fun l => l.span.slice source))).map
    Lexeme.token = (lexemes source).map Lexeme.token

theorem lexemesTile (source : String) : LexemesTile source where
  solid l member := (tiledOccupies (lexemesTiled source) l member).nonempty
  within l member := lexemeWithin member
  ordered := tiledOrder (lexemesTiled source)
  gaps before c after cut outside := by
    have gap : Lexeme.isGap c = true := by
      apply tiledGaps (lexemesTiled source) cut
      simpa using outside
    simpa [Lexeme.isGap] using gap
  again := by
    obtain ⟨ws,places,again⟩ := tiledAgain (lexemesTiled source)
    have joined : (" ".intercalate (ws.map String.ofList)).toList = [' '].intercalate ws := by
      simp [String.toList_intercalate,Function.comp_def]
    rw [slicesText places,← again,← joined]
    rfl

end ArrayCalc
