import ArrayCalc.Proofs.Lexing
/-! Quoted texts and their encodings. A character is written as itself or by its escape, the quote and
the backslash by their escapes only. Whatever stands behind a quote is an encoding up to where it ends:
at the closing quote, at a backslash that begins no escape, or with the text. -/
namespace ArrayCalc
namespace Quoted

def escapes : List (Char × Char) :=
  [('\\','\\'),('\'','\''),('"','"'),('\r','r'),('\n','n'),('\t','t')]

inductive Piece (quote : Char) (c : Char) : List Char → Prop where
  | itself (plain : c ≠ '\\') (inner : c ≠ quote) : Piece quote c [c]
  | escaped {e} (known : (c,e) ∈ escapes) : Piece quote c ['\\',e]

inductive Encodes (quote : Char) : List Char → List Char → Prop where
  | nil : Encodes quote [] []
  | cons {c p s w} (piece : Piece quote c p) (rest : Encodes quote s w) :
      Encodes quote (c :: s) (p ++ w)

theorem unescapeIff {c e : Char} : unescape? e = some c ↔ (c,e) ∈ escapes := by
  constructor
  · intro known
    unfold unescape? at known
    split at known <;> cases known <;> simp [escapes]
  · intro known
    simp only [escapes,List.mem_cons,Prod.mk.injEq,List.not_mem_nil,or_false] at known
    rcases known with ⟨rfl,rfl⟩ | ⟨rfl,rfl⟩ | ⟨rfl,rfl⟩ | ⟨rfl,rfl⟩ | ⟨rfl,rfl⟩ | ⟨rfl,rfl⟩ <;> rfl

theorem unescapeNone {e : Char} : unescape? e = none ↔ ∀ c, (c,e) ∉ escapes := by
  simp only [Option.eq_none_iff_forall_ne_some,ne_eq,unescapeIff]

theorem everyEncoded {quote : Char} (either : quote = '"' ∨ quote = '\'') (s : List Char) :
    ∃ w, Encodes quote s w := by
  induction s with
  | nil => exact ⟨[],.nil⟩
  | cons c s ih =>
    obtain ⟨w,rest⟩ := ih
    by_cases plain : c = '\\'
    · exact ⟨_,.cons (.escaped (e := '\\') (by simp [escapes,plain])) rest⟩
    by_cases inner : c = quote
    · exact ⟨_,.cons (.escaped (e := c) (by rcases either with h | h <;> simp [escapes,inner,h])) rest⟩
    · exact ⟨_,.cons (.itself plain inner) rest⟩

section Reading
variable {quote : Char}

theorem readPiece {c : Char} {p : List Char} (piece : Piece quote c p) (rest : List Char) :
    read quote (p ++ rest) =
      ((read quote rest).1.map (c :: ·),(read quote rest).2 + p.length) := by
  cases piece with
  | itself plain inner => exact (readPlain plain rest).trans (if_neg inner)
  | escaped known =>
    rw [List.cons_append,List.cons_append,List.nil_append,read,unescapeIff.mpr known]
    rfl

theorem mapNil (r : Except Fault (List Char)) : r.map ([] ++ ·) = r := by cases r <;> rfl

theorem mapCons (r : Except Fault (List Char)) (c : Char) (s : List Char) :
    (r.map (s ++ ·)).map (c :: ·) = r.map (c :: s ++ ·) := by cases r <;> rfl

theorem readEncoded {s w : List Char} (h : Encodes quote s w) (rest : List Char) :
    read quote (w ++ rest) = ((read quote rest).1.map (s ++ ·),(read quote rest).2 + w.length) := by
  induction h with
  | nil => rw [mapNil]; rfl
  | @cons c p s w piece _ ih =>
    rw [List.append_assoc,readPiece piece,ih,mapCons,List.length_append]
    refine Prod.ext rfl ?_
    change _ + w.length + p.length = _ + (p.length + w.length)
    omega

def Closes (quote : Char) (cs s w : List Char) : Prop :=
  Encodes quote s w ∧ ∃ rest, cs = w ++ quote :: rest

def Breaks (quote : Char) (cs w : List Char) (e : Char) : Prop :=
  (∃ s, Encodes quote s w) ∧ (∀ c, (c,e) ∉ escapes) ∧ ∃ rest, cs = w ++ '\\' :: e :: rest

theorem Closes.cons {c : Char} {p cs s w : List Char} (piece : Piece quote c p)
    (later : Closes quote cs s w) : Closes quote (p ++ cs) (c :: s) (p ++ w) := by
  obtain ⟨text,rest,rfl⟩ := later
  exact ⟨.cons piece text,rest,(List.append_assoc ..).symm⟩

theorem Breaks.cons {c e : Char} {p cs w : List Char} (piece : Piece quote c p)
    (later : Breaks quote cs w e) : Breaks quote (p ++ cs) (p ++ w) e := by
  obtain ⟨⟨s,text⟩,unknown,rest,rfl⟩ := later
  exact ⟨⟨c :: s,.cons piece text⟩,unknown,rest,(List.append_assoc ..).symm⟩

theorem Closes.read (other : quote ≠ '\\') {cs s w : List Char} (h : Closes quote cs s w) :
    read quote cs = (.ok s,w.length + 1) := by
  obtain ⟨text,rest,rfl⟩ := h
  rw [readEncoded text,readPlain other,if_pos rfl]
  simp [Except.map,Nat.add_comm]

theorem Breaks.read {cs w : List Char} {e : Char} (h : Breaks quote cs w e) :
    read quote cs = (.error (.badEscape e),w.length + 2) := by
  obtain ⟨⟨s,text⟩,unknown,rest,rfl⟩ := h
  have bad : Quoted.read quote ('\\' :: e :: rest) = (.error (.badEscape e),2) := by
    rw [Quoted.read,unescapeNone.mpr unknown]
  rw [readEncoded text,bad]
  simp [Except.map,Nat.add_comm]

inductive Ending (quote : Char) (cs : List Char) : Prop where
  | closes {s w} (h : Closes quote cs s w)
  | breaks {w e} (h : Breaks quote cs w e)
  | unclosed (h : (read quote cs).1 = .error .unclosed)

theorem Ending.cons {c : Char} {p cs : List Char} (piece : Piece quote c p)
    (later : Ending quote cs) : Ending quote (p ++ cs) := by
  cases later with
  | closes h => exact .closes (h.cons piece)
  | breaks h => exact .breaks (h.cons piece)
  | unclosed h =>
    refine .unclosed ?_
    rw [readPiece piece,h]
    rfl

theorem ending (quote : Char) (cs : List Char) : Ending quote cs := by
  fun_induction read quote cs with
  | case1 => exact .unclosed (by rw [read])
  | case2 => exact .unclosed (by rw [read])
  | case3 e rest bad => exact .breaks ⟨⟨[],.nil⟩,unescapeNone.mp bad,rest,rfl⟩
  | case4 e rest c good r n later ih => exact ih.cons (.escaped (unescapeIff.mp good))
  | case5 rest => exact .closes ⟨.nil,rest,rfl⟩
  | case6 c rest single double other r n later ih =>
    exact ih.cons (.itself (notEscape single double) other)

end Reading
end Quoted

open Quoted

theorem quotePlain {quote : Char} (either : quote = '"' ∨ quote = '\'') : quote ≠ '\\' := by
  rcases either with rfl | rfl <;> simp

theorem Lexeme.scanQuoted {quote : Char} (either : quote = '"' ∨ quote = '\'') (rest : List Char) :
    scan quote rest = (ofQuoted (read quote rest).1,(read quote rest).2) := by
  rcases either with rfl | rfl <;> rfl

structure QuotedLexeme (source : String) (quote : Char) (rest : List Char) (l : Lexeme) : Prop where
  closed : ∀ s w, Closes quote rest s w → l.token = .ok (.quoted (String.ofList s)) ∧
    l.span.stop = l.span.start + byteLength (quote :: w ++ [quote])
  broken : ∀ w e, Breaks quote rest w e → l.token = .error (.badEscape e) ∧
    l.span.stop = l.span.start + byteLength (quote :: w ++ ['\\',e])
  unclosed : (∀ s w, ¬Closes quote rest s w) → (∀ w e, ¬Breaks quote rest w e) →
    l.token = .error .unclosedQuote ∧ l.span.stop = source.utf8ByteSize
  onlyEncoded : ∀ t, l.token = .ok t → ∃ s w, t = .quoted (String.ofList s) ∧ Closes quote rest s w

theorem quotedLexeme {quote : Char} (either : quote = '"' ∨ quote = '\'') {source : String}
    {before rest : List Char} (cut : source.toList = before ++ quote :: rest) {l : Lexeme}
    (member : l ∈ lexemes source) (start : l.span.start = byteLength before) :
    QuotedLexeme source quote rest l := by
  obtain ⟨v,after,rfl,scanned,stop⟩ := lexemeScanned cut member start
  rw [Lexeme.scanQuoted either] at scanned
  obtain ⟨token,count⟩ := Prod.mk.inj scanned
  have other := quotePlain either
  refine ⟨?_,?_,?_,?_⟩
  · intro s w closes
    rw [closes.read other] at token count
    obtain ⟨_,behind,same⟩ := closes
    have whole : v ++ after = w ++ [quote] ++ behind := by simpa using same
    have taken : v = w ++ [quote] := List.append_inj_left whole (by simpa using count.symm)
    refine ⟨token.symm,?_⟩
    rw [stop,taken]
    rfl
  · intro w e breaks
    rw [breaks.read] at token count
    obtain ⟨_,_,behind,same⟩ := breaks
    have whole : v ++ after = w ++ ['\\',e] ++ behind := by simpa using same
    have taken : v = w ++ ['\\',e] := List.append_inj_left whole (by simpa using count.symm)
    refine ⟨token.symm,?_⟩
    rw [stop,taken]
    rfl
  · intro never whole
    cases ending quote (v ++ after) with
    | closes h => exact absurd h (never _ _)
    | breaks h => exact absurd h (whole _ _)
    | unclosed unclosed =>
      rw [unclosed] at token
      have nothing : after = [] := unclosedEnds count unclosed
      subst nothing
      rw [List.append_nil] at cut
      refine ⟨token.symm,?_⟩
      rw [stop,start,← byteLengthAppend,← cut,← sizeOfList,String.ofList_toList]
  · intro t ok
    cases ending quote (v ++ after) with
    | closes h =>
      rw [h.read other,ok] at token
      cases token
      exact ⟨_,_,rfl,h⟩
    | breaks h =>
      rw [h.read,ok] at token
      cases token
    | unclosed unclosed =>
      rw [unclosed,ok] at token
      cases token

theorem closedLexeme {quote : Char} (either : quote = '"' ∨ quote = '\'') {s w : List Char}
    (text : Encodes quote s w) (offset : Nat) (rest : List Char) :
    Lexeme.listFrom offset (quote :: w ++ quote :: rest) =
      ⟨.ok (.quoted (String.ofList s)),⟨offset,offset + byteLength (quote :: w ++ [quote])⟩⟩ ::
        Lexeme.listFrom (offset + byteLength (quote :: w ++ [quote])) rest := by
  have other := quotePlain either
  have solid : Lexeme.isGap quote = false := by rcases either with rfl | rfl <;> rfl
  have closes : Closes quote ((w ++ [quote]) ++ rest) s w := ⟨text,rest,by simp⟩
  have scanned : Lexeme.scan quote ((w ++ [quote]) ++ rest) =
      (.ok (.quoted (String.ofList s)),(w ++ [quote]).length) := by
    rw [Lexeme.scanQuoted either,closes.read other,List.length_append]
    rfl
  have behind := listTiled (offset + byteLength (quote :: (w ++ [quote]))) rest
  simpa using tiledList (.lexeme solid scanned behind)

theorem quotedDecodes {quote : Char} (either : quote = '"' ∨ quote = '\'') :
    (∀ s, ∃ w, Encodes quote s w) ∧
    (∀ s w, Encodes quote s w → ∀ offset rest,
      Lexeme.listFrom offset (quote :: w ++ quote :: rest) =
        ⟨.ok (.quoted (String.ofList s)),⟨offset,offset + byteLength (quote :: w ++ [quote])⟩⟩ ::
          Lexeme.listFrom (offset + byteLength (quote :: w ++ [quote])) rest) ∧
    ∀ source before rest, source.toList = before ++ quote :: rest →
      ∀ l ∈ lexemes source, l.span.start = byteLength before → QuotedLexeme source quote rest l :=
  ⟨everyEncoded either,fun _ _ => closedLexeme either,fun _ _ _ cut _ => quotedLexeme either cut⟩

theorem apostropheDecodes : Lexeme.listFrom 0 "'it\\'s'\"".toList =
    ⟨.ok (.quoted "it's"),⟨0,7⟩⟩ :: Lexeme.listFrom 7 ['"'] := by
  have text : Encodes '\'' ['i','t','\'','s'] ['i','t','\\','\'','s'] :=
    .cons (.itself (by decide) (by decide)) (.cons (.itself (by decide) (by decide))
      (.cons (.escaped (by decide)) (.cons (.itself (by decide) (by decide)) .nil)))
  exact (quotedDecodes (.inr rfl)).2.1 _ _ text 0 ['"']

end ArrayCalc
