import ArrayCalc.Proofs.GrammarComplete
import ArrayCalc.Proofs.Lexing
/-! A text is refused at the earliest place. Whatever a reader has open can be ended, so the tokens it
has taken go on to a text that parses; the first lexeme it does not take ends all such texts. -/
namespace ArrayCalc
open Reader Grammar

/- These four tokens end everything that can be open. -/
def endings : List Token := [.name "_",.colon,.closeParen,.closeBracket]

def Reader.Completes (r : Reader) : Prop :=
  ∃ us es, us ⊆ endings ∧ (r.feed us >>= finish) = .ok es

theorem completesAfter {r m : Reader} {us} (inside : us ⊆ endings) (fed : r.feed us = .ok m)
    (rest : m.Completes) : r.Completes := by
  obtain ⟨vs,es,insideRest,finished⟩ := rest
  refine ⟨us ++ vs,es,List.append_subset.mpr ⟨inside,insideRest⟩,?_⟩
  rwa [feedAppend fed]

theorem nameStep {r : Reader} (awaits : r.Awaits) :
    r.feed [.name "_"] = .ok { r with cursor := .name "_" } := readName awaits "_"

theorem closable {r : Reader} {x} (stands : Stands r.cursor x) :
    ∃ us m y e, us ⊆ endings ∧ r.feed us = .ok m ∧ Stands m.cursor y ∧ m.phrase.close y = .ok e ∧
      m.stack = r.stack := by
  cases choice : r.phrase.choice with
  | none => exact ⟨[],r,x,_,by simp,rfl,stands,by rw [Phrase.close,choice],rfl⟩
  | no c a => exact ⟨[],r,x,_,by simp,rfl,stands,by rw [Phrase.close,choice],rfl⟩
  | yes c =>
    have colon : r.step .colon =
        .ok { r with phrase := ⟨.no c (r.phrase.operate x),[]⟩, cursor := .operand } := by
      rw [stepAfter stands (by decide)]
      simp only [readAfter,choice]
    exact ⟨[.colon,.name "_"],_,_,_,by decide,(feedCons colon).trans (nameStep trivial),.name "_",rfl,rfl⟩

theorem closingStep {r : Reader} {x e p b s} (stands : Stands r.cursor x)
    (closed : r.phrase.close x = .ok e) (top : r.stack = (p,b) :: s) :
    ∃ t y, t ∈ endings ∧ r.step t = .ok (r.resume s p y) := by
  have ended (t y) (ends : t = .closeParen ∨ t = .closeBracket)
      (takes : r.endPhrase e t = .ok (r.resume s p y)) :
      ∃ t y, t ∈ endings ∧ r.step t = .ok (r.resume s p y) := by
    refine ⟨t,y,by rcases ends with rfl | rfl <;> decide,?_⟩
    rw [stepEnd stands closed (by tauto),takes]
  cases b with
  | group => exact ended .closeParen e (.inl rfl) (by simp only [endPhrase,top])
  | call f es =>
    exact ended .closeParen (.call f (e :: es).reverse) (.inl rfl) (by simp only [endPhrase,top])
  | array es =>
    exact ended .closeBracket (.array (e :: es).reverse) (.inr rfl) (by simp only [endPhrase,top])
  | index base =>
    exact ended .closeBracket (.binary .index base e) (.inr rfl) (by simp only [endPhrase,top])

/- By the open brackets, the innermost first. -/
theorem completesStanding {r : Reader} {x s} (stands : Stands r.cursor x) (stack : r.stack = s) :
    r.Completes := by
  induction s generalizing r x with
  | nil =>
    obtain ⟨us,m,y,e,inside,fed,stands,closed,same⟩ := closable stands
    have finished := finishStanding stands closed (same.trans stack)
    exact ⟨us,_,inside,by rw [fed]; exact finished⟩
  | cons top s ih =>
    obtain ⟨us,m,y,e,inside,fed,stands,closed,same⟩ := closable stands
    obtain ⟨t,z,ending,step⟩ := closingStep stands closed (same.trans stack)
    have rest : (m.resume s top.1 z).Completes := ih (.value z) rfl
    have alone : [t] ⊆ endings := List.cons_subset.mpr ⟨ending,List.nil_subset _⟩
    exact completesAfter inside fed (completesAfter alone (feedCons step) rest)

theorem awaitsOrStands (r : Reader) : r.Awaits ∨ ∃ x, Stands r.cursor x := by
  unfold Awaits
  cases r.cursor with
  | name s => exact .inr ⟨_,.name s⟩
  | value e => exact .inr ⟨_,.value e⟩
  | _ => exact .inl trivial

theorem completes (r : Reader) : r.Completes := by
  obtain awaits | ⟨x,stands⟩ := awaitsOrStands r
  · exact completesAfter (by decide) (nameStep awaits) (completesStanding (.name "_") rfl)
  · exact completesStanding stands rfl

theorem endingsSpellable {t : Token} (ending : t ∈ endings) : Spellable t := by
  simp only [endings,List.mem_cons,List.not_mem_nil,or_false] at ending
  rcases ending with rfl | rfl | rfl | rfl
  · exact ⟨_,spelledAlone (c := '_') (w := []) rfl fun more => rfl⟩
  · exact ⟨_,spelledAlone (c := ':') (w := []) rfl fun more => rfl⟩
  · exact ⟨_,spelledAlone (c := ')') (w := []) rfl fun more => rfl⟩
  · exact ⟨_,spelledAlone (c := ']') (w := []) rfl fun more => rfl⟩

def Accepted (ts : List Token) : Prop := ∃ es, readTokens ts = .ok es

def Continued (ts : List Token) : Prop :=
  ∃ source ps es, tokens source = .ok ps ∧ ts <+: ps.map Prod.fst ∧ parse source = .ok es

theorem fedContinued {ts : List Token} {m : Reader} (spellable : ∀ t ∈ ts, Spellable t)
    (fed : Reader.initial.feed ts = .ok m) : Continued ts := by
  obtain ⟨us,es,inside,finished⟩ := completes m
  have all : ∀ t ∈ ts ++ us, Spellable t := by
    intro t member
    rcases List.mem_append.mp member with first | last
    · exact spellable t first
    · exact endingsSpellable (inside last)
  obtain ⟨text,spelled⟩ := spelledList all
  have read := spelledLexemes spelled
  obtain ⟨ps,placed,names⟩ := tokensRead.mp read
  refine ⟨String.ofList text,ps,es,placed,names ▸ List.prefix_append ts us,runOk.mpr ⟨_,read,?_⟩⟩
  rwa [feedAppend fed]

theorem stepRefused {ts : List Token} {m : Reader} {t x} (fed : Reader.initial.feed ts = .ok m)
    (refused : m.step t = .error x) (us : List Token) : ¬Accepted (ts ++ t :: us) := by
  rintro ⟨es,ok⟩
  change (Reader.initial.feed (ts ++ t :: us) >>= finish) = .ok es at ok
  rw [feedAppend fed] at ok
  simp only [feed,List.foldlM_cons,refused] at ok
  contradiction

theorem finishRefused {ts : List Token} {m : Reader} {x} (fed : Reader.initial.feed ts = .ok m)
    (refused : m.finish = .error x) : ¬Accepted ts := by
  rintro ⟨es,ok⟩
  change (Reader.initial.feed ts >>= finish) = .ok es at ok
  rw [fed] at ok
  change m.finish = .ok es at ok
  rw [refused] at ok
  contradiction

inductive Stopped (size : Nat) (ls : List Lexeme) (r : Reader) (s : Span) : Prop where
  | lexeme (i l ts m) (item : ls[i]? = some l) (place : l.span = s)
      (taken : (ls.take i).map Lexeme.token = ts.map .ok) (fed : r.feed ts = .ok m)
      (refused : ∀ t, l.token = .ok t → ∃ x, m.step t = .error x)
  | finish (ts m x) (place : .emptyAt size = s) (taken : ls.map Lexeme.token = ts.map .ok)
      (fed : r.feed ts = .ok m) (refused : m.finish = .error x)

theorem Stopped.later {size : Nat} {l : Lexeme} {ls r m s t} (token : l.token = .ok t)
    (next : r.step t = .ok m) (rest : Stopped size ls m s) : Stopped size (l :: ls) r s := by
  cases rest with
  | lexeme i k ts last item place taken fed refused =>
    refine .lexeme (i + 1) k (t :: ts) last item place ?_ ((feedCons next).trans fed) refused
    simp [token,taken]
  | finish ts last x place taken fed refused =>
    refine .finish (t :: ts) last x place ?_ ((feedCons next).trans fed) refused
    simp [token,taken]

theorem runStopped {size : Nat} {r : Reader} {ls err} (h : r.run size ls = .error err) :
    Stopped size ls r err.span := by
  induction ls generalizing r with
  | nil =>
    rw [Reader.run] at h
    cases finished : r.finish with
    | ok es => simp [finished,Except.mapError] at h
    | error x =>
      simp only [finished,Except.mapError] at h
      cases h
      exact .finish [] r x rfl rfl rfl finished
  | cons l ls ih =>
    rw [Reader.run] at h
    split at h
    · rename_i x token
      cases h
      exact .lexeme 0 l [] r rfl rfl rfl rfl fun t ok => by simp [token] at ok
    · rename_i t token
      split at h
      · rename_i x refused
        cases h
        refine .lexeme 0 l [] r rfl rfl rfl rfl fun u ok => ⟨x,?_⟩
        cases token.symm.trans ok
        exact refused
      · rename_i m next
        exact (ih h).later token next

theorem tokensSpellable {source : String} {ls : List Lexeme} {ts : List Token} (inside : ls ⊆ lexemes source)
    (taken : ls.map Lexeme.token = ts.map .ok) : ∀ t ∈ ts, Spellable t := by
  intro t member
  have ok : Except.ok t ∈ ls.map Lexeme.token := taken ▸ List.mem_map_of_mem member
  obtain ⟨l,inner,token⟩ := List.mem_map.mp ok
  exact tiledSpellable (lexemesTiled source) (inside inner) token

theorem itemOfSpan {source : String} {i j : Nat} {l k : Lexeme}
    (first : (lexemes source)[i]? = some l) (second : (lexemes source)[j]? = some k)
    (same : l.span = k.span) : i = j := by
  have bound : i < ((lexemes source).map Lexeme.span).length := by
    rw [List.length_map]
    exact (List.getElem?_eq_some_iff.mp first).1
  refine (List.getElem?_inj bound (spansDistinct source)).mp ?_
  rw [List.getElem?_map,List.getElem?_map,first,second,Option.map_some,Option.map_some,same]

theorem endWithin (source : String) : (Span.emptyAt source.utf8ByteSize).Within source :=
  have valid : String.Pos.Raw.IsValid source ⟨source.utf8ByteSize⟩ := String.Pos.Raw.isValid_rawEndPos
  ⟨Nat.le_refl _,Nat.le_refl _,valid,valid⟩

theorem parseErrorEarliest {source : String} {err} (fails : parse source = .error err) :
    err.span.Within source ∧
    ((∃ l ∈ lexemes source, l.span = err.span) ∨ err.span = .emptyAt source.utf8ByteSize) ∧
    (∀ i l, (lexemes source)[i]? = some l → l.span = err.span →
      ∃ ts, ((lexemes source).take i).map Lexeme.token = ts.map .ok ∧ Continued ts ∧
        ∀ t, l.token = .ok t → ∀ us, ¬Accepted (ts ++ t :: us)) ∧
    (err.span = .emptyAt source.utf8ByteSize →
      ∃ ts, (lexemes source).map Lexeme.token = ts.map .ok ∧ Continued ts ∧ ¬Accepted ts) := by
  cases runStopped fails with
  | lexeme i l ts m item place taken fed refused =>
    have member := List.mem_of_getElem? item
    have nonempty := (tiledOccupies (lexemesTiled source) l member).nonempty
    refine ⟨place ▸ lexemeWithin member,.inl ⟨l,member,place⟩,fun j k other same => ?_,fun atEnd => ?_⟩
    · cases itemOfSpan item other (place.trans same.symm)
      cases item.symm.trans other
      have spellable := tokensSpellable (List.take_subset i _) taken
      refine ⟨ts,taken,fedContinued spellable fed,fun t ok us => ?_⟩
      obtain ⟨x,step⟩ := refused t ok
      exact stepRefused fed step us
    · rw [place,atEnd] at nonempty
      exact absurd nonempty (Nat.lt_irrefl _)
  | finish ts m x place taken fed refused =>
    have spellable := tokensSpellable (List.Subset.refl _) taken
    refine ⟨place ▸ endWithin source,.inr place.symm,fun j k other same => ?_,fun _ => ?_⟩
    · have member := List.mem_of_getElem? other
      have nonempty := (tiledOccupies (lexemesTiled source) k member).nonempty
      rw [same,← place] at nonempty
      exact absurd nonempty (Nat.lt_irrefl _)
    · exact ⟨ts,taken,fedContinued spellable fed,finishRefused fed refused⟩

deriving instance DecidableEq for Lexeme

theorem choiceLexemes : lexemes "é = (a ? b)" = [⟨.ok (.name "é"),⟨0,2⟩⟩,⟨.ok .assign,⟨3,4⟩⟩,
    ⟨.ok .openParen,⟨5,6⟩⟩,⟨.ok (.name "a"),⟨6,7⟩⟩,⟨.ok .question,⟨8,9⟩⟩,⟨.ok (.name "b"),⟨10,11⟩⟩,
    ⟨.ok .closeParen,⟨11,12⟩⟩] := by decide +kernel

theorem earliestWithoutElse :
    parse "é = (a ? b)" = .error ⟨.grammar .missingElse,⟨11,12⟩⟩ ∧
    ∃ ts, ((lexemes "é = (a ? b)").take 6).map Lexeme.token = ts.map .ok ∧ Continued ts ∧
      ∀ us, ¬Accepted (ts ++ .closeParen :: us) := by
  have fails : parse "é = (a ? b)" = .error ⟨.grammar .missingElse,⟨11,12⟩⟩ := by
    rw [parse,choiceLexemes]
    rfl
  obtain ⟨_,_,atItem,_⟩ := parseErrorEarliest fails
  obtain ⟨ts,taken,continued,dead⟩ := atItem 6 _ (by rw [choiceLexemes]; rfl) rfl
  exact ⟨fails,ts,taken,continued,dead .closeParen rfl⟩

end ArrayCalc
