import ArrayCalc.Bindings
import ArrayCalc.Eval
import ArrayCalc.Proofs.GrammarComplete
import ArrayCalc.Proofs.Lexing
import ArrayCalc.Proofs.Outcomes
/-! Two texts put together with a separator between them. Their tokens meet at the separator, which may
be one with the separator that ends the first text or begins the second. Between the statements of the
two there is then an end of statement in any case, so they are evaluated as one text after the other. -/
namespace ArrayCalc
open Grammar

def separators : List String := [";","\n","\r","\r\n"]

inductive Joined : List Token → List Token → List Token → Prop where
  | between (ts us) : Joined ts us (ts ++ .separator :: us)
  | ended (ts us) : Joined (ts ++ [.separator]) us (ts ++ .separator :: us)
  | begun (ts us) : Joined ts (.separator :: us) (ts ++ .separator :: us)

section Texts

theorem EndsAs.append {after : List Char} (breaks : ∀ c ∈ after.head?, Lexeme.isBreak c = true)
    (rest : List Char) : EndsAs rest (rest ++ after) := by
  cases rest with
  | nil => exact fun c first => .inr (breaks c first)
  | cons d rest => exact fun c first => .inl first

theorem Lexeme.scanReturn (rest : List Char) :
    scan '\r' rest = (.ok .separator,if rest.head? = some '\n' then 1 else 0) := by
  have unnamed : startsName '\r' = false := by decide +kernel
  by_cases feed : rest.head? = some '\n' <;> simp [scan,unnamed,sign?,feed]

theorem lexedBefore {offset cs ls} (h : Tiled offset cs ls)
    (closed : ∀ l ∈ ls, l.token ≠ .error .unclosedQuote) {after : List Char}
    (breaks : ∀ c ∈ after.head?, Lexeme.isBreak c = true) :
    lexed (cs ++ after) = ls.map Lexeme.token ++ lexed after ∨
      ∃ earlier more, ls.map Lexeme.token = earlier ++ [.ok .separator] ∧ after = '\n' :: more ∧
        lexed (cs ++ after) = ls.map Lexeme.token ++ lexed more := by
  induction h with
  | done => exact .inl rfl
  | @gap offset c rest ls gap later ih =>
    rw [List.cons_append,lexedGap gap]
    exact ih closed
  | @lexeme offset c w rest token ls starts scanned later ih =>
    have others := fun l member => closed l (List.mem_cons_of_mem _ member)
    by_cases merges : c = '\r' ∧ w = [] ∧ (rest ++ after).head? = some '\n'
    · obtain ⟨rfl,rfl,next⟩ := merges
      rw [List.nil_append,Lexeme.scanReturn] at scanned
      obtain ⟨rfl,count⟩ := Prod.mk.inj scanned
      cases rest with
      | cons d rest => simp_all
      | nil =>
        cases tiledNothing later
        obtain ⟨more,rfl⟩ := List.head?_eq_some_iff.mp next
        refine .inr ⟨[],more,rfl,rfl,?_⟩
        exact @lexedCons '\r' ['\n'] more _ rfl (Lexeme.scanReturn _)
    · have again := Lexeme.scanAgain scanned (.append breaks rest)
        (fun ret alone next => merges ⟨ret,alone,next⟩)
        fun unclosed => absurd unclosed (closed _ List.mem_cons_self)
      rw [List.append_assoc,lexedCons starts again,List.map_cons]
      obtain rest | ⟨earlier,more,ends,rfl,rest⟩ := ih others
      · exact .inl (congrArg _ rest)
      · refine .inr ⟨token :: earlier,more,?_,rfl,congrArg _ rest⟩
        rw [ends,List.cons_append]

theorem lexedFeed (cs : List Char) : lexed ('\n' :: cs) = .ok .separator :: lexed cs :=
  @lexedCons '\n' [] cs _ rfl rfl

theorem lexedReturn {cs : List Char} (apart : cs.head? ≠ some '\n') :
    lexed ('\r' :: cs) = .ok .separator :: lexed cs :=
  @lexedCons '\r' [] cs _ rfl (by simp [Lexeme.scanReturn,apart])

theorem lexedReturnFeed (cs : List Char) : lexed ('\r' :: '\n' :: cs) = .ok .separator :: lexed cs :=
  @lexedCons '\r' ['\n'] cs _ rfl (Lexeme.scanReturn _)

theorem lexedSeparator {sep : String} (separates : sep ∈ separators) (cs : List Char) :
    (∀ c ∈ (sep.toList ++ cs).head?, Lexeme.isBreak c = true) ∧
      (lexed (sep.toList ++ cs) = .ok .separator :: lexed cs ∨
        ∃ more, cs = '\n' :: more ∧ lexed (sep.toList ++ cs) = .ok .separator :: lexed more) := by
  simp only [separators,List.mem_cons,List.not_mem_nil,or_false] at separates
  rcases separates with rfl | rfl | rfl | rfl
  · exact ⟨by simp [Lexeme.isBreak],.inl (@lexedCons ';' [] cs _ rfl rfl)⟩
  · exact ⟨by simp [Lexeme.isBreak],.inl (lexedFeed cs)⟩
  · refine ⟨by simp [Lexeme.isBreak],?_⟩
    by_cases feed : cs.head? = some '\n'
    · obtain ⟨more,rfl⟩ := List.head?_eq_some_iff.mp feed
      exact .inr ⟨more,rfl,lexedReturnFeed more⟩
    · exact .inl (lexedReturn feed)
  · exact ⟨by simp [Lexeme.isBreak],.inl (lexedReturnFeed cs)⟩

theorem separatorFeed {sep : String} (separates : sep ∈ separators) {cs more : List Char}
    (same : sep.toList ++ cs = '\n' :: more) : cs = more := by
  simp only [separators,List.mem_cons,List.not_mem_nil,or_false] at separates
  rcases separates with rfl | rfl | rfl | rfl <;> simp_all

theorem lexedJoined {first second sep : String} (separates : sep ∈ separators) {ts us : List Token}
    (left : lexed first.toList = ts.map .ok) (right : lexed second.toList = us.map .ok) :
    ∃ vs, lexed (first ++ sep ++ second).toList = vs.map .ok ∧ Joined ts us vs := by
  have tokens : (lexemes first).map Lexeme.token = ts.map .ok := left
  have closed : ∀ l ∈ lexemes first, l.token ≠ .error .unclosedQuote := by
    intro l member unclosed
    have read : l.token ∈ ts.map Except.ok := tokens ▸ List.mem_map_of_mem member
    simp [unclosed] at read
  obtain ⟨breaks,separated⟩ := lexedSeparator separates second.toList
  rw [String.toList_append,String.toList_append,List.append_assoc]
  have before := lexedBefore (lexemesTiled first) closed breaks
  rw [tokens] at before
  obtain apart | ⟨earlier,more,ends,after,all⟩ := before
  · rw [apart]
    obtain plain | ⟨more,begins,merged⟩ := separated
    · exact ⟨_,by rw [plain,right]; simp,.between ts us⟩
    · rw [begins,lexedFeed] at right
      obtain ⟨u,us,rfl,same,later⟩ := List.map_eq_cons_iff.mp right.symm
      cases same
      exact ⟨_,by rw [merged,← later]; simp,.begun ts us⟩
  · rw [all,← separatorFeed separates after,right]
    obtain ⟨ts,last,rfl,_,same⟩ := List.map_eq_append_iff.mp ends
    obtain ⟨t,rfl,same⟩ := List.map_eq_singleton_iff.mp same
    cases same
    exact ⟨_,by simp,.ended ts us⟩

end Texts

section Programs

theorem segmentsJoin (ts us : List Token) :
    segments (ts ++ .separator :: us) = segments ts ++ segments us :=
  List.splitOn_append_cons_self ts us

theorem segmentsNil : segments [] = [[]] := rfl

theorem segmentsFull (ts : List Token) : segments ts ≠ [] := List.splitOn_ne_nil _ _

theorem Joined.cut {ts us vs : List Token} (h : Joined ts us vs) :
    ∃ before after, vs = before ++ .separator :: after ∧
      (segments before).filter (· ≠ []) = (segments ts).filter (· ≠ []) ∧
      (segments after).filter (· ≠ []) = (segments us).filter (· ≠ []) ∧
      (segments after).getLast? = (segments us).getLast? := by
  cases h with
  | between => exact ⟨ts,us,rfl,rfl,rfl,rfl⟩
  | ended ts => exact ⟨ts,us,rfl,by simp [segmentsJoin,segmentsNil],rfl,rfl⟩
  | begun _ us =>
    have cut : segments (.separator :: us) = [] :: segments us := segmentsJoin [] us
    refine ⟨ts,us,rfl,rfl,by simp [cut],?_⟩
    rw [cut,List.getLast?_cons_of_ne_nil (segmentsFull us)]

theorem lastStatement {us : List Token} {trees fs last : List Expr}
    (statements : List.Forall₂ Assignment ((segments us).filter (· ≠ [])) trees)
    (alone : fs = trees ++ if .separator ∈ us ∧ (segments us).getLast? = some [] then [.empty] else [])
    (behind : last = if (segments us).getLast? = some [] then [.empty] else []) :
    trees ++ last ≠ [] ∧ (fs = trees ++ last ∨ fs = [] ∧ trees ++ last = [.empty]) := by
  by_cases ends : (segments us).getLast? = some []
  · rw [if_pos ends] at behind
    subst behind
    refine ⟨by simp,?_⟩
    by_cases inside : .separator ∈ us
    · exact .inl (by rw [alone,if_pos ⟨inside,ends⟩])
    · have single : segments us = [us] := List.splitOn_eq_singleton inside
      have nothing : us = [] := by simpa [single] using ends
      subst nothing
      cases statements
      exact .inr ⟨by simp [alone],rfl⟩
  · rw [if_neg ends] at behind
    subst behind
    rw [if_neg (fun both => ends both.2)] at alone
    refine ⟨?_,.inl alone⟩
    rw [List.append_nil]
    rintro rfl
    have empty := List.filter_eq_nil_iff.mp (List.forall₂_nil_right_iff.mp statements)
    cases last : (segments us).getLast? with
    | none => exact segmentsFull us (List.getLast?_eq_none_iff.mp last)
    | some s =>
      have nothing : s = [] := by simpa using empty s (List.mem_of_getLast? last)
      exact ends (nothing ▸ last)

theorem programJoined {ts us vs es fs} (joined : Joined ts us vs) (left : Program ts es)
    (right : Program us fs) : ∃ trees later, Program vs (trees ++ later) ∧ later ≠ [] ∧
      (es = trees ∨ es = trees ++ [.empty]) ∧ (fs = later ∨ fs = [] ∧ later = [.empty]) := by
  obtain ⟨before,after,rfl,sameFirst,sameSecond,sameLast⟩ := joined.cut
  obtain ⟨trees,statements,rfl⟩ := left
  obtain ⟨trees',statements',alone⟩ := right
  obtain ⟨full,ends⟩ := lastStatement statements' alone rfl
  refine ⟨trees,_,⟨trees ++ trees',?_,?_⟩,full,?_,ends⟩
  · rw [segmentsJoin,List.filter_append,sameFirst,sameSecond]
    exact List.rel_append statements statements'
  · rw [segmentsJoin,List.getLast?_append_of_ne_nil _ (segmentsFull after),sameLast]
    simp
  · split
    · exact .inr rfl
    · exact .inl (List.append_nil _)

end Programs

section Evaluation
variable {σ : Type}

theorem evalJoined (ctx : Context σ) {trees later es fs : List Expr}
    (first : es = trees ∨ es = trees ++ [.empty]) (second : fs = later ∨ fs = [] ∧ later = [.empty])
    (full : later ≠ []) :
    evalStatements ctx (trees ++ later) = evalStatements ctx es >>= fun _ => evalStatements ctx fs := by
  have rest (v : Value) : later.foldlM (fun _ e => e.eval ctx) v = evalStatements ctx fs := by
    rcases second with rfl | ⟨rfl,rfl⟩
    · cases fs with
      | nil => contradiction
      | cons e fs => simp only [evalStatements,List.foldlM_cons]
    · simp [evalStatements,Expr.eval]
  have plain : evalStatements ctx (trees ++ later) =
      evalStatements ctx trees >>= fun _ => evalStatements ctx fs := by
    simp only [evalStatements,List.foldlM_append,rest]
  rcases first with rfl | rfl
  · exact plain
  · rw [plain]
    simp [evalStatements,Expr.eval]

theorem adaptBind {ε ε' α β : Type} (f : ε → ε') (a : EStateM ε σ α) (k : α → EStateM ε σ β) :
    (a >>= k).adaptExcept f = a.adaptExcept f >>= fun v => (k v).adaptExcept f := by
  funext s
  change EStateM.adaptExcept f (EStateM.bind a k) s =
    EStateM.bind (EStateM.adaptExcept f a) (fun v => EStateM.adaptExcept f (k v)) s
  simp only [EStateM.adaptExcept,EStateM.bind]
  cases a s <;> rfl

theorem evaluateParsed (ctx : Context σ) {source : String} {es} (parsed : parse source = .ok es) :
    evaluate ctx source = (evalStatements ctx es).adaptExcept .eval := by
  simp only [evaluate,parsed]

end Evaluation

theorem batchInSequence {first second sep : String} (separates : sep ∈ separators) {es fs}
    (parsed : parse first = .ok es) (parsed' : parse second = .ok fs) :
    (∃ gs, parse (first ++ sep ++ second) = .ok gs) ∧
    ∀ {σ : Type} (ctx : Context σ), evaluate ctx (first ++ sep ++ second) =
      evaluate ctx first >>= fun _ => evaluate ctx second := by
  obtain ⟨ts,read,program⟩ := parseProgram.mp parsed
  obtain ⟨us,read',program'⟩ := parseProgram.mp parsed'
  obtain ⟨vs,readAll,joined⟩ := lexedJoined separates read read'
  obtain ⟨trees,later,programAll,full,left,right⟩ := programJoined joined program program'
  have parsedAll : parse (first ++ sep ++ second) = .ok (trees ++ later) :=
    parseProgram.mpr ⟨vs,readAll,programAll⟩
  refine ⟨⟨_,parsedAll⟩,fun ctx => ?_⟩
  rw [evaluateParsed ctx parsedAll,evalJoined ctx left right full,adaptBind,← evaluateParsed ctx parsed,
    ← evaluateParsed ctx parsed']

theorem assignedLine : parse "a = 'x'\r" = .ok [.assign "a" (.literal (.ofText "x")),.empty] :=
  parsedTokens [.name "a",.assign,.quoted "x",.separator] (by decide +kernel) rfl

theorem blankThenName : parse "\n;a" = .ok [.variable "a"] :=
  parsedTokens [.separator,.separator,.name "a"] (by decide +kernel) rfl

theorem batchAcrossReturn :
    let ctx := (Bindings.empty : Bindings Unit).context
    "\n" ∈ separators ∧ evaluate ctx ("a = 'x'\r" ++ "\n" ++ "\n;a") =
      evaluate ctx "a = 'x'\r" >>= fun _ => evaluate ctx "\n;a" :=
  ⟨by decide,(batchInSequence (by decide) assignedLine blankThenName).2 _⟩

end ArrayCalc
