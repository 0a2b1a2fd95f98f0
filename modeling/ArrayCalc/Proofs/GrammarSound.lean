import ArrayCalc.Proofs.Grammar
/-! What the reader accepts is derived by the grammar, with the tree that is returned. The parts of a
reader account for all tokens read so far: each part spells a run of tokens, and the runs stand in
the order in which the parts were opened. -/
namespace ArrayCalc.Grammar

inductive Operators : List Pending → List Token → Prop where
  | nil : Operators [] []
  | cons {ps ts t o op ls l} (earlier : Operators ps ts)
      (looser : ∀ p ∈ ps.head?, p.tier < op.tier) (left : Derives (.tier t) ls l)
      (sign : Tier.operator? t o = some op) : Operators (.binary op l :: ps) (ts ++ ls ++ [o])

inductive Waiting : List Pending → List Token → Prop where
  | operators {ps ts} (infixes : Operators ps ts) : Waiting ps ts
  | plus {ps ts} (earlier : Waiting ps ts) : Waiting ps (ts ++ [.plus])
  | negate {ps ts} (earlier : Waiting ps ts) : Waiting (.unary .negate :: ps) (ts ++ [.minus])
  | not {ps ts} (earlier : Waiting ps ts) : Waiting (.unary .not :: ps) (ts ++ [.not])
  | power {ps ts bs b} (earlier : Waiting ps ts) (root : Derives .operand bs b) :
      Waiting (.binary .pow b :: ps) (ts ++ bs ++ [.caret])

theorem reduceTight {k : Nat} {p : Pending} (tight : k ≤ p.tier) (e : Expr) (ps : List Pending) :
    Pending.reduce k e (p :: ps) = Pending.reduce k (p.apply e) ps := by
  rw [Pending.reduce,if_pos tight]

theorem reduceLoose {k : Nat} {p : Pending} (loose : ¬k ≤ p.tier) (e : Expr) (ps : List Pending) :
    Pending.reduce k e (p :: ps) = (e,p :: ps) := by
  rw [Pending.reduce,if_neg loose]

theorem operatorsLoose {ps ts} (h : Operators ps ts) : ∀ p ∈ ps.head?, p.tier < 7 := by
  cases h with
  | nil => simp
  | @cons ps ts t o op ls l earlier looser left sign =>
    intro p first
    cases first
    have rank := (operatorTier sign).1
    have bound := (rankPositive t).2
    change op.tier < 7
    omega

theorem reduceSigns {ps ts us e} {k : Nat} (waiting : Waiting ps ts) (value : Derives .unary us e)
    (loose : k ≤ 7) : ∃ qs vs ws x, Pending.reduce k e ps = Pending.reduce k x qs ∧
      Operators qs vs ∧ Derives .unary ws x ∧ ts ++ us = vs ++ ws := by
  induction waiting generalizing us e with
  | @operators ps ts infixes => exact ⟨ps,ts,us,e,rfl,infixes,value,rfl⟩
  | plus earlier ih =>
    obtain ⟨qs,vs,ws,x,same,infixes,derived,spelled⟩ := ih (.plus value)
    exact ⟨qs,vs,ws,x,same,infixes,derived,by simpa using spelled⟩
  | negate earlier ih =>
    obtain ⟨qs,vs,ws,x,same,infixes,derived,spelled⟩ := ih (.negate value)
    exact ⟨qs,vs,ws,x,(reduceTight loose e _).trans same,infixes,derived,by simpa using spelled⟩
  | not earlier ih =>
    obtain ⟨qs,vs,ws,x,same,infixes,derived,spelled⟩ := ih (.not value)
    exact ⟨qs,vs,ws,x,(reduceTight loose e _).trans same,infixes,derived,by simpa using spelled⟩
  | power earlier root ih =>
    obtain ⟨qs,vs,ws,x,same,infixes,derived,spelled⟩ := ih (.unsigned (.power root value))
    have tight : k ≤ BinaryOp.tier .pow := Nat.le_succ_of_le loose
    exact ⟨qs,vs,ws,x,(reduceTight tight e _).trans same,infixes,derived,by simpa using spelled⟩

theorem reduceOperators {ps ts us e} {j k : Nat} (infixes : Operators ps ts)
    (value : Derives (level j) us e) (looser : ∀ p ∈ ps.head?, p.tier < j) (le : k ≤ j) :
    ∃ qs vs ws x, Pending.reduce k e ps = (x,qs) ∧ Operators qs vs ∧
      (∀ p ∈ qs.head?, p.tier < k) ∧ Derives (level k) ws x ∧ ts ++ us = vs ++ ws := by
  induction infixes generalizing us e j with
  | nil => exact ⟨[],[],us,e,rfl,.nil,by simp,loosen value le,rfl⟩
  | @cons ps ts t o op ls l earlier looser' left sign ih =>
    have tight : op.tier < j := looser _ rfl
    have rank := (operatorTier sign).1
    by_cases reduces : k ≤ op.tier
    · have right : Derives t.tighter us e := by
        rw [← levelTighter,← rank]
        exact loosen value tight
      have joined : Derives (level op.tier) (ls ++ o :: us) (.binary op l e) := by
        rw [rank,levelRank]
        exact .operation left sign right
      obtain ⟨qs,vs,ws,x,same,infixes,head,derived,spelled⟩ := ih joined looser' reduces
      exact ⟨qs,vs,ws,x,(reduceTight reduces e ps).trans same,infixes,head,derived,
        by simpa using spelled⟩
    · refine ⟨.binary op l :: ps,ts ++ ls ++ [o],us,e,reduceLoose reduces e ps,
        .cons earlier looser' left sign,?_,loosen value le,rfl⟩
      intro p first
      cases first
      change op.tier < k
      omega

theorem reduceWaiting {ps ts us e} {k : Nat} (waiting : Waiting ps ts) (value : Derives .unary us e)
    (loose : k ≤ 7) : ∃ qs vs ws x, Pending.reduce k e ps = (x,qs) ∧ Operators qs vs ∧
      (∀ p ∈ qs.head?, p.tier < k) ∧ Derives (level k) ws x ∧ ts ++ us = vs ++ ws := by
  obtain ⟨qs,vs,ws,x,same,infixes,derived,spelled⟩ := reduceSigns waiting value loose
  obtain ⟨qs',vs',ws',x',same',infixes',head,derived',spelled'⟩ :=
    reduceOperators (j := 7) infixes derived (operatorsLoose infixes) loose
  exact ⟨qs',vs',ws',x',same.trans same',infixes',head,derived',spelled.trans spelled'⟩

theorem operateWaiting {p : Phrase} {ts us e} (waiting : Waiting p.pending ts)
    (value : Derives .unary us e) : Derives (.tier .or) (ts ++ us) (p.operate e) := by
  obtain ⟨qs,vs,ws,x,same,infixes,head,derived,spelled⟩ :=
    reduceWaiting (k := 0) waiting value (Nat.zero_le _)
  cases infixes with
  | nil =>
    simp only [Phrase.operate,same,spelled]
    exact derived
  | cons => exact absurd (head _ rfl) (Nat.not_lt_zero _)

inductive Chosen : Choice → List Token → Prop where
  | none : Chosen .none []
  | yes {ts c} (condition : Derives .ternary ts c) : Chosen (.yes c) (ts ++ [.question])
  | no {ts us c y} (condition : Derives .ternary ts c) (yes : Derives (.tier .or) us y) :
      Chosen (.no c y) (ts ++ .question :: us ++ [.colon])

def Phrased (p : Phrase) (ts : List Token) : Prop :=
  ∃ cs ps, ts = cs ++ ps ∧ Chosen p.choice cs ∧ Waiting p.pending ps

theorem emptyPhrased : Phrased .empty [] := ⟨[],[],rfl,.none,.operators .nil⟩

theorem closePhrased {p ts us e x} (phrase : Phrased p ts) (value : Derives .unary us e)
    (closed : p.close e = .ok x) : Derives .ternary (ts ++ us) x := by
  obtain ⟨cs,ps,rfl,chosen,waiting⟩ := phrase
  have last := operateWaiting waiting value
  unfold Phrase.close at closed
  generalize p.choice = choice at closed chosen
  cases chosen with
  | none =>
    cases closed
    exact .plain last
  | yes condition => contradiction
  | no condition yes =>
    cases closed
    simpa using Derives.choice condition yes last

inductive OpenItems : List Expr → List Token → Prop where
  | nil : OpenItems [] []
  | cons {ts es} (items : Derives .items ts (.array es)) : OpenItems es.reverse (ts ++ [.comma])

theorem itemsNotEmpty {c ts e} (h : Derives c ts e) (items : c = .items) :
    ∃ es x, e = .array (es ++ [x]) := by
  cases h with
  | item first => exact ⟨[],_,rfl⟩
  | more earlier last => exact ⟨_,_,rfl⟩
  | _ => contradiction

theorem noOpenItems {es ts} (h : OpenItems es ts) (none : es = []) : ts = [] := by
  cases h with
  | nil => rfl
  | cons items =>
    obtain ⟨es,x,same⟩ := itemsNotEmpty items rfl
    cases same
    simp at none

theorem closeItems {es ts us e} (earlier : OpenItems es ts) (last : Derives .ternary us e) :
    Derives .items (ts ++ us) (.array (e :: es).reverse) := by
  cases earlier with
  | nil => exact .item last
  | cons items => simpa using Derives.more items last

inductive Opened : Bracket → List Token → Prop where
  | group : Opened .group [.openParen]
  | index {bs b} (array : Derives .base bs b) : Opened (.index b) (bs ++ [.openBracket])
  | array {es ts} (items : OpenItems es ts) : Opened (.array es) (.openBracket :: ts)
  | call (f) {es ts} (arguments : OpenItems es ts) :
      Opened (.call f es) (.name f :: .openParen :: ts)

inductive Stacked : List (Phrase × Bracket) → List Token → Prop where
  | nil : Stacked [] []
  | cons {s ts p us b vs} (outer : Stacked s ts) (phrase : Phrased p us) (bracket : Opened b vs) :
      Stacked ((p,b) :: s) (ts ++ us ++ vs)

inductive Targeted : List String → List Token → Prop where
  | nil : Targeted [] []
  | cons {ns ts us n} (earlier : Targeted ns ts) (target : Derives .ternary us (.variable n)) :
      Targeted (n :: ns) (ts ++ us ++ [.assign])

theorem assignTargets {ns ts us e} (targets : Targeted ns ts) (value : Assignment us e) :
    Assignment (ts ++ us) (ns.foldl (fun e n => .assign n e) e) := by
  induction targets generalizing us e with
  | nil => exact value
  | cons earlier target ih => simpa using ih (.assign target value)

theorem separatorFree {c ts e} (h : Derives c ts e) : .separator ∉ ts ∧ ts ≠ [] := by
  induction h with
  | operation left sign right leftFree rightFree =>
    have token := (operatorTier sign).2
    refine ⟨?_,by simp⟩
    simp only [List.mem_append,List.mem_cons,not_or]
    refine ⟨leftFree.1,?_,rightFree.1⟩
    rintro rfl
    contradiction
  | _ => simp_all

theorem assignmentSeparatorFree {ts e} (h : Assignment ts e) : .separator ∉ ts ∧ ts ≠ [] := by
  induction h with
  | value derived => exact separatorFree derived
  | assign target value ih =>
    have free := separatorFree target
    simp_all

inductive Done : List Expr → Bool → List Token → Prop where
  | nil : Done [] false []
  | empty {es b ts} (earlier : Done es b ts) : Done es true (ts ++ [.separator])
  | statement {es b ts us e} (earlier : Done es b ts) (last : Assignment us e) :
      Done (e :: es) true (ts ++ us ++ [.separator])

theorem segmentsAfter {ts us : List Token} (free : .separator ∉ us) :
    segments (ts ++ .separator :: us) = segments ts ++ [us] := by
  simp only [segments]
  rw [List.splitOn_append_cons_self,List.splitOn_eq_singleton free]

theorem doneSegments {es b ts} (done : Done es b ts) :
    (b = true ↔ .separator ∈ ts) ∧ ∃ ss, List.Forall₂ Assignment (ss.filter (· ≠ [])) es.reverse ∧
      ∀ us, .separator ∉ us → segments (ts ++ us) = ss ++ [us] := by
  induction done with
  | nil =>
    refine ⟨by simp,[],.nil,fun us free => ?_⟩
    simp only [segments,List.nil_append]
    exact List.splitOn_eq_singleton free
  | @empty es b ts earlier ih =>
    obtain ⟨_,ss,trees,before⟩ := ih
    refine ⟨by simp,ss ++ [[]],by simpa using trees,fun us free => ?_⟩
    have last := before [] (by simp)
    simp only [List.append_nil] at last
    rw [List.append_assoc,List.singleton_append,segmentsAfter free,last]
  | @statement es b ts us e earlier last ih =>
    obtain ⟨_,ss,trees,before⟩ := ih
    have free := assignmentSeparatorFree last
    refine ⟨by simp,ss ++ [us],?_,fun vs later => ?_⟩
    · have kept : [us].filter (· ≠ []) = [us] := by simp [free.2]
      rw [List.filter_append,kept,List.reverse_cons]
      exact List.rel_append trees (.cons last .nil)
    · rw [List.append_assoc,List.singleton_append,segmentsAfter later,before us free.1]

inductive Reached : Cursor → List Token → Prop where
  | start (b) : Reached (.start b) []
  | operand : Reached .operand []
  | firstItem : Reached .firstItem []
  | argument : Reached .argument []
  | name (s) : Reached (.name s) [.name s]
  | value {us e} (value : Derives .closed us e) : Reached (.value e) us

/- Three cursors stand only directly behind a separator, an open array or an open call. -/
def Placed (r : Reader) (b : Bool) (ps : List Token) : Prop :=
  match r.cursor with
  | .start c => c = b ∧ r.targets = [] ∧ r.stack = [] ∧ ps = []
  | .firstItem => ps = [] ∧ ∃ p s, r.stack = (p,.array []) :: s
  | .argument => ps = [] ∧ ∃ p f es s, r.stack = (p,.call f es) :: s
  | _ => True

structure Account (r : Reader) (b : Bool) (ds as ks ps : List Token) : Prop where
  done : Done r.done b ds
  targets : Targeted r.targets as
  stack : Stacked r.stack ks
  phrase : Phrased r.phrase ps

def Spells (r : Reader) (ts : List Token) : Prop :=
  ∃ b ds as ks ps cs, Account r b ds as ks ps ∧ Reached r.cursor cs ∧ Placed r b ps ∧
    ts = ds ++ as ++ ks ++ ps ++ cs

theorem Phrased.wait {p : Phrase} {qs ts us} (phrase : Phrased p ts)
    (waits : ∀ vs, Waiting p.pending vs → Waiting qs (vs ++ us)) :
    Phrased ⟨p.choice,qs⟩ (ts ++ us) := by
  obtain ⟨cs,ps,rfl,chosen,waiting⟩ := phrase
  exact ⟨cs,ps ++ us,by simp,chosen,waits ps waiting⟩

theorem Account.readOperand {r r' : Reader} {b ds as ks ps t} (parts : Account r b ds as ks ps)
    (ok : r.readOperand t = .ok r') : Spells r' (ds ++ as ++ ks ++ ps ++ [t]) := by
  obtain ⟨done,targets,stack,phrase⟩ := parts
  unfold Reader.readOperand at ok
  split at ok
  · cases ok
    exact ⟨b,_,_,_,_,_,⟨done,targets,stack,phrase⟩,.value (.number _),trivial,rfl⟩
  · cases ok
    exact ⟨b,_,_,_,_,_,⟨done,targets,stack,phrase⟩,.value (.text _),trivial,rfl⟩
  · cases ok
    exact ⟨b,_,_,_,_,_,⟨done,targets,stack,phrase⟩,.name _,trivial,rfl⟩
  · cases ok
    exact ⟨b,_,_,_,_,_,⟨done,targets,stack,phrase.wait fun _ => .plus⟩,.operand,trivial,by simp⟩
  · cases ok
    exact ⟨b,_,_,_,_,_,⟨done,targets,stack,phrase.wait fun _ => .negate⟩,.operand,trivial,by simp⟩
  · cases ok
    exact ⟨b,_,_,_,_,_,⟨done,targets,stack,phrase.wait fun _ => .not⟩,.operand,trivial,by simp⟩
  · cases ok
    exact ⟨b,_,_,_,_,_,⟨done,targets,.cons stack phrase .group,emptyPhrased⟩,.operand,trivial,
      by simp⟩
  · cases ok
    exact ⟨b,_,_,_,_,_,⟨done,targets,.cons stack phrase (.array .nil),emptyPhrased⟩,.firstItem,
      ⟨rfl,_,_,rfl⟩,by simp⟩
  · contradiction

theorem Account.endPhrase {r r' : Reader} {b ds as ks ps us e t} (parts : Account r b ds as ks ps)
    (value : Derives .ternary us e) (ok : r.endPhrase e t = .ok r') :
    Spells r' (ds ++ as ++ ks ++ us ++ [t]) := by
  obtain ⟨done,targets,stack,_⟩ := parts
  unfold Reader.endPhrase at ok
  generalize r.stack = brackets at ok stack
  split at ok
  · cases ok
    cases stack
    have last := assignTargets targets (.value value)
    exact ⟨true,_,_,_,_,_,⟨.statement done last,.nil,.nil,emptyPhrased⟩,.start _,⟨rfl,rfl,rfl,rfl⟩,
      by simp⟩
  · split at ok
    · cases ok
      cases stack
      exact ⟨b,_,_,_,_,_,⟨done,.cons targets value,.nil,emptyPhrased⟩,.operand,trivial,by simp⟩
    · contradiction
  · cases ok
    obtain _ | ⟨outer,phrase,⟨⟩⟩ := stack
    exact ⟨b,_,_,_,_,_,⟨done,targets,outer,phrase⟩,.value (.group value),trivial,by simp⟩
  · cases ok
    obtain _ | ⟨outer,phrase,_ | _ | _ | ⟨_,earlier⟩⟩ := stack
    exact ⟨b,_,_,_,_,_,⟨done,targets,outer,phrase⟩,.value (.call _ (closeItems earlier value)),trivial,
      by simp⟩
  · cases ok
    obtain _ | ⟨outer,phrase,_ | _ | _ | ⟨_,earlier⟩⟩ := stack
    have items := OpenItems.cons (closeItems earlier value)
    rw [List.reverse_reverse] at items
    exact ⟨b,_,_,_,_,_,⟨done,targets,.cons outer phrase (.call _ items),emptyPhrased⟩,.argument,
      ⟨rfl,_,_,_,_,rfl⟩,by simp⟩
  · cases ok
    obtain _ | ⟨outer,phrase,_ | _ | ⟨earlier⟩⟩ := stack
    have items := OpenItems.cons (closeItems earlier value)
    rw [List.reverse_reverse] at items
    exact ⟨b,_,_,_,_,_,⟨done,targets,.cons outer phrase (.array items),emptyPhrased⟩,.operand,trivial,
      by simp⟩
  · cases ok
    obtain _ | ⟨outer,phrase,_ | _ | ⟨earlier⟩⟩ := stack
    exact ⟨b,_,_,_,_,_,⟨done,targets,outer,phrase⟩,.value (.array (closeItems earlier value)),trivial,
      by simp⟩
  · cases ok
    obtain _ | ⟨outer,phrase,_ | ⟨array⟩⟩ := stack
    exact ⟨b,_,_,_,_,_,⟨done,targets,outer,phrase⟩,.value (.index array value),trivial,by simp⟩
  · contradiction

theorem Account.readAfter {r r' : Reader} {b ds as ks ps us e t}
    (parts : Account r b ds as ks ps) (value : Derives .operand us e)
    (base : t = .openBracket → Derives .base us e) (ok : r.readAfter e t = .ok r') :
    Spells r' (ds ++ as ++ ks ++ ps ++ us ++ [t]) := by
  obtain ⟨done,targets,stack,phrase⟩ := parts
  have unary : Derives .unary us e := .unsigned (.lone value)
  unfold Reader.readAfter at ok
  split at ok
  · cases ok
    exact ⟨b,_,_,_,_,_,⟨done,targets,.cons stack phrase (.index (base rfl)),emptyPhrased⟩,.operand,
      trivial,by simp⟩
  · cases ok
    have waits : Phrased ⟨r.phrase.choice,.binary .pow e :: r.phrase.pending⟩ (ps ++ (us ++ [.caret])) :=
      phrase.wait fun vs waiting => by simpa using Waiting.power waiting value
    exact ⟨b,_,_,_,_,_,⟨done,targets,stack,waits⟩,.operand,trivial,by simp⟩
  · cases closed : r.phrase.close e with
    | error x => rw [closed] at ok; contradiction
    | ok c =>
      rw [closed] at ok
      cases ok
      have condition := closePhrased phrase unary closed
      have asks : Phrased ⟨.yes c,[]⟩ (ps ++ us ++ [.question]) :=
        ⟨_,[],by simp,.yes condition,.operators .nil⟩
      exact ⟨b,_,_,_,_,_,⟨done,targets,stack,asks⟩,.operand,trivial,by simp⟩
  · obtain ⟨cs,ws,rfl,chosen,waiting⟩ := phrase
    have last := operateWaiting waiting unary
    generalize r.phrase.choice = choice at ok chosen
    cases chosen with
    | none => contradiction
    | no condition yes => contradiction
    | yes condition =>
      cases ok
      have parts := Chosen.no condition last
      exact ⟨b,_,_,_,_,_,⟨done,targets,stack,_,[],(List.append_nil _).symm,parts,.operators .nil⟩,
        .operand,trivial,by simp⟩
  · split at ok
    · rename_i op sign
      obtain ⟨tier,operator,rank⟩ := tierOf sign
      obtain ⟨cs,ws,rfl,chosen,waiting⟩ := phrase
      have bound := (rankPositive tier).2
      obtain ⟨qs,vs,xs,x,same,infixes,looser,left,spelled⟩ :=
        reduceWaiting (k := op.tier) waiting unary (by omega)
      rw [same] at ok
      cases ok
      rw [rank,levelRank] at left
      have next := Waiting.operators (.cons infixes looser left operator)
      refine ⟨b,_,_,_,_,_,⟨done,targets,stack,cs,_,rfl,chosen,next⟩,.operand,trivial,?_⟩
      simp only [List.append_assoc,List.append_nil] at spelled ⊢
      rw [← List.append_assoc ws,spelled,List.append_assoc]
    · cases closed : r.phrase.close e with
      | error x => rw [closed] at ok; contradiction
      | ok c =>
        rw [closed] at ok
        have ended := closePhrased phrase unary closed
        have spells := Account.endPhrase ⟨done,targets,stack,phrase⟩ ended ok
        simpa using spells

theorem initialSpells : Spells .initial [] :=
  ⟨false,[],[],[],[],[],⟨.nil,.nil,.nil,emptyPhrased⟩,.start false,⟨rfl,rfl,rfl,rfl⟩,rfl⟩

theorem closeArguments {es ts} (f : String) (earlier : OpenItems es ts) :
    Derives .closed (.name f :: .openParen :: ts ++ [.closeParen]) (.call f es.reverse) := by
  cases earlier with
  | nil => exact .noArguments f
  | cons items => simpa using Derives.callComma f items

theorem stepSpells {r r' : Reader} {ts t} (spells : Spells r ts) (ok : r.step t = .ok r') :
    Spells r' (ts ++ [t]) := by
  obtain ⟨b,ds,as,ks,ps,cs,parts,reached,placed,rfl⟩ := spells
  unfold Placed at placed
  unfold Reader.step at ok
  generalize cursor : r.cursor = c at ok reached placed
  split at ok
  · cases reached
    cases ok
    obtain ⟨done,targets,stack,phrase⟩ := parts
    obtain ⟨_,noTargets,noStack,rfl⟩ := placed
    rw [noTargets] at targets
    rw [noStack] at stack
    cases targets
    cases stack
    refine ⟨true,_,[],[],[],_,⟨.empty done,?_,?_,phrase⟩,.start true,⟨rfl,noTargets,noStack,rfl⟩,by simp⟩
    · exact noTargets ▸ .nil
    · exact noStack ▸ .nil
  · cases reached
    obtain ⟨rfl,p,s,top⟩ := placed
    simp only [top] at ok
    cases ok
    obtain ⟨done,targets,stack,_⟩ := parts
    rw [top] at stack
    obtain _ | ⟨outer,phrase,_ | _ | ⟨earlier⟩⟩ := stack
    cases noOpenItems earlier rfl
    exact ⟨b,_,_,_,_,_,⟨done,targets,outer,phrase⟩,.value .noItems,trivial,by simp⟩
  · cases reached
    obtain ⟨rfl,p,f,es,s,top⟩ := placed
    simp only [top] at ok
    cases ok
    obtain ⟨done,targets,stack,_⟩ := parts
    rw [top] at stack
    obtain _ | ⟨outer,phrase,_ | _ | _ | ⟨_,earlier⟩⟩ := stack
    exact ⟨b,_,_,_,_,_,⟨done,targets,outer,phrase⟩,.value (closeArguments f earlier),trivial,by simp⟩
  · cases reached
    simpa using parts.readOperand ok
  · cases reached
    simpa using parts.readOperand ok
  · cases reached
    simpa using parts.readOperand ok
  · cases reached
    simpa using parts.readOperand ok
  · cases reached
    cases ok
    obtain ⟨done,targets,stack,phrase⟩ := parts
    exact ⟨b,_,_,_,_,_,⟨done,targets,.cons stack phrase (.call _ .nil),emptyPhrased⟩,.argument,
      ⟨rfl,_,_,_,_,rfl⟩,by simp⟩
  · cases reached
    cases ok
    obtain ⟨done,targets,stack,phrase⟩ := parts
    exact ⟨b,_,_,_,_,_,⟨done,targets,.cons stack phrase (.index (.baseName _)),emptyPhrased⟩,.operand,
      trivial,by simp⟩
  · rename_i s _ notBracket
    cases reached
    exact parts.readAfter (bareName s) (fun same => absurd same notBracket) ok
  · cases reached with
    | value closed => exact parts.readAfter (.operand closed) (fun _ => .base closed) ok

theorem feedSpells {r r' : Reader} {ts us} (spells : Spells r ts)
    (ok : us.foldlM Reader.step r = .ok r') : Spells r' (ts ++ us) := by
  induction us generalizing r ts with
  | nil =>
    cases ok
    simpa using spells
  | cons t us ih =>
    simp only [List.foldlM_cons] at ok
    cases first : r.step t with
    | error x => rw [first] at ok; contradiction
    | ok m =>
      rw [first] at ok
      have rest := ih (stepSpells spells first) ok
      simpa using rest

theorem endStatementProgram {r : Reader} {b ds as ks ps us e es} (parts : Account r b ds as ks ps)
    (value : Derives .operand us e) (ok : r.endStatement e = .ok es) :
    Program (ds ++ as ++ ks ++ ps ++ us) es := by
  obtain ⟨done,targets,stack,phrase⟩ := parts
  unfold Reader.endStatement at ok
  cases closed : r.phrase.close e with
  | error x => rw [closed] at ok; contradiction
  | ok c =>
    rw [closed] at ok
    change (if r.stack.isEmpty = true then Except.ok (r.statement c :: r.done).reverse
      else .error r.refusal) = .ok es at ok
    split at ok
    · rename_i empty
      rw [List.isEmpty_iff.mp empty] at stack
      cases stack
      cases ok
      have ended := closePhrased phrase (.unsigned (.lone value)) closed
      have last := assignTargets targets (.value ended)
      have free := assignmentSeparatorFree last
      obtain ⟨_,ss,trees,before⟩ := doneSegments done
      have cut : segments (ds ++ (as ++ (ps ++ us))) = ss ++ [as ++ (ps ++ us)] := before _ free.1
      refine ⟨(r.statement c :: r.done).reverse,?_,?_⟩
      · have kept : [as ++ (ps ++ us)].filter (· ≠ []) = [as ++ (ps ++ us)] := by
          simpa using free.2
        simp only [List.append_nil,List.append_assoc,cut,List.filter_append]
        rw [kept,List.reverse_cons]
        exact List.rel_append trees (.cons last .nil)
      · have full : as ++ (ps ++ us) ≠ [] := free.2
        simp only [List.append_nil,List.append_assoc,cut,List.getLast?_concat,Option.some.injEq]
        simp [full]
    · contradiction

theorem finishProgram {r : Reader} {ts es} (spells : Spells r ts) (ok : r.finish = .ok es) :
    Program ts es := by
  obtain ⟨b,ds,as,ks,ps,cs,parts,reached,placed,rfl⟩ := spells
  unfold Placed at placed
  unfold Reader.finish at ok
  generalize r.cursor = c at ok reached placed
  cases reached with
  | start separated =>
    cases ok
    obtain ⟨done,targets,stack,phrase⟩ := parts
    obtain ⟨rfl,noTargets,noStack,rfl⟩ := placed
    rw [noTargets] at targets
    rw [noStack] at stack
    cases targets
    cases stack
    obtain ⟨flag,ss,trees,before⟩ := doneSegments done
    have cut := before [] (by simp)
    simp only [List.append_nil] at cut ⊢
    refine ⟨r.done.reverse,by simpa [cut] using trees,?_⟩
    simp [cut,flag]
  | operand => contradiction
  | firstItem => contradiction
  | argument => contradiction
  | name s => exact endStatementProgram parts (bareName s) ok
  | value closed => exact endStatementProgram parts (.operand closed) ok

theorem readTokensSound {ts es} (ok : readTokens ts = .ok es) : Program ts es := by
  unfold readTokens at ok
  cases fed : ts.foldlM Reader.step Reader.initial with
  | error x => rw [fed] at ok; contradiction
  | ok r =>
    rw [fed] at ok
    have spells := feedSpells initialSpells fed
    exact finishProgram spells ok

end ArrayCalc.Grammar
