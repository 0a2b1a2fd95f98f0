import ArrayCalc.Proofs.GrammarSound
/-! What the grammar derives is read, with the derived tree. Reading a phrase leaves the reader as it
was, but for operators that still wait: once applied to the last operand they give the tree. -/
namespace ArrayCalc

namespace Reader

def feed (r : Reader) (ts : List Token) : Except GrammarError Reader := ts.foldlM step r

def Awaits (r : Reader) : Prop :=
  match r.cursor with
  | .name _ | .value _ => False
  | _ => True

def holding (r : Reader) (qs : List Pending) (c : Cursor) : Reader :=
  { r with phrase := ⟨r.phrase.choice,qs ++ r.phrase.pending⟩, cursor := c }

theorem feedAppend {r m : Reader} {ts us : List Token} (first : r.feed ts = .ok m) :
    r.feed (ts ++ us) = m.feed us := by
  simp only [feed,List.foldlM_append] at first ⊢
  rw [first]
  rfl

theorem feedCons {r m : Reader} {t : Token} {us : List Token} (first : r.step t = .ok m) :
    r.feed (t :: us) = m.feed us := by
  simp only [feed,List.foldlM_cons,first]
  rfl

theorem feedNil (r : Reader) : r.feed [] = .ok r := rfl

theorem stepOperand {r : Reader} {t : Token} (awaits : r.Awaits)
    (starts : t ≠ .separator ∧ t ≠ .closeBracket ∧ t ≠ .closeParen) : r.step t = r.readOperand t := by
  unfold Awaits at awaits
  unfold step
  generalize r.cursor = c at awaits
  split
  · exact absurd rfl starts.1
  · exact absurd rfl starts.2.1
  · exact absurd rfl starts.2.2
  all_goals first | rfl | exact awaits.elim

end Reader

namespace Grammar
open Reader

inductive Stands : Cursor → Expr → Prop where
  | value (e) : Stands (.value e) e
  | name (s) : Stands (.name s) (ofName s)

theorem stepAfter {r : Reader} {e : Expr} {t : Token} (stands : Stands r.cursor e)
    (opens : t ≠ .openParen ∧ t ≠ .openBracket) : r.step t = r.readAfter e t := by
  generalize cursor : r.cursor = c at stands
  cases stands with
  | value e => simp only [step,cursor]
  | name s =>
    unfold step
    simp only [cursor]
    split
    all_goals simp_all

theorem stepEnd {r : Reader} {x e : Expr} {t : Token} (stands : Stands r.cursor x)
    (closed : r.phrase.close x = .ok e)
    (ends : t = .closeParen ∨ t = .closeBracket ∨ t = .comma ∨ t = .separator ∨ t = .assign) :
    r.step t = r.endPhrase e t := by
  have after : r.step t = r.readAfter x t :=
    stepAfter stands (by rcases ends with rfl | rfl | rfl | rfl | rfl <;> decide)
  rw [after]
  rcases ends with rfl | rfl | rfl | rfl | rfl
  all_goals
    simp only [readAfter,BinaryOp.ofToken?,closed]
    rfl

def applyAll (qs : List Pending) (e : Expr) : Expr := qs.foldl (fun e p => p.apply e) e

theorem reduceAll {k : Nat} {qs ps : List Pending} (e : Expr) (tight : ∀ p ∈ qs, k ≤ p.tier)
    (loose : ∀ p ∈ ps.head?, p.tier < k) : Pending.reduce k e (qs ++ ps) = (applyAll qs e,ps) := by
  induction qs generalizing e with
  | nil =>
    cases ps with
    | nil => rfl
    | cons p ps => exact reduceLoose (Nat.not_le_of_lt (loose p rfl)) e ps
  | cons q qs ih =>
    rw [List.cons_append,reduceTight (tight q List.mem_cons_self)]
    exact ih (q.apply e) fun p member => tight p (List.mem_cons_of_mem _ member)

theorem operateAll (c : Choice) (qs : List Pending) (e : Expr) :
    Phrase.operate ⟨c,qs⟩ e = applyAll qs e := by
  have reduced : Pending.reduce 0 e (qs ++ []) = (applyAll qs e,[]) :=
    reduceAll e (fun p _ => Nat.zero_le _) (by simp)
  rw [List.append_nil] at reduced
  simp only [Phrase.operate,reduced]

/- Reading `ts` leaves operators of tier `k` or tighter; applied, they give the tree `e`. -/
def Holds (k : Nat) (ts : List Token) (e : Expr) (r : Reader) : Prop :=
  ∃ qs c x, r.feed ts = .ok (r.holding qs c) ∧ Stands c x ∧ applyAll qs x = e ∧ ∀ p ∈ qs, k ≤ p.tier

def Readable : Category → List Token → Expr → Prop
  | .closed, ts, e => ∀ r : Reader, r.Awaits → r.feed ts = .ok { r with cursor := .value e }
  | .base, ts, e => ∀ r : Reader, r.Awaits → ∃ c, r.feed ts = .ok { r with cursor := c } ∧
    (c = .value e ∨ ∃ s, c = .name s ∧ e = .variable s)
  | .operand, ts, e => ∀ r : Reader, r.Awaits → ∃ c, r.feed ts = .ok { r with cursor := c } ∧ Stands c e
  | .power, ts, e => ∀ r : Reader, r.Awaits → Holds 7 ts e r
  | .unary, ts, e => ∀ r : Reader, r.Awaits → Holds 7 ts e r
  | .tier t, ts, e => ∀ r : Reader, r.Awaits → (∀ p ∈ r.phrase.pending.head?, p.tier < t.rank) →
    Holds t.rank ts e r
  | .ternary, ts, e => ∀ r : Reader, r.Awaits → r.phrase = .empty →
    ∃ p c x, r.feed ts = .ok { r with phrase := p, cursor := c } ∧ Stands c x ∧ p.close x = .ok e
  | .items, ts, e => ∀ (r : Reader) (make : List Expr → Bracket) q es s,
    (make = .array ∨ ∃ f, make = .call f) → r.Awaits → r.phrase = .empty →
    r.stack = (q,make es) :: s →
    ∃ init last p c x, e = .array (init ++ [last]) ∧
      r.feed ts = .ok { r with stack := (q,make (init.reverse ++ es)) :: s, phrase := p, cursor := c } ∧
      Stands c x ∧ p.close x = .ok last

theorem Holds.loosen {j k : Nat} {ts e r} (h : Holds k ts e r) (le : j ≤ k) : Holds j ts e r := by
  obtain ⟨qs,c,x,fed,stands,applied,tight⟩ := h
  exact ⟨qs,c,x,fed,stands,applied,fun p member => Nat.le_trans le (tight p member)⟩

theorem readableTighter {t : Tier} {ts e} (h : Readable t.tighter ts e) {r : Reader} (awaits : r.Awaits)
    (loose : ∀ p ∈ r.phrase.pending.head?, p.tier < t.rank + 1) : Holds (t.rank + 1) ts e r := by
  cases t with
  | multiplicative => exact h r awaits
  | _ => exact h r awaits loose

theorem Holds.below {k : Nat} {ts e} {r : Reader} {q : Pending}
    (h : Holds k ts e (r.holding [q] .operand)) (tight : k ≤ q.tier) {us vs}
    (first : r.feed us = .ok (r.holding [q] .operand)) (joined : vs = us ++ ts) :
    Holds k vs (q.apply e) r := by
  obtain ⟨qs,c,x,fed,stands,applied,others⟩ := h
  refine ⟨qs ++ [q],c,x,?_,stands,?_,?_⟩
  · rw [joined,feedAppend first,fed]
    simp [holding]
  · simp only [applyAll,List.foldl_append] at applied ⊢
    rw [applied]
    rfl
  · intro p member
    rcases List.mem_append.mp member with inner | last
    · exact others p inner
    · cases List.mem_singleton.mp last
      exact tight

theorem readPlain {ts e} (h : Readable (.tier .or) ts e) : Readable .ternary ts e := by
  intro r awaits empty
  have loose : ∀ p ∈ r.phrase.pending.head?, p.tier < Tier.or.rank := by simp [empty,Phrase.empty]
  obtain ⟨qs,c,x,fed,stands,applied,_⟩ := h r awaits loose
  refine ⟨_,c,x,fed,stands,?_⟩
  simp only [empty,Phrase.empty,Phrase.close,operateAll,List.append_nil,applied]

theorem readChoice {cs ys ns c y n} (condition : Readable .ternary cs c)
    (yes : Readable (.tier .or) ys y) (no : Readable (.tier .or) ns n) :
    Readable .ternary (cs ++ .question :: ys ++ .colon :: ns) (.select c y n) := by
  intro r awaits empty
  obtain ⟨p,d,x,fed,stands,closed⟩ := condition r awaits empty
  let asked : Reader := { r with phrase := ⟨.yes c,[]⟩, cursor := .operand }
  have ask : Reader.step { r with phrase := p, cursor := d } .question = .ok asked := by
    rw [stepAfter stands (by decide)]
    simp only [readAfter,closed]
    rfl
  obtain ⟨qs,d',x',fed',stands',applied,_⟩ := yes asked trivial (by simp [asked])
  let told : Reader := { r with phrase := ⟨.no c y,[]⟩, cursor := .operand }
  have tell : (asked.holding qs d').step .colon = .ok told := by
    rw [stepAfter stands' (by decide)]
    simp only [readAfter,holding,asked,operateAll,List.append_nil,applied]
    rfl
  obtain ⟨qs',d'',x'',fed'',stands'',applied',_⟩ := no told trivial (by simp [told])
  refine ⟨⟨.no c y,qs'⟩,d'',x'',?_,stands'',?_⟩
  · rw [List.append_assoc,feedAppend fed,List.cons_append,feedCons ask,feedAppend fed',feedCons tell,fed'']
    simp [holding,told]
  · simp only [Phrase.close,operateAll,applied']

theorem readOperation {t : Tier} {o op ls rs l r} (left : Readable (.tier t) ls l)
    (sign : t.operator? o = some op) (right : Readable t.tighter rs r) :
    Readable (.tier t) (ls ++ o :: rs) (.binary op l r) := by
  intro m awaits loose
  obtain ⟨rank,token⟩ := operatorTier sign
  obtain ⟨qs,c,x,fed,stands,applied,tight⟩ := left m awaits loose
  have opens : o ≠ .openParen ∧ o ≠ .openBracket := by
    constructor <;> rintro rfl <;> contradiction
  have reads : (m.holding qs c).step o = .ok (m.holding [.binary op l] .operand) := by
    rw [stepAfter stands opens]
    have reduced : Pending.reduce op.tier x (qs ++ m.phrase.pending) = (l,m.phrase.pending) := by
      rw [rank,reduceAll x tight loose,applied]
    unfold readAfter
    split <;> first | contradiction | skip
    simp only [token,holding,reduced]
    rfl
  have next : ∀ p ∈ (m.holding [.binary op l] .operand).phrase.pending.head?, p.tier < t.rank + 1 := by
    intro p first
    cases first
    change op.tier < t.rank + 1
    omega
  have waits : (m.holding [.binary op l] .operand).Awaits := trivial
  have rest := (readableTighter right waits next).loosen (Nat.le_succ _)
  have fedAll : m.feed (ls ++ [o]) = .ok (m.holding [.binary op l] .operand) := by
    rw [feedAppend fed,feedCons reads,feedNil]
  exact rest.below (by change t.rank ≤ op.tier; omega) fedAll (by simp)

theorem readPlus {ts e} (inner : Readable .unary ts e) : Readable .unary (.plus :: ts) e := by
  intro r awaits
  have signed : r.step .plus = .ok { r with cursor := .operand } := stepOperand awaits (by decide)
  obtain ⟨qs,c,x,fed,stands,applied,tight⟩ := inner { r with cursor := .operand } trivial
  refine ⟨qs,c,x,?_,stands,applied,tight⟩
  rw [feedCons signed,fed]
  rfl

theorem readSign {t op ts e} (inner : Readable .unary ts e)
    (sign : ∀ r : Reader, r.Awaits → r.step t = .ok (r.wait (.unary op))) :
    Readable .unary (t :: ts) (.unary op e) := by
  intro r awaits
  have fed : r.feed [t] = .ok (r.holding [.unary op] .operand) := by
    rw [feedCons (sign r awaits),feedNil]
    rfl
  exact (inner (r.holding [.unary op] .operand) trivial).below (Nat.le_refl 7) fed rfl

theorem readLone {ts e} (inner : Readable .operand ts e) : Readable .power ts e := by
  intro r awaits
  obtain ⟨c,fed,stands⟩ := inner r awaits
  exact ⟨[],c,e,fed,stands,rfl,by simp⟩

theorem readPower {bs xs b x} (root : Readable .operand bs b) (exponent : Readable .unary xs x) :
    Readable .power (bs ++ .caret :: xs) (.binary .pow b x) := by
  intro r awaits
  obtain ⟨c,fed,stands⟩ := root r awaits
  have raised : Reader.step { r with cursor := c } .caret = .ok (r.holding [.binary .pow b] .operand) :=
    stepAfter stands (by decide)
  have fedAll : r.feed (bs ++ [.caret]) = .ok (r.holding [.binary .pow b] .operand) := by
    rw [feedAppend fed,feedCons raised,feedNil]
  have rest := exponent (r.holding [.binary .pow b] .operand) trivial
  exact rest.below (Nat.le_succ 7) fedAll (by simp)

theorem readName {r : Reader} (awaits : r.Awaits) (s : String) :
    r.feed [.name s] = .ok { r with cursor := .name s } := by
  have named : r.step (.name s) = .ok { r with cursor := .name s } :=
    stepOperand awaits ⟨nofun,nofun,nofun⟩
  rw [feedCons named,feedNil]

theorem readVariable {s e} (same : ofName s = e) : Readable .operand [.name s] e := by
  intro r awaits
  exact ⟨.name s,readName awaits s,same ▸ .name s⟩

theorem readIndex {bs is b i} (array : Readable .base bs b) (position : Readable .ternary is i) :
    Readable .closed (bs ++ .openBracket :: is ++ [.closeBracket]) (.binary .index b i) := by
  intro r awaits
  obtain ⟨c,fed,based⟩ := array r awaits
  have opened : Reader.step { r with cursor := c } .openBracket =
      .ok (r.openBracket (.index b) .operand) := by
    rcases based with rfl | ⟨s,rfl,rfl⟩ <;> rfl
  obtain ⟨p,d,x,fed',stands,closed⟩ := position (r.openBracket (.index b) .operand) trivial rfl
  rw [List.append_assoc,feedAppend fed,List.cons_append,feedCons opened,feedAppend fed']
  have ended := stepEnd (r := { r.openBracket (.index b) .operand with phrase := p, cursor := d })
    (t := .closeBracket) stands closed (by decide)
  rw [feedCons (ended.trans rfl),feedNil]
  rfl

theorem readGroup {ts e} (inner : Readable .ternary ts e) :
    Readable .closed (.openParen :: ts ++ [.closeParen]) e := by
  intro r awaits
  have opened : r.step .openParen = .ok (r.openBracket .group .operand) :=
    stepOperand awaits (by decide)
  obtain ⟨p,d,x,fed,stands,closed⟩ := inner (r.openBracket .group .operand) trivial rfl
  rw [List.cons_append,feedCons opened,feedAppend fed]
  have ended := stepEnd (r := { r.openBracket .group .operand with phrase := p, cursor := d })
    (t := .closeParen) stands closed (by decide)
  rw [feedCons (ended.trans rfl),feedNil]
  rfl

theorem readItem {ts e} (first : Readable .ternary ts e) : Readable .items ts (.array [e]) := by
  intro r make q es s _ awaits empty top
  obtain ⟨p,c,x,fed,stands,closed⟩ := first r awaits empty
  refine ⟨[],e,p,c,x,rfl,?_,stands,closed⟩
  rw [fed]
  simp [← top]

theorem commaStep {r : Reader} {make : List Expr → Bracket} {q es s x e}
    (makes : make = .array ∨ ∃ f, make = .call f) (top : r.stack = (q,make es) :: s)
    (stands : Stands r.cursor x) (closed : r.phrase.close x = .ok e) :
    ∃ c, r.step .comma =
      .ok { r with stack := (q,make (e :: es)) :: s, phrase := .empty, cursor := c } ∧
      Reader.Awaits { r with stack := (q,make (e :: es)) :: s, phrase := .empty, cursor := c } := by
  rw [stepEnd stands closed (by decide)]
  rcases makes with rfl | ⟨f,rfl⟩
  · exact ⟨.operand,by simp only [endPhrase,top],trivial⟩
  · exact ⟨.argument,by simp only [endPhrase,top],trivial⟩

theorem readMore {ts us es e} (earlier : Readable .items ts (.array es))
    (last : Readable .ternary us e) :
    Readable .items (ts ++ .comma :: us) (.array (es ++ [e])) := by
  intro r make q before s makes awaits empty top
  obtain ⟨init,item,p,c,x,same,fed,stands,closed⟩ := earlier r make q before s makes awaits empty top
  cases same
  obtain ⟨c',comma,waits⟩ := commaStep (r := { r with
    stack := (q,make (init.reverse ++ before)) :: s, phrase := p, cursor := c })
    makes rfl stands closed
  obtain ⟨p',d,x',fed',stands',closed'⟩ := last _ waits rfl
  refine ⟨init ++ [item],e,p',d,x',rfl,?_,stands',closed'⟩
  rw [feedAppend fed,feedCons comma,fed']
  simp

theorem readArray {ts es} (items : Readable .items ts (.array es)) :
    Readable .closed (.openBracket :: ts ++ [.closeBracket]) (.array es) := by
  intro r awaits
  have opened : r.step .openBracket = .ok (r.openBracket (.array []) .firstItem) :=
    stepOperand awaits (by decide)
  obtain ⟨init,last,p,c,x,same,fed,stands,closed⟩ :=
    items (r.openBracket (.array []) .firstItem) .array r.phrase [] r.stack (.inl rfl) trivial rfl rfl
  cases same
  rw [List.cons_append,feedCons opened,feedAppend fed]
  rw [feedCons ((stepEnd (t := .closeBracket) stands closed (by decide)).trans rfl),feedNil]
  simp [resume,openBracket]

theorem readNoItems : Readable .closed [.openBracket,.closeBracket] (.array []) := by
  intro r awaits
  have opened : r.step .openBracket = .ok (r.openBracket (.array []) .firstItem) :=
    stepOperand awaits (by decide)
  rw [feedCons opened]
  rfl

theorem callStep (r : Reader) (f : String) : Reader.step { r with cursor := .name f } .openParen =
    .ok (r.openBracket (.call f []) .argument) := rfl

theorem readNoArguments (f : String) :
    Readable .closed [.name f,.openParen,.closeParen] (.call f []) := by
  intro r awaits
  change r.feed ([.name f] ++ [.openParen,.closeParen]) = _
  rw [feedAppend (readName awaits f),feedCons (callStep r f)]
  rfl

theorem readCall (f : String) {ts es} (arguments : Readable .items ts (.array es)) :
    Readable .closed (.name f :: .openParen :: ts ++ [.closeParen]) (.call f es) := by
  intro r awaits
  obtain ⟨init,last,p,c,x,same,fed,stands,closed⟩ :=
    arguments (r.openBracket (.call f []) .argument) (.call f) r.phrase [] r.stack (.inr ⟨f,rfl⟩)
      trivial rfl rfl
  cases same
  change r.feed ([.name f] ++ .openParen :: (ts ++ [.closeParen])) = _
  rw [feedAppend (readName awaits f),feedCons (callStep r f),feedAppend fed]
  rw [feedCons ((stepEnd (t := .closeParen) stands closed (by decide)).trans rfl),feedNil]
  simp [resume,openBracket]

theorem readCallComma (f : String) {ts es} (arguments : Readable .items ts (.array es)) :
    Readable .closed (.name f :: .openParen :: ts ++ [.comma,.closeParen]) (.call f es) := by
  intro r awaits
  obtain ⟨init,last,p,c,x,same,fed,stands,closed⟩ :=
    arguments (r.openBracket (.call f []) .argument) (.call f) r.phrase [] r.stack (.inr ⟨f,rfl⟩)
      trivial rfl rfl
  cases same
  change r.feed ([.name f] ++ .openParen :: (ts ++ [.comma,.closeParen])) = _
  rw [feedAppend (readName awaits f),feedCons (callStep r f),feedAppend fed]
  rw [feedCons ((stepEnd (t := .comma) stands closed (by decide)).trans rfl)]
  simp [feed,step,resume,openBracket]

theorem derivesReadable {c ts e} (h : Derives c ts e) : Readable c ts e := by
  induction h with
  | plain _ ih => exact readPlain ih
  | choice _ _ _ condition yes no => exact readChoice condition yes no
  | tight _ ih =>
    intro r awaits loose
    have tighter := readableTighter ih awaits fun p first => Nat.lt_succ_of_lt (loose p first)
    exact tighter.loosen (Nat.le_succ _)
  | operation _ sign _ left right => exact readOperation left sign right
  | plus _ ih => exact readPlus ih
  | negate _ ih => exact readSign ih fun r awaits => stepOperand awaits (by decide)
  | not _ ih => exact readSign ih fun r awaits => stepOperand awaits (by decide)
  | unsigned _ ih => exact ih
  | lone _ ih => exact readLone ih
  | power _ _ root exponent => exact readPower root exponent
  | operand _ ih => exact fun r awaits => ⟨_,ih r awaits,.value _⟩
  | trueName => exact readVariable rfl
  | falseName => exact readVariable rfl
  | variableName s ordinary =>
    refine readVariable ?_
    rw [ofName,if_neg ordinary.1,if_neg ordinary.2]
  | base _ ih => exact fun r awaits => ⟨_,ih r awaits,.inl rfl⟩
  | baseName s => exact fun r awaits => ⟨_,readName awaits s,.inr ⟨s,rfl,rfl⟩⟩
  | index _ _ array position => exact readIndex array position
  | number x => exact fun r awaits => feedCons (stepOperand awaits ⟨nofun,nofun,nofun⟩)
  | text s => exact fun r awaits => feedCons (stepOperand awaits ⟨nofun,nofun,nofun⟩)
  | group _ ih => exact readGroup ih
  | noItems => exact readNoItems
  | array _ ih => exact readArray ih
  | noArguments f => exact readNoArguments f
  | call f _ ih => exact readCall f ih
  | callComma f _ ih => exact readCallComma f ih
  | item _ ih => exact readItem ih
  | more _ _ earlier last => exact readMore earlier last

theorem readAssignment {ts e} (h : Assignment ts e) (r : Reader) (awaits : r.Awaits)
    (empty : r.phrase = .empty) (outer : r.stack = []) :
    ∃ ns p c x y, r.feed ts = .ok { r with targets := ns, phrase := p, cursor := c } ∧
      Stands c x ∧ p.close x = .ok y ∧ ns.foldl (fun e n => .assign n e) y = r.statement e := by
  induction h generalizing r with
  | value derived =>
    obtain ⟨p,c,x,fed,stands,closed⟩ := derivesReadable derived r awaits empty
    exact ⟨r.targets,p,c,x,_,fed,stands,closed,rfl⟩
  | @assign ts us n e target value ih =>
    obtain ⟨p,c,x,fed,stands,closed⟩ := derivesReadable target r awaits empty
    have assigned : Reader.step { r with phrase := p, cursor := c } .assign =
        .ok { r with targets := n :: r.targets, phrase := .empty, cursor := .operand } := by
      rw [stepEnd stands closed (by decide)]
      simp only [endPhrase,outer]
    obtain ⟨ns,q,d,y,z,fed',stands',closed',same⟩ :=
      ih { r with targets := n :: r.targets, phrase := .empty, cursor := .operand } trivial rfl outer
    refine ⟨ns,q,d,y,z,?_,stands',closed',same⟩
    rw [feedAppend fed,feedCons assigned,fed']

theorem finishStanding {r : Reader} {x e} (stands : Stands r.cursor x)
    (closed : r.phrase.close x = .ok e) (outer : r.stack = []) :
    r.finish = .ok (r.statement e :: r.done).reverse := by
  have ended : r.endStatement x = .ok (r.statement e :: r.done).reverse := by
    simp only [endStatement,closed,outer]
    rfl
  generalize cursor : r.cursor = c at stands
  cases stands with
  | value x => simpa only [finish,cursor] using ended
  | name s => simpa only [finish,cursor] using ended

def between (done : List Expr) (separated : Bool) : Reader := ⟨done,[],[],.empty,.start separated⟩

theorem readStatement {ts e} (h : Assignment ts e) (done : List Expr) (b : Bool) :
    ∃ r, (between done b).feed ts = .ok r ∧ r.step .separator = .ok (between (e :: done) true) ∧
      r.finish = .ok (e :: done).reverse := by
  obtain ⟨ns,p,c,x,y,fed,stands,closed,same⟩ := readAssignment h (between done b) trivial rfl rfl
  refine ⟨_,fed,?_,?_⟩
  · rw [stepEnd stands closed (by decide)]
    simp only [endPhrase,statement,same]
    rfl
  · rw [finishStanding stands closed rfl]
    simp only [statement,same]
    rfl

theorem leadingSegment {s : List Token} {ss trees}
    (h : List.Forall₂ Assignment ((s :: ss).filter (· ≠ [])) trees) :
    (s = [] ∧ List.Forall₂ Assignment (ss.filter (· ≠ [])) trees) ∨
      ∃ e later, trees = e :: later ∧ Assignment s e ∧
        List.Forall₂ Assignment (ss.filter (· ≠ [])) later := by
  by_cases empty : s = []
  · exact .inl ⟨empty,by simpa [empty] using h⟩
  · rw [List.filter_cons_of_pos (by simpa using empty)] at h
    cases h with
    | cons first later => exact .inr ⟨_,_,rfl,first,later⟩

theorem readSegments {s : List Token} {ss trees}
    (statements : List.Forall₂ Assignment ((s :: ss).filter (· ≠ [])) trees) (done : List Expr)
    (b : Bool) : ∃ r, (between done b).feed ([.separator].intercalate (s :: ss)) = .ok r ∧
      r.finish = .ok (done.reverse ++ (trees ++
        if (b = true ∨ .separator ∈ [Token.separator].intercalate (s :: ss)) ∧
          (s :: ss).getLast? = some [] then [.empty] else [])) := by
  induction ss generalizing s trees done b with
  | nil =>
    obtain ⟨rfl,none⟩ | ⟨e,later,rfl,first,none⟩ := leadingSegment statements
    · cases none
      exact ⟨between done b,rfl,by simp [finish,between]⟩
    · cases none
      obtain ⟨r,fed,_,finished⟩ := readStatement first done b
      have full := (assignmentSeparatorFree first).2
      exact ⟨r,by simpa using fed,by simpa [full] using finished⟩
  | cons s' ss ih =>
    rw [List.intercalate_cons_cons,List.append_assoc,List.singleton_append]
    have flag : .separator ∈ s ++ .separator :: [Token.separator].intercalate (s' :: ss) := by simp
    simp only [flag,or_true,true_and,List.getLast?_cons_cons]
    obtain ⟨rfl,rest⟩ | ⟨e,later,rfl,first,rest⟩ := leadingSegment statements
    · obtain ⟨r,fed,finished⟩ := ih rest done true
      exact ⟨r,(feedCons rfl).trans fed,by simpa using finished⟩
    · obtain ⟨m,fedFirst,separated,_⟩ := readStatement first done b
      obtain ⟨r,fed,finished⟩ := ih rest (e :: done) true
      exact ⟨r,((feedAppend fedFirst).trans (feedCons separated)).trans fed,by simpa using finished⟩

theorem readTokensComplete {ts es} (h : Program ts es) : readTokens ts = .ok es := by
  obtain ⟨trees,statements,rfl⟩ := h
  have joined : [Token.separator].intercalate (segments ts) = ts := List.intercalate_splitOn _
  cases cut : segments ts with
  | nil => exact absurd cut (List.splitOn_ne_nil _ _)
  | cons s ss =>
    rw [cut] at statements joined
    obtain ⟨r,fed,finished⟩ := readSegments statements [] false
    rw [joined] at fed finished
    have read : readTokens ts = r.finish := by
      change (Reader.initial.feed ts >>= finish) = _
      rw [show Reader.initial.feed ts = .ok r from fed]
      rfl
    rw [read,finished]
    simp

theorem readTokensIff {ts es} : readTokens ts = .ok es ↔ Program ts es :=
  ⟨readTokensSound,readTokensComplete⟩

end Grammar

theorem runOk {size : Nat} {r : Reader} {ls es} : r.run size ls = .ok es ↔
    ∃ ts, ls.map Lexeme.token = ts.map .ok ∧ (r.feed ts >>= Reader.finish) = .ok es := by
  induction ls generalizing r with
  | nil =>
    have mapped : r.run size [] = .ok es ↔ r.finish = .ok es := by
      rw [Reader.run]
      cases r.finish <;> simp [Except.mapError]
    rw [mapped]
    constructor
    · exact fun finished => ⟨[],rfl,finished⟩
    · rintro ⟨ts,none,finished⟩
      cases List.map_eq_nil_iff.mp none.symm
      exact finished
  | cons l ls ih =>
    rw [Reader.run]
    constructor
    · intro ok
      split at ok
      · contradiction
      · rename_i t token
        split at ok
        · contradiction
        · rename_i m next
          obtain ⟨ts,rest,finished⟩ := ih.mp ok
          refine ⟨t :: ts,by simp [token,rest],?_⟩
          rwa [Reader.feedCons next]
    · rintro ⟨_ | ⟨t,ts⟩,same,finished⟩
      · contradiction
      · obtain ⟨token,rest⟩ := List.cons.inj same
        simp only [token]
        cases next : r.step t with
        | error x =>
          simp only [Reader.feed,List.foldlM_cons,next] at finished
          contradiction
        | ok m =>
          rw [Reader.feedCons next] at finished
          exact ih.mpr ⟨ts,rest,finished⟩

theorem parseProgram {source : String} {es} : parse source = .ok es ↔
    ∃ ts, (lexemes source).map Lexeme.token = ts.map .ok ∧ Grammar.Program ts es := by
  rw [parse,runOk]
  exact exists_congr fun ts => and_congr_right fun _ => Grammar.readTokensIff

theorem parsedTokens {source : String} {es} (ts : List Token)
    (lexed : (lexemes source).map Lexeme.token = ts.map .ok) (read : readTokens ts = .ok es) :
    parse source = .ok es := parseProgram.mpr ⟨ts,lexed,Grammar.readTokensIff.mp read⟩

theorem tokensRead {source : String} {ts} : (lexemes source).map Lexeme.token = ts.map .ok ↔
    ∃ ps, tokens source = .ok ps ∧ ps.map Prod.fst = ts := by
  unfold tokens
  induction lexemes source generalizing ts with
  | nil =>
    cases ts <;> simp [pure,Except.pure]
  | cons l ls ih =>
    obtain ⟨token,span⟩ := l
    rw [List.mapM_cons,List.map_cons]
    constructor
    · intro same
      cases ts with
      | nil => contradiction
      | cons t ts =>
        obtain ⟨first,rest⟩ := List.cons.inj same
        obtain ⟨ps,placed,names⟩ := ih.mp rest
        cases first
        exact ⟨(t,span) :: ps,by rw [placed]; rfl,by simp [names]⟩
    · rintro ⟨ps,placed,rfl⟩
      cases token with
      | error e => contradiction
      | ok t =>
        simp only [bind,Except.bind] at placed
        split at placed
        · contradiction
        · rename_i qs rest
          cases placed
          simp [ih.mpr ⟨qs,rest,rfl⟩]

open Grammar in
theorem parseGrammar :
    (∀ ts es, readTokens ts = .ok es ↔ Program ts es) ∧
    ∀ source es, parse source = .ok es ↔
      ∃ ps, tokens source = .ok ps ∧ Program (ps.map Prod.fst) es := by
  refine ⟨fun _ _ => readTokensIff,fun source es => ?_⟩
  rw [parse,runOk]
  constructor
  · rintro ⟨ts,same,read⟩
    obtain ⟨ps,placed,rfl⟩ := tokensRead.mp same
    exact ⟨ps,placed,readTokensSound read⟩
  · rintro ⟨ps,placed,program⟩
    exact ⟨_,tokensRead.mpr ⟨ps,placed,rfl⟩,readTokensComplete program⟩

end ArrayCalc
