import ArrayCalc.Error
import ArrayCalc.Proofs.GrammarComplete
/-! Expressions written as tokens. Every operand has a slot, the loosest tier that may stand there as it
is; only what is looser is put in parentheses. The tiers are choices (0), the infix operators (1 to 6),
signs (7) and powers (8); leaves and elements are tighter than all of these. Truth values (9) come before
the other leaves (10), as `true[i]` would be an element of a variable. Read back, the tokens of an
expression give the expression. -/
namespace ArrayCalc

def UnaryOp.token : UnaryOp → Token
  | .negate => .minus
  | .not => .not

namespace BinaryOp

def token : BinaryOp → Token
  | .add => .plus
  | .sub => .minus
  | .mul => .star
  | .div => .slash
  | .pow => .caret
  | .less => .less
  | .lessEqual => .lessEqual
  | .greater => .greater
  | .greaterEqual => .greaterEqual
  | .equal => .equal
  | .notEqual => .notEqual
  | .and => .and
  | .or => .or
  | .index => .openBracket

def closing : BinaryOp → List Token
  | .index => [.closeBracket]
  | _ => []

def leftSlot : BinaryOp → Nat
  | .index => 10
  | .pow => 9
  | op => op.tier

def rightSlot : BinaryOp → Nat
  | .index => 0
  | .pow => 7
  | op => op.tier + 1

end BinaryOp

def Value.tokens : Value → List Token
  | .number (.scalar x) => [.number x]
  | .text (.scalar s) => [.quoted s]
  | .bool (.scalar b) => [.name (boolText b)]
  | _ => []

def Expr.tier : Expr → Nat
  | .select .. => 0
  | .binary .index .. => 10
  | .binary op .. => op.tier
  | .unary .. => 7
  | .literal (.bool _) => 9
  | _ => 10

def fit (slot tier : Nat) (ts : List Token) : List Token :=
  if tier < slot then .openParen :: ts ++ [.closeParen] else ts

mutual

def Expr.print : Expr → List Token
  | .literal v => v.tokens
  | .variable n => [.name n]
  | .unary op e => op.token :: fit 7 e.tier e.print
  | .binary op l r =>
    fit op.leftSlot l.tier l.print ++ op.token :: fit op.rightSlot r.tier r.print ++ op.closing
  | .select c y n =>
    fit 0 c.tier c.print ++ .question :: fit 1 y.tier y.print ++ .colon :: fit 1 n.tier n.print
  | .array es => .openBracket :: printItems es ++ [.closeBracket]
  | .call f es => .name f :: .openParen :: printItems es ++ [.closeParen]
  | .assign .. | .empty => []

def printItems : List Expr → List Token
  | [] => []
  | e :: es => e.print ++ printMore es

def printMore : List Expr → List Token
  | [] => []
  | e :: es => .comma :: e.print ++ printMore es

end

inductive Expr.Plain : Expr → Prop where
  | number (x) : Plain (.literal (.ofNumber x))
  | text (s) : Plain (.literal (.ofText s))
  | truth (b) : Plain (.literal (.ofBool b))
  | name (n) (ordinary : n ≠ "true" ∧ n ≠ "false") : Plain (.variable n)
  | unary (op) {e} (operand : Plain e) : Plain (.unary op e)
  | binary (op) {l r} (left : Plain l) (right : Plain r) : Plain (.binary op l r)
  | select {c y n} (condition : Plain c) (yes : Plain y) (no : Plain n) : Plain (.select c y n)
  | array {es} (items : ∀ e ∈ es, Plain e) : Plain (.array es)
  | call (f) {es} (arguments : ∀ e ∈ es, Plain e) : Plain (.call f es)

namespace Grammar

def slot : Nat → Category
  | 0 => .ternary
  | 8 => .power
  | 9 => .operand
  | 10 => .base
  | n => level n

theorem operandOfBase {ts e} (h : Derives .base ts e) (plain : e.Plain) : Derives .operand ts e := by
  cases h with
  | base inner => exact .operand inner
  | baseName s =>
    cases plain with
    | name _ ordinary => exact .variableName s ordinary

theorem looserSlot {n : Nat} {ts e} (plain : e.Plain) (bound : n < 10)
    (h : Derives (slot (n + 1)) ts e) : Derives (slot n) ts e := by
  match n, h with
  | 0, h => exact .plain h
  | 1, h | 2, h | 3, h | 4, h | 5, h | 6, h => exact .tight h
  | 7, h => exact .unsigned h
  | 8, h => exact .lone h
  | 9, h => exact operandOfBase h plain

theorem looserSlots {m n : Nat} {ts e} (plain : e.Plain) (bound : n ≤ 10) (le : m ≤ n)
    (h : Derives (slot n) ts e) : Derives (slot m) ts e := by
  induction le with
  | refl => exact h
  | step _ ih => exact ih (Nat.le_of_succ_le bound) (looserSlot plain bound h)

theorem tierBound (e : Expr) : e.tier ≤ 10 := by
  unfold Expr.tier
  split <;> try decide
  rename_i op _ _ _
  cases op <;> decide

theorem loosestSlot {e : Expr} (plain : e.Plain) (h : Derives (slot e.tier) e.print e) :
    Derives .ternary e.print e :=
  looserSlots plain (tierBound e) (Nat.zero_le _) h

theorem fitDerives {e : Expr} (plain : e.Plain) (h : Derives (slot e.tier) e.print e) (k : Nat)
    (bound : k ≤ 10) : Derives (slot k) (fit k e.tier e.print) e := by
  unfold fit
  split
  · have grouped : Derives (slot 10) (.openParen :: e.print ++ [.closeParen]) e :=
      .base (.group (loosestSlot plain h))
    exact looserSlots plain (Nat.le_refl 10) bound grouped
  · exact looserSlots plain (tierBound e) (by omega) h

theorem binaryDerives {op : BinaryOp} {l r ls rs} (left : Derives (slot op.leftSlot) ls l)
    (right : Derives (slot op.rightSlot) rs r) :
    Derives (slot (Expr.binary op l r).tier) (ls ++ op.token :: rs ++ op.closing) (.binary op l r) := by
  cases op with
  | index => exact .base (.index left right)
  | pow => simp only [BinaryOp.closing,List.append_nil]; exact .power left right
  | _ => simp only [BinaryOp.closing,List.append_nil]; exact .operation left rfl right

theorem moreDerives {ts ds} {es : List Expr} (items : Derives .items ts (.array ds))
    (each : ∀ e ∈ es, Derives .ternary e.print e) :
    Derives .items (ts ++ printMore es) (.array (ds ++ es)) := by
  induction es generalizing ts ds with
  | nil => simpa only [printMore,List.append_nil] using items
  | cons e es ih =>
    have first := each e List.mem_cons_self
    have rest := ih (.more items first) fun d hd => each d (List.mem_cons_of_mem e hd)
    simpa only [printMore,List.append_assoc,List.cons_append,List.nil_append] using rest

theorem itemsDerive {e : Expr} {es : List Expr} (each : ∀ d ∈ e :: es, Derives .ternary d.print d) :
    Derives .items (printItems (e :: es)) (.array (e :: es)) :=
  moreDerives (.item (each e List.mem_cons_self)) fun d hd => each d (List.mem_cons_of_mem e hd)

theorem arrayDerives {es : List Expr} (each : ∀ e ∈ es, Derives .ternary e.print e) :
    Derives .closed (Expr.array es).print (.array es) := by
  cases es with
  | nil => exact .noItems
  | cons e es => exact .array (itemsDerive each)

theorem callDerives (f : String) {es : List Expr} (each : ∀ e ∈ es, Derives .ternary e.print e) :
    Derives .closed (Expr.call f es).print (.call f es) := by
  cases es with
  | nil => exact .noArguments f
  | cons e es => exact .call f (itemsDerive each)

theorem printDerives {e : Expr} (plain : e.Plain) : Derives (slot e.tier) e.print e := by
  induction plain with
  | number x => exact .base (.number x)
  | text s => exact .base (.text s)
  | truth b => cases b with
    | true => exact .trueName
    | false => exact .falseName
  | name n _ => exact .baseName n
  | unary op operand ih =>
    have inner := fitDerives operand ih 7 (by decide)
    cases op with
    | negate => exact .negate inner
    | not => exact .not inner
  | binary op left right ihLeft ihRight =>
    have bound : op.leftSlot ≤ 10 ∧ op.rightSlot ≤ 10 := by cases op <;> decide
    rw [Expr.print]
    exact binaryDerives (fitDerives left ihLeft _ bound.1) (fitDerives right ihRight _ bound.2)
  | select condition yes no ihCondition ihYes ihNo =>
    rw [Expr.print]
    exact .choice (fitDerives condition ihCondition 0 (by decide))
      (fitDerives yes ihYes 1 (by decide)) (fitDerives no ihNo 1 (by decide))
  | array items ih => exact .base (arrayDerives fun e he => loosestSlot (items e he) (ih e he))
  | call f arguments ih =>
    exact .base (callDerives f fun e he => loosestSlot (arguments e he) (ih e he))

theorem programOne {ts e} (h : Assignment ts e) : Program ts [e] := by
  have free := assignmentSeparatorFree h
  have whole : segments ts = [ts] := List.splitOn_eq_singleton free.1
  refine ⟨[e],?_,?_⟩
  · rw [whole]
    simpa [free.2] using h
  · simp [free.1]

end Grammar

theorem parseOnly {source : String} {e} (h : parse source = .ok [e]) : parseOne source = .ok e := by
  rw [parseOne,h]
  rfl

theorem printedReadBack {e : Expr} (plain : e.Plain) :
    readTokens e.print = .ok [e] ∧
      ∀ source, (lexemes source).map Lexeme.token = e.print.map .ok → parseOne source = .ok e := by
  have program : Grammar.Program e.print [e] :=
    Grammar.programOne (.value (Grammar.loosestSlot plain (Grammar.printDerives plain)))
  refine ⟨Grammar.readTokensComplete program,fun source written => ?_⟩
  exact parseOnly (parseProgram.2 ⟨e.print,written,program⟩)

theorem printedNested :
    let root : Expr := .binary .pow (.unary .not (.variable "b")) (.unary .negate (.variable "c"))
    let place : Expr := .select (.variable "i") (.array []) (.call "f" [.variable "x",.variable "y"])
    let e : Expr := .binary .sub (.variable "a")
      (.binary .sub (.unary .negate root) (.binary .index (.literal (.ofBool true)) place))
    e.Plain ∧ parseOne "a - (-(!b)^-c - (true)[i ? [] : f(x, y)])" = .ok e := by
  intro root place e
  have plainRoot : root.Plain := .binary _ (.unary _ (.name _ (by decide))) (.unary _ (.name _ (by decide)))
  have plainPlace : place.Plain := by
    refine .select (.name _ (by decide)) (.array (by simp)) (.call _ ?_)
    simp only [List.mem_cons,List.not_mem_nil,or_false,forall_eq_or_imp,forall_eq]
    exact ⟨.name _ (by decide),.name _ (by decide)⟩
  have plain : e.Plain :=
    .binary _ (.name _ (by decide)) (.binary _ (.unary _ plainRoot) (.binary _ (.truth true) plainPlace))
  exact ⟨plain,(printedReadBack plain).2 _ (by decide +kernel)⟩

end ArrayCalc
