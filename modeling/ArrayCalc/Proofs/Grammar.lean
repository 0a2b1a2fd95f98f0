import ArrayCalc.Expr.Reader
import Mathlib.Data.List.Forall2
/-! The grammar of statements, as derivations that carry the tree they stand for. It knows nothing of
how tokens are read: every rule says which token sequence a phrase is made of and which tree it has. -/
namespace ArrayCalc.Grammar

inductive Tier where
  | or | and | relational | equality | additive | multiplicative
  deriving DecidableEq, Repr

namespace Tier

def operator? : Tier → Token → Option BinaryOp
  | .or, .or => some .or
  | .and, .and => some .and
  | .relational, .less => some .less
  | .relational, .lessEqual => some .lessEqual
  | .relational, .greater => some .greater
  | .relational, .greaterEqual => some .greaterEqual
  | .equality, .equal => some .equal
  | .equality, .notEqual => some .notEqual
  | .additive, .plus => some .add
  | .additive, .minus => some .sub
  | .multiplicative, .star => some .mul
  | .multiplicative, .slash => some .div
  | _, _ => none

end Tier

/- An operand is a leaf or an element of one. A base is what stands directly before an index: the
names `true` and `false` are variables there. What is closed is either of them, but no bare name.
Items between brackets have the array of them for a tree. -/
inductive Category where
  | ternary
  | tier (t : Tier)
  | unary
  | power
  | operand
  | base
  | closed
  | items
  deriving DecidableEq, Repr

def Tier.tighter : Tier → Category
  | .or => .tier .and
  | .and => .tier .relational
  | .relational => .tier .equality
  | .equality => .tier .additive
  | .additive => .tier .multiplicative
  | .multiplicative => .unary

inductive Derives : Category → List Token → Expr → Prop where
  | plain {ts e} (value : Derives (.tier .or) ts e) : Derives .ternary ts e
  | choice {cs ys ns c y n} (condition : Derives .ternary cs c) (yes : Derives (.tier .or) ys y)
      (no : Derives (.tier .or) ns n) :
      Derives .ternary (cs ++ .question :: ys ++ .colon :: ns) (.select c y n)
  | tight {t ts e} (inner : Derives (Tier.tighter t) ts e) : Derives (.tier t) ts e
  | operation {t o op ls rs l r} (left : Derives (.tier t) ls l)
      (sign : Tier.operator? t o = some op) (right : Derives (Tier.tighter t) rs r) :
      Derives (.tier t) (ls ++ o :: rs) (.binary op l r)
  | plus {ts e} (inner : Derives .unary ts e) : Derives .unary (.plus :: ts) e
  | negate {ts e} (inner : Derives .unary ts e) : Derives .unary (.minus :: ts) (.unary .negate e)
  | not {ts e} (inner : Derives .unary ts e) : Derives .unary (.not :: ts) (.unary .not e)
  | unsigned {ts e} (inner : Derives .power ts e) : Derives .unary ts e
  | lone {ts e} (inner : Derives .operand ts e) : Derives .power ts e
  | power {bs xs b x} (root : Derives .operand bs b) (exponent : Derives .unary xs x) :
      Derives .power (bs ++ .caret :: xs) (.binary .pow b x)
  | operand {ts e} (inner : Derives .closed ts e) : Derives .operand ts e
  | trueName : Derives .operand [.name "true"] (.literal (.ofBool true))
  | falseName : Derives .operand [.name "false"] (.literal (.ofBool false))
  | variableName (s) (ordinary : s ≠ "true" ∧ s ≠ "false") : Derives .operand [.name s] (.variable s)
  | base {ts e} (inner : Derives .closed ts e) : Derives .base ts e
  | baseName (s) : Derives .base [.name s] (.variable s)
  | index {bs is b i} (array : Derives .base bs b) (position : Derives .ternary is i) :
      Derives .closed (bs ++ .openBracket :: is ++ [.closeBracket]) (.binary .index b i)
  | number (x) : Derives .closed [.number x] (.literal (.ofNumber x))
  | text (s) : Derives .closed [.quoted s] (.literal (.ofText s))
  | group {ts e} (inner : Derives .ternary ts e) :
      Derives .closed (.openParen :: ts ++ [.closeParen]) e
  | noItems : Derives .closed [.openBracket,.closeBracket] (.array [])
  | array {ts es} (items : Derives .items ts (.array es)) :
      Derives .closed (.openBracket :: ts ++ [.closeBracket]) (.array es)
  | noArguments (f) : Derives .closed [.name f,.openParen,.closeParen] (.call f [])
  | call (f) {ts es} (arguments : Derives .items ts (.array es)) :
      Derives .closed (.name f :: .openParen :: ts ++ [.closeParen]) (.call f es)
  | callComma (f) {ts es} (arguments : Derives .items ts (.array es)) :
      Derives .closed (.name f :: .openParen :: ts ++ [.comma,.closeParen]) (.call f es)
  | item {ts e} (first : Derives .ternary ts e) : Derives .items ts (.array [e])
  | more {ts us es e} (earlier : Derives .items ts (.array es)) (last : Derives .ternary us e) :
      Derives .items (ts ++ .comma :: us) (.array (es ++ [e]))

theorem bareName (s : String) : Derives .operand [.name s] (Reader.ofName s) := by
  unfold Reader.ofName
  split
  · rename_i same; subst s; exact .trueName
  · split
    · rename_i same; subst s; exact .falseName
    · rename_i notTrue notFalse
      exact .variableName s ⟨notTrue,notFalse⟩

inductive Assignment : List Token → Expr → Prop where
  | value {ts e} (value : Derives .ternary ts e) : Assignment ts e
  | assign {ts us n e} (target : Derives .ternary ts (.variable n)) (value : Assignment us e) :
      Assignment (ts ++ .assign :: us) (.assign n e)

def segments (ts : List Token) : List (List Token) := ts.splitOn .separator

def Program (ts : List Token) (es : List Expr) : Prop :=
  ∃ trees, List.Forall₂ Assignment ((segments ts).filter (· ≠ [])) trees ∧
    es = trees ++ if .separator ∈ ts ∧ (segments ts).getLast? = some [] then [.empty] else []

def level : Nat → Category
  | 0 | 1 => .tier .or
  | 2 => .tier .and
  | 3 => .tier .relational
  | 4 => .tier .equality
  | 5 => .tier .additive
  | 6 => .tier .multiplicative
  | _ => .unary

def Tier.rank : Tier → Nat
  | .or => 1
  | .and => 2
  | .relational => 3
  | .equality => 4
  | .additive => 5
  | .multiplicative => 6

@[simp] theorem levelRank (t : Tier) : level t.rank = .tier t := by cases t <;> rfl

theorem levelTighter (t : Tier) : level (t.rank + 1) = t.tighter := by cases t <;> rfl

theorem rankPositive (t : Tier) : 1 ≤ t.rank ∧ t.rank ≤ 6 := by cases t <;> decide

theorem operatorTier {t : Tier} {o : Token} {op : BinaryOp} (h : t.operator? o = some op) :
    op.tier = t.rank ∧ BinaryOp.ofToken? o = some op := by
  unfold Tier.operator? at h
  split at h <;> first | (cases h; exact ⟨rfl,rfl⟩) | contradiction

theorem tierOf {o : Token} {op : BinaryOp} (h : BinaryOp.ofToken? o = some op) :
    ∃ t : Tier, t.operator? o = some op ∧ op.tier = t.rank := by
  unfold BinaryOp.ofToken? at h
  split at h
  case h_1 => exact ⟨.or,h,by cases h; rfl⟩
  case h_2 => exact ⟨.and,h,by cases h; rfl⟩
  case h_3 | h_4 | h_5 | h_6 => exact ⟨.relational,h,by cases h; rfl⟩
  case h_7 | h_8 => exact ⟨.equality,h,by cases h; rfl⟩
  case h_9 | h_10 => exact ⟨.additive,h,by cases h; rfl⟩
  case h_11 | h_12 => exact ⟨.multiplicative,h,by cases h; rfl⟩
  case h_13 => contradiction

theorem loosenOnce {n : Nat} {ts : List Token} {e : Expr} (h : Derives (level (n + 1)) ts e) :
    Derives (level n) ts e := by
  match n, h with
  | 0, h => exact h
  | 1, h | 2, h | 3, h | 4, h | 5, h | 6, h => exact .tight h
  | n + 7, h => exact h

theorem loosen {m n : Nat} {ts : List Token} {e : Expr} (h : Derives (level n) ts e) (le : m ≤ n) :
    Derives (level m) ts e := by
  induction le with
  | refl => exact h
  | step _ ih => exact ih (loosenOnce h)

end ArrayCalc.Grammar
