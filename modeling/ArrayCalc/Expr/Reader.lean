import ArrayCalc.Expr
import ArrayCalc.Token.Lexeme
/-! Statements from tokens, one token at a time. The reader keeps what is still open: operators
that wait for their right operand, a choice `c ? a : b` under way, brackets, and the targets of
an assignment. A token that cannot follow is refused where it stands, so an error is found at the
earliest token that no statement admits. -/
namespace ArrayCalc

inductive GrammarError where
  | unexpectedToken (t : Token)
  | unexpectedEnd
  | missingParen
  | missingBracket
  | missingElse
  | notAVariable
  | trailing
  deriving DecidableEq, Repr

def GrammarError.message : GrammarError → String
  | .unexpectedToken t => s!"Unexpected token: {t.display}"
  | .unexpectedEnd => "Unexpected token: end of file"
  | .missingParen => "Missing close parenthesis"
  | .missingBracket => "Missing close bracket"
  | .missingElse => "missing ternary else operator"
  | .notAVariable => "Cannot assign value to non variable node"
  | .trailing => "Unexpected characters at end of expression"

def BinaryOp.ofToken? : Token → Option BinaryOp
  | .or => some .or
  | .and => some .and
  | .less => some .less
  | .lessEqual => some .lessEqual
  | .greater => some .greater
  | .greaterEqual => some .greaterEqual
  | .equal => some .equal
  | .notEqual => some .notEqual
  | .plus => some .add
  | .minus => some .sub
  | .star => some .mul
  | .slash => some .div
  | _ => none

inductive Pending where
  | unary (op : UnaryOp)
  | binary (op : BinaryOp) (left : Expr)

namespace Pending

def apply : Pending → Expr → Expr
  | .unary op, e => .unary op e
  | .binary op left, e => .binary op left e

def tier : Pending → Nat
  | .unary _ => 7
  | .binary op _ => op.tier

def reduce (tier : Nat) (e : Expr) : List Pending → Expr × List Pending
  | [] => (e, [])
  | p :: rest => if tier ≤ p.tier then reduce tier (p.apply e) rest else (e, p :: rest)

end Pending

inductive Choice where
  | none
  | yes (condition : Expr)
  | no (condition yes : Expr)

/-- What stands between two brackets or separators: a choice and, in its last part, operators,
the latest first. -/
structure Phrase where
  choice : Choice
  pending : List Pending

namespace Phrase

def empty : Phrase := ⟨.none, []⟩

def operate (p : Phrase) (e : Expr) : Expr := (Pending.reduce 0 e p.pending).1

def close (p : Phrase) (e : Expr) : Except GrammarError Expr :=
  match p.choice with
  | .none => .ok (p.operate e)
  | .yes _ => .error .missingElse
  | .no c a => .ok (.select c a (p.operate e))

end Phrase

inductive Bracket where
  | group
  | index (base : Expr)
  | array (items : List Expr)
  | call (name : String) (arguments : List Expr)

def Bracket.missing : Bracket → GrammarError
  | .group | .call .. => .missingParen
  | .index _ | .array _ => .missingBracket

inductive Cursor where
  | start (separated : Bool)
  | operand
  | firstItem
  | argument
  | name (s : String)
  | value (e : Expr)

structure Reader where
  done : List Expr
  targets : List String
  stack : List (Phrase × Bracket)
  phrase : Phrase
  cursor : Cursor

namespace Reader

def initial : Reader := ⟨[], [], [], .empty, .start false⟩

def wait (r : Reader) (p : Pending) : Reader :=
  { r with phrase := ⟨r.phrase.choice, p :: r.phrase.pending⟩, cursor := .operand }

def openBracket (r : Reader) (b : Bracket) (c : Cursor) : Reader :=
  { r with stack := (r.phrase, b) :: r.stack, phrase := .empty, cursor := c }

def resume (r : Reader) (stack : List (Phrase × Bracket)) (p : Phrase) (e : Expr) : Reader :=
  { r with stack := stack, phrase := p, cursor := .value e }

def readOperand (r : Reader) (t : Token) : Except GrammarError Reader :=
  match t with
  | .number x => .ok { r with cursor := .value (.literal (.ofNumber x)) }
  | .quoted s => .ok { r with cursor := .value (.literal (.ofText s)) }
  | .name s => .ok { r with cursor := .name s }
  | .plus => .ok { r with cursor := .operand }
  | .minus => .ok (r.wait (.unary .negate))
  | .not => .ok (r.wait (.unary .not))
  | .openParen => .ok (r.openBracket .group .operand)
  | .openBracket => .ok (r.openBracket (.array []) .firstItem)
  | t => .error (.unexpectedToken t)

def refusal (r : Reader) : GrammarError :=
  match r.stack with
  | [] => .trailing
  | (_, b) :: _ => b.missing

def statement (r : Reader) (e : Expr) : Expr := r.targets.foldl (fun e n => .assign n e) e

def endPhrase (r : Reader) (e : Expr) (t : Token) : Except GrammarError Reader :=
  match t, r.stack with
  | .separator, [] => .ok ⟨r.statement e :: r.done, [], [], .empty, .start true⟩
  | .assign, [] =>
    match e with
    | .variable n => .ok { r with targets := n :: r.targets, phrase := .empty, cursor := .operand }
    | _ => .error .notAVariable
  | .closeParen, (p, .group) :: s => .ok (r.resume s p e)
  | .closeParen, (p, .call f as) :: s => .ok (r.resume s p (.call f (e :: as).reverse))
  | .comma, (p, .call f as) :: s =>
    .ok { r with stack := (p, .call f (e :: as)) :: s, phrase := .empty, cursor := .argument }
  | .comma, (p, .array es) :: s =>
    .ok { r with stack := (p, .array (e :: es)) :: s, phrase := .empty, cursor := .operand }
  | .closeBracket, (p, .array es) :: s => .ok (r.resume s p (.array (e :: es).reverse))
  | .closeBracket, (p, .index base) :: s => .ok (r.resume s p (.binary .index base e))
  | _, _ => .error r.refusal

def readAfter (r : Reader) (e : Expr) (t : Token) : Except GrammarError Reader :=
  match t with
  | .openBracket => .ok (r.openBracket (.index e) .operand)
  | .caret => .ok (r.wait (.binary .pow e))
  | .question => do
    let c ← r.phrase.close e
    return { r with phrase := ⟨.yes c, []⟩, cursor := .operand }
  | .colon =>
    match r.phrase.choice with
    | .yes c => .ok { r with phrase := ⟨.no c (r.phrase.operate e), []⟩, cursor := .operand }
    | _ => .error r.refusal
  | t =>
    match BinaryOp.ofToken? t with
    | some op =>
      let (left, pending) := Pending.reduce op.tier e r.phrase.pending
      .ok ({ r with phrase := ⟨r.phrase.choice, pending⟩ }.wait (.binary op left))
    | none => do endPhrase r (← r.phrase.close e) t

def ofName (s : String) : Expr :=
  if s = "true" then .literal (.ofBool true)
  else if s = "false" then .literal (.ofBool false)
  else .variable s

def step (r : Reader) (t : Token) : Except GrammarError Reader :=
  match r.cursor, t with
  | .start _, .separator => .ok { r with cursor := .start true }
  | .firstItem, .closeBracket =>
    match r.stack with
    | (p, .array es) :: s => .ok (r.resume s p (.array es.reverse))
    | _ => r.readOperand t
  | .argument, .closeParen =>
    match r.stack with
    | (p, .call f as) :: s => .ok (r.resume s p (.call f as.reverse))
    | _ => r.readOperand t
  | .start _, t | .operand, t | .firstItem, t | .argument, t => r.readOperand t
  | .name s, .openParen => .ok (r.openBracket (.call s []) .argument)
  | .name s, .openBracket => .ok (r.openBracket (.index (.variable s)) .operand)
  | .name s, t => r.readAfter (ofName s) t
  | .value e, t => r.readAfter e t

def endStatement (r : Reader) (e : Expr) : Except GrammarError (List Expr) := do
  let e ← r.phrase.close e
  if r.stack.isEmpty then return (r.statement e :: r.done).reverse else .error r.refusal

/- The statements, at the end of the text. A separator at the end leaves an empty statement. -/
def finish (r : Reader) : Except GrammarError (List Expr) :=
  match r.cursor with
  | .start separated => .ok (r.done.reverse ++ if separated then [.empty] else [])
  | .operand | .firstItem | .argument => .error .unexpectedEnd
  | .name s => r.endStatement (ofName s)
  | .value e => r.endStatement e

end Reader

def readTokens (ts : List Token) : Except GrammarError (List Expr) := do
  (← ts.foldlM Reader.step .initial).finish

inductive ParseCause where
  | lexical (e : LexicalError)
  | grammar (e : GrammarError)
  deriving DecidableEq, Repr

structure ParseError where
  cause : ParseCause
  span : Span
  deriving DecidableEq, Repr

def ParseError.message (e : ParseError) : String :=
  match e.cause with
  | .lexical c => c.message
  | .grammar c => c.message

def Reader.run (size : Nat) (r : Reader) : List Lexeme → Except ParseError (List Expr)
  | [] => r.finish.mapError fun e => ⟨.grammar e, .emptyAt size⟩
  | l :: rest =>
    match l.token with
    | .error e => .error ⟨.lexical e, l.span⟩
    | .ok t =>
      match r.step t with
      | .error e => .error ⟨.grammar e, l.span⟩
      | .ok next => next.run size rest

def parse (source : String) : Except ParseError (List Expr) :=
  Reader.initial.run source.utf8ByteSize (lexemes source)

end ArrayCalc
