import ArrayCalc.Span
import ArrayCalc.Text.Letter
import ArrayCalc.Text.Digit
import ArrayCalc.Token
import ArrayCalc.Token.Numeral
import ArrayCalc.Token.Quoted
/-! A source text as a sequence of lexemes: tokens or lexical errors, each with its place. Spaces
and tabs separate them. Each lexeme is the longest one at its place, and after an error the text
goes on right behind it. -/
namespace ArrayCalc

inductive LexicalError where
  | badNumeral (text : String)
  | badEscape (c : Char)
  | unclosedQuote
  | strayCharacter (c : Char)
  deriving DecidableEq, Repr

def LexicalError.message : LexicalError → String
  | .badNumeral text => s!"could not parse number: '{text}'"
  | .badEscape c => s!"Undefined escape sequence '\\{c}'"
  | .unclosedQuote => "Unterminated string constant"
  | .strayCharacter c =>
    if c = '|' ∨ c = '&' then s!"unexpected character after '{c}' sign"
    else s!"unexpected character '{c}'"

structure Lexeme where
  token : Except LexicalError Token
  span : Span

namespace Lexeme

def isGap (c : Char) : Bool := c = ' ' || c = '\t'
def startsName (c : Char) : Bool := c = '_' || Text.isLetter c
def continuesName (c : Char) : Bool := startsName c || Text.isDecimalDigit c

def sign? (c : Char) (rest : List Char) : Option (Token × Nat) :=
  let next (d : Char) (long short : Token) :=
    if rest.head? = some d then (long, 1) else (short, 0)
  match c with
  | ';' | '\n' => some (.separator, 0)
  | '\r' => some (next '\n' .separator .separator)
  | '+' => some (.plus, 0)
  | '-' => some (.minus, 0)
  | '*' => some (.star, 0)
  | '/' => some (.slash, 0)
  | '^' => some (.caret, 0)
  | '(' => some (.openParen, 0)
  | ')' => some (.closeParen, 0)
  | '[' => some (.openBracket, 0)
  | ']' => some (.closeBracket, 0)
  | ',' => some (.comma, 0)
  | '?' => some (.question, 0)
  | ':' => some (.colon, 0)
  | '=' => some (next '=' .equal .assign)
  | '!' => some (next '=' .notEqual .not)
  | '<' => some (next '=' .lessEqual .less)
  | '>' => some (next '=' .greaterEqual .greater)
  | '&' => if rest.head? = some '&' then some (.and, 1) else none
  | '|' => if rest.head? = some '|' then some (.or, 1) else none
  | _ => none

def ofQuoted : Except Quoted.Fault (List Char) → Except LexicalError Token
  | .ok cs => .ok (.quoted (String.ofList cs))
  | .error (.badEscape c) => .error (.badEscape c)
  | .error .unclosed => .error .unclosedQuote

def ofNumeral (n : Numeral) : Except LexicalError Token :=
  match n.value? with
  | some x => .ok (.number x)
  | none => .error (.badNumeral (String.ofList n.chars))

def scan (c : Char) (rest : List Char) : Except LexicalError Token × Nat :=
  if c.isDigit || c = '.' then
    let n := Numeral.read (c :: rest)
    (ofNumeral n, n.chars.length - 1)
  else if c = '"' || c = '\'' then
    let (r, n) := Quoted.read c rest
    (ofQuoted r, n)
  else if startsName c then
    let cs := rest.takeWhile continuesName
    (.ok (.name (String.ofList (c :: cs))), cs.length)
  else
    match sign? c rest with
    | some (t, n) => (.ok t, n)
    | none => (.error (.strayCharacter c), 0)

def listFrom (offset : Nat) : List Char → List Lexeme
  | [] => []
  | c :: rest =>
    if isGap c then listFrom (offset + c.utf8Size) rest
    else
      let (token, n) := scan c rest
      let stop := offset + byteLength (c :: rest.take n)
      ⟨token, ⟨offset, stop⟩⟩ :: listFrom stop (rest.drop n)
  termination_by cs => cs.length
  decreasing_by all_goals grind

end Lexeme

def lexemes (source : String) : List Lexeme := Lexeme.listFrom 0 source.toList

structure LexicalFault where
  error : LexicalError
  span : Span
  deriving DecidableEq, Repr

def tokens (source : String) : Except LexicalFault (List (Token × Span)) :=
  (lexemes source).mapM fun l =>
    match l.token with
    | .ok t => .ok (t, l.span)
    | .error e => .error ⟨e, l.span⟩

end ArrayCalc
