import ArrayCalc.Text.Blank
import ArrayCalc.Text.Outline
import ArrayCalc.Token.Lexeme
/-! A listing of tokens, one a line, with their places. -/
namespace ArrayCalc

def Number.listing : Number.Layout := ⟨fun e => -4 ≤ e && e < 16, true, false, .upper, none⟩

namespace Token

def listedChar (c : Char) : String :=
  match c with
  | '"' => "\\\""
  | '\\' => "\\\\"
  | '\n' => "\\n"
  | '\r' => "\\r"
  | '\t' => "\\t"
  | '\x00' => "\\0"
  | ' ' => " "
  | c =>
    if c.toNat < 0x20 || (0x7f ≤ c.toNat && c.toNat < 0xa0) || Text.isBlank c then
      "\\u\x7b" ++ Text.Outline.hexDigits 1 c.toNat ++ "\x7d"
    else c.toString

def listedText (s : String) : String := "\"" ++ String.join (s.toList.map listedChar) ++ "\""

def listed : Token → String
  | .number x => "Number(" ++ Number.listing.write x ++ ")"
  | .quoted s => "Str(" ++ listedText s ++ ")"
  | .name s => "Ident(" ++ listedText s ++ ")"
  | .separator => "EndOfStatement"
  | .plus => "Plus"
  | .minus => "Minus"
  | .star => "Star"
  | .slash => "Slash"
  | .caret => "Caret"
  | .openParen => "LParen"
  | .closeParen => "RParen"
  | .openBracket => "LBracket"
  | .closeBracket => "RBracket"
  | .comma => "Comma"
  | .question => "Question"
  | .colon => "Colon"
  | .assign => "Eq"
  | .equal => "EqEq"
  | .notEqual => "NotEq"
  | .less => "Lt"
  | .lessEqual => "LtEq"
  | .greater => "Gt"
  | .greaterEqual => "GtEq"
  | .not => "Bang"
  | .and => "AmpAmp"
  | .or => "PipePipe"

end Token

def listing (ts : List (Token × Span)) : String :=
  String.join (ts.map fun (t, s) => t.listed ++ " @ " ++ s.text ++ "\n")

end ArrayCalc
