import ArrayCalc.Number.Layout
/-! The tokens of the expression language and the text by which errors name them. -/
namespace ArrayCalc

inductive Token where
  | number (x : Float)
  | quoted (s : String)
  | name (s : String)
  | separator
  | plus | minus | star | slash | caret
  | openParen | closeParen | openBracket | closeBracket | comma
  | question | colon
  | assign | equal | notEqual | less | lessEqual | greater | greaterEqual
  | not | and | or
  deriving DecidableEq, Repr

namespace Token

def display : Token → String
  | .number x => Number.text x
  | .quoted s => "\"" ++ s ++ "\""
  | .name s => s
  | .separator => "end of statement"
  | .plus => "+"
  | .minus => "-"
  | .star => "*"
  | .slash => "/"
  | .caret => "^"
  | .openParen => "("
  | .closeParen => ")"
  | .openBracket => "["
  | .closeBracket => "]"
  | .comma => ","
  | .question => "?"
  | .colon => ":"
  | .assign => "="
  | .equal => "=="
  | .notEqual => "!="
  | .less => "<"
  | .lessEqual => "<="
  | .greater => ">"
  | .greaterEqual => ">="
  | .not => "!"
  | .and => "&&"
  | .or => "||"

end Token
end ArrayCalc
