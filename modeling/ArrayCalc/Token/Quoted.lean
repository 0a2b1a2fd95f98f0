/-! Quoted texts. Either quote encloses a text in which a backslash introduces one of six escapes;
every other character stands for itself, line ends included. -/
namespace ArrayCalc.Quoted

inductive Fault where
  | badEscape (c : Char)
  | unclosed
  deriving DecidableEq, Repr

def unescape? : Char → Option Char
  | '\\' => some '\\'
  | '\'' => some '\''
  | '"' => some '"'
  | 'r' => some '\r'
  | 'n' => some '\n'
  | 't' => some '\t'
  | _ => none

/-- Reads up to the closing quote. Also says how many characters were read, that quote included;
a bad escape is the last one read, and an unclosed text is read to its end. -/
def read (quote : Char) : List Char → Except Fault (List Char) × Nat
  | [] => (.error .unclosed, 0)
  | '\\' :: [] => (.error .unclosed, 1)
  | '\\' :: e :: rest =>
    match unescape? e with
    | none => (.error (.badEscape e), 2)
    | some c => let (r, n) := read quote rest; (r.map (c :: ·), n + 2)
  | c :: rest =>
    if c = quote then (.ok [], 1) else let (r, n) := read quote rest; (r.map (c :: ·), n + 1)

end ArrayCalc.Quoted
