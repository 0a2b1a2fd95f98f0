import ArrayCalc.Expr.Outline
import ArrayCalc.Session
import ArrayCalc.Token.Listing
/-! The commands of the command line, and what each writes for one source text. -/
namespace ArrayCalc

inductive Command where
  | eval (source : String) (folding : Bool)
  | parse (source : String) (folding : Bool)
  | tokens (source : String)
  | prompt (folding : Bool)
  deriving DecidableEq, Repr

namespace Command

def line (s : String) : String := if s.isEmpty then "" else s ++ "\n"

def evalText (source : String) (folding : Bool) : Except Error String :=
  let s : Session := { Session.new with folding := folding }
  (s.evaluate source).1.map fun v => line v.render

def parseText (source : String) (folding : Bool) : Except Error String := do
  let es ← (ArrayCalc.parse source).mapError .parse
  let es ←
    if folding then
      match foldStatements .closed traversalLimit es () with
      | .ok (es, _) _ => pure es
      | .error e _ => throw (.eval e)
    else pure es
  return (Text.Outline.list (outlineList es)).text ++ "\n"

def tokensText (source : String) : Except Error String :=
  match ArrayCalc.tokens source with
  | .ok ts => .ok (listing ts)
  | .error f => .error (.parse ⟨.lexical f.error, f.span⟩)

def arguments (option : String) : List String → Option (Bool × String)
  | ["--", source] => some (false, source)
  | [o, "--", source] => if o = option then some (true, source) else none
  | [a, b] =>
    if a = option then some (true, b) else if b = option then some (true, a) else none
  | [source] => some (false, source)
  | _ => none

def ofArguments? : List String → Option Command
  | "eval" :: rest => (arguments "--no-optimize" rest).map fun (o, s) => .eval s !o
  | "parse" :: rest => (arguments "--optimize" rest).map fun (o, s) => .parse s o
  | ["tokens", "--", source] | ["tokens", source] => some (.tokens source)
  | ["repl"] => some (.prompt true)
  | ["repl", "--no-optimize"] => some (.prompt false)
  | _ => none

end Command
end ArrayCalc
