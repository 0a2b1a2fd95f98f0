/-! Nested data written as JSON over several lines: two blanks of indentation, one item a line, and
brackets next to each other where nothing stands between them. -/
namespace ArrayCalc.Text

inductive Outline where
  | atom (text : String)
  | list (items : List Outline)
  | record (fields : List (String × Outline))

namespace Outline

def hexDigits (width n : Nat) : String :=
  let ds := Nat.toDigits 16 n
  String.ofList (List.replicate (width - ds.length) '0' ++ ds)

def escapedChar (c : Char) : String :=
  match c with
  | '"' => "\\\""
  | '\\' => "\\\\"
  | '\n' => "\\n"
  | '\r' => "\\r"
  | '\t' => "\\t"
  | '\x08' => "\\b"
  | '\x0c' => "\\f"
  | c => if c.toNat < 0x20 then "\\u" ++ hexDigits 4 c.toNat else c.toString

def quote (s : String) : String := "\"" ++ String.join (s.toList.map escapedChar) ++ "\""

def ofString (s : String) : Outline := .atom (quote s)

def newline (depth : Nat) : String := "\n" ++ "".pushn ' ' (2 * depth)

mutual

def write (depth : Nat) : Outline → String → String
  | .atom t, text => text ++ t
  | .list [], text => text ++ "[]"
  | .list (i :: is), text =>
    let text := write (depth + 1) i (text ++ "[" ++ newline (depth + 1))
    writeItems depth is text ++ newline depth ++ "]"
  | .record [], text => text ++ "\x7b\x7d"
  | .record ((k, v) :: fs), text =>
    let text := write (depth + 1) v (text ++ "\x7b" ++ newline (depth + 1) ++ quote k ++ ": ")
    writeFields depth fs text ++ newline depth ++ "\x7d"

def writeItems (depth : Nat) : List Outline → String → String
  | [], text => text
  | i :: is, text =>
    writeItems depth is (write (depth + 1) i (text ++ "," ++ newline (depth + 1)))

def writeFields (depth : Nat) : List (String × Outline) → String → String
  | [], text => text
  | (k, v) :: fs, text =>
    writeFields depth fs
      (write (depth + 1) v (text ++ "," ++ newline (depth + 1) ++ quote k ++ ": "))

end

def text (o : Outline) : String := o.write 0 ""

end Outline
end ArrayCalc.Text
