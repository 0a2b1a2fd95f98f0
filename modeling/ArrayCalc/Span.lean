/-! Places in a source text, counted in bytes of its UTF-8 form. -/
namespace ArrayCalc

structure Span where
  start : Nat
  stop : Nat
  deriving DecidableEq, Repr

namespace Span

def emptyAt (offset : Nat) : Span := ⟨offset, offset⟩

def length (s : Span) : Nat := s.stop - s.start
def isEmpty (s : Span) : Bool := s.length = 0
def text (s : Span) : String := s!"{s.start}..{s.stop}"

end Span

def byteLength (cs : List Char) : Nat := cs.foldr (fun c n => c.utf8Size + n) 0

end ArrayCalc
