import ArrayCalc.Proofs.DecimalNumbers
import ArrayCalc.Proofs.Relexing
/-! Numerals and the texts they are read from. A numeral is read as far as the text goes on with one,
complete or not, so what is read is the longest numeral at its place; and a numeral is read back as it
was written wherever the next character does not go on with it. A complete one is the number nearest to
the decimal it spells. -/
namespace ArrayCalc

theorem takenDigits (cs : List Char) : ∀ c ∈ cs.takeWhile Char.isDigit, c.isDigit = true :=
  fun _ => List.mem_takeWhile_imp

namespace ExponentPart

structure Formed (e : ExponentPart) : Prop where
  mark : e.mark = 'e' ∨ e.mark = 'E'
  sign : ∀ s ∈ e.sign, s = '+' ∨ s = '-'
  digits : ∀ c ∈ e.digits, c.isDigit = true

def Extends (e : ExponentPart) (c : Char) : Prop :=
  c.isDigit = true ∨ e.sign = none ∧ e.digits = [] ∧ (c = '+' ∨ c = '-')

theorem readFormed (cs : List Char) : ∀ e ∈ read? cs, e.Formed := by
  generalize read : read? cs = x
  cases read ▸ readShape cs with
  | none unmarked => simp
  | @unsigned c rest mark unsigned =>
    rintro e ⟨⟩
    exact ⟨mark,by simp,takenDigits rest⟩
  | signed ds mark sign =>
    rintro e ⟨⟩
    exact ⟨mark,by simpa using sign,takenDigits ds⟩

theorem readWritten {e : ExponentPart} (formed : e.Formed) {rest : List Char}
    (ends : ∀ c ∈ rest.head?, ¬e.Extends c) : read? (e.chars ++ rest) = some e := by
  obtain ⟨mark,sign,digits⟩ := e
  have run := takeRun formed.digits fun c first => by
    simpa using fun digit => ends c first (.inl digit)
  cases sign with
  | none =>
    have unsigned : ∀ s ∈ (digits ++ rest).head?, ¬(s = '+' ∨ s = '-') := by
      cases digits with
      | nil => exact fun s first sign => ends s first (.inr ⟨rfl,rfl,sign⟩)
      | cons d ds =>
        rintro s ⟨⟩ sign
        have digit := formed.digits d List.mem_cons_self
        rcases sign with rfl | rfl <;> contradiction
    have read := readUnsigned formed.mark unsigned
    rwa [run.1] at read
  | some s =>
    have read := readSigned (digits ++ rest) formed.mark (formed.sign s rfl)
    rwa [run.1] at read

end ExponentPart

namespace Numeral

structure Formed (n : Numeral) : Prop where
  whole : ∀ c ∈ n.whole, c.isDigit = true
  fraction : ∀ ds ∈ n.fraction, ∀ c ∈ ds, c.isDigit = true
  exponent : ∀ e ∈ n.exponent, e.Formed
  started : n.whole ≠ [] ∨ n.fraction ≠ none

theorem Formed.starts {n : Numeral} (formed : n.Formed) :
    ∃ c w, n.chars = c :: w ∧ (c.isDigit = true ∨ c = '.') := by
  obtain ⟨whole,fraction,exponent⟩ := n
  cases whole with
  | cons d ds => exact ⟨d,_,rfl,.inl (formed.whole d List.mem_cons_self)⟩
  | nil =>
    cases fraction with
    | some ds => exact ⟨'.',_,rfl,.inr rfl⟩
    | none =>
      have started := formed.started
      simp at started

def Complete (n : Numeral) : Prop :=
  (n.whole ≠ [] ∨ ∃ ds ∈ n.fraction, ds ≠ []) ∧ ∀ e ∈ n.exponent, e.digits ≠ []

def Extends (n : Numeral) (c : Char) : Prop :=
  match n.exponent with
  | some e => e.Extends c
  | none => c.isDigit = true ∨ (c = 'e' ∨ c = 'E') ∨ n.fraction = none ∧ c = '.'

theorem completeIff (n : Numeral) : n.isComplete = true ↔ n.Complete := by
  have mantissa : n.whole ++ n.fraction.getD [] ≠ [] ↔ n.whole ≠ [] ∨ ∃ ds ∈ n.fraction, ds ≠ [] := by
    cases n.fraction <;> simp [imp_iff_not_or]
  have power : n.exponent.all (!·.digits.isEmpty) = true ↔ ∀ e ∈ n.exponent, e.digits ≠ [] := by
    cases n.exponent <;> simp
  rw [isComplete,Complete,Bool.and_eq_true,power,← mantissa,Bool.not_eq_true',
    List.isEmpty_eq_false_iff]

theorem readFormed {c : Char} (rest : List Char) (starts : c.isDigit = true ∨ c = '.') :
    (read (c :: rest)).Formed := by
  generalize same : read (c :: rest) = n
  cases same ▸ readShape (c :: rest) with
  | @point r point =>
    refine ⟨takenDigits _,?_,ExponentPart.readFormed _,.inr (by simp)⟩
    rintro ds ⟨⟩
    exact takenDigits r
  | whole pointless =>
    refine ⟨takenDigits _,by simp,ExponentPart.readFormed _,.inl ?_⟩
    rcases starts with digit | rfl
    · simp [digit]
    · simp at pointless

theorem mantissaEnds {n : Numeral} (formed : n.Formed) {rest : List Char}
    (ends : ∀ c ∈ rest.head?, ¬n.Extends c) :
    ∀ c ∈ (ExponentPart.text n.exponent ++ rest).head?,
      c.isDigit = false ∧ (n.fraction = none → c ≠ '.') := by
  intro c first
  cases exponent : n.exponent with
  | none =>
    rw [exponent] at first
    have other := ends c first
    simp only [Extends,exponent,not_or,not_and] at other
    exact ⟨by simpa using other.1,other.2.2⟩
  | some e =>
    rw [exponent] at first
    cases first
    rcases (formed.exponent e exponent).mark with mark | mark <;> rw [mark] <;> simp

theorem readWritten {n : Numeral} (formed : n.Formed) {rest : List Char}
    (ends : ∀ c ∈ rest.head?, ¬n.Extends c) : read (n.chars ++ rest) = n := by
  have behind := mantissaEnds formed ends
  have exponent : ExponentPart.read? (ExponentPart.text n.exponent ++ rest) = n.exponent := by
    cases exponent : n.exponent with
    | some e =>
      simp only [Extends,exponent] at ends
      exact ExponentPart.readWritten (formed.exponent e exponent) ends
    | none =>
      simp only [Extends,exponent,not_or] at ends
      change ExponentPart.read? rest = none
      cases rest with
      | nil => rfl
      | cons c more => simp [ExponentPart.read?,ends c rfl]
  obtain ⟨whole,fraction,x⟩ := n
  rw [charsText,List.append_assoc]
  cases fraction with
  | some ds =>
    simp only [Option.elim_some,List.append_assoc,List.cons_append]
    have point : ∀ c ∈ ('.' :: (ds ++ (ExponentPart.text x ++ rest))).head?, c.isDigit = false := by
      simp
    have first := takeRun formed.whole point
    have second := takeRun (formed.fraction ds rfl) fun c next => (behind c next).1
    rw [readPoint first.2,first.1,second.1,second.2,exponent]
  | none =>
    simp only [Option.elim_none,List.append_nil]
    have first := takeRun formed.whole fun c next => (behind c next).1
    have pointless : ∀ c ∈ ((whole ++ (ExponentPart.text x ++ rest)).dropWhile Char.isDigit).head?,
        c ≠ '.' := by
      rw [first.2]
      exact fun c next => (behind c next).2 rfl
    rw [readWhole pointless,first.1,first.2,exponent]

end Numeral

def Numeric (w : List Char) : Prop := ∃ n : Numeral, n.Formed ∧ n.chars = w

namespace Numeral

theorem extended {n : Numeral} (formed : n.Formed) {c : Char} (h : n.Extends c) :
    Numeric (n.chars ++ [c]) := by
  obtain ⟨whole,fraction,exponent⟩ := n
  have snoc {ds : List Char} (digits : ∀ d ∈ ds, d.isDigit = true) (digit : c.isDigit = true) :
      ∀ d ∈ ds ++ [c], d.isDigit = true := by
    simpa [or_imp,forall_and] using ⟨digits,digit⟩
  cases exponent with
  | some e =>
    have given := formed.exponent e rfl
    rcases h with digit | ⟨unsigned,bare,sign⟩
    · refine ⟨⟨whole,fraction,some { e with digits := e.digits ++ [c] }⟩,⟨formed.whole,formed.fraction,
        ?_,formed.started⟩,by simp [chars,ExponentPart.chars]⟩
      rintro x ⟨⟩
      exact ⟨given.mark,given.sign,snoc given.digits digit⟩
    · refine ⟨⟨whole,fraction,some { e with sign := some c }⟩,⟨formed.whole,formed.fraction,
        ?_,formed.started⟩,by simp [chars,ExponentPart.chars,unsigned,bare]⟩
      rintro x ⟨⟩
      exact ⟨given.mark,by simpa using sign,given.digits⟩
  | none =>
    rcases h with digit | mark | ⟨pointless,rfl⟩
    · cases fraction with
      | some ds =>
        refine ⟨⟨whole,some (ds ++ [c]),none⟩,⟨formed.whole,?_,by simp,.inr (by simp)⟩,by simp [chars]⟩
        rintro x ⟨⟩
        exact snoc (formed.fraction ds rfl) digit
      | none =>
        exact ⟨⟨whole ++ [c],none,none⟩,⟨snoc formed.whole digit,by simp,by simp,.inl (by simp)⟩,
          by simp [chars]⟩
    · refine ⟨⟨whole,fraction,some ⟨c,none,[]⟩⟩,⟨formed.whole,formed.fraction,?_,formed.started⟩,
        by simp [chars,ExponentPart.chars]⟩
      rintro x ⟨⟩
      exact ⟨mark,by simp,by simp⟩
    · cases pointless
      exact ⟨⟨whole,some [],none⟩,⟨formed.whole,by simp,by simp,.inr (by simp)⟩,by simp [chars]⟩

/- By the characters behind the numeral: each goes on with it, or the numeral is what is read. -/
theorem readPast {n : Numeral} (formed : n.Formed) (rest : List Char) :
    n.chars <+: (read (n.chars ++ rest)).chars := by
  induction rest generalizing n with
  | nil => exact ⟨[],by rw [readWritten formed (by simp),List.append_nil]⟩
  | cons c rest ih =>
    by_cases more : n.Extends c
    · obtain ⟨m,formed',longer⟩ := extended formed more
      have later := ih formed'
      rw [longer,List.append_assoc,List.singleton_append] at later
      exact (List.prefix_append ..).trans later
    · exact ⟨[],by rw [readWritten formed (by simpa using more),List.append_nil]⟩

theorem readLongest {w cs : List Char} (numeric : Numeric w) (front : w <+: cs) :
    w.length ≤ (read cs).chars.length := by
  obtain ⟨n,formed,rfl⟩ := numeric
  obtain ⟨rest,rfl⟩ := front
  exact (readPast formed rest).length_le

theorem extendsIff {n : Numeral} (formed : n.Formed) (c : Char) :
    Numeric (n.chars ++ [c]) ↔ n.Extends c := by
  refine ⟨fun numeric => ?_,extended formed⟩
  by_contra ends
  have bound := readLongest numeric (List.prefix_refl _)
  rw [readWritten formed (by simpa using ends)] at bound
  simp at bound

end Numeral

namespace Numeral

def rational (n : Numeral) : ℚ :=
  natOfDigits (n.whole ++ n.fraction.getD []) * (10 : ℚ) ^ (n.power - (n.fraction.getD []).length)

theorem valueNearest (n : Numeral) : Number.NearestNumber n.rational n.value := by
  unfold rational value
  dsimp only
  generalize natOfDigits (n.whole ++ n.fraction.getD []) = digits
  generalize n.power - (n.fraction.getD []).length = place
  have signed : (if decide (place < 0) then -place.natAbs else place.natAbs : ℤ) = place := by
    by_cases negative : place < 0
    · rw [if_pos (decide_eq_true negative)]
      omega
    · rw [if_neg (by simpa using negative)]
      omega
  have near := Number.scientificNearest digits (decide (place < 0)) place.natAbs
  rwa [signed] at near

end Numeral

structure NumeralLexeme (source : String) (cs : List Char) (l : Lexeme) (n : Numeral) : Prop where
  formed : n.Formed
  front : n.chars <+: cs
  longest : ∀ w, Numeric w → w <+: cs → w.length ≤ n.chars.length
  slice : l.span.slice source = String.ofList n.chars
  number : ∀ t, l.token = .ok t ↔ n.Complete ∧ t = .number n.value
  nearest : Number.NearestNumber n.rational n.value
  refused : ¬n.Complete → ∃ e, l.token = .error e ∧
    e.message = "could not parse number: '" ++ l.span.slice source ++ "'"

theorem Lexeme.scanNumeral {c : Char} (starts : c.isDigit = true ∨ c = '.') (rest : List Char) :
    scan c rest =
      (ofNumeral (Numeral.read (c :: rest)),(Numeral.read (c :: rest)).chars.length - 1) := by
  rw [scan,if_pos (by simpa using starts)]

theorem Lexeme.numberOf {n : Numeral} (complete : n.Complete) : ofNumeral n = .ok (.number n.value) := by
  simp only [ofNumeral,Numeral.value?,n.completeIff.mpr complete,if_true]

theorem Lexeme.refusedOf {n : Numeral} (incomplete : ¬n.Complete) :
    ofNumeral n = .error (.badNumeral (String.ofList n.chars)) := by
  simp only [ofNumeral,Numeral.value?,n.completeIff,incomplete,if_false]

theorem numeralLexeme {source : String} {before rest : List Char} {c : Char}
    (cut : source.toList = before ++ c :: rest) (starts : c.isDigit = true ∨ c = '.') {l : Lexeme}
    (member : l ∈ lexemes source) (start : l.span.start = byteLength before) :
    NumeralLexeme source (c :: rest) l (Numeral.read (c :: rest)) := by
  obtain ⟨w,after,rfl,scanned,stop⟩ := lexemeScanned cut member start
  rw [Lexeme.scanNumeral starts] at scanned
  obtain ⟨token,count⟩ := Prod.mk.inj scanned
  have chars := Lexeme.numeralChars (by simpa using starts) count
  have slice : l.span.slice source = String.ofList (c :: w) := by
    refine sliceText ⟨before,after,by simpa using cut,?_,?_⟩
    · rw [start,Nat.zero_add]
    · rw [stop,start,Nat.zero_add,byteLengthAppend]
  rw [← chars] at slice
  refine ⟨Numeral.readFormed _ starts,⟨after,by rw [chars]; rfl⟩,fun v => Numeral.readLongest,slice,?_,
    Numeral.valueNearest _,?_⟩
  · intro t
    rw [← token]
    by_cases complete : (Numeral.read (c :: (w ++ after))).Complete
    · rw [Lexeme.numberOf complete]
      simp [complete,eq_comm]
    · rw [Lexeme.refusedOf complete]
      simp [complete]
  · intro incomplete
    refine ⟨_,token.symm.trans (Lexeme.refusedOf incomplete),?_⟩
    rw [slice]
    rfl

theorem writtenNumber {n : Numeral} (formed : n.Formed) (complete : n.Complete) (offset : Nat)
    {rest : List Char} (ends : ∀ c ∈ rest.head?, ¬Numeric (n.chars ++ [c])) :
    Lexeme.listFrom offset (n.chars ++ rest) =
      ⟨.ok (.number n.value),⟨offset,offset + byteLength n.chars⟩⟩ ::
        Lexeme.listFrom (offset + byteLength n.chars) rest := by
  have read := Numeral.readWritten formed fun c first more =>
    ends c first ((Numeral.extendsIff formed c).mpr more)
  obtain ⟨c,w,chars,starts⟩ := formed.starts
  have solid : Lexeme.isGap c = false := by
    by_contra gap
    have foreign := breakForeign (c := c) (by simp_all [Lexeme.isBreak])
    simp [foreign] at starts
  have scanned : Lexeme.scan c (w ++ rest) = (.ok (.number n.value),w.length) := by
    rw [Lexeme.scanNumeral starts,← List.cons_append,← chars,read,Lexeme.numberOf complete,chars]
    rfl
  rw [chars]
  exact tiledList (.lexeme solid scanned (listTiled (offset + byteLength (c :: w)) rest))

theorem numeralsSplit :
    (∀ source before c rest, String.toList source = before ++ c :: rest →
      (c.isDigit = true ∨ c = '.') → ∀ l ∈ lexemes source, l.span.start = byteLength before →
        ∃ n, NumeralLexeme source (c :: rest) l n) ∧
    ∀ n : Numeral, n.Formed → n.Complete → ∀ offset rest,
      (∀ c ∈ List.head? rest, ¬Numeric (n.chars ++ [c])) →
        Lexeme.listFrom offset (n.chars ++ rest) =
          ⟨.ok (.number n.value),⟨offset,offset + byteLength n.chars⟩⟩ ::
            Lexeme.listFrom (offset + byteLength n.chars) rest := by
  constructor
  · intro source before c rest cut starts l member start
    exact ⟨_,numeralLexeme cut starts member start⟩
  · intro n formed complete offset rest ends
    exact writtenNumber formed complete offset ends

theorem thousandsSplit : Lexeme.listFrom 0 "2.e3x".toList =
    ⟨.ok (.number 2000.0),⟨0,4⟩⟩ :: Lexeme.listFrom 4 ['x'] := by
  have formed : (⟨['2'],some [],some ⟨'e',none,['3']⟩⟩ : Numeral).Formed := by
    refine ⟨by simp,by simp,?_,.inl (by simp)⟩
    rintro e ⟨⟩
    exact ⟨.inl rfl,by simp,by simp⟩
  have ends : ∀ c ∈ ['x'].head?,
      ¬Numeric ((⟨['2'],some [],some ⟨'e',none,['3']⟩⟩ : Numeral).chars ++ [c]) := by
    rintro c ⟨⟩
    rw [Numeral.extendsIff formed]
    simp [Numeral.Extends,ExponentPart.Extends]
  exact numeralsSplit.2 _ formed (by simp [Numeral.Complete]) 0 ['x'] ends

end ArrayCalc
