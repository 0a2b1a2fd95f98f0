import ArrayCalc.Token.Lexeme
import Mathlib.Data.List.Basic
import Mathlib.Data.List.TakeWhile
/-! How a text is cut into lexemes. They tile it, with gaps between them, and each depends only on its
own characters and on where it ends: with nothing, a blank or a separator behind it, it is read as it
was. -/
namespace ArrayCalc

theorem takeRun {p : Char → Bool} {cs rest : List Char} (inside : ∀ c ∈ cs, p c = true)
    (ends : ∀ c ∈ rest.head?, p c = false) :
    (cs ++ rest).takeWhile p = cs ∧ (cs ++ rest).dropWhile p = rest := by
  rw [List.takeWhile_append_of_pos inside,List.dropWhile_append_of_pos inside]
  cases rest with
  | nil => simp
  | cons c rest => simp [ends c rfl]

theorem takeAgain {p : Char → Bool} (cs : List Char) {rest : List Char}
    (ends : ∀ c ∈ rest.head?, p c = false) :
    (cs.takeWhile p ++ rest).takeWhile p = cs.takeWhile p ∧
      (cs.takeWhile p ++ rest).dropWhile p = rest :=
  takeRun (fun _ => List.mem_takeWhile_imp) ends

def Lexeme.isBreak (c : Char) : Bool := isGap c || c = ';' || c = '\n' || c = '\r'

theorem breakChars {c : Char} (h : Lexeme.isBreak c = true) :
    c = ' ' ∨ c = '\t' ∨ c = ';' ∨ c = '\n' ∨ c = '\r' := by
  simpa [Lexeme.isBreak,Lexeme.isGap,or_assoc] using h

/- Behind a lexeme, `rest'` in place of `rest`: the same character comes next, or a break, or nothing. -/
def EndsAs (rest rest' : List Char) : Prop :=
  ∀ c ∈ rest'.head?, c ∈ rest.head? ∨ Lexeme.isBreak c = true

namespace EndsAs
variable {rest rest' : List Char}

theorem nothing (rest : List Char) : EndsAs rest [] := by simp [EndsAs]

theorem space (rest more : List Char) : EndsAs rest (' ' :: more) := by
  intro c first
  cases first
  exact .inr rfl

theorem behind (h : EndsAs rest rest') (w : List Char) : EndsAs (w ++ rest) (w ++ rest') := by
  cases w with
  | nil => exact h
  | cons c w => exact fun d first => .inl first

theorem lacks (h : EndsAs rest rest') {p : Char → Prop} (here : ∀ c ∈ rest.head?, p c)
    (breaks : ∀ c, Lexeme.isBreak c = true → p c) : ∀ c ∈ rest'.head?, p c := by
  intro c first
  rcases h c first with same | ends
  · exact here c same
  · exact breaks c ends

end EndsAs

theorem dropStops (p : Char → Bool) (cs : List Char) : ∀ c ∈ (cs.dropWhile p).head?, p c = false := by
  intro c first
  have stops := List.head?_dropWhile_not p cs
  rw [Option.mem_def.mp first] at stops
  exact stops

theorem breakForeign {c : Char} (h : Lexeme.isBreak c = true) :
    c.isDigit = false ∧ c ≠ '.' ∧ ¬(c = 'e' ∨ c = 'E') ∧ ¬(c = '+' ∨ c = '-') := by
  rcases breakChars h with rfl | rfl | rfl | rfl | rfl <;> decide

theorem EndsAs.digits {cs rest' : List Char} (h : EndsAs (cs.dropWhile Char.isDigit) rest') :
    ∀ c ∈ rest'.head?, c.isDigit = false :=
  h.lacks (dropStops Char.isDigit cs) fun _ ends => (breakForeign ends).1

namespace ExponentPart

theorem readUnsigned {c : Char} {rest : List Char} (mark : c = 'e' ∨ c = 'E')
    (unsigned : ∀ s ∈ rest.head?, ¬(s = '+' ∨ s = '-')) :
    read? (c :: rest) = some ⟨c,none,rest.takeWhile Char.isDigit⟩ := by
  cases rest with
  | nil => simp [read?,mark]
  | cons s ds => simp [read?,mark,unsigned s rfl]

theorem readSigned {c s : Char} (ds : List Char) (mark : c = 'e' ∨ c = 'E')
    (sign : s = '+' ∨ s = '-') : read? (c :: s :: ds) = some ⟨c,some s,ds.takeWhile Char.isDigit⟩ := by
  simp [read?,mark,sign]

inductive Shape : List Char → Option ExponentPart → Prop where
  | none {cs} (unmarked : ∀ c ∈ cs.head?, ¬(c = 'e' ∨ c = 'E')) : Shape cs none
  | unsigned {c rest} (mark : c = 'e' ∨ c = 'E') (unsigned : ∀ s ∈ rest.head?, ¬(s = '+' ∨ s = '-')) :
      Shape (c :: rest) (some ⟨c,.none,rest.takeWhile Char.isDigit⟩)
  | signed {c s} (ds) (mark : c = 'e' ∨ c = 'E') (sign : s = '+' ∨ s = '-') :
      Shape (c :: s :: ds) (some ⟨c,some s,ds.takeWhile Char.isDigit⟩)

theorem readShape (cs : List Char) : Shape cs (read? cs) := by
  cases cs with
  | nil => exact .none (by simp)
  | cons c rest =>
    by_cases mark : c = 'e' ∨ c = 'E'
    · by_cases signed : ∃ s ∈ rest.head?, s = '+' ∨ s = '-'
      · obtain ⟨s,first,sign⟩ := signed
        obtain ⟨ds,rfl⟩ : ∃ ds, rest = s :: ds := by cases rest <;> simp_all
        rw [readSigned ds mark sign]
        exact .signed ds mark sign
      · have unsigned : ∀ s ∈ rest.head?, ¬(s = '+' ∨ s = '-') := fun s first sign =>
          signed ⟨s,first,sign⟩
        rw [readUnsigned mark unsigned]
        exact .unsigned mark unsigned
    · have none : read? (c :: rest) = none := by simp [read?,mark]
      rw [none]
      exact .none (by simpa using mark)

def text (e : Option ExponentPart) : List Char := e.elim [] chars

theorem readPrefix (cs : List Char) : ∃ rest, cs = text (read? cs) ++ rest := by
  generalize read : read? cs = e
  cases read ▸ readShape cs with
  | none => exact ⟨cs,rfl⟩
  | @unsigned c rest =>
    exact ⟨rest.dropWhile Char.isDigit,by simp [text,chars,List.takeWhile_append_dropWhile]⟩
  | signed ds =>
    exact ⟨ds.dropWhile Char.isDigit,by simp [text,chars,List.takeWhile_append_dropWhile]⟩

theorem readAgain {cs rest rest' : List Char} (cut : cs = text (read? cs) ++ rest)
    (ends : EndsAs rest rest') : read? (text (read? cs) ++ rest') = read? cs := by
  generalize read : read? cs = e at cut ⊢
  cases read ▸ readShape cs with
  | none unmarked =>
    subst cut
    have still : ∀ c ∈ rest'.head?, ¬(c = 'e' ∨ c = 'E') :=
      ends.lacks unmarked fun _ h => (breakForeign h).2.2.1
    change read? rest' = none
    cases rest' with
    | nil => rfl
    | cons c more => simp [read?,still c rfl]
  | @unsigned c r mark unsigned =>
    have after : r.dropWhile Char.isDigit = rest := by
      have whole := List.takeWhile_append_dropWhile (p := Char.isDigit) (l := r)
      exact List.append_cancel_left (whole.trans (List.cons.inj cut).2)
    subst after
    have first : ∀ s ∈ (r.takeWhile Char.isDigit ++ rest').head?, ¬(s = '+' ∨ s = '-') := by
      have same := ends.behind (r.takeWhile Char.isDigit)
      rw [List.takeWhile_append_dropWhile] at same
      exact same.lacks unsigned fun _ h => (breakForeign h).2.2.2
    change read? (c :: (r.takeWhile Char.isDigit ++ rest')) = _
    rw [readUnsigned mark first,(takeAgain r ends.digits).1]
  | @signed c s ds mark sign =>
    have after : ds.dropWhile Char.isDigit = rest := by
      have whole := List.takeWhile_append_dropWhile (p := Char.isDigit) (l := ds)
      exact List.append_cancel_left (whole.trans (List.cons.inj (List.cons.inj cut).2).2)
    subst after
    change read? (c :: s :: (ds.takeWhile Char.isDigit ++ rest')) = _
    rw [readSigned _ mark sign,(takeAgain ds ends.digits).1]

end ExponentPart

namespace Numeral

inductive Shape : List Char → Numeral → Prop where
  | point {cs rest} (point : cs.dropWhile Char.isDigit = '.' :: rest) :
      Shape cs ⟨cs.takeWhile Char.isDigit,some (rest.takeWhile Char.isDigit),
        ExponentPart.read? (rest.dropWhile Char.isDigit)⟩
  | whole {cs} (pointless : ∀ c ∈ (cs.dropWhile Char.isDigit).head?, c ≠ '.') :
      Shape cs ⟨cs.takeWhile Char.isDigit,none,ExponentPart.read? (cs.dropWhile Char.isDigit)⟩

theorem readPoint {cs rest : List Char} (point : cs.dropWhile Char.isDigit = '.' :: rest) :
    read cs = ⟨cs.takeWhile Char.isDigit,some (rest.takeWhile Char.isDigit),
      ExponentPart.read? (rest.dropWhile Char.isDigit)⟩ := by
  simp only [read,point]

theorem readWhole {cs : List Char} (pointless : ∀ c ∈ (cs.dropWhile Char.isDigit).head?, c ≠ '.') :
    read cs = ⟨cs.takeWhile Char.isDigit,none,ExponentPart.read? (cs.dropWhile Char.isDigit)⟩ := by
  unfold read
  split
  · rename_i rest point
    exact absurd rfl (pointless '.' (by simp [point]))
  · rfl

theorem readShape (cs : List Char) : Shape cs (read cs) := by
  by_cases point : ∃ rest, cs.dropWhile Char.isDigit = '.' :: rest
  · obtain ⟨rest,point⟩ := point
    rw [readPoint point]
    exact .point point
  · have pointless : ∀ c ∈ (cs.dropWhile Char.isDigit).head?, c ≠ '.' := by
      rintro c first rfl
      exact point ⟨_,List.eq_cons_of_mem_head? first⟩
    rw [readWhole pointless]
    exact .whole pointless

theorem charsText (n : Numeral) :
    n.chars = n.whole ++ (n.fraction.elim [] ('.' :: ·)) ++ ExponentPart.text n.exponent := rfl

theorem readPrefix (cs : List Char) : ∃ rest, cs = (read cs).chars ++ rest := by
  have split := (List.takeWhile_append_dropWhile (p := Char.isDigit) (l := cs)).symm
  generalize read : read cs = n
  cases read ▸ readShape cs with
  | @point rest point =>
    obtain ⟨after,exponent⟩ := ExponentPart.readPrefix (rest.dropWhile Char.isDigit)
    have fraction := (List.takeWhile_append_dropWhile (p := Char.isDigit) (l := rest)).symm
    refine ⟨after,?_⟩
    rw [charsText]
    simp only [Option.elim_some,List.append_assoc,List.cons_append,← exponent]
    rw [← fraction,← point]
    exact split
  | whole =>
    obtain ⟨after,exponent⟩ := ExponentPart.readPrefix (cs.dropWhile Char.isDigit)
    refine ⟨after,?_⟩
    rw [charsText]
    simp only [Option.elim_none,List.append_nil,List.append_assoc,← exponent]
    exact split

theorem readAgain {cs rest rest' : List Char} (cut : cs = (read cs).chars ++ rest)
    (ends : EndsAs rest rest') : read ((read cs).chars ++ rest') = read cs := by
  have split := List.takeWhile_append_dropWhile (p := Char.isDigit) (l := cs)
  generalize same : read cs = n at cut ⊢
  cases same ▸ readShape cs with
  | @point r point =>
    have fraction := List.takeWhile_append_dropWhile (p := Char.isDigit) (l := r)
    rw [charsText] at cut ⊢
    simp only [Option.elim_some,List.append_assoc,List.cons_append] at cut ⊢
    have tail := List.append_cancel_left (split.trans cut)
    rw [point] at tail
    have exponent := List.append_cancel_left (fraction.trans (List.cons.inj tail).2)
    have again := takeAgain r (exponent ▸ ends.behind _).digits
    have dot : ∀ cs, ∀ c ∈ ('.' :: cs).head?, c.isDigit = false := by simp
    have whole := takeAgain cs (dot (r.takeWhile Char.isDigit ++
      (ExponentPart.text (ExponentPart.read? (r.dropWhile Char.isDigit)) ++ rest')))
    rw [readPoint whole.2,whole.1,again.1,again.2,ExponentPart.readAgain exponent ends]
  | whole pointless =>
    rw [charsText] at cut ⊢
    simp only [Option.elim_none,List.append_nil,List.append_assoc] at cut ⊢
    have exponent := List.append_cancel_left (split.trans cut)
    have next := exponent ▸ ends.behind _
    have still := next.lacks pointless fun _ h => (breakForeign h).2.1
    have whole := takeAgain cs next.digits
    rw [readWhole (by rwa [whole.2]),whole.1,whole.2,ExponentPart.readAgain exponent ends]

end Numeral

namespace Quoted

theorem readLength (quote : Char) (cs : List Char) : (read quote cs).2 ≤ cs.length := by
  fun_induction read quote cs <;> simp_all

theorem readPlain {quote c : Char} (plain : c ≠ '\\') (rest : List Char) :
    read quote (c :: rest) = if c = quote then (.ok [],1)
      else ((read quote rest).1.map (c :: ·),(read quote rest).2 + 1) := by
  rw [read.eq_4 quote c rest (fun same _ => plain same) (fun _ _ same _ => plain same)]

theorem notEscape {c : Char} {rest : List Char} (single : c = '\\' → rest = [] → False)
    (double : ∀ e tail, c = '\\' → rest = e :: tail → False) : c ≠ '\\' := by
  intro same
  cases rest with
  | nil => exact single same rfl
  | cons e tail => exact double e tail same rfl

theorem notUnclosed {r : Except Fault (List Char)} {c : Char}
    (closed : r.map (c :: ·) ≠ .error .unclosed) : r ≠ .error .unclosed := by
  rintro rfl
  exact closed rfl

theorem readAgain {quote : Char} {cs w rest : List Char} (cut : cs = w ++ rest)
    (count : (read quote cs).2 = w.length) (closed : (read quote cs).1 ≠ .error .unclosed)
    (more : List Char) : read quote (w ++ more) = read quote cs := by
  fun_induction read quote cs generalizing w with
  | case1 => contradiction
  | case2 => contradiction
  | case3 e tail bad =>
    obtain ⟨a,b,rfl⟩ := List.length_eq_two.mp count.symm
    cases cut
    simp [read,bad]
  | case4 e tail c good r n later ih =>
    obtain _ | ⟨a,_ | ⟨b,w⟩⟩ := w
    · contradiction
    · simp at count
    · simp only [List.cons_append,List.cons.injEq] at cut
      obtain ⟨rfl,rfl,cut⟩ := cut
      have again := ih cut (by simpa [later] using count) (later ▸ notUnclosed closed)
      simp [read,good,again,later]
  | case5 tail single double =>
    obtain ⟨a,rfl⟩ := List.length_eq_one_iff.mp count.symm
    simp only [List.cons_append,List.cons.injEq] at cut
    obtain ⟨rfl,cut⟩ := cut
    have plain := notEscape single double
    rw [List.cons_append,readPlain plain,if_pos rfl]
  | case6 c tail single double other r n later ih =>
    cases w with
    | nil => contradiction
    | cons a w =>
      simp only [List.cons_append,List.cons.injEq] at cut
      obtain ⟨rfl,cut⟩ := cut
      have again := ih cut (by simpa [later] using count) (later ▸ notUnclosed closed)
      have plain := notEscape single double
      rw [List.cons_append,readPlain plain,if_neg other,again,later]

theorem mapUnclosed {r : Except Fault (List Char)} {c : Char}
    (h : r.map (c :: ·) = .error .unclosed) : r = .error .unclosed := by
  cases r with
  | ok cs => contradiction
  | error e => exact h

theorem readUnclosed {quote : Char} {cs : List Char} (h : (read quote cs).1 = .error .unclosed) :
    (read quote cs).2 = cs.length := by
  fun_induction read quote cs with
  | case1 => rfl
  | case2 => rfl
  | case3 e tail bad => simp at h
  | case4 e tail c good r n later ih =>
    have rest := ih (by simpa [later] using mapUnclosed h)
    simpa [later] using rest
  | case5 tail => simp at h
  | case6 c tail single double other r n later ih =>
    have rest := ih (by simpa [later] using mapUnclosed h)
    simpa [later] using rest

theorem unclosedEnds {quote : Char} {w rest : List Char}
    (count : (read quote (w ++ rest)).2 = w.length)
    (unclosed : (read quote (w ++ rest)).1 = .error .unclosed) : rest = [] := by
  have all := (readUnclosed unclosed).symm.trans count
  rw [List.length_append] at all
  exact List.eq_nil_of_length_eq_zero (by omega)

theorem readSame {quote : Char} {w rest rest' : List Char}
    (count : (read quote (w ++ rest)).2 = w.length)
    (closed : (read quote (w ++ rest)).1 = .error .unclosed → rest' = []) :
    read quote (w ++ rest') = read quote (w ++ rest) := by
  by_cases unclosed : (read quote (w ++ rest)).1 = .error .unclosed
  · rw [closed unclosed,unclosedEnds count unclosed]
  · exact readAgain rfl count unclosed rest'

end Quoted

namespace Lexeme

theorem signHead (c : Char) (rest : List Char) : sign? c rest = sign? c rest.head?.toList := by
  cases rest <;> rfl

theorem signAlone {c : Char} {t n} (h : sign? c [] = some (t,n)) : n = 0 := by
  unfold sign? at h
  split at h <;> simp_all

theorem signNext (c d : Char) : (∃ t, sign? c [d] = some (t,1)) ∨ sign? c [d] = sign? c [] := by
  unfold sign?
  split
  all_goals simp only [List.head?_cons,List.head?_nil]
  all_goals grind

theorem signBreak {c d : Char} (h : isBreak d = true) (apart : c = '\r' → d ≠ '\n') :
    sign? c [d] = sign? c [] := by
  rcases breakChars h with rfl | rfl | rfl | rfl | rfl
  all_goals
    unfold sign?
    split <;> simp_all

theorem signLength {c : Char} {rest : List Char} {t n} (h : sign? c rest = some (t,n)) :
    n ≤ rest.length := by
  cases rest with
  | nil => exact Nat.le_of_eq (signAlone h)
  | cons d rest =>
    rw [signHead] at h
    obtain ⟨u,next⟩ | alone := signNext c d
    · rw [List.head?_cons,Option.toList_some,next] at h
      cases h
      simp
    · rw [List.head?_cons,Option.toList_some,alone] at h
      simp [signAlone h]

theorem numeralLength (cs : List Char) : (Numeral.read cs).chars.length ≤ cs.length := by
  obtain ⟨rest,same⟩ := Numeral.readPrefix cs
  have lengths := congrArg List.length same
  rw [List.length_append] at lengths
  omega

theorem scanLength (c : Char) (rest : List Char) : (scan c rest).2 ≤ rest.length := by
  unfold scan
  split
  · have bound := numeralLength (c :: rest)
    rw [List.length_cons] at bound
    exact Nat.sub_le_of_le_add bound
  split
  · exact Quoted.readLength c rest
  split
  · exact (List.takeWhile_prefix _).length_le
  · split
    · rename_i sign
      exact signLength sign
    · exact Nat.zero_le _

end Lexeme

inductive Tiled : Nat → List Char → List Lexeme → Prop where
  | done (offset) : Tiled offset [] []
  | gap {offset c rest ls} (gap : Lexeme.isGap c = true)
      (later : Tiled (offset + c.utf8Size) rest ls) : Tiled offset (c :: rest) ls
  | lexeme {offset c w rest token ls} (starts : Lexeme.isGap c = false)
      (scanned : Lexeme.scan c (w ++ rest) = (token,w.length))
      (later : Tiled (offset + byteLength (c :: w)) rest ls) :
      Tiled offset (c :: w ++ rest) (⟨token,⟨offset,offset + byteLength (c :: w)⟩⟩ :: ls)

theorem listTiled (offset : Nat) (cs : List Char) : Tiled offset cs (Lexeme.listFrom offset cs) := by
  fun_induction Lexeme.listFrom offset cs with
  | case1 offset => exact .done offset
  | case2 offset c rest gap ih => exact .gap gap ih
  | case3 offset c rest solid token n scanned stop ih =>
    have bound : n ≤ rest.length := by simpa [scanned] using Lexeme.scanLength c rest
    have count : (rest.take n).length = n := List.length_take_of_le bound
    have cut : rest.take n ++ rest.drop n = rest := List.take_append_drop n rest
    have tiled := Tiled.lexeme (Bool.not_eq_true _ ▸ solid) (by rw [cut,count]; exact scanned) ih
    rwa [List.cons_append,cut] at tiled

theorem tiledList {offset cs ls} (h : Tiled offset cs ls) : Lexeme.listFrom offset cs = ls := by
  induction h with
  | done => simp [Lexeme.listFrom]
  | gap gap later ih => rw [Lexeme.listFrom,if_pos gap,ih]
  | @lexeme offset c w rest token ls starts scanned later ih =>
    rw [List.cons_append,Lexeme.listFrom,if_neg (by simp [starts])]
    simp only [scanned,List.take_left,List.drop_left,ih]

theorem tiledNothing {offset ls} (h : Tiled offset [] ls) : ls = [] :=
  (tiledList h).symm.trans (by simp [Lexeme.listFrom])

namespace Lexeme

theorem breakEndsName {c : Char} (h : isBreak c = true) : continuesName c = false := by
  rcases breakChars h with rfl | rfl | rfl | rfl | rfl <;> decide +kernel

theorem numeralNotEmpty {c : Char} (rest : List Char) (starts : (c.isDigit || c = '.') = true) :
    (Numeral.read (c :: rest)).chars ≠ [] := by
  generalize same : Numeral.read (c :: rest) = n
  cases same ▸ Numeral.readShape (c :: rest) with
  | point => simp [Numeral.chars]
  | whole pointless =>
    cases digit : c.isDigit with
    | true => simp [Numeral.chars,digit]
    | false => simp_all

theorem numeralChars {c : Char} {w rest : List Char} (starts : (c.isDigit || c = '.') = true)
    (count : (Numeral.read (c :: (w ++ rest))).chars.length - 1 = w.length) :
    (Numeral.read (c :: (w ++ rest))).chars = c :: w := by
  obtain ⟨after,cut⟩ := Numeral.readPrefix (c :: (w ++ rest))
  have some := List.length_pos_of_ne_nil (numeralNotEmpty (w ++ rest) starts)
  have lengths : (c :: w).length = (Numeral.read (c :: (w ++ rest))).chars.length := by
    rw [List.length_cons]
    omega
  exact (List.append_inj_left cut lengths).symm

theorem signAgain {c : Char} {w rest rest' : List Char}
    (count : (sign? c (w ++ rest)).elim 0 Prod.snd = w.length) (ends : EndsAs rest rest')
    (apart : c = '\r' → w = [] → rest'.head? ≠ some '\n') :
    sign? c (w ++ rest') = sign? c (w ++ rest) := by
  cases w with
  | cons d w => rw [signHead c (d :: w ++ rest'),signHead c (d :: w ++ rest)]; rfl
  | nil =>
    rw [List.nil_append] at count ⊢
    have alone : sign? c rest = sign? c [] := by
      cases rest with
      | nil => rfl
      | cons d rest =>
        rw [signHead,List.head?_cons,Option.toList_some] at count ⊢
        obtain ⟨t,next⟩ | alone := signNext c d
        · rw [next] at count
          contradiction
        · exact alone
    cases rest' with
    | nil => exact alone.symm
    | cons d rest' =>
      rw [List.nil_append,signHead,List.head?_cons,Option.toList_some]
      rcases ends d rfl with same | breaks
      · rw [signHead c rest,Option.mem_def.mp same]
        rfl
      · rw [alone]
        exact signBreak breaks fun cr same => apart cr rfl (congrArg some same)

theorem scanAgain {c : Char} {w rest rest' : List Char} {token}
    (h : scan c (w ++ rest) = (token,w.length)) (ends : EndsAs rest rest')
    (apart : c = '\r' → w = [] → rest'.head? ≠ some '\n')
    (closed : token = .error .unclosedQuote → rest' = []) :
    scan c (w ++ rest') = (token,w.length) := by
  unfold scan at h ⊢
  split at h
  · rename_i numeral
    obtain ⟨same,count⟩ := Prod.mk.inj h
    have chars := numeralChars numeral count
    have again := @Numeral.readAgain (c :: (w ++ rest)) rest rest' (by rw [chars,List.cons_append]) ends
    rw [chars,List.cons_append] at again
    rw [if_pos numeral,again]
    exact h
  · rename_i notNumeral
    rw [if_neg notNumeral]
    split at h
    · rename_i quote
      obtain ⟨same,count⟩ := Prod.mk.inj h
      have again := Quoted.readSame count fun unclosed => closed (by rw [← same,unclosed]; rfl)
      rw [if_pos quote,again]
      exact h
    · rename_i notQuote
      rw [if_neg notQuote]
      split at h
      · rename_i name
        obtain ⟨same,count⟩ := Prod.mk.inj h
        have cut : (w ++ rest).takeWhile continuesName = w :=
          List.append_inj_left List.takeWhile_append_dropWhile count
        have after : (w ++ rest).dropWhile continuesName = rest := by
          have whole := List.takeWhile_append_dropWhile (p := continuesName) (l := w ++ rest)
          rw [cut] at whole
          exact List.append_cancel_left whole
        have stops : ∀ d ∈ rest'.head?, continuesName d = false :=
          ends.lacks (after ▸ dropStops continuesName (w ++ rest)) fun _ => breakEndsName
        have again := (takeAgain (w ++ rest) stops).1
        rw [cut] at again same
        rw [if_pos name,again]
        exact Prod.ext same rfl
      · rename_i notName
        have count : (sign? c (w ++ rest)).elim 0 Prod.snd = w.length := by
          split at h <;> simp_all
        rw [if_neg notName,signAgain count ends apart]
        exact h

end Lexeme

theorem byteLengthAppend (cs ds : List Char) :
    byteLength (cs ++ ds) = byteLength cs + byteLength ds := by
  induction cs with
  | nil => exact (Nat.zero_add _).symm
  | cons c cs ih =>
    change c.utf8Size + byteLength (cs ++ ds) = c.utf8Size + byteLength cs + byteLength ds
    omega

theorem byteLengthPositive (c : Char) (cs : List Char) : 0 < byteLength (c :: cs) :=
  Nat.add_pos_left c.utf8Size_pos _

def Spans (offset : Nat) (cs : List Char) (s : Span) (w : List Char) : Prop :=
  ∃ before after, cs = before ++ w ++ after ∧ s.start = offset + byteLength before ∧
    s.stop = offset + byteLength (before ++ w)

theorem Spans.behind {offset : Nat} (ds : List Char) {cs s w}
    (h : Spans (offset + byteLength ds) cs s w) : Spans offset (ds ++ cs) s w := by
  obtain ⟨before,after,rfl,start,stop⟩ := h
  refine ⟨ds ++ before,after,by simp,?_,?_⟩
  · rw [start,byteLengthAppend,Nat.add_assoc]
  · rw [stop,List.append_assoc,byteLengthAppend ds,Nat.add_assoc]

structure Occupies (offset : Nat) (cs : List Char) (s : Span) : Prop where
  cut : ∃ w, Spans offset cs s w
  nonempty : s.start < s.stop

theorem Occupies.behind {offset : Nat} (ds : List Char) {cs s}
    (h : Occupies (offset + byteLength ds) cs s) : Occupies offset (ds ++ cs) s := by
  obtain ⟨⟨w,spans⟩,nonempty⟩ := h
  exact ⟨⟨w,spans.behind ds⟩,nonempty⟩

theorem tiledOccupies {offset cs ls} (h : Tiled offset cs ls) :
    ∀ l ∈ ls, Occupies offset cs l.span := by
  induction h with
  | done => simp
  | @gap offset c rest ls gap later ih => exact fun l member => (ih l member).behind [c]
  | @lexeme offset c w rest token ls starts scanned later ih =>
    intro l member
    rcases List.mem_cons.mp member with rfl | member
    · exact ⟨⟨c :: w,[],rest,rfl,rfl,rfl⟩,Nat.lt_add_of_pos_right (byteLengthPositive c w)⟩
    · exact (ih l member).behind (c :: w)

theorem tiledOrder {offset cs ls} (h : Tiled offset cs ls) :
    ls.Pairwise fun a b => a.span.stop ≤ b.span.start := by
  induction h with
  | done => exact .nil
  | gap gap later ih => exact ih
  | lexeme starts scanned later ih =>
    refine .cons (fun l member => ?_) ih
    obtain ⟨⟨w,before,after,_,start,_⟩,_⟩ := tiledOccupies later l member
    rw [start]
    exact Nat.le_add_right _ _

theorem lexemesTiled (source : String) : Tiled 0 source.toList (lexemes source) :=
  listTiled 0 source.toList

theorem tiledScanned {offset cs ls} (h : Tiled offset cs ls) : ∀ l ∈ ls, ∃ before c w after,
    cs = before ++ c :: (w ++ after) ∧ l.span.start = offset + byteLength before ∧
      l.span.stop = l.span.start + byteLength (c :: w) ∧
      Lexeme.scan c (w ++ after) = (l.token,w.length) := by
  induction h with
  | done => simp
  | @gap offset d rest ls gap later ih =>
    intro l member
    obtain ⟨before,c,w,after,rfl,start,stop,scanned⟩ := ih l member
    exact ⟨d :: before,c,w,after,rfl,start.trans (Nat.add_assoc ..),stop,scanned⟩
  | @lexeme offset d v rest token ls starts scanned later ih =>
    intro l member
    rcases List.mem_cons.mp member with rfl | member
    · exact ⟨[],d,v,rest,rfl,rfl,rfl,scanned⟩
    · obtain ⟨before,c,w,after,rfl,start,stop,scanned⟩ := ih l member
      refine ⟨d :: v ++ before,c,w,after,by simp,?_,stop,scanned⟩
      rw [start,byteLengthAppend,Nat.add_assoc]

theorem byteLengthCuts {before before' after after' : List Char}
    (same : before ++ after = before' ++ after') (lengths : byteLength before = byteLength before') :
    before = before' := by
  obtain ⟨x,rfl,_⟩ | ⟨x,rfl,_⟩ := List.append_eq_append_iff.mp same
  all_goals
    cases x with
    | nil => simp
    | cons c x =>
      have positive := byteLengthPositive c x
      rw [byteLengthAppend] at lengths
      omega

theorem lexemeScanned {source : String} {before rest : List Char} {c : Char} {l : Lexeme}
    (cut : source.toList = before ++ c :: rest) (member : l ∈ lexemes source)
    (start : l.span.start = byteLength before) :
    ∃ w after, rest = w ++ after ∧ Lexeme.scan c rest = (l.token,w.length) ∧
      l.span.stop = l.span.start + byteLength (c :: w) := by
  obtain ⟨before',d,w,after,cut',start',stop,scanned⟩ := tiledScanned (lexemesTiled source) l member
  rw [Nat.zero_add] at start'
  have places := byteLengthCuts (cut.symm.trans cut') (start.symm.trans start')
  subst places
  have same := List.append_cancel_left (cut.symm.trans cut')
  obtain ⟨rfl,rfl⟩ := List.cons.inj same
  exact ⟨w,after,rfl,scanned,stop⟩

theorem spansDistinct (source : String) : ((lexemes source).map Lexeme.span).Nodup := by
  refine List.pairwise_map.mpr ?_
  have order := tiledOrder (lexemesTiled source)
  refine order.imp_of_mem fun {a b} first second before same => ?_
  have nonempty := (tiledOccupies (lexemesTiled source) a first).nonempty
  rw [same] at nonempty before
  omega

theorem sizeOfList (cs : List Char) : (String.ofList cs).utf8ByteSize = byteLength cs := by
  induction cs with
  | nil => rfl
  | cons c cs ih =>
    rw [String.ofList_cons,String.utf8ByteSize_append,String.utf8ByteSize_singleton,ih]
    rfl

def Span.Within (source : String) (s : Span) : Prop :=
  s.start ≤ s.stop ∧ s.stop ≤ source.utf8ByteSize ∧
    String.Pos.Raw.IsValid source ⟨s.start⟩ ∧ String.Pos.Raw.IsValid source ⟨s.stop⟩

theorem validPrefix {source : String} {before after : List Char}
    (cut : source.toList = before ++ after) : String.Pos.Raw.IsValid source ⟨byteLength before⟩ := by
  refine String.Pos.Raw.isValid_iff_exists_append.mpr ⟨String.ofList before,String.ofList after,?_,?_⟩
  · rw [← String.ofList_append,← cut,String.ofList_toList]
  · rw [← sizeOfList]
    rfl

theorem lexemeWithin {source : String} {l : Lexeme} (member : l ∈ lexemes source) :
    l.span.Within source := by
  obtain ⟨⟨w,before,after,cut,start,stop⟩,nonempty⟩ := tiledOccupies (lexemesTiled source) l member
  rw [Nat.zero_add] at start stop
  have valid : String.Pos.Raw.IsValid source ⟨byteLength (before ++ w)⟩ := validPrefix cut
  refine ⟨Nat.le_of_lt nonempty,?_,?_,?_⟩
  · rw [stop]
    exact valid.le_rawEndPos
  · rw [start]
    exact validPrefix (by rw [cut,List.append_assoc])
  · rwa [stop]

theorem tiledShift {m cs ls} (h : Tiled m cs ls) (n : Nat) :
    (Lexeme.listFrom n cs).map Lexeme.token = ls.map Lexeme.token := by
  induction h generalizing n with
  | done => simp [Lexeme.listFrom]
  | gap gap later ih => rw [Lexeme.listFrom,if_pos gap,ih]
  | @lexeme m c w rest token ls starts scanned later ih =>
    have here := tiledList (.lexeme starts scanned (listTiled (n + byteLength (c :: w)) rest))
    rw [here,List.map_cons,List.map_cons,ih]

def lexed (cs : List Char) : List (Except LexicalError Token) :=
  (Lexeme.listFrom 0 cs).map Lexeme.token

@[simp] theorem lexedNil : lexed [] = [] := by simp [lexed,Lexeme.listFrom]

theorem lexedGap {c : Char} (gap : Lexeme.isGap c = true) (rest : List Char) :
    lexed (c :: rest) = lexed rest := by
  rw [lexed,Lexeme.listFrom,if_pos gap]
  exact tiledShift (listTiled 0 rest) _

theorem lexedCons {c : Char} {w rest token} (starts : Lexeme.isGap c = false)
    (scanned : Lexeme.scan c (w ++ rest) = (token,w.length)) :
    lexed (c :: w ++ rest) = token :: lexed rest := by
  have here := tiledList (.lexeme starts scanned (listTiled (0 + byteLength (c :: w)) rest))
  rw [lexed,here,List.map_cons,tiledShift (listTiled 0 rest)]
  rfl

def Spelled (ts : List Token) (text : List Char) : Prop :=
  ∀ more, (Lexeme.listFrom 0 (text ++ more)).map Lexeme.token =
    ts.map .ok ++ (Lexeme.listFrom 0 more).map Lexeme.token

theorem Spelled.append {ts us vs ws} (first : Spelled ts vs) (second : Spelled us ws) :
    Spelled (ts ++ us) (vs ++ ws) := by
  intro more
  rw [List.append_assoc,first,second,List.map_append,List.append_assoc]

theorem spelledAlone {c : Char} {w : List Char} {t : Token} (starts : Lexeme.isGap c = false)
    (scanned : ∀ more, Lexeme.scan c (w ++ ' ' :: more) = (.ok t,w.length)) :
    Spelled [t] (c :: w ++ [' ']) := by
  intro more
  rw [List.append_assoc,List.singleton_append]
  exact (lexedCons starts (scanned more)).trans (congrArg _ (lexedGap rfl more))

def Spellable (t : Token) : Prop := ∃ text, Spelled [t] text

theorem tiledSpellable {offset cs ls} (h : Tiled offset cs ls) {l t} (member : l ∈ ls)
    (token : l.token = .ok t) : Spellable t := by
  induction h with
  | done => contradiction
  | gap gap later ih => exact ih member
  | @lexeme offset c w rest token ls starts scanned later ih =>
    rcases List.mem_cons.mp member with rfl | member
    · cases token
      refine ⟨c :: w ++ [' '],spelledAlone starts fun more => ?_⟩
      exact Lexeme.scanAgain scanned (.space rest more) (fun _ _ => by simp) (by simp)
    · exact ih member

theorem spelledList {ts : List Token} (h : ∀ t ∈ ts, Spellable t) : ∃ text, Spelled ts text := by
  induction ts with
  | nil => exact ⟨[],fun more => rfl⟩
  | cons t ts ih =>
    obtain ⟨text,first⟩ := h t List.mem_cons_self
    obtain ⟨rest,later⟩ := ih fun u member => h u (List.mem_cons_of_mem t member)
    exact ⟨text ++ rest,first.append later⟩

theorem spelledLexemes {ts text} (h : Spelled ts text) :
    (lexemes (String.ofList text)).map Lexeme.token = ts.map .ok := by
  have all := h []
  simpa [lexemes,Lexeme.listFrom] using all

end ArrayCalc
