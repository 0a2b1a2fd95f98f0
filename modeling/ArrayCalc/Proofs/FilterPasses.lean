import ArrayCalc.Proofs.FilterBounds
/-! Coefficients a filter accepts, and zero-phase filtering as two passes. Coefficients are accepted by
their leading feedback one, by which all are divided; the passes do it once more. -/
namespace ArrayCalc.Filter

section Scaling
variable {α : Type} [Zero α] [Div α]

def scaled (lead : α) (n : Nat) (cs : List α) : List α := fit n (cs.map (· / lead))

@[simp] theorem scaledLength (lead : α) (n : Nat) (cs : List α) : (scaled lead n cs).length = n :=
  fitLength ..

theorem headScaled {a : List α} {lead : α} (leads : a.head? = some lead) {n : Nat} (room : 0 < n) :
    (scaled lead n a).head? = some (lead / lead) := by
  obtain ⟨rest,rfl⟩ := List.head?_eq_some_iff.mp leads
  obtain ⟨n,rfl⟩ := Nat.exists_eq_succ_of_ne_zero (Nat.ne_of_gt room)
  rfl

theorem zipScaledForward (lead : α) (n : Nat) (b a : List α) :
    ((scaled lead n b).zip (scaled lead n a)).map Prod.fst = scaled lead n b :=
  List.map_fst_zip (by simp)

theorem zipScaledFeedback (lead : α) (n : Nat) (b a : List α) :
    ((scaled lead n b).zip (scaled lead n a)).map Prod.snd = scaled lead n a :=
  List.map_snd_zip (by simp)

variable [Gauge α]

theorem pairsAccepted (b : List α) {a : List α} {lead : α} (leads : a.head? = some lead)
    (accepted : Gauge.isNegligible lead = false) :
    coefficientPairs b a = .ok ((scaled lead (max a.length b.length) b).zip
      (scaled lead (max a.length b.length) a)) := by
  obtain ⟨rest,rfl⟩ := List.head?_eq_some_iff.mp leads
  simp only [coefficientPairs,accepted]
  rfl

structure Paired (b a : List α) (ps : List (α × α)) (lead : α) : Prop where
  leads : a.head? = some lead
  accepted : Gauge.isNegligible lead = false
  forward : ps.map Prod.fst = scaled lead ps.length b
  feedback : ps.map Prod.snd = scaled lead ps.length a
  length : ps.length = max a.length b.length

theorem pairedOf {b a : List α} {ps : List (α × α)} (paired : coefficientPairs b a = .ok ps) :
    ∃ lead, Paired b a ps lead := by
  cases leads : a.head? with
  | none =>
    rw [List.head?_eq_none_iff.mp leads] at paired
    contradiction
  | some lead =>
    cases accepted : Gauge.isNegligible lead with
    | true =>
      obtain ⟨rest,rfl⟩ := List.head?_eq_some_iff.mp leads
      simp [coefficientPairs,accepted] at paired
    | false =>
      cases (pairsAccepted b leads accepted).symm.trans paired
      exact ⟨lead,leads,accepted,by simp [zipScaledForward],by simp [zipScaledFeedback],by simp⟩

theorem acceptedPairs {b a : List α} {lead : α} (leads : a.head? = some lead)
    (accepted : Gauge.isNegligible lead = false) :
    ∃ ps, coefficientPairs b a = .ok ps ∧ Paired b a ps lead := by
  have done := pairsAccepted b leads accepted
  obtain ⟨lead',paired⟩ := pairedOf done
  cases leads.symm.trans paired.leads
  exact ⟨_,done,paired⟩

end Scaling

section Passes
variable {α : Type} [Zero α] [Add α] [Sub α] [Mul α] [Div α] [Gauge α]

theorem responseRuns {b a : List α} {ps : List (α × α)} (paired : coefficientPairs b a = .ok ps)
    (start x : List α) : response b a start x = .ok (run ps (fit ps.length start) x) := by
  rw [response,paired]
  rfl

variable [Neg α]

def settled (ps : List (α × α)) (c : α) : List α := fit ps.length ((seed ps).map (· * c))

/- Forward and then backward with the coefficients `qs`, each time from the steady state of `ps`. -/
def passes (ps qs : List (α × α)) (v : List α) : List α :=
  let forward := run qs (settled ps (v.headD 0)) v
  (run qs (settled ps (forward.getLastD 0)) forward.reverse).reverse

variable {b a x : List α} {ps qs : List (α × α)}

theorem zeroPhaseUnpaired {e : Fault} (failed : coefficientPairs b a = .error e) :
    zeroPhase b a x = .error e := by
  rw [zeroPhase,failed]
  rfl

theorem zeroPhaseShort (paired : coefficientPairs b a = .ok ps) (short : x.length ≤ 3 * ps.length) :
    zeroPhase b a x = .error .signalTooShort := by
  rw [zeroPhase,paired]
  simp only [bind,Except.bind,if_pos short]
  rfl

theorem zeroPhasePasses (paired : coefficientPairs b a = .ok ps)
    (again : coefficientPairs (ps.map Prod.fst) (ps.map Prod.snd) = .ok qs)
    (long : 3 * ps.length < x.length) : zeroPhase b a x =
      .ok (((passes ps qs (reflect (3 * ps.length) x)).drop (3 * ps.length)).take x.length) := by
  obtain ⟨_,same⟩ := pairedOf again
  have length : qs.length = ps.length := by simpa using same.length
  rw [zeroPhase,paired]
  simp only [bind,Except.bind,List.unzip_eq_map,if_neg (Nat.not_le.mpr long),responseRuns again,length]
  rfl

end Passes
end ArrayCalc.Filter
