import ArrayCalc.Proofs.Declarations
import ArrayCalc.Proofs.FilterPasses
import ArrayCalc.Proofs.LibraryBounds
import ArrayCalc.Session
import Mathlib.Algebra.Group.Nat.Defs
import Mathlib.Order.Bounds.Basic
/-! Which signals are long enough. Zero-phase filtering refuses what its length rule refuses and nothing
else: a leading coefficient that can be divided by is one or not-a-number after the division, so that
neither pass refuses it again. Filters by design take the largest order the rule allows. -/
namespace ArrayCalc

namespace Filter

section Quotients
open Float.Model Float.Model.UnpackedFloat

theorem coreSelf {m : Nat} (positive : 0 < m) (e : Int) :
    divCore Format.binary64 m e m e = (2 ^ 53,-53,.exact) := by
  have target : Format.binary64.targetExponent 0 = -53 := by decide
  have shift : (0 - min 0 (-53) : Int).toNat = 53 := by decide
  simp only [divCore,Int.sub_self,target,accuracyOfFraction,Nat.shiftLeft_eq]
  rw [shift,Nat.mul_div_cancel_left _ positive,Nat.mul_mod_right,if_pos rfl]
  rfl

theorem divideSelf (u : UnpackedFloat) : (∃ s, u = .zero s) ∨
    UnpackedFloat.div Format.binary64 u u = .notANumber ∨
    UnpackedFloat.div Format.binary64 u u =
      roundWithAccuracy Format.binary64 .positive (2 ^ 53) (-53) .exact := by
  cases u with
  | infinity s => exact .inr (.inl rfl)
  | notANumber => exact .inr (.inl rfl)
  | zero s => exact .inl ⟨s,rfl⟩
  | finite s m e positive =>
    refine .inr (.inr ?_)
    rw [Number.divideFinite,coreSelf positive]
    cases s <;> rfl

def nan : Float := .ofModel (.pack .notANumber)

theorem negligibleFloat (a : Float) : Gauge.isNegligible a = decide (a.abs < 1e-8) := rfl

theorem quotientSelf {a : Float} (kept : Gauge.isNegligible a = false) : a / a = 1 ∨ a / a = nan := by
  have quotient : a / a = .ofModel (.pack (UnpackedFloat.div Format.binary64 a.toModel.unpack
    a.toModel.unpack)) := rfl
  rw [quotient]
  rcases divideSelf a.toModel.unpack with ⟨s,zero⟩ | undefined | one
  · have size : a.abs = .ofModel (.pack a.toModel.unpack.abs) := rfl
    have small : Gauge.isNegligible a = true := by
      rw [negligibleFloat,size,zero]
      cases s <;> decide
    rw [small] at kept
    contradiction
  · rw [undefined]
    exact .inr rfl
  · rw [one]
    exact .inl (by decide)

theorem quotientKept {a : Float} (kept : Gauge.isNegligible a = false) :
    Gauge.isNegligible (a / a) = false := by
  rcases quotientSelf kept with one | undefined
  · rw [one]
    decide
  · rw [undefined]
    decide

end Quotients

section Answers
variable {α : Type} [Zero α] [Add α] [Sub α] [Mul α] [Div α] [Neg α] [Gauge α]

theorem zeroPhaseAnswers {b a x : List α} {lead : α} (leads : a.head? = some lead)
    (accepted : Gauge.isNegligible lead = false) (again : Gauge.isNegligible (lead / lead) = false)
    (long : 3 * max a.length b.length < x.length) : ∃ y, zeroPhase b a x = .ok y := by
  obtain ⟨ps,done,paired⟩ := acceptedPairs (b := b) leads accepted
  have leads' : (ps.map Prod.snd).head? = some (lead / lead) := by
    rw [paired.feedback]
    exact headScaled leads (List.length_pos_iff.mpr (pairsSome done))
  obtain ⟨qs,done',_⟩ := acceptedPairs (b := ps.map Prod.fst) leads' again
  exact ⟨_,zeroPhasePasses done done' (paired.length ▸ long)⟩

theorem zeroPhaseRefuses {b a x : List α} (refused : a = [] ∨
    (∃ lead, a.head? = some lead ∧ Gauge.isNegligible lead = true) ∨
    x.length ≤ 3 * max a.length b.length) : ∃ e, zeroPhase b a x = .error e := by
  cases done : coefficientPairs b a with
  | error e => exact ⟨e,zeroPhaseUnpaired done⟩
  | ok ps =>
    obtain ⟨lead,paired⟩ := pairedOf done
    rcases refused with rfl | ⟨lead',leads,small⟩ | short
    · contradiction
    · cases leads.symm.trans paired.leads
      cases small.symm.trans paired.accepted
    · exact ⟨_,zeroPhaseShort done (paired.length ▸ short)⟩

theorem zeroPhaseFails (b a x : List Float) : (∃ e, zeroPhase b a x = .error e) ↔ a = [] ∨
    (∃ lead, a.head? = some lead ∧ lead.abs < 1e-8) ∨ x.length ≤ 3 * max a.length b.length := by
  constructor
  · rintro ⟨e,failed⟩
    by_contra kept
    simp only [not_or,not_exists,not_and,Nat.not_le] at kept
    obtain ⟨filled,large,long⟩ := kept
    obtain ⟨lead,leads⟩ := Option.ne_none_iff_exists'.mp (List.head?_eq_none_iff.not.mpr filled)
    have accepted : Gauge.isNegligible lead = false := decide_eq_false (large lead leads)
    obtain ⟨y,done⟩ := zeroPhaseAnswers leads accepted (quotientKept accepted) long
    rw [done] at failed
    contradiction
  · intro refused
    refine zeroPhaseRefuses (refused.imp_right (Or.imp_left ?_))
    rintro ⟨lead,leads,small⟩
    exact ⟨lead,leads,decide_eq_true small⟩

end Answers

section Orders

theorem halfOrderOf (length : Nat) : halfOrderFor length =
    if 10 ≤ length then .ok (min ((length - 4) / 6) 250) else .error .signalTooShort := by
  rw [halfOrderFor,halfOrderLimit]
  generalize same : min ((length - 4) / 6) 250 = half
  cases half with
  | zero => exact (if_neg (by omega)).symm
  | succ half => exact (if_pos (by omega)).symm

theorem halfOrderGreatest {length half : Nat} (done : halfOrderFor length = .ok half) :
    IsGreatest {h | 1 ≤ h ∧ h ≤ 250 ∧ 3 * (2 * h + 1) < length} half := by
  rw [halfOrderOf] at done
  split at done
  · cases done
    refine ⟨⟨by omega,by omega,by omega⟩,fun h fits => ?_⟩
    obtain ⟨_,_,_⟩ := fits
    omega
  · contradiction

theorem halfOrderAnswers (length : Nat) :
    (∃ half, halfOrderFor length = .ok half) ↔ 10 ≤ length := by
  rw [halfOrderOf]
  split <;> simp [*]

end Orders
end Filter

namespace Functions
variable {η : Type}

def Filters (x : List Float) (r : Outcome (Workspace η) Value) : Prop :=
  (r.Fails ↔ x.length < 10) ∧ ∀ v w, r = .ok v w → ∃ y, v = .ofNumbers y ∧ y.length = x.length

theorem byDesignShort (design : Nat → List Float) {x : List Float} (short : x.length < 10) :
    byDesign design x = .error (.filter .signalTooShort) := by
  rw [byDesign,Filter.halfOrderOf,if_neg (by omega)]
  rfl

theorem byDesignLong {design : Nat → List Float} (taps : ∀ half, (design half).length = 2 * half + 1)
    {x : List Float} (long : 10 ≤ x.length) :
    ∃ y, byDesign design x = .ok (.ofNumbers y) ∧ y.length = x.length := by
  have order := Filter.halfOrderOf x.length
  rw [if_pos long] at order
  obtain ⟨⟨_,_,fits⟩,_⟩ := Filter.halfOrderGreatest order
  obtain ⟨y,done⟩ := Filter.zeroPhaseAnswers (b := design (min ((x.length - 4) / 6) 250)) (a := [1.0])
    (x := x) rfl (by decide) (by decide) (by rw [taps,List.length_singleton]; omega)
  refine ⟨y,?_,Filter.zeroPhaseLength done⟩
  rw [byDesign,order]
  exact congrArg signal done

theorem byDesignFilters {design : Nat → List Float}
    (taps : ∀ half, (design half).length = 2 * half + 1) (x : List Float) (w : Workspace η) :
    Filters x (Action.ofExcept (byDesign design x) w) := by
  by_cases short : x.length < 10
  · rw [byDesignShort design short]
    exact ⟨⟨fun _ => short,fun _ => ⟨_,_,rfl⟩⟩,fun v w' done => by contradiction⟩
  · obtain ⟨y,done,length⟩ := byDesignLong taps (Nat.le_of_not_lt short)
    rw [done]
    refine ⟨⟨?_,fun short' => absurd short' short⟩,?_⟩
    · rintro ⟨e,w',failed⟩
      contradiction
    · intro v w' done'
      cases done'
      exact ⟨y,rfl,length⟩

theorem callAlone {ds : List (Binding η)} {name : String} {m : Method η} {vs : List Value}
    (alone : ds.filterMap (·.method? name) = [m]) (accepts : m.accepts (vs.map Value.kind) = true) :
    (Bindings.ofList ds).call name vs = m.invoke vs := by
  have found : (Bindings.ofList ds).overload? name (vs.map Value.kind) = some m := by
    rw [Bindings.overloadFound,Bindings.overloadsOfList,alone]
    exact List.find?_cons_of_pos accepts
  rw [Bindings.call,found]

theorem passesFilter (x : List Float) (w : Workspace η) {name : String}
    (member : name ∈ ["LowPass","HighPass"]) (cutoff rate : Float) :
    Filters x ((Bindings.ofList library).call name
      [.ofNumbers x,.ofNumber cutoff,.ofNumber rate] w) := by
  simp only [List.mem_cons,List.not_mem_nil,or_false] at member
  rcases member with rfl | rfl
  · rw [callAlone rfl rfl]
    exact byDesignFilters (Filter.lowPassLength cutoff rate) x w
  · rw [callAlone rfl rfl]
    exact byDesignFilters (Filter.highPassLength cutoff rate) x w

theorem bandsFilter (x : List Float) (w : Workspace η) {name : String}
    (member : name ∈ ["BandPass","BandStop"]) (low high rate : Float) :
    Filters x ((Bindings.ofList library).call name
      [.ofNumbers x,.ofNumber low,.ofNumber high,.ofNumber rate] w) := by
  simp only [List.mem_cons,List.not_mem_nil,or_false] at member
  rcases member with rfl | rfl
  · rw [callAlone rfl rfl]
    exact byDesignFilters (Filter.bandPassLength low high rate) x w
  · rw [callAlone rfl rfl]
    exact byDesignFilters (Filter.bandStopLength low high rate) x w

theorem zeroPhaseLengthRule :
    (∀ b a x : List Float,
      ((∃ e, Filter.zeroPhase b a x = .error e) ↔ a = [] ∨
        (∃ lead, a.head? = some lead ∧ lead.abs < 1e-8) ∨ x.length ≤ 3 * max a.length b.length) ∧
      (∀ y, Filter.zeroPhase b a x = .ok y → y.length = x.length) ∧
      Filter.zeroPhase? b a x = Checked.inside (Filter.zeroPhase b a x)) ∧
    (∀ length,
      ((∃ half, Filter.halfOrderFor length = .ok half) ↔ 10 ≤ length) ∧
      ∀ half, Filter.halfOrderFor length = .ok half →
        IsGreatest {h | 1 ≤ h ∧ h ≤ 250 ∧ 3 * (2 * h + 1) < length} half) ∧
    ∀ (x : List Float) (w : Workspace η),
      (∀ name ∈ ["LowPass","HighPass"], ∀ cutoff rate, Filters x ((Bindings.ofList library).call name
        [.ofNumbers x,.ofNumber cutoff,.ofNumber rate] w)) ∧
      ∀ name ∈ ["BandPass","BandStop"], ∀ low high rate, Filters x ((Bindings.ofList library).call name
        [.ofNumbers x,.ofNumber low,.ofNumber high,.ofNumber rate] w) := by
  exact ⟨fun b a x => ⟨Filter.zeroPhaseFails b a x,fun _ => Filter.zeroPhaseLength,
      Filter.zeroPhaseInBounds b a x⟩,
    fun length => ⟨Filter.halfOrderAnswers length,fun _ => Filter.halfOrderGreatest⟩,
    fun x w => ⟨fun _ => passesFilter x w,fun _ => bandsFilter x w⟩⟩

end Functions
end ArrayCalc
