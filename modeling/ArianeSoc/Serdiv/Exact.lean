import ArianeSoc.Serdiv.Align
import Mathlib.Data.Int.Basic

/-!
# The runs of the divider and their results

A run from a load, with no flush: the shift counts down, and each turn makes
the quotient and the remainder by the divisor of its shift (`Turn`).  With
the count at zero the result is out and stays until it is taken.

`returns` is the result of a run: it takes at most 66 cycles, and what it
returns is `unitResult`.

`riscvResult` is the result that the specification asks for, `unitResult`
the one that the divider returns, and `Returns` says that a run returns a
result after a bounded number of cycles and holds it until it is taken.

The two results are the same but for `-1` divided by one with a sign
(`unitResult_eq_iff`), so the divider is right exactly for the other
operands (`divides_iff`).
-/

namespace ArianeSoc.Serdiv

open LongDivision
open Sync

variable {i : In} {q : Regs} {js : ℕ → In} {s j n : ℕ}

/-! ## What a load fixes -/

/-- What a load leaves in the registers that the division does not change. -/
structure Loaded (i : In) (q : Regs) : Prop where
  id : q.id = i.id
  remSel : q.remSel = i.rem
  compInv : q.compInv = commonSign i
  resInv : q.resInv =
    ((!opBZeroIn i || i.rem) && i.signed && (opASign i ^^ opBSign i))
  opBZero : q.opBZero = opBZeroIn i
  divResZero : q.divResZero = (divShift i).slt 0#8

theorem Loaded.load (hs : q.state = .IDLE) (hv : i.inVld = true)
    (hf : i.flush = false) : Loaded i (step q i) := by
  rw [step_load hs hv hf]
  exact ⟨rfl, rfl, rfl, rfl, rfl, rfl⟩

theorem Loaded.divide {i' : In} (h : Loaded i q) (hs : q.state = .DIVIDE)
    (hz : q.divResZero = false) (hf : i'.flush = false) :
    Loaded i (step q i') := by
  rw [step_divide hs hz hf]
  exact ⟨h.id, h.remSel, h.compInv, h.resInv, h.opBZero, h.divResZero⟩

theorem Loaded.done {i' : In} (h : Loaded i q) (hd : Done q)
    (hf : i'.flush = false) : Loaded i (step q i') := by
  rw [step_done hd hf]
  exact ⟨h.id, h.remSel, h.compInv, h.resInv, h.opBZero, h.divResZero⟩

/-! ## The loop -/

/-- The loop, with the count at `c`. -/
structure Dividing (c : ℕ) (q : Regs) : Prop where
  state : q.state = .DIVIDE
  divResZero : q.divResZero = false
  cnt : q.cnt.toNat = c

theorem Dividing.cntZero_iff {c : ℕ} (h : Dividing c q) :
    cntZero q = true ↔ c = 0 := by
  rw [cntZero, decide_eq_true_iff, ← h.cnt]
  exact ⟨fun hq => by rw [hq]; rfl, fun hq => BitVec.eq_of_toNat_eq hq⟩

theorem Dividing.next {c : ℕ} (h : Dividing (c + 1) q) (hf : i.flush = false) :
    Dividing c (step q i) := by
  have hz : cntZero q = false := by
    rw [← Bool.not_eq_true, h.cntZero_iff]
    exact Nat.succ_ne_zero c
  rw [step_divide h.state h.divResZero hf, hz]
  refine ⟨rfl, h.divResZero, ?_⟩
  show (q.cnt - 1#7).toNat = c
  have hcnt := h.cnt
  have hlt := q.cnt.isLt
  have hone : (1#7).toNat = 1 := rfl
  rw [BitVec.toNat_sub, hone]
  omega

theorem Dividing.last (h : Dividing 0 q) (hf : i.flush = false) :
    (step q i).state = .FINISH := by
  rw [step_divide h.state h.divResZero hf, h.cntZero_iff.mpr rfl]
  rfl

/-- A property that every turn takes on by one. -/
def Advances (P : ℕ → Regs → Prop) (s : ℕ) : Prop :=
  ∀ j q i, j ≤ s → q.state = .DIVIDE → q.divResZero = false →
    i.flush = false → P j q → P (j + 1) (step q i)

/-- The loop takes one turn more than its count says. -/
theorem turns {P : ℕ → Regs → Prop} (hP : Advances P s)
    (hf : ∀ n, (js n).flush = false) (hd : Dividing s (stateAt step q js 1))
    (h0 : P 0 (stateAt step q js 1)) :
    (∀ m, m < s + 1 → (stateAt step q js (m + 1)).state = .DIVIDE ∧
        (stateAt step q js (m + 1)).divResZero = false) ∧
      (stateAt step q js (s + 2)).state = .FINISH ∧
      P (s + 1) (stateAt step q js (s + 2)) := by
  have hall : ∀ m, m ≤ s → Dividing (s - m) (stateAt step q js (m + 1)) ∧
      P m (stateAt step q js (m + 1)) := by
    intro m
    induction m with
    | zero => exact fun _ => ⟨hd, h0⟩
    | succ m ih =>
      intro hm
      obtain ⟨hdiv, hp⟩ := ih (by omega)
      rw [show s - m = s - (m + 1) + 1 by omega] at hdiv
      exact ⟨hdiv.next (hf _),
        hP m _ _ (by omega) hdiv.state hdiv.divResZero (hf _) hp⟩
  obtain ⟨hdiv, hp⟩ := hall s (Nat.le_refl s)
  rw [Nat.sub_self] at hdiv
  refine ⟨fun m hm => ?_, hdiv.last (hf _),
    hP s _ _ (Nat.le_refl s) hdiv.state hdiv.divResZero (hf _) hp⟩
  obtain ⟨hdm, -⟩ := hall m (by omega)
  exact ⟨hdm.state, hdm.divResZero⟩

/-! ## What the turns compute -/

/-- The quotient and the remainder after `j` turns with the shift `s`. -/
structure Turn (i : In) (s j : ℕ) (q : Regs) : Prop where
  loaded : Loaded i q
  opA : q.opA = sgn (commonSign i) (magA i % (magB i * 2 ^ (s + 1 - j)))
  opB : j ≤ s → q.opB = sgn (commonSign i) (magB i * 2 ^ (s - j))
  res : q.res = BitVec.ofNat 64 (magA i / (magB i * 2 ^ (s + 1 - j)))

/-- A bit comes in from below. -/
theorem push_bit (n : ℕ) (b : Bool) :
    (BitVec.ofNat 64 n).extractLsb' 0 63 ++ BitVec.ofBool b =
      BitVec.ofNat 64 (2 * n + b.toNat) := by
  apply BitVec.eq_of_toNat_eq
  rw [BitField.toNat_append_add, BitVec.extractLsb'_toNat,
    Nat.shiftRight_zero, BitVec.toNat_ofNat, BitVec.toNat_ofNat]
  cases b with
  | false =>
    show n % 2 ^ 64 % 2 ^ 63 * 2 ^ 1 + 0 = (2 * n + 0) % 2 ^ 64
    omega
  | true =>
    show n % 2 ^ 64 % 2 ^ 63 * 2 ^ 1 + 1 = (2 * n + 1) % 2 ^ 64
    omega

theorem Turn.advance (hfit : FitsB (commonSign i) (magB i * 2 ^ s))
    (hz : opBZeroIn i = false) : Advances (Turn i s) s := by
  intro j q i' hj hstate hzero hf h
  have hB := h.opB hj
  have hpos : 0 < magB i := Nat.pos_of_mul_pos_right hfit.pos
  have hd : 0 < magB i * 2 ^ (s - j) := Nat.mul_pos hpos (Nat.two_pow_pos _)
  have hdouble : magB i * 2 ^ (s + 1 - j) = 2 * (magB i * 2 ^ (s - j)) := by
    rw [show s + 1 - j = s - j + 1 by omega, Nat.pow_succ', Nat.mul_left_comm]
  have hle : magB i * 2 ^ (s - j) ≤ magB i * 2 ^ s :=
    Nat.mul_le_mul_left _ (Nat.pow_le_pow_right (by decide) (Nat.sub_le _ _))
  have hfitj : FitsB (commonSign i) (magB i * 2 ^ (s - j)) :=
    ⟨hd, Nat.le_trans hle hfit.le,
      fun hn => Nat.lt_of_le_of_lt hle (hfit.lt hn)⟩
  have hA := h.opA
  have hR := h.res
  rw [hdouble] at hA hR
  have hrem : magA i % (2 * (magB i * 2 ^ (s - j))) ≤ magA i :=
    Nat.mod_le _ _
  have hfita : FitsA (commonSign i)
      (magA i % (2 * (magB i * 2 ^ (s - j)))) :=
    ⟨Nat.lt_of_le_of_lt hrem fitsA_magA.lt,
      fun hn => Nat.le_trans hrem (fitsA_magA.neg hn)⟩
  have hcomp : abComp q =
      decide (magB i * 2 ^ (s - j) ≤
        magA i % (2 * (magB i * 2 ^ (s - j)))) :=
    abComp_sgn hfita hfitj hA hB h.loaded.compInv
      (h.loaded.opBZero.trans hz)
  have hload := h.loaded.divide hstate hzero hf
  have hsub : s + 1 - (j + 1) = s - j := Nat.add_sub_add_right s 1 j
  rw [step_divide hstate hzero hf] at hload ⊢
  refine ⟨hload, ?_, fun hj' => ?_, ?_⟩
  · show (if abComp q then q.opA - q.opB else q.opA) = _
    rw [hsub, halve_mod hd, hcomp, hA, hB]
    by_cases hge : magB i * 2 ^ (s - j) ≤
        magA i % (2 * (magB i * 2 ^ (s - j)))
    · rw [if_pos (decide_eq_true hge), if_neg (Nat.not_lt.mpr hge),
        sgn_sub hge]
    · rw [if_neg (by simpa using hge), if_pos (Nat.lt_of_not_le hge)]
  · show BitVec.ofBool q.compInv ++ q.opB.extractLsb' 1 63 = _
    have hhalf : magB i * 2 ^ (s - j) =
        2 * (magB i * 2 ^ (s - (j + 1))) := by
      rw [show s - j = s - (j + 1) + 1 by omega, Nat.pow_succ',
        Nat.mul_left_comm]
    rw [h.loaded.compInv, hB, hhalf]
    exact sgn_half (hhalf ▸ hfitj)
  · show q.res.extractLsb' 0 63 ++ BitVec.ofBool (abComp q) = _
    rw [hsub, hR, push_bit, halve_div hd, hcomp]
    by_cases hge : magB i * 2 ^ (s - j) ≤
        magA i % (2 * (magB i * 2 ^ (s - j)))
    · rw [if_neg (Nat.not_lt.mpr hge), decide_eq_true hge]
      rfl
    · rw [if_pos (Nat.lt_of_not_le hge), decide_eq_false hge]
      rfl

/-- By zero every turn subtracts nothing and puts in a one. -/
structure ZeroTurn (i : In) (j : ℕ) (q : Regs) : Prop where
  loaded : Loaded i q
  opA : q.opA = sgn (commonSign i) (magA i)
  opB : q.opB = 0#64
  res : q.res = BitVec.ofNat 64 (2 ^ j - 1)

theorem ZeroTurn.advance (hz : opBZeroIn i = true)
    (hsign : commonSign i = false) : Advances (ZeroTurn i) s := by
  intro j q i' _ hstate hzero hf h
  have hcomp : abComp q = true := by
    unfold abComp
    rw [h.loaded.opBZero, hz, Bool.or_true, Bool.and_true, h.opB,
      h.loaded.compInv, hsign, Bool.xor_false, Bool.or_eq_true,
      decide_eq_true_iff, decide_eq_true_iff]
    by_cases hA : q.opA = 0#64
    · exact .inl hA
    · refine .inr ?_
      rw [BitVec.lt_def]
      exact Nat.pos_of_ne_zero fun h0 => hA (BitVec.eq_of_toNat_eq h0)
  have hload := h.loaded.divide hstate hzero hf
  rw [step_divide hstate hzero hf] at hload ⊢
  refine ⟨hload, ?_, ?_, ?_⟩
  · show (if abComp q then q.opA - q.opB else q.opA) = _
    rw [hcomp, if_pos rfl, h.opB, BitVec.sub_zero]
    exact h.opA
  · show BitVec.ofBool q.compInv ++ q.opB.extractLsb' 1 63 = _
    rw [h.loaded.compInv, hsign, h.opB]
    rfl
  · show q.res.extractLsb' 0 63 ++ BitVec.ofBool (abComp q) = _
    rw [hcomp, h.res, push_bit]
    have hpow := Nat.two_pow_pos j
    have hsucc : 2 ^ (j + 1) = 2 * 2 ^ j := Nat.pow_succ'
    have hone : true.toNat = 1 := rfl
    rw [hsucc, hone]
    congr 1
    omega

end ArianeSoc.Serdiv

namespace ArianeSoc.Serdiv

open CommonCells
open Sync

variable {i : In} {q : Regs} {js : ℕ → In} {n : ℕ}

/-! ## The answer of a run -/

/-- The quotient and the remainder of the magnitudes, as the divider makes
them. -/
def quotN (i : In) : ℕ :=
  if i.opB = 0#64 then 2 ^ 64 - 1
  else if (divShift i).slt 0#8 then 0
  else magA i / magB i

def remN (i : In) : ℕ :=
  if i.opB = 0#64 then magA i
  else if (divShift i).slt 0#8 then magA i
  else magA i % magB i

/-- The registers with the answer to the operands of a load. -/
structure Answer (i : In) (q : Regs) : Prop where
  loaded : Loaded i q
  opA : q.opA = sgn (commonSign i) (remN i)
  res : q.res = BitVec.ofNat 64 (quotN i)

theorem Answer.keep {i' : In} (h : Answer i q) (hd : Done q)
    (hf : i'.flush = false) : Answer i (step q i') := by
  have hload := h.loaded.done hd hf
  rw [step_done hd hf] at hload ⊢
  exact ⟨hload, h.opA, h.res⟩

/-- The count after a load with the shift `s`. -/
theorem dividing_load {s : ℕ} (hs : q.state = .IDLE) (hv : i.inVld = true)
    (hf : i.flush = false) (hz : (divShift i).slt 0#8 = false)
    (hshift : (divShift i).toNat = s) (hle : s ≤ 64) :
    Dividing s (step q i) := by
  rw [step_load hs hv hf]
  refine ⟨rfl, hz, ?_⟩
  show ((divShift i).setWidth 7).toNat = s
  rw [BitVec.toNat_setWidth, hshift]
  exact Nat.mod_eq_of_lt (by omega)

theorem not_done_idle (hs : q.state = .IDLE) : ¬ Done q := by
  rintro (h | ⟨h, -⟩) <;> rw [hs] at h <;> cases h

theorem not_done_divide (hs : q.state = .DIVIDE)
    (hz : q.divResZero = false) : ¬ Done q := by
  rintro (h | ⟨-, h⟩)
  · rw [hs] at h
    cases h
  · rw [hz] at h
    cases h

/-- The loop as a whole: nothing is out before its end. -/
theorem done_of_turns {P : ℕ → Regs → Prop} {s : ℕ} (hP : Advances P s)
    (hs : q.state = .IDLE) (hf : ∀ n, (js n).flush = false)
    (hd : Dividing s (step q (js 0))) (h0 : P 0 (step q (js 0))) :
    (∀ m, m < s + 2 → ¬ Done (stateAt step q js m)) ∧
      Done (stateAt step q js (s + 2)) ∧
      P (s + 1) (stateAt step q js (s + 2)) := by
  obtain ⟨hbusy, hfin, hp⟩ := turns hP hf hd h0
  refine ⟨fun m hm => ?_, .inl hfin, hp⟩
  cases m with
  | zero => exact not_done_idle hs
  | succ m =>
    obtain ⟨hdiv, hnz⟩ := hbusy m (by omega)
    exact not_done_divide hdiv hnz

/-- From a load on the answer is out after at most 66 cycles. -/
theorem answers (hs : q.state = .IDLE) (hv : (js 0).inVld = true)
    (hf : ∀ n, (js n).flush = false) :
    ∃ n, n ≤ 66 ∧ (∀ m, m < n → ¬ Done (stateAt step q js m)) ∧
      Done (stateAt step q js n) ∧ Answer (js 0) (stateAt step q js n) := by
  have hload := Loaded.load hs hv (hf 0)
  have hregs := step_load hs hv (hf 0)
  have hA : (step q (js 0)).opA = sgn (commonSign (js 0)) (magA (js 0)) := by
    rw [hregs]
    exact loaded_opA
  by_cases hb : (js 0).opB = 0#64
  · -- by zero
    have hbz : opBZeroIn (js 0) = true := decide_eq_true hb
    have hsign : commonSign (js 0) = false := by
      unfold commonSign opBSign
      rw [hb]
      exact Bool.and_false _
    have hinput : lzcBInput (js 0) = 0#64 := by
      have hif := hsign
      unfold commonSign at hif
      unfold lzcBInput
      rw [hif, hb]
      rfl
    have hshift : divShift (js 0) = 64#8 := by
      unfold divShift
      rw [if_pos ((Lzc.empty_iff rfl).mpr hinput)]
    have hdiv : Dividing 64 (step q (js 0)) :=
      dividing_load hs hv (hf 0) (by rw [hshift]; rfl)
        (by rw [hshift]; rfl) (Nat.le_refl 64)
    have hturn : ZeroTurn (js 0) 0 (step q (js 0)) := by
      refine ⟨hload, hA, ?_, ?_⟩
      · rw [hregs]
        show opBShifted (js 0) = 0#64
        unfold opBShifted
        rw [hb, BitVec.zero_shiftLeft]
      · rw [hregs]
        rfl
    obtain ⟨hbusy, hdone, hp⟩ :=
      done_of_turns (ZeroTurn.advance hbz hsign) hs hf hdiv hturn
    refine ⟨66, Nat.le_refl 66, hbusy, hdone, hp.loaded, ?_, ?_⟩
    · rw [hp.opA, remN, if_pos hb]
    · rw [hp.res, quotN, if_pos hb]
      rfl
  · have hbz : opBZeroIn (js 0) = false := decide_eq_false hb
    cases hz : (divShift (js 0)).slt 0#8 with
    | true =>
      -- the quotient is zero at once
      refine ⟨1, by omega, fun m hm => ?_, .inr ⟨?_, ?_⟩, hload, ?_, ?_⟩
      · obtain rfl : m = 0 := by omega
        exact not_done_idle hs
      · exact congrArg Regs.state hregs
      · exact (congrArg Regs.divResZero hregs).trans hz
      · rw [remN, if_neg hb, if_pos hz]
        exact hA
      · rw [quotN, if_neg hb, if_pos hz]
        exact congrArg Regs.res hregs
    | false =>
      obtain ⟨hle, hlt, hfit⟩ := aligned hb hz
      have hdiv := dividing_load hs hv (hf 0) hz rfl hle
      have hturn : Turn (js 0) (divShift (js 0)).toNat 0
          (step q (js 0)) := by
        refine ⟨hload, ?_, fun _ => ?_, ?_⟩
        · rw [hA, Nat.sub_zero, Nat.mod_eq_of_lt hlt]
        · rw [hregs, Nat.sub_zero]
          show opBShifted (js 0) = _
          unfold opBShifted
          rw [← sgn_shiftLeft, ← opB_eq]
        · rw [hregs, Nat.sub_zero, Nat.div_eq_of_lt hlt]
      obtain ⟨hbusy, hdone, hp⟩ :=
        done_of_turns (Turn.advance hfit hbz) hs hf hdiv hturn
      have hone : magB (js 0) * 2 ^ ((divShift (js 0)).toNat + 1 -
          ((divShift (js 0)).toNat + 1)) = magB (js 0) := by
        rw [Nat.sub_self, Nat.pow_zero, Nat.mul_one]
      have hA' := hp.opA
      have hR' := hp.res
      rw [hone] at hA' hR'
      refine ⟨(divShift (js 0)).toNat + 2, by omega, hbusy, hdone,
        hp.loaded, ?_, ?_⟩
      · rw [hA', remN, if_neg hb, if_neg (by rw [hz]; exact Bool.false_ne_true)]
      · rw [hR', quotN, if_neg hb,
          if_neg (by rw [hz]; exact Bool.false_ne_true)]

/-! ## The result on the port -/

/-- What the divider returns. -/
def unitResult (i : In) : BitVec 64 :=
  if i.rem then sgn (i.signed && opASign i) (remN i)
  else sgn (!opBZeroIn i && i.signed && (opASign i ^^ opBSign i)) (quotN i)

theorem Answer.resO (h : Answer i q) : resO q = unitResult i := by
  have hzero : opBZeroIn i = true → opBSign i = false := by
    intro hz
    unfold opBSign
    rw [of_decide_eq_true hz]
    rfl
  unfold Serdiv.resO outMux unitResult
  rw [h.loaded.remSel, h.loaded.resInv, h.opA, h.res]
  cases i.rem with
  | true =>
    simp only [if_true, Bool.or_true, Bool.true_and]
    rw [neg_sgn]
    unfold commonSign
    cases i.signed <;> cases opASign i <;> cases opBSign i <;> rfl
  | false =>
    simp only [Bool.false_eq_true, if_false, Bool.or_false]
    cases hinv : !opBZeroIn i && i.signed && (opASign i ^^ opBSign i)
      <;> rfl

/-- The run returns `r` under the name `id`: nothing is put out before, and
what is put out stays until it is taken, after at most 66 cycles. -/
def Returns (q : Regs) (js : ℕ → In) (r : BitVec 64) (id : BitVec 3) : Prop :=
  ∃ n, n ≤ 66 ∧
    (∀ m, m < n → outVldO (stateAt step q js m) (js m) = false) ∧
    ∀ k, (∀ m, n ≤ m → m < n + k → (js m).outRdy = false) →
      outVldO (stateAt step q js (n + k)) (js (n + k)) = true ∧
        resO (stateAt step q js (n + k)) = r ∧
        (stateAt step q js (n + k)).id = id ∧
        ((js (n + k)).outRdy = true →
          (stateAt step q js (n + k + 1)).state = .IDLE)

theorem returns (hs : q.state = .IDLE) (hv : (js 0).inVld = true)
    (hf : ∀ n, (js n).flush = false) :
    Returns q js (unitResult (js 0)) (js 0).id := by
  obtain ⟨n, hn, hbusy, hdone, hans⟩ := answers hs hv hf
  refine ⟨n, hn, fun m hm => ?_, fun k hk => ?_⟩
  · rw [← Bool.not_eq_true, outVldO_iff (hf m)]
    exact hbusy m hm
  · have hstay : ∀ d, d ≤ k → Done (stateAt step q js (n + d)) ∧
        Answer (js 0) (stateAt step q js (n + d)) := by
      intro d
      induction d with
      | zero => exact fun _ => ⟨hdone, hans⟩
      | succ d ih =>
        intro hd
        obtain ⟨hd', ha'⟩ := ih (by omega)
        refine ⟨.inl ?_, ha'.keep hd' (hf _)⟩
        have hrdy := hk (n + d) (Nat.le_add_right n d) (by omega)
        show (step (stateAt step q js (n + d)) (js (n + d))).state = .FINISH
        rw [step_done hd' (hf _), hrdy]
        rfl
    obtain ⟨hd, ha⟩ := hstay k (Nat.le_refl k)
    refine ⟨(outVldO_iff (hf _)).mpr hd, ha.resO, ha.loaded.id, fun hr => ?_⟩
    show (step (stateAt step q js (n + k)) (js (n + k))).state = .IDLE
    rw [step_done hd (hf _), hr]
    rfl

/-- A run returns one result. -/
theorem Returns.unique {r r' : BitVec 64} {id id' : BitVec 3}
    (h : Returns q js r id) (h' : Returns q js r' id') : r = r' := by
  obtain ⟨n, -, hbusy, hout⟩ := h
  obtain ⟨n', -, hbusy', hout'⟩ := h'
  obtain ⟨hv, hr, -⟩ := hout 0 fun m hm hlt => absurd hlt (by omega)
  obtain ⟨hv', hr', -⟩ := hout' 0 fun m hm hlt => absurd hlt (by omega)
  rw [Nat.add_zero] at hv hr hv' hr'
  have heq : n = n' := by
    rcases Nat.lt_trichotomy n n' with hlt | heq | hlt
    · rw [hbusy' n hlt] at hv
      exact absurd hv Bool.false_ne_true
    · exact heq
    · rw [hbusy n' hlt] at hv'
      exact absurd hv' Bool.false_ne_true
  rw [← hr, ← hr', heq]

/-! ## The result of the specification -/

/-- The results of DIV, DIVU, REM and REMU.  By zero the quotient has all
bits set and the remainder is the dividend; the quotient of an overflow
wraps around. -/
def riscvResult (i : In) : BitVec 64 :=
  if i.opB = 0#64 then
    if i.rem then i.opA else BitVec.allOnes 64
  else if i.signed then
    if i.rem then BitVec.ofInt 64 (i.opA.toInt.tmod i.opB.toInt)
    else BitVec.ofInt 64 (i.opA.toInt.tdiv i.opB.toInt)
  else if i.rem then BitVec.ofNat 64 (i.opA.toNat % i.opB.toNat)
  else BitVec.ofNat 64 (i.opA.toNat / i.opB.toNat)

/-- A word as an integer, by its sign and its magnitude. -/
theorem toInt_magnitude (x : BitVec 64) :
    x.toInt = if x.msb then - (magnitude x.msb x : ℤ)
      else (magnitude x.msb x : ℤ) := by
  have hx := x.isLt
  rw [BitVec.toInt_eq_msb_cond]
  unfold magnitude
  cases x.msb with
  | false => simp only [Bool.false_eq_true, if_false]
  | true =>
    simp only [if_true]
    rw [Int.ofNat_sub (Nat.le_of_lt hx), Int.neg_sub]

theorem ofInt_sgn (neg : Bool) (m : ℕ) :
    BitVec.ofInt 64 (if neg then - (m : ℤ) else (m : ℤ)) = sgn neg m := by
  cases neg with
  | false => rfl
  | true => exact BitVec.ofInt_neg

/-- Division with signs is division of the magnitudes. -/
theorem ofInt_tdiv (a b : BitVec 64) :
    BitVec.ofInt 64 (a.toInt.tdiv b.toInt) =
      sgn (a.msb ^^ b.msb) (magnitude a.msb a / magnitude b.msb b) := by
  rw [toInt_magnitude a, toInt_magnitude b, ← ofInt_sgn]
  congr 1
  generalize magnitude a.msb a = m
  generalize magnitude b.msb b = n
  cases a.msb <;> cases b.msb <;> simp [Int.neg_tdiv, Int.tdiv_neg]

theorem ofInt_tmod (a b : BitVec 64) :
    BitVec.ofInt 64 (a.toInt.tmod b.toInt) =
      sgn a.msb (magnitude a.msb a % magnitude b.msb b) := by
  rw [toInt_magnitude a, toInt_magnitude b, ← ofInt_sgn]
  congr 1
  generalize magnitude a.msb a = m
  generalize magnitude b.msb b = n
  cases a.msb <;> cases b.msb <;>
    simp only [if_true, if_false, Bool.false_eq_true, Int.neg_tmod,
      Int.tmod_neg, Int.ofNat_tmod]

/-- The result of the specification, in magnitudes. -/
theorem riscvResult_eq (i : In) :
    riscvResult i =
      if i.opB = 0#64 then
        if i.rem then i.opA else BitVec.allOnes 64
      else if i.rem then
        sgn (i.signed && opASign i) (magA i % magB i)
      else sgn (i.signed && (opASign i ^^ opBSign i))
        (magA i / magB i) := by
  unfold riscvResult magA magB commonSign
  by_cases hb : i.opB = 0#64
  · rw [if_pos hb, if_pos hb]
  · rw [if_neg hb, if_neg hb]
    cases i.signed with
    | true =>
      simp only [if_true, Bool.true_and]
      rw [ofInt_tmod, ofInt_tdiv]
      rfl
    | false => rfl

/-- The quotient and the remainder that the divider makes are right, but for
one pair of operands. -/
theorem quotRem_eq (hb : i.opB ≠ 0#64) (hno : ¬ MinusOneByOne i) :
    quotN i = magA i / magB i ∧ remN i = magA i % magB i := by
  unfold quotN remN
  rw [if_neg hb, if_neg hb]
  cases hz : (divShift i).slt 0#8 with
  | true =>
    have hlt := small hb hz hno
    rw [Nat.div_eq_of_lt hlt, Nat.mod_eq_of_lt hlt]
    exact ⟨rfl, rfl⟩
  | false => exact ⟨rfl, rfl⟩

theorem unitResult_of (hno : ¬ MinusOneByOne i) :
    unitResult i = riscvResult i := by
  rw [riscvResult_eq]
  unfold unitResult
  by_cases hb : i.opB = 0#64
  · have hbz : opBZeroIn i = true := decide_eq_true hb
    have hrem : remN i = magA i := if_pos hb
    have hquot : quotN i = 2 ^ 64 - 1 := if_pos hb
    rw [if_pos hb, hrem, hquot, hbz]
    congr 1
    exact sgn_magnitude (i.signed && opASign i) i.opA
  · have hbz : opBZeroIn i = false := decide_eq_false hb
    obtain ⟨hquot, hrem⟩ := quotRem_eq hb hno
    rw [if_neg hb, hrem, hquot, hbz]
    rfl

/-- For `-1` by one the divider takes the dividend for smaller than the
divisor. -/
theorem unitResult_minusOne (h : MinusOneByOne i) :
    unitResult i ≠ riscvResult i := by
  obtain ⟨hsigned, ha, hb⟩ := h
  have hinA : lzcAInput i = 0#64 := by
    unfold lzcAInput opASign
    rw [hsigned, ha]
    decide
  have hinB : lzcBInput i = 1#64 := by
    unfold lzcBInput opBSign
    rw [hsigned, hb]
    decide
  have hz : (divShift i).slt 0#8 = true := by
    unfold divShift shiftA
    rw [hinA, hinB]
    decide +kernel
  have hne : i.opB ≠ 0#64 := by
    rw [hb]
    decide
  have hquot : quotN i = 0 := by
    unfold quotN
    rw [if_neg hne, if_pos hz]
  have hrem : remN i = 1 := by
    unfold remN magA magnitude opASign
    rw [if_neg hne, if_pos hz, hsigned, ha]
    decide
  unfold unitResult riscvResult opBZeroIn opASign opBSign
  rw [hquot, hrem, hsigned, ha, hb]
  cases i.rem <;> decide

theorem unitResult_eq_iff (i : In) :
    unitResult i = riscvResult i ↔ ¬ MinusOneByOne i :=
  ⟨fun h hd => unitResult_minusOne hd h, unitResult_of⟩

/-- From a load in idle, with no flush, the divider returns the result of
the specification, and a flush in any state makes it idle without a result,
if and only if the operands are not `-1` and one with a sign. -/
theorem divides_iff (q : Regs) (js : ℕ → In) (hs : q.state = .IDLE)
    (hv : (js 0).inVld = true) (hf : ∀ n, (js n).flush = false) :
    (Returns q js (riscvResult (js 0)) (js 0).id ∧
        ∀ q' i, i.flush = true →
          (step q' i).state = .IDLE ∧ outVldO q' i = false) ↔
      ¬ MinusOneByOne (js 0) := by
  have hret := returns hs hv hf
  rw [← unitResult_eq_iff]
  constructor
  · rintro ⟨h, -⟩
    exact hret.unique h
  · intro h
    rw [← h]
    exact ⟨hret, fun q' _ hflush => flushed q' hflush⟩

/-- The operands of one division, with the result taken at once. -/
def divide (a b : BitVec 64) (opcode : BitVec 2) : ℕ → In :=
  fun _ => ⟨5#3, a, b, opcode, true, false, true⟩

/-- The overflow of `DIV`. -/
theorem divides_iff_overflow :
    (Returns reset (divide (BitVec.intMin 64) (- 1#64) 1#2)
        (riscvResult (divide (BitVec.intMin 64) (- 1#64) 1#2 0)) 5#3 ∧
        ∀ q' i, i.flush = true →
          (step q' i).state = .IDLE ∧ outVldO q' i = false) ↔
      ¬ MinusOneByOne (divide (BitVec.intMin 64) (- 1#64) 1#2 0) :=
  divides_iff reset (divide (BitVec.intMin 64) (- 1#64) 1#2) rfl rfl
    fun _ => rfl

/-- `-1` divided by one is zero. -/
theorem divides_minusOne :
    unitResult (divide (- 1#64) 1#64 1#2 0) = 0#64 ∧
      riscvResult (divide (- 1#64) 1#64 1#2 0) = - 1#64 ∧
      ¬ Returns reset (divide (- 1#64) 1#64 1#2)
        (riscvResult (divide (- 1#64) 1#64 1#2 0)) 5#3 := by
  have hunit : unitResult (divide (- 1#64) 1#64 1#2 0) = 0#64 := by
    decide +kernel
  have hriscv : riscvResult (divide (- 1#64) 1#64 1#2 0) = - 1#64 := by
    decide +kernel
  refine ⟨hunit, hriscv, fun h => ?_⟩
  have hret : Returns reset (divide (- 1#64) 1#64 1#2)
      (unitResult (divide (- 1#64) 1#64 1#2 0)) 5#3 :=
    returns rfl rfl fun _ => rfl
  have heq := hret.unique h
  rw [hunit, hriscv] at heq
  exact absurd heq (by decide)

end ArianeSoc.Serdiv
