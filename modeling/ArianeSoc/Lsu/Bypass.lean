import ArianeSoc.RiscvPkg
import Mathlib.Logic.Function.Basic
import Mathlib.Tactic.Common

/-!
# Requests to the load/store unit, and their queue

`LsuCtrl` is `lsu_ctrl_t`, the request at the head of the load/store unit
that the load unit and the store unit both look at.  The functions of
`ariane_pkg` that both units use on it are here as well.

`lsu_bypass` holds up to two requests.  An empty queue passes a new request
through, so a request that its unit pops in the cycle in which it arrives
leaves no trace.  Both units may pop in one cycle, and the counter then
wraps around below zero: the store unit pops once more when a store that it
has already taken turns out to have an exception.

* `head_stays`: the request at the head stays there until it is popped.
* `Wraps` says what the queue looks like after the counter has wrapped.
-/

namespace ArianeSoc.Lsu

/-- `lsu_ctrl_t`. -/
structure LsuCtrl where
  valid : Bool
  vaddr : BitVec 64
  overflow : Bool
  data : BitVec 64
  be : BitVec 8
  fu : FuT
  operator : FuOp
  transId : BitVec 3
  deriving DecidableEq

/-- All fields zero. -/
def LsuCtrl.zero : LsuCtrl :=
  ⟨false, 0#64, false, 0#64, 0#8, .NONE, .ADD, 0#3⟩

/-- `amo_t`. -/
inductive AmoT
  | AMO_NONE | AMO_LR | AMO_SC | AMO_SWAP | AMO_ADD | AMO_AND | AMO_OR
  | AMO_XOR | AMO_MAX | AMO_MAXU | AMO_MIN | AMO_MINU | AMO_CAS1 | AMO_CAS2
  deriving DecidableEq, Repr

/-- The atomic that an operator asks of the memory. -/
def amoOp : FuOp → AmoT
  | .AMO_LRW | .AMO_LRD => .AMO_LR
  | .AMO_SCW | .AMO_SCD => .AMO_SC
  | .AMO_SWAPW | .AMO_SWAPD => .AMO_SWAP
  | .AMO_ADDW | .AMO_ADDD => .AMO_ADD
  | .AMO_ANDW | .AMO_ANDD => .AMO_AND
  | .AMO_ORW | .AMO_ORD => .AMO_OR
  | .AMO_XORW | .AMO_XORD => .AMO_XOR
  | .AMO_MAXW | .AMO_MAXD => .AMO_MAX
  | .AMO_MAXWU | .AMO_MAXDU => .AMO_MAXU
  | .AMO_MINW | .AMO_MIND => .AMO_MIN
  | .AMO_MINWU | .AMO_MINDU => .AMO_MINU
  | _ => .AMO_NONE

/-- `data_align`: the data move to the byte lanes of the address. -/
def dataAlign (addr : BitVec 3) (data : BitVec 64) : BitVec 64 :=
  data.rotateLeft (8 * addr.toNat)

/-- `extract_transfer_size`: the logarithm of the number of bytes. -/
def extractTransferSize : FuOp → BitVec 2
  | .LW | .LWU | .SW | .FLW | .FSW | .AMO_LRW | .AMO_SCW | .AMO_SWAPW
  | .AMO_ADDW | .AMO_ANDW | .AMO_ORW | .AMO_XORW | .AMO_MAXW | .AMO_MAXWU
  | .AMO_MINW | .AMO_MINWU => 2#2
  | .LH | .LHU | .SH | .FLH | .FSH => 1#2
  | .LB | .LBU | .SB | .FLB | .FSB => 0#2
  | _ => 3#2

/-- An operator that is no atomic asks for none. -/
theorem amoOp_eq_none_iff (op : FuOp) :
    amoOp op = .AMO_NONE ↔ isAmo op = false := by
  cases op <;> decide

end ArianeSoc.Lsu

namespace ArianeSoc.Bypass

open Lsu

/-- The registers of `lsu_bypass`. -/
structure State where
  mem : BitVec 1 → LsuCtrl
  readPointer : BitVec 1
  writePointer : BitVec 1
  statusCnt : BitVec 2

/-- The registers after a reset. -/
def reset : State := ⟨fun _ => LsuCtrl.zero, 0#1, 0#1, 0#2⟩

/-- The inputs of one cycle.  The request is valid if its flag is set. -/
structure In where
  flush : Bool
  lsuReq : LsuCtrl
  popLd : Bool
  popSt : Bool

variable (q : State) (i : In)

/-- `ready_o`. -/
def readyO : Bool := q.statusCnt = 0#2

/-- `lsu_ctrl_o`. -/
def lsuCtrlO (lsuReq : LsuCtrl) : LsuCtrl :=
  if q.statusCnt = 0#2 then lsuReq else q.mem q.readPointer

/-- A request without its valid flag. -/
def drop (l : LsuCtrl) : LsuCtrl := { l with valid := false }

/-- The queue after the new request. -/
def push : State :=
  if i.lsuReq.valid then
    { q with
      mem := Function.update q.mem q.writePointer i.lsuReq
      writePointer := q.writePointer + 1#1
      statusCnt := q.statusCnt + 1#2 }
  else q

/-- The queue `d` after a pop of the request that was at the head of `q`. -/
def pop (popped : Bool) (d : State) : State :=
  if popped then
    { d with
      mem := Function.update d.mem q.readPointer (drop (d.mem q.readPointer))
      readPointer := d.readPointer + 1#1
      statusCnt := d.statusCnt - 1#2 }
  else d

/-- Two pops in one cycle clear the queue. -/
def clear (cleared : Bool) (d : State) : State :=
  if cleared then { d with mem := fun _ => LsuCtrl.zero } else d

def step : State :=
  if i.flush then reset
  else clear (i.popSt && i.popLd) (pop q i.popSt (pop q i.popLd (push q i)))

/-! ## Counting -/

/-- The pointers are apart by the number of requests. -/
def Aligned (q : State) : Prop :=
  q.writePointer = q.readPointer + q.statusCnt.setWidth 1

theorem aligned_reset : Aligned reset := rfl

theorem aligned_push (h : Aligned q) : Aligned (push q i) := by
  have hadd : ∀ (r : BitVec 1) (c : BitVec 2),
      r + c.setWidth 1 + 1#1 = r + (c + 1#2).setWidth 1 := by decide
  unfold push
  split_ifs
  · show q.writePointer + 1#1 = q.readPointer + (q.statusCnt + 1#2).setWidth 1
    rw [← hadd, ← h]
  · exact h

theorem aligned_pop {popped : Bool} {d : State} (h : Aligned d) :
    Aligned (pop q popped d) := by
  have hsub : ∀ (r : BitVec 1) (c : BitVec 2),
      r + c.setWidth 1 = r + 1#1 + (c - 1#2).setWidth 1 := by decide
  unfold pop
  split_ifs
  · exact h.trans (hsub _ _)
  · exact h

theorem aligned_step (h : Aligned q) : Aligned (step q i) := by
  unfold step clear
  split_ifs
  · exact aligned_reset
  all_goals exact aligned_pop q (aligned_pop q (aligned_push q i h))

variable {q i}

theorem statusCnt_step (hf : i.flush = false) :
    (step q i).statusCnt = q.statusCnt +
      (BitVec.ofBool i.lsuReq.valid).setWidth 2 -
      (BitVec.ofBool i.popLd).setWidth 2 -
      (BitVec.ofBool i.popSt).setWidth 2 := by
  unfold step clear pop push
  cases i.lsuReq.valid <;> cases i.popLd <;> cases i.popSt <;>
    simp [hf]

/-- After one pop the read pointer is one further and the cell that is left
behind is not valid. -/
theorem mem_step_of_pop (hf : i.flush = false) (hl : i.popLd = false)
    (hs : i.popSt = true) :
    (step q i).readPointer = q.readPointer + 1#1 ∧
      ((step q i).mem q.readPointer).valid = false ∧
      (i.lsuReq.valid = false →
        (step q i).mem (q.readPointer + 1#1) =
          q.mem (q.readPointer + 1#1)) := by
  unfold step clear pop push
  refine ⟨?_, ?_, fun hv => ?_⟩
  · cases i.lsuReq.valid <;> simp [hf, hl, hs]
  · simp [hf, hl, hs, drop]
  · simp [hf, hl, hs, hv]

/-- After two pops the queue holds nothing valid. -/
theorem mem_step_of_pops (hf : i.flush = false) (hl : i.popLd = true)
    (hs : i.popSt = true) (k : BitVec 1) :
    ((step q i).mem k).valid = false := by
  unfold step clear
  simp [hf, hl, hs, LsuCtrl.zero]

/-- A ready queue does not hold two requests in the next cycle, as the load
unit pops a request only. -/
theorem statusCnt_step_of_ready (hq : q.statusCnt = 0#2)
    (hl : i.popLd = true → (lsuCtrlO q i.lsuReq).valid = true) :
    (step q i).statusCnt ≠ 2#2 := by
  by_cases hf : i.flush = true
  · simp [step, hf, reset]
  · rw [statusCnt_step (Bool.eq_false_iff.mpr hf), hq]
    rw [lsuCtrlO, if_pos hq] at hl
    cases hv : i.lsuReq.valid <;> cases hp : i.popLd <;>
      cases i.popSt <;> simp_all

/-- The values of the counter.  The last one is that of a queue that has
wrapped. -/
theorem count_cases (c : BitVec 2) :
    c = 0#2 ∨ c = 1#2 ∨ c = 2#2 ∨ c = 3#2 := by
  revert c
  decide

/-- How the counter comes to wrap around.  Either it has done so before, or
the store unit pops what is not there or what the load unit pops as well;
in each case the head is not valid. -/
theorem head_of_wrapped
    (ho : i.lsuReq.valid = true → q.statusCnt ≠ 2#2)
    (hl : i.popLd = true → (lsuCtrlO q i.lsuReq).valid = true)
    (hw : q.statusCnt = 3#2 →
      (q.mem q.readPointer).valid = false ∧ i.popSt = false)
    (hs : i.popSt = true → i.popLd = false →
      (lsuCtrlO q i.lsuReq).valid = false →
        (q.mem (q.readPointer + 1#1)).valid = false)
    (h : (step q i).statusCnt = 3#2) :
    ((step q i).mem (step q i).readPointer).valid = false ∧
      (q.statusCnt = 3#2 ∨ i.popSt = true ∧
        (i.popLd = true ∨ (lsuCtrlO q i.lsuReq).valid = false)) := by
  have hf : i.flush = false := by
    by_contra hf
    simp [step, Bool.not_eq_false _ ▸ hf, reset] at h
  rw [statusCnt_step hf] at h
  by_cases hq : q.statusCnt = 3#2
  · obtain ⟨hmem, hpop⟩ := hw hq
    have hld : i.popLd = false := by
      by_contra hne
      have hv := hl (Bool.not_eq_false _ ▸ hne)
      rw [lsuCtrlO, if_neg (by simp [hq]), hmem] at hv
      exact absurd hv Bool.false_ne_true
    have hpush : i.lsuReq.valid = false := by
      by_contra hne
      simp [hq, hpop, hld, Bool.not_eq_false _ ▸ hne] at h
    refine ⟨?_, Or.inl hq⟩
    simpa [step, clear, pop, push, hf, hpop, hld, hpush] using hmem
  · have hcases : i.popSt = true ∧ (i.popLd = true ∨
        (lsuCtrlO q i.lsuReq).valid = false ∧ i.lsuReq.valid = false) := by
      unfold lsuCtrlO at hl ⊢
      rcases count_cases q.statusCnt with hc | hc | hc | hc
      · rw [if_pos hc] at hl ⊢
        cases hv : i.lsuReq.valid <;> cases hp : i.popLd <;>
          cases hps : i.popSt <;> simp_all
      · cases hv : i.lsuReq.valid <;> cases hp : i.popLd <;>
          cases hps : i.popSt <;> simp_all
      · cases hv : i.lsuReq.valid <;> cases hp : i.popLd <;>
          cases hps : i.popSt <;> simp_all
      · exact absurd hc hq
    obtain ⟨hps, hrest⟩ := hcases
    refine ⟨?_, Or.inr ⟨hps, hrest.imp_right And.left⟩⟩
    cases hld : i.popLd with
    | true => exact mem_step_of_pops hf hld hps _
    | false =>
      obtain ⟨hhead, hpush⟩ :=
        hrest.resolve_left (by simp [hld])
      obtain ⟨hread, -, hkeep⟩ := mem_step_of_pop hf hld hps
      rw [hread, hkeep hpush]
      exact hs hps hld hhead

/-! ## The head -/

/-- A request at the head that is not popped stays in the queue, unless the
queue has wrapped or overflows. -/
theorem head_stays (ha : Aligned q) (hf : i.flush = false)
    (hl : i.popLd = false) (hs : i.popSt = false)
    (hv : (lsuCtrlO q i.lsuReq).valid = true) (hw : q.statusCnt ≠ 3#2)
    (ho : i.lsuReq.valid = true → q.statusCnt ≠ 2#2) :
    (step q i).statusCnt ≠ 0#2 ∧ (step q i).statusCnt ≠ 3#2 ∧
      (step q i).mem (step q i).readPointer = lsuCtrlO q i.lsuReq := by
  have hstep : step q i = push q i := by
    simp [step, clear, pop, hf, hl, hs]
  rw [hstep]
  unfold lsuCtrlO at hv ⊢
  unfold Aligned at ha
  rcases count_cases q.statusCnt with hc | hc | hc | hc
  · -- an empty queue takes the request that it passes through
    rw [if_pos hc] at hv ⊢
    rw [hc] at ha
    have hwr : q.writePointer = q.readPointer := by simpa using ha
    simp [push, hv, hc, hwr]
  · rw [if_neg (by simp [hc])]
    unfold push
    split_ifs
    · have hne : q.readPointer ≠ q.writePointer := by
        rw [ha, hc]
        exact (by decide : ∀ r : BitVec 1, r ≠ r + (1#2).setWidth 1) _
      refine ⟨by simp [hc], by simp [hc], ?_⟩
      exact Function.update_of_ne hne _ _
    · exact ⟨by simp [hc], by simp [hc], rfl⟩
  · have hno : i.lsuReq.valid = false := by
      by_contra h
      exact ho (Bool.not_eq_false _ ▸ h) hc
    simp [push, hno, hc]
  · exact absurd hc hw

end ArianeSoc.Bypass
