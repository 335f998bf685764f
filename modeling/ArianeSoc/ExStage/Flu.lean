import ArianeSoc.ExStage.BranchUnit
import ArianeSoc.ExStage.Mult

/-!
# The fixed latency units

The ALU, the branch unit, the CSR buffer and the multiplier of
`ex_stage.sv`, which share one issue port and one write-back port.
`csr_buffer.sv` keeps the address of a CSR instruction until it commits.

Nothing arbitrates the write-back port: the result multiplexer takes the
first unit that has a result, and the issue stage sees to it that there is
one only.
-/

namespace ArianeSoc.CsrBuffer

/-- `csr_reg_q` -/
structure State where
  csrAddress : BitVec 12
  valid : Bool

def reset : State := ⟨0#12, false⟩

/-- The inputs of one cycle. -/
structure In where
  flush : Bool
  operandB : BitVec 64
  csrValid : Bool
  csrCommit : Bool

variable (q : State) (i : In)

def csrReadyO : Bool := !((q.valid || i.csrValid) && !i.csrCommit)

/-- One cycle. -/
def step : State where
  csrAddress := if i.csrValid then i.operandB.setWidth 12 else q.csrAddress
  valid :=
    if i.flush then false
    else if i.csrCommit && !i.csrValid then false
    else q.valid || i.csrValid

end ArianeSoc.CsrBuffer

namespace ArianeSoc.Flu

open Frontend (Cf)
open ReadOperands (FuData)

/-- The registers. -/
structure State where
  mult : Mult.State
  csr : CsrBuffer.State

def reset : State := ⟨Mult.reset, CsrBuffer.reset⟩

/-- What the operand read hands over. -/
structure Op where
  fuData : FuData
  aluValid : Bool
  branchValid : Bool
  csrValid : Bool
  multValid : Bool
  pc : BitVec 64
  isCompressedInstr : Bool

/-- The inputs of one cycle. -/
structure In where
  op : Op
  flush : Bool
  csrCommit : Bool
  /-- `branch_predict_i` -/
  cf : Cf
  predictAddress : BitVec 64

/-- `'0` -/
def silent : FuData := ⟨.NONE, .ADD, 0#64, 0#64, 0#64, 0#3⟩

variable (q : State) (i : In)

def Op.aluData (o : Op) : FuData :=
  if o.aluValid || o.branchValid then o.fuData else silent

def branchIn : BranchUnit.In where
  fuData := i.op.fuData
  pc := i.op.pc
  isCompressedInstr := i.op.isCompressedInstr
  branchValid := i.op.branchValid
  branchCompRes := Alu.aluBranchResO i.op.aluData
  cf := i.cf
  predictAddress := i.predictAddress

def multIn : Mult.In where
  flush := i.flush
  multValid := i.op.multValid
  fuData := if i.op.multValid then i.op.fuData else silent

def csrIn : CsrBuffer.In where
  flush := i.flush
  operandB := i.op.fuData.operandB
  csrValid := i.op.csrValid
  csrCommit := i.csrCommit

def multValid : Bool := Mult.multValidO q.mult (multIn i)

def fluValidO : Bool :=
  i.op.aluValid || i.op.branchValid || i.op.csrValid || multValid q i

/-- The result multiplexer. -/
def fluResultO : BitVec 64 :=
  if i.op.aluValid then Alu.resultO i.op.aluData
  else if i.op.csrValid then i.op.fuData.operandA
  else if multValid q i then Mult.resultO q.mult
  else BranchUnit.branchResultO (branchIn i)

def fluTransIdO : BitVec 3 :=
  if i.op.aluValid || i.op.csrValid then i.op.fuData.transId
  else if multValid q i then Mult.multTransIdO q.mult
  else i.op.fuData.transId

def fluExceptionO : ExceptionT := BranchUnit.branchExceptionO (branchIn i)

def fluReadyO : Bool :=
  CsrBuffer.csrReadyO q.csr (csrIn i) && Mult.multReadyO q.mult (multIn i)

/-- One cycle. -/
def step : State where
  mult := Mult.step q.mult (multIn i)
  csr := CsrBuffer.step q.csr (csrIn i)

/-! ## The operations on their way -/

/-- The operation of this cycle takes no more than it. -/
def Op.short (o : Op) : Bool := o.aluValid || o.branchValid || o.csrValid

/-- One of the units gets an operation. -/
def Op.valid (o : Op) : Bool := o.short || o.multValid

/-- What an operation returns. -/
def Op.value (o : Op) : BitVec 64 :=
  match o.fuData.fu with
  | .ALU => Alu.resultO o.fuData
  | .CSR => o.fuData.operandA
  | .CTRL_FLOW => o.pc + if o.isCompressedInstr then 2#64 else 4#64
  | _ => Mult.value o.fuData

/-- The flags are those of the unit, and the multiplier gets its own
operations only. -/
structure Op.Sorted (o : Op) : Prop where
  alu : o.aluValid = true → o.fuData.fu = .ALU
  branch : o.branchValid = true → o.fuData.fu = .CTRL_FLOW
  csr : o.csrValid = true → o.fuData.fu = .CSR
  mult : o.multValid = true → o.fuData.fu = .MULT
  kind : o.multValid = true →
    Multiplier.isMul o.fuData.operator = true ∨
      Mult.isDiv o.fuData.operator = true

/-- The operation `k`, which is going to return `v`, is in one of the
units. -/
def Holds (q : State) (o : Op) (k : BitVec 3) (v : BitVec 64) : Prop :=
  o.valid = true ∧ o.fuData.transId = k ∧ v = o.value ∨
    q.mult.mul.multValid = true ∧ q.mult.mul.transId = k ∧
      v = Multiplier.resultO q.mult.mul ∨
    ∃ d, Mult.Dividing q.mult d ∧ d.transId = k ∧ v = Mult.value d

/-- What the issue stage keeps to with the next operation: the units are
ready for it and not flushed, and nothing that takes one cycle goes behind a
multiplication or a division. -/
structure Offers (q : State) (i : In) (o : Op) : Prop where
  sorted : o.Sorted
  ready : o.valid = true → fluReadyO q i = true ∧ i.flush = false
  clear : i.op.multValid = true → o.short = false
  fresh : i.op.multValid = true → o.multValid = true →
    i.op.fuData.transId ≠ o.fuData.transId

/-- The id `k` is on its way in one of the units. -/
def Pending (q : State) (o : Op) (k : BitVec 3) : Prop :=
  o.valid = true ∧ o.fuData.transId = k ∨
    q.mult.mul.multValid = true ∧ q.mult.mul.transId = k ∨
    q.mult.div.state ≠ .IDLE ∧ q.mult.div.id = k

/-- No two units come to their result in one cycle. -/
structure Inv (q : State) (o : Op) : Prop where
  sorted : o.Sorted
  mul : q.mult.mul.multValid = true → o.short = false
  distinct : q.mult.mul.multValid = true → o.multValid = true →
    q.mult.mul.transId ≠ o.fuData.transId
  busy : q.mult.div.state ≠ .IDLE →
    o.valid = false ∧ q.mult.mul.multValid = false
  dividing : q.mult.div.state ≠ .IDLE → ∃ d, Mult.Dividing q.mult d

section Steps

variable {q : State} {i : In} {o : Op} {k : BitVec 3} {v : BitVec 64}

theorem Op.not_valid_iff : o.valid = false ↔
    o.short = false ∧ o.multValid = false := by
  rw [Op.valid, Bool.or_eq_false_iff]

/-- The divider is ready only if it is idle and stays so. -/
theorem idle_of_ready (h : fluReadyO q i = true) :
    q.mult.div.state = .IDLE ∧ Mult.divValidOp (multIn i) = false := by
  simp only [fluReadyO, Bool.and_eq_true] at h
  have hready : (Serdiv.pFsm q.mult.div
      (Mult.divIn q.mult (multIn i))).inRdy = true := h.2
  unfold Serdiv.pFsm at hready
  split_ifs at hready with hf
  unfold Serdiv.fsmCase at hready
  cases hs : q.mult.div.state with
  | IDLE =>
    refine ⟨rfl, Bool.eq_false_iff.mpr fun hv => ?_⟩
    have hin : (Mult.divIn q.mult (multIn i)).inVld = true := hv
    rw [hs] at hready
    simp [hin] at hready
  | DIVIDE =>
    rw [hs] at hready
    dsimp only at hready
    split_ifs at hready
  | FINISH =>
    rw [hs] at hready
    exact absurd hready Bool.false_ne_true

theorem multIn_fuData (h : i.op.multValid = true) :
    (multIn i).fuData = i.op.fuData := if_pos h

/-- An idle divider that takes nothing stays idle. -/
theorem idle_step (hs : q.mult.div.state = .IDLE)
    (hv : Mult.divValidOp (multIn i) = false) :
    (step q i).mult.div.state = .IDLE := by
  show (Serdiv.pFsm q.mult.div (Mult.divIn q.mult (multIn i))).stateD = .IDLE
  have hin : (Mult.divIn q.mult (multIn i)).inVld = false := hv
  unfold Serdiv.pFsm
  split_ifs
  · rfl
  · simp [Serdiv.fsmCase, hs, hin]

/-- A new division, if there is no flush. -/
theorem divValidOp_iff (hf : i.flush = false) :
    Mult.divValidOp (multIn i) = true ↔
      i.op.multValid = true ∧ Mult.isDiv i.op.fuData.operator = true := by
  have hdef : Mult.divValidOp (multIn i) =
      (!i.flush && (i.op.multValid &&
        Mult.isDiv (multIn i).fuData.operator)) := rfl
  rw [hdef, hf, Bool.not_false, Bool.true_and, Bool.and_eq_true]
  exact and_congr_right fun hm => by rw [multIn_fuData hm]

/-- The multiplier gets the operation of this cycle. -/
theorem mul_step : (step q i).mult.mul.multValid = true ↔
    i.flush = false ∧ i.op.multValid = true ∧
      Multiplier.isMul i.op.fuData.operator = true := by
  have hdef : (step q i).mult.mul.multValid =
      ((!i.flush && i.op.multValid &&
        Multiplier.isMul (multIn i).fuData.operator) &&
        Multiplier.isMul (multIn i).fuData.operator) := rfl
  rw [hdef]
  simp only [Bool.and_eq_true, Bool.not_eq_true', and_assoc, and_self]
  exact and_congr_right fun _ => and_congr_right fun hm => by
    rw [multIn_fuData hm]

theorem flushed (hf : i.flush = true) :
    (step q i).mult.mul.multValid = false ∧
      (step q i).mult.div.state = .IDLE := by
  refine ⟨Bool.eq_false_iff.mpr fun h => ?_,
    (Serdiv.flushed q.mult.div (i := Mult.divIn q.mult (multIn i)) hf).1⟩
  rw [(mul_step.mp h).1] at hf
  cases hf

/-- The divider that is done hands its result over. -/
theorem div_done (h : Inv q i.op) (hf : i.flush = false)
    (hd : Serdiv.Done q.mult.div) :
    (step q i).mult.div.state = .IDLE := by
  have hbusy : q.mult.div.state ≠ .IDLE := fun hs =>
    Serdiv.not_done_idle hs hd
  have hrdy : (Mult.divIn q.mult (multIn i)).outRdy = true := by
    show (!q.mult.mul.multValid) = true
    rw [(h.busy hbusy).2]
    rfl
  have hstep := Serdiv.step_done (i := Mult.divIn q.mult (multIn i)) hd hf
  show (Serdiv.step q.mult.div (Mult.divIn q.mult (multIn i))).state = _
  rw [hstep]
  exact if_pos hrdy

/-- What the divider does in a cycle without a flush. -/
theorem dividing_step (h : Inv q i.op) (hf : i.flush = false)
    (hb : (step q i).mult.div.state ≠ .IDLE) :
    q.mult.div.state = .IDLE ∧ i.op.multValid = true ∧
        Mult.Dividing (step q i).mult i.op.fuData ∨
      q.mult.div.state ≠ .IDLE ∧ i.op.valid = false ∧
        ∀ d, Mult.Dividing q.mult d → Mult.Dividing (step q i).mult d := by
  by_cases hs : q.mult.div.state = .IDLE
  · have hv : Mult.divValidOp (multIn i) = true :=
      Bool.eq_true_of_not_eq_false fun hv => hb (idle_step hs hv)
    obtain ⟨hm, hdiv⟩ := (divValidOp_iff hf).mp hv
    have hdata := multIn_fuData hm
    refine Or.inl ⟨hs, hm, ?_⟩
    rw [← hdata]
    exact Mult.dividing_load hs hf hm (by rw [hdata]; exact hdiv)
  · have hno := (h.busy hs).1
    refine Or.inr ⟨hs, hno, fun d hd => hd.next ?_ hf
      (Op.not_valid_iff.mp hno).2⟩
    exact fun hdone => hb (div_done h hf hdone)

/-- A cycle keeps the units apart. -/
theorem Inv.step (h : Inv q i.op) (ho : Offers q i o) :
    Inv (Flu.step q i) o := by
  have hbusy : (Flu.step q i).mult.div.state ≠ .IDLE →
      o.valid = false ∧ (Flu.step q i).mult.mul.multValid = false ∧
        ∃ d, Mult.Dividing (Flu.step q i).mult d := by
    intro hb
    have hf : i.flush = false := Bool.eq_false_iff.mpr fun hf =>
      hb (flushed hf).2
    have hno : o.valid = false := by
      refine Bool.eq_false_iff.mpr fun hv => ?_
      obtain ⟨hs, hd⟩ := idle_of_ready (ho.ready hv).1
      exact hb (idle_step hs hd)
    refine ⟨hno, Bool.eq_false_iff.mpr fun hm => ?_, ?_⟩
    · obtain ⟨-, hmv, hmul⟩ := mul_step.mp hm
      rcases dividing_step h hf hb with ⟨-, -, hd⟩ | ⟨-, hv, -⟩
      · rw [Mult.not_isMul_of_isDiv hd.isDiv] at hmul
        cases hmul
      · rw [(Op.not_valid_iff.mp hv).2] at hmv
        cases hmv
    · rcases dividing_step h hf hb with ⟨-, -, hd⟩ | ⟨hs, -, hd⟩
      · exact ⟨_, hd⟩
      · obtain ⟨d, hd'⟩ := h.dividing hs
        exact ⟨d, hd d hd'⟩
  refine ⟨ho.sorted, fun hm => ho.clear (mul_step.mp hm).2.1, fun hm => ?_,
    fun hb => ⟨(hbusy hb).1, (hbusy hb).2.1⟩, fun hb => (hbusy hb).2.2⟩
  have hmv := (mul_step.mp hm).2.1
  have hid : (Flu.step q i).mult.mul.transId = i.op.fuData.transId :=
    congrArg FuData.transId (multIn_fuData hmv)
  rw [hid]
  exact ho.fresh hmv

theorem Op.Sorted.not_short (h : o.Sorted) (hm : o.multValid = true) :
    o.short = false := by
  have hfu := h.mult hm
  refine Bool.eq_false_iff.mpr fun hs => ?_
  simp only [Op.short, Bool.or_eq_true] at hs
  rcases hs with (ha | hb) | hc
  · rw [h.alu ha] at hfu
    cases hfu
  · rw [h.branch hb] at hfu
    cases hfu
  · rw [h.csr hc] at hfu
    cases hfu

/-! ## The write-back port -/

/-- Nothing else is on the port in the cycle of a short operation. -/
theorem port_short (h : Inv q i.op) (hf : i.flush = false)
    (hs : i.op.short = true) :
    fluValidO q i = true ∧ fluTransIdO q i = i.op.fuData.transId ∧
      fluResultO q i = i.op.value := by
  have hmul : q.mult.mul.multValid = false := by
    refine Bool.eq_false_iff.mpr fun hm => ?_
    rw [h.mul hm] at hs
    cases hs
  have hdiv : Mult.divValid q.mult (multIn i) = false := by
    refine Bool.eq_false_iff.mpr fun hd => ?_
    have hdone := (Serdiv.outVldO_iff (q := q.mult.div)
      (i := Mult.divIn q.mult (multIn i)) hf).mp hd
    have hno := (h.busy fun hidle => Serdiv.not_done_idle hidle hdone).1
    rw [(Op.not_valid_iff.mp hno).1] at hs
    cases hs
  have hmult : multValid q i = false := by
    rw [multValid, Mult.multValidO, hmul, hdiv]
    rfl
  have hvalid : fluValidO q i = true := by
    rw [fluValidO, hmult, Bool.or_false]
    exact hs
  unfold fluTransIdO fluResultO Op.value Op.aluData
  rw [hmult, if_neg Bool.false_ne_true, ite_self]
  refine ⟨hvalid, rfl, ?_⟩
  · cases ha : i.op.aluValid with
    | true =>
      rw [h.sorted.alu ha]
      simp
    | false =>
      cases hc : i.op.csrValid with
      | true =>
        rw [h.sorted.csr hc]
        simp
      | false =>
        have hb : i.op.branchValid = true := by
          rw [Op.short, ha, hc, Bool.false_or, Bool.or_false] at hs
          exact hs
        rw [h.sorted.branch hb]
        rfl

theorem port_mul (h : Inv q i.op) (hm : q.mult.mul.multValid = true) :
    fluValidO q i = true ∧ fluTransIdO q i = q.mult.mul.transId ∧
      fluResultO q i = Multiplier.resultO q.mult.mul := by
  have hs := h.mul hm
  simp only [Op.short, Bool.or_eq_false_iff] at hs
  obtain ⟨⟨ha, hb⟩, hc⟩ := hs
  have hmult : multValid q i = true := by
    rw [multValid, Mult.multValidO, hm, Bool.or_true]
  unfold fluValidO fluTransIdO fluResultO Mult.multTransIdO Mult.resultO
  rw [hmult, ha, hb, hc, hm]
  exact ⟨rfl, rfl, rfl⟩

theorem port_div (hf : i.flush = false) (hs : i.op.short = false)
    (hm : q.mult.mul.multValid = false) :
    (fluValidO q i = true ↔ Serdiv.Done q.mult.div) ∧
      (Serdiv.Done q.mult.div → fluTransIdO q i = q.mult.div.id ∧
        fluResultO q i = Mult.divResult q.mult) := by
  simp only [Op.short, Bool.or_eq_false_iff] at hs
  obtain ⟨⟨ha, hb⟩, hc⟩ := hs
  have hiff := Serdiv.outVldO_iff (q := q.mult.div)
    (i := Mult.divIn q.mult (multIn i)) hf
  have hmult : multValid q i =
      Serdiv.outVldO q.mult.div (Mult.divIn q.mult (multIn i)) := by
    rw [multValid, Mult.multValidO, hm, Bool.or_false]
    rfl
  unfold fluValidO fluTransIdO fluResultO Mult.multTransIdO Mult.resultO
  rw [hmult, ha, hb, hc, hm]
  refine ⟨?_, fun hd => ?_⟩
  · rw [Bool.false_or, Bool.false_or, Bool.false_or]
    exact hiff
  · rw [hiff.mpr hd]
    exact ⟨rfl, rfl⟩

/-- What is on the port is one of the operations that the units hold. -/
theorem holds_of_valid (h : Inv q i.op) (hf : i.flush = false)
    (hv : fluValidO q i = true) :
    Holds q i.op (fluTransIdO q i) (fluResultO q i) := by
  cases hs : i.op.short with
  | true =>
    obtain ⟨-, hid, hres⟩ := port_short h hf hs
    exact Or.inl ⟨by rw [Op.valid, hs]; rfl, hid.symm, hres⟩
  | false =>
    cases hm : q.mult.mul.multValid with
    | true =>
      obtain ⟨-, hid, hres⟩ := port_mul (i := i) h hm
      exact Or.inr (Or.inl ⟨hm, hid.symm, hres⟩)
    | false =>
      obtain ⟨hiff, hport⟩ := port_div hf hs hm
      have hd := hiff.mp hv
      obtain ⟨d, hdiv⟩ := h.dividing fun hidle =>
        Serdiv.not_done_idle hidle hd
      exact Or.inr (Or.inr ⟨d, hdiv,
        hdiv.id.symm.trans (hport hd).1.symm,
        (hport hd).2.trans (hdiv.done hd)⟩)

/-- An operation of the multiplier or the divider takes another cycle. -/
theorem holds_mult (h : Inv q i.op) (hf : i.flush = false)
    (hm : i.op.multValid = true) :
    Holds (step q i) o i.op.fuData.transId i.op.value := by
  have hfu := h.sorted.mult hm
  have hval : i.op.value = Mult.value i.op.fuData := by
    rw [Op.value, hfu]
  have hdata := multIn_fuData hm
  rcases h.sorted.kind hm with hmul | hdiv
  · refine Or.inr (Or.inl ⟨mul_step.mpr ⟨hf, hm, hmul⟩,
      congrArg FuData.transId hdata, ?_⟩)
    rw [hval, Mult.value, if_pos hmul]
    show Multiplier.resultO (Multiplier.step i.op.fuData true) =
      Multiplier.resultO (Multiplier.step (multIn i).fuData
        (Mult.mulValidOp (multIn i)))
    rw [hdata]
    rfl
  · have hidle : q.mult.div.state = .IDLE := by
      by_contra hb
      have hno := (Op.not_valid_iff.mp (h.busy hb).1).2
      rw [hno] at hm
      cases hm
    have hload := Mult.dividing_load (q := q.mult) (i := multIn i) hidle hf hm
      (by rw [hdata]; exact hdiv)
    rw [hdata] at hload
    exact Or.inr (Or.inr ⟨_, hload, rfl, hval⟩)

/-- It does not come out in the first cycle. -/
theorem not_port_of_multValid (h : Inv q i.op) (hf : i.flush = false)
    (hmv : i.op.multValid = true) :
    ¬ (fluValidO q i = true ∧ fluTransIdO q i = i.op.fuData.transId) := by
  rintro ⟨hvalid, hid⟩
  have hs := h.sorted.not_short hmv
  cases hm : q.mult.mul.multValid with
  | true => exact h.distinct hm hmv ((port_mul h hm).2.1.symm.trans hid)
  | false =>
    have hdone := (port_div hf hs hm).1.mp hvalid
    have hno := (h.busy fun hidle => Serdiv.not_done_idle hidle hdone).1
    rw [(Op.not_valid_iff.mp hno).2] at hmv
    cases hmv

/-- An operation comes out on the port or stays in the units, and then the
port does not carry its id. -/
theorem Holds.step (h : Inv q i.op) (hf : i.flush = false)
    (hk : Holds q i.op k v) :
    fluValidO q i = true ∧ fluTransIdO q i = k ∧ fluResultO q i = v ∨
      ¬ (fluValidO q i = true ∧ fluTransIdO q i = k) ∧
        ∀ o, Holds (Flu.step q i) o k v := by
  rcases hk with ⟨hv, rfl, rfl⟩ | ⟨hm, rfl, rfl⟩ | ⟨d, hd, rfl, rfl⟩
  · cases hs : i.op.short with
    | true => exact Or.inl (port_short h hf hs)
    | false =>
      have hmv : i.op.multValid = true := by
        rw [Op.valid, hs, Bool.false_or] at hv
        exact hv
      exact Or.inr ⟨not_port_of_multValid h hf hmv,
        fun o => holds_mult h hf hmv⟩
  · exact Or.inl (port_mul h hm)
  · obtain ⟨hno, hmul⟩ := h.busy hd.busy
    obtain ⟨hs, hmv⟩ := Op.not_valid_iff.mp hno
    obtain ⟨hiff, hport⟩ := port_div hf hs hmul
    by_cases hdone : Serdiv.Done q.mult.div
    · exact Or.inl ⟨hiff.mpr hdone, (hport hdone).1.trans hd.id,
        (hport hdone).2.trans (hd.done hdone)⟩
    · exact Or.inr ⟨fun hv => hdone (hiff.mp hv.1), fun o =>
        Or.inr (Or.inr ⟨d, hd.next hdone hf hmv, rfl, rfl⟩)⟩

theorem Holds.pending (h : Holds q o k v) : Pending q o k := by
  rcases h with ⟨hv, hid, -⟩ | ⟨hm, hid, -⟩ | ⟨d, hd, hid, -⟩
  · exact Or.inl ⟨hv, hid⟩
  · exact Or.inr (Or.inl ⟨hm, hid⟩)
  · exact Or.inr (Or.inr ⟨hd.busy, hd.id.trans hid⟩)

/-- What is on its way after a cycle is the next operation, or was before
and did not come out. -/
theorem pending_of_step (h : Inv q i.op) (hk : Pending (Flu.step q i) o k) :
    o.valid = true ∧ o.fuData.transId = k ∨
      i.flush = false ∧ Pending q i.op k ∧
        ¬ (fluValidO q i = true ∧ fluTransIdO q i = k) := by
  rcases hk with hnew | ⟨hm, rfl⟩ | ⟨hb, rfl⟩
  · exact Or.inl hnew
  · obtain ⟨hf, hmv, -⟩ := mul_step.mp hm
    have hid : (Flu.step q i).mult.mul.transId = i.op.fuData.transId :=
      congrArg FuData.transId (multIn_fuData hmv)
    have hv : i.op.valid = true := by rw [Op.valid, hmv, Bool.or_true]
    rw [hid]
    exact Or.inr ⟨hf, Or.inl ⟨hv, rfl⟩, not_port_of_multValid h hf hmv⟩
  · have hf : i.flush = false := Bool.eq_false_iff.mpr fun hf =>
      hb (flushed hf).2
    rcases dividing_step h hf hb with ⟨-, hmv, hd⟩ | ⟨hs, hno, hd⟩
    · have hv : i.op.valid = true := by rw [Op.valid, hmv, Bool.or_true]
      rw [hd.id]
      exact Or.inr ⟨hf, Or.inl ⟨hv, rfl⟩, not_port_of_multValid h hf hmv⟩
    · obtain ⟨d, hd'⟩ := h.dividing hs
      have hid : (Flu.step q i).mult.div.id = q.mult.div.id :=
        (hd d hd').id.trans hd'.id.symm
      rw [hid]
      refine Or.inr ⟨hf, Or.inr (Or.inr ⟨hs, rfl⟩), fun hport => ?_⟩
      have hdone := (port_div hf (Op.not_valid_iff.mp hno).1
        (h.busy hs).2).1.mp hport.1
      exact hb (div_done h hf hdone)

end Steps

end ArianeSoc.Flu
