import ArianeSoc.CommonCells.Lzc
import ArianeSoc.LongDivision
import ArianeSoc.Sync

/-!
# The serial divider

`serdiv.sv` at the width of 64 bits that the core uses.  On the load the
divisor is shifted up to the dividend and the dividend is given the sign of
the divisor; then every cycle compares, subtracts and shifts the divisor
back by one, and the quotient comes in from below.

The combinational signals are functions of the registers and the inputs
under the names of the source.  `step` is the clock edge.
-/

namespace ArianeSoc.Serdiv

open CommonCells

/-- The inputs of one cycle. -/
structure In where
  id : BitVec 3
  opA : BitVec 64
  opB : BitVec 64
  opcode : BitVec 2
  inVld : Bool
  flush : Bool
  outRdy : Bool
  deriving DecidableEq

inductive Fsm
  | IDLE | DIVIDE | FINISH
  deriving DecidableEq

/-- The registers. -/
structure Regs where
  state : Fsm
  opA : BitVec 64
  opB : BitVec 64
  res : BitVec 64
  cnt : BitVec 7
  id : BitVec 3
  remSel : Bool
  compInv : Bool
  resInv : Bool
  opBZero : Bool
  divResZero : Bool
  deriving DecidableEq

def reset : Regs where
  state := .IDLE
  opA := 0#64
  opB := 0#64
  res := 0#64
  cnt := 0#7
  id := 0#3
  remSel := false
  compInv := false
  resInv := false
  opBZero := false
  divResZero := false

/-! ## The alignment of the operands -/

/-- The two bits of the opcode. -/
def In.signed (i : In) : Bool := i.opcode.getLsbD 0
def In.rem (i : In) : Bool := i.opcode.getLsbD 1

def opASign (i : In) : Bool := i.opA.msb
def opBSign (i : In) : Bool := i.opB.msb
def opBZeroIn (i : In) : Bool := i.opB = 0#64

def lzcAInput (i : In) : BitVec 64 :=
  if i.signed && opASign i then (~~~ i.opA ++ 0#1).setWidth 64 else i.opA

def lzcBInput (i : In) : BitVec 64 :=
  if i.signed && opBSign i then ~~~ i.opB else i.opB

def shiftA (i : In) : BitVec 7 :=
  if Lzc.empty 6 (lzcAInput i) then 64#7
  else (Lzc.cnt 6 (lzcAInput i)).setWidth 7

/-- `div_shift`.  The difference is taken in 32 bits and cut. -/
def divShift (i : In) : BitVec 8 :=
  if Lzc.empty 6 (lzcBInput i) then 64#8
  else ((Lzc.cnt 6 (lzcBInput i)).setWidth 32 -
    (shiftA i).setWidth 32).setWidth 8

/-- `op_b`. -/
def opBShifted (i : In) : BitVec 64 := i.opB <<< (divShift i).toNat

/-! ## The comparator and the state machine -/

def abComp (q : Regs) : Bool :=
  (q.opA = q.opB || (decide (q.opB < q.opA) ^^ q.compInv)) &&
    (q.opA ≠ 0#64 || q.opBZero)

def cntZero (q : Regs) : Bool := q.cnt = 0#7

/-- What `p_fsm` assigns. -/
structure Ctl where
  stateD : Fsm
  inRdy : Bool
  outVld : Bool
  loadEn : Bool
  aRegEn : Bool
  bRegEn : Bool
  resRegEn : Bool

def fsmCase (q : Regs) (i : In) : Ctl :=
  match q.state with
  | .IDLE =>
    if i.inVld then ⟨.DIVIDE, false, false, true, true, true, false⟩
    else ⟨.IDLE, true, false, false, false, false, false⟩
  | .DIVIDE =>
    if q.divResZero then
      ⟨if i.outRdy then .IDLE else .FINISH, false, true, false, false, false,
        false⟩
    else
      ⟨if cntZero q then .FINISH else .DIVIDE, false, false, false, abComp q,
        true, true⟩
  | .FINISH =>
    ⟨if i.outRdy then .IDLE else .FINISH, false, true, false, false, false,
      false⟩

/-- `p_fsm`.  A flush overrides everything but `res_reg_en`. -/
def pFsm (q : Regs) (i : In) : Ctl :=
  if i.flush then
    { fsmCase q i with
      stateD := .IDLE
      inRdy := false
      outVld := false
      loadEn := false
      aRegEn := false
      bRegEn := false }
  else fsmCase q i

/-! ## The datapath -/

def pmSel (q : Regs) (i : In) : Bool :=
  (pFsm q i).loadEn && !(i.signed && (opASign i ^^ opBSign i))

def addOut (q : Regs) (i : In) : BitVec 64 :=
  let addMux := if (pFsm q i).loadEn then i.opA else q.opB
  let addTmp := if (pFsm q i).loadEn then 0#64 else q.opA
  if pmSel q i then addTmp + addMux else addTmp - addMux

/-- `b_mux`: the divisor is shifted down with its sign coming in. -/
def bMux (q : Regs) (i : In) : BitVec 64 :=
  if (pFsm q i).loadEn then opBShifted i
  else BitVec.ofBool q.compInv ++ q.opB.extractLsb' 1 63

def outMux (q : Regs) : BitVec 64 := if q.remSel then q.opA else q.res

def resO (q : Regs) : BitVec 64 := if q.resInv then - outMux q else outMux q

def outVldO (q : Regs) (i : In) : Bool := (pFsm q i).outVld

/-- One cycle. -/
def step (q : Regs) (i : In) : Regs :=
  let c := pFsm q i
  { state := c.stateD
    opA := if c.aRegEn then addOut q i else q.opA
    opB := if c.bRegEn then bMux q i else q.opB
    res :=
      if c.loadEn then 0#64
      else if c.resRegEn then q.res.extractLsb' 0 63 ++
        BitVec.ofBool (abComp q)
      else q.res
    cnt :=
      if c.loadEn then (divShift i).setWidth 7
      else if cntZero q then q.cnt else q.cnt - 1#7
    id := if c.loadEn then i.id else q.id
    remSel := if c.loadEn then i.rem else q.remSel
    compInv := if c.loadEn then i.signed && opBSign i else q.compInv
    resInv :=
      if c.loadEn then
        (!opBZeroIn i || i.rem) && i.signed && (opASign i ^^ opBSign i)
      else q.resInv
    opBZero := if c.loadEn then opBZeroIn i else q.opBZero
    divResZero := if c.loadEn then (divShift i).slt 0#8 else q.divResZero }

/-! ## What a cycle does -/

variable {q : Regs} {i : In}

/-- A flush returns to idle and puts nothing out. -/
theorem flushed (q : Regs) (h : i.flush = true) :
    (step q i).state = .IDLE ∧ outVldO q i = false := by
  unfold step outVldO pFsm
  rw [h]
  exact ⟨rfl, rfl⟩

/-- The registers after a load. -/
theorem step_load (hs : q.state = .IDLE) (hv : i.inVld = true)
    (hf : i.flush = false) :
    step q i =
      { state := .DIVIDE
        opA := if i.signed && (opASign i ^^ opBSign i) then - i.opA else i.opA
        opB := opBShifted i
        res := 0#64
        cnt := (divShift i).setWidth 7
        id := i.id
        remSel := i.rem
        compInv := i.signed && opBSign i
        resInv :=
          (!opBZeroIn i || i.rem) && i.signed && (opASign i ^^ opBSign i)
        opBZero := opBZeroIn i
        divResZero := (divShift i).slt 0#8 } := by
  have hctl : pFsm q i = ⟨.DIVIDE, false, false, true, true, true, false⟩ := by
    unfold pFsm fsmCase
    rw [hf, hs, hv]
    rfl
  have hadd : addOut q i =
      if i.signed && (opASign i ^^ opBSign i) then - i.opA else i.opA := by
    unfold addOut pmSel
    rw [hctl]
    cases i.signed && (opASign i ^^ opBSign i) <;> simp
  unfold step bMux
  dsimp only
  rw [hctl, hadd]
  rfl

/-- The registers after a turn of the division. -/
theorem step_divide (hs : q.state = .DIVIDE) (hz : q.divResZero = false)
    (hf : i.flush = false) :
    step q i =
      { q with
        state := if cntZero q then .FINISH else .DIVIDE
        opA := if abComp q then q.opA - q.opB else q.opA
        opB := BitVec.ofBool q.compInv ++ q.opB.extractLsb' 1 63
        res := q.res.extractLsb' 0 63 ++ BitVec.ofBool (abComp q)
        cnt := if cntZero q then q.cnt else q.cnt - 1#7 } := by
  have hctl : pFsm q i = ⟨if cntZero q then .FINISH else .DIVIDE, false,
      false, false, abComp q, true, true⟩ := by
    unfold pFsm fsmCase
    rw [hf, hs]
    dsimp only
    rw [hz]
    rfl
  have hadd : addOut q i = q.opA - q.opB := by
    unfold addOut pmSel
    rw [hctl]
    rfl
  unfold step bMux
  dsimp only
  rw [hctl, hadd]
  rfl

/-- The result is out. -/
def Done (q : Regs) : Prop :=
  q.state = .FINISH ∨ q.state = .DIVIDE ∧ q.divResZero = true

/-- Nothing is put out before, and from then on it is. -/
theorem outVldO_iff (hf : i.flush = false) :
    outVldO q i = true ↔ Done q := by
  unfold outVldO pFsm fsmCase Done
  rw [hf]
  cases hs : q.state with
  | IDLE => cases i.inVld <;> simp
  | DIVIDE => cases hz : q.divResZero <;> simp
  | FINISH => simp

/-- A result that is not taken stays, and one that is taken makes the unit
idle. -/
theorem step_done (hd : Done q) (hf : i.flush = false) :
    step q i =
      { q with
        state := if i.outRdy then .IDLE else .FINISH
        cnt := if cntZero q then q.cnt else q.cnt - 1#7 } := by
  have hctl : pFsm q i = ⟨if i.outRdy then .IDLE else .FINISH, false, true,
      false, false, false, false⟩ := by
    unfold pFsm fsmCase
    rw [hf]
    rcases hd with hs | ⟨hs, hz⟩
    · rw [hs]
      rfl
    · rw [hs]
      dsimp only
      rw [hz]
      rfl
  unfold step
  dsimp only
  rw [hctl]
  rfl

end ArianeSoc.Serdiv
