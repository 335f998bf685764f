import ArianeSoc.Sync

/-!
# The JTAG debug module interface

The state machine, the shift register and the registers of `dmi_jtag.sv`.
One step is one cycle of the test clock.  The signals of the TAP
controller, of the clock domain crossing and of the HMAC engine are inputs.

`startHash` and `pass_data` are assigned on some paths of the combinational
process only, so they are latches and part of the state here; the reset does
not reach them.  `pass_check` and `pass_mode` are cleared at the top of that
process and are no registers.
-/

namespace ArianeSoc.Jtag

/-- `dmi_error_e`. -/
inductive DmiError
  | DMINoError | DMIReservedError | DMIOPFailed | DMIBusy
  deriving DecidableEq, Repr

def DmiError.bits : DmiError → BitVec 2
  | .DMINoError => 0#2
  | .DMIReservedError => 1#2
  | .DMIOPFailed => 2#2
  | .DMIBusy => 3#2

/-- `state_e`. -/
inductive FsmState
  | Idle | Read | WaitReadValid | Write | WaitWriteValid | PassChk
  | PassChkWait | PassChkValid
  deriving DecidableEq, Repr

abbrev DTM_NOP : BitVec 2 := 0#2
abbrev DTM_READ : BitVec 2 := 1#2
abbrev DTM_WRITE : BitVec 2 := 2#2
abbrev DTM_PASS : BitVec 2 := 3#2

/-- `dmi_t`, the fields of the shift register. -/
structure Dmi where
  address : BitVec 7
  data : BitVec 32
  op : BitVec 2

def Dmi.ofBits (dr : BitVec 41) : Dmi where
  address := dr.extractLsb' 34 7
  data := dr.extractLsb' 2 32
  op := dr.extractLsb' 0 2

/-- The inputs of one cycle. -/
structure In where
  trstNi : Bool
  testLogicReset : Bool
  captureDr : Bool
  shiftDr : Bool
  updateDr : Bool
  dmiAccess : Bool
  dtmcsSelect : Bool
  dmiReset : Bool
  dmiTdi : Bool
  dmiReqReady : Bool
  dmiRespValid : Bool
  dmiRespData : BitVec 32
  weFlag : Bool
  hmacReady : Bool
  hashValid : Bool
  passHash : BitVec 256
  jtagHash : BitVec 256

/-- A cycle in which nothing happens. -/
def In.quiet : In where
  trstNi := true
  testLogicReset := false
  captureDr := false
  shiftDr := false
  updateDr := false
  dmiAccess := false
  dtmcsSelect := false
  dmiReset := false
  dmiTdi := false
  dmiReqReady := false
  dmiRespValid := false
  dmiRespData := 0#32
  weFlag := false
  hmacReady := false
  hashValid := false
  passHash := 0#256
  jtagHash := 0#256

/-- The registers and the latches. -/
structure State where
  dr : BitVec 41
  state : FsmState
  address : BitVec 7
  data : BitVec 32
  error : DmiError
  startHash : Bool
  passData : BitVec 512

/-- The registers after a reset. -/
def reset (s : State) : State :=
  { s with
    dr := 0#41
    state := .Idle
    address := 0#7
    data := 0#32
    error := .DMINoError }

/-- What the combinational process assigns in its case statement. -/
structure Comb where
  state : FsmState
  address : BitVec 7
  data : BitVec 32
  dmiReqValid : Bool
  passCheck : Bool
  passMode : Bool
  startHash : Bool
  passData : BitVec 512

/-- The default assignments; the latches keep their values. -/
def defaults (s : State) : Comb where
  state := s.state
  address := s.address
  data := s.data
  dmiReqValid := false
  passCheck := false
  passMode := false
  startHash := s.startHash
  passData := s.passData

/-- `pass_check | ~we_flag == 1`: the comparison binds first and extends
`we_flag` to the width of the literal before the negation. -/
def readAccess (passCheck weFlag : Bool) : Bool :=
  passCheck || ~~~((BitVec.ofBool weFlag).setWidth 32) == 1#32

/-- An update of the DMI register with no error pending. -/
def dmiUpdate (s : State) (i : In) : Bool :=
  i.dmiAccess && i.updateDr && s.error == .DMINoError

/-- The request that an update asks for. -/
def request (d : Comb) (op : BitVec 2) (weFlag : Bool) : Comb :=
  if op = DTM_READ ∧ readAccess d.passCheck weFlag = true then
    { d with state := .Read }
  else if op = DTM_WRITE ∧ d.passCheck = true then
    { d with state := .Write }
  else if op = DTM_PASS then
    { d with state := .Write, passMode := true }
  else d

/-- The case statement. -/
def comb (s : State) (i : In) : Comb :=
  let d := defaults s
  match s.state with
  | .Idle =>
    if dmiUpdate s i then
      let dmi := Dmi.ofBits s.dr
      request { d with address := dmi.address, data := dmi.data } dmi.op
        i.weFlag
    else d
  | .Read =>
    let d := { d with dmiReqValid := true }
    if i.dmiReqReady then { d with state := .WaitReadValid } else d
  | .WaitReadValid =>
    if i.dmiRespValid then { d with state := .Idle } else d
  | .Write =>
    let d := { d with dmiReqValid := true }
    if i.dmiReqReady then
      let d := { d with data := i.dmiRespData }
      if d.passMode then
        { d with
          passData := 0#480 ++ d.data
          state := .PassChk
          passMode := false }
      else { d with state := .Idle }
    else d
  | .WaitWriteValid =>
    if i.dmiRespValid then { d with state := .Idle } else d
  | .PassChk =>
    if i.hmacReady then { d with startHash := true, state := .PassChkWait }
    else { d with state := .PassChk }
  | .PassChkWait =>
    if i.hmacReady then { d with state := .PassChkWait }
    else { d with startHash := false, state := .PassChkValid }
  | .PassChkValid =>
    if i.hashValid then
      { d with passCheck := i.jtagHash == i.passHash, state := .Idle }
    else { d with state := .PassChkValid }

/-- Another request came before the one in progress was finished, or its
result is captured too early. -/
def errorDmiBusy (s : State) (i : In) : Bool :=
  (i.updateDr && s.state != .Idle) ||
    (i.captureDr && (s.state == .Read || s.state == .WaitReadValid))

/-- `error_d`: the error is sticky until the DTM clears it. -/
def errorD (s : State) (i : In) : DmiError :=
  if i.dmiReset && i.dtmcsSelect then .DMINoError
  else if errorDmiBusy s i then .DMIBusy
  else s.error

/-- `dr_d`, the shift register. -/
def drD (s : State) (i : In) : BitVec 41 :=
  if i.testLogicReset then 0#41
  else if i.shiftDr && i.dmiAccess then
    BitVec.ofBool i.dmiTdi ++ s.dr.extractLsb' 1 40
  else if i.captureDr && i.dmiAccess then
    if s.error == .DMINoError && !errorDmiBusy s i then
      s.address ++ s.data ++ DmiError.DMINoError.bits
    else if s.error == .DMIBusy || errorDmiBusy s i then
      s.address ++ s.data ++ DmiError.DMIBusy.bits
    else s.dr
  else s.dr

/-- One cycle. -/
def step (s : State) (i : In) : State :=
  if i.trstNi then
    let d := comb s i
    { dr := drD s i
      state := d.state
      address := d.address
      data := d.data
      error := errorD s i
      startHash := d.startHash
      passData := d.passData }
  else reset s

/-! ## The outputs -/

def dmiReqValid (s : State) (i : In) : Bool := (comb s i).dmiReqValid

/-- `dmi_req.op`. -/
def dmiReqOp (s : State) : BitVec 2 :=
  if s.state = .Write then DTM_WRITE else DTM_READ

def jtagUnlockO (s : State) (i : In) : Bool := (comb s i).passCheck

/-! ## What the state machine does -/

variable {s : State} {i : In}

theorem state_step (hr : i.trstNi = true) :
    (step s i).state = (comb s i).state := by
  rw [step, if_pos hr]

theorem state_step_reset (hr : i.trstNi = false) :
    (step s i).state = .Idle := by
  simp [step, hr, reset]

/-- Without `pass_check` nobody may read, whatever `we_flag` is. -/
theorem readAccess_eq (passCheck weFlag : Bool) :
    readAccess passCheck weFlag = passCheck := by
  cases passCheck <;> cases weFlag <;> decide

/-- `Idle` is left for `DTM_PASS` only: `pass_check` is low there. -/
theorem comb_idle (h : s.state = .Idle) :
    (comb s i).state =
      if dmiUpdate s i = true ∧ (Dmi.ofBits s.dr).op = DTM_PASS then .Write
      else .Idle := by
  simp only [comb, h, defaults, request, readAccess_eq]
  by_cases hu : dmiUpdate s i = true
  · by_cases hp : (Dmi.ofBits s.dr).op = DTM_PASS <;> simp [hu, hp]
  · simp [hu]

/-- `Write` ends in `Idle`: `pass_mode` is low there. -/
theorem comb_write (h : s.state = .Write) :
    (comb s i).state = if i.dmiReqReady then .Idle else .Write := by
  simp only [comb, h, defaults]
  by_cases hr : i.dmiReqReady = true <;> simp [hr]

/-- `pass_check` is high in one state only. -/
theorem passCheck_comb :
    (comb s i).passCheck = true ↔
      s.state = .PassChkValid ∧ i.hashValid = true ∧
        i.jtagHash = i.passHash := by
  cases hs : s.state
  case Idle =>
    simp only [comb, hs, defaults, request]
    split_ifs <;> simp
  case Write =>
    simp only [comb, hs, defaults]
    split_ifs <;> simp
  case PassChkValid =>
    by_cases hv : i.hashValid = true <;> simp [comb, hs, hv, defaults]
  all_goals
    simp only [comb, hs, defaults]
    split_ifs <;> simp

/-- A write request is issued in `Write`. -/
theorem writeRequest_iff :
    dmiReqValid s i = true ∧ dmiReqOp s = DTM_WRITE ↔ s.state = .Write := by
  constructor
  · rintro ⟨-, hop⟩
    by_contra hne
    rw [dmiReqOp, if_neg hne] at hop
    exact absurd hop (by decide)
  · intro h
    refine ⟨?_, by rw [dmiReqOp, if_pos h]⟩
    simp only [dmiReqValid, comb, h, defaults]
    split_ifs <;> rfl

end ArianeSoc.Jtag
