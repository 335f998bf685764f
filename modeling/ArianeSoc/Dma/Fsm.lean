import ArianeSoc.Pmp.Entry
import ArianeSoc.Sync

/-!
# The DMA controller

The state machine of `dma.sv`.  `control` is the combinational process,
`saveInputs` the process that latches the command, `step` one cycle.

`DATA_WIDTH` is 32 and the PMP has 16 entries, as the module instantiates
it.  `abort` is a wire that nothing drives; it is an input here.  The
source passes the PMP configuration as `[7:0][15:0]` and the PMP unit reads
the same 128 bits as sixteen entries.

The lemmas `step_checkLoad`, `step_load`, `step_checkStore` and
`step_store` say how each of these four states is entered.
-/

namespace ArianeSoc.Dma

open Pmp

/-- The states of `dma_ctrl`. -/
inductive Ctrl
  | IDLE | CHECK_LOAD | START_LOAD | LOAD | CHECK_STORE | START_STORE
  | STORE | DONE | ABORT
  deriving DecidableEq, Repr

abbrev VALID_IDLE : BitVec 32 := 0b0#32
abbrev VALID_LOAD : BitVec 32 := 0b10#32
abbrev VALID_STORE : BitVec 32 := 0b100#32
abbrev VALID_DONE : BitVec 32 := 0b1000#32

/-- The command registers of the wrapper. -/
structure Command where
  start : BitVec 32
  length : BitVec 32
  sourceAddrLsb : BitVec 32
  sourceAddrMsb : BitVec 32
  destAddrLsb : BitVec 32
  destAddrMsb : BitVec 32
  done : BitVec 32
  deriving DecidableEq

/-- The PMP configuration. -/
structure PmpConf where
  cfg : Fin 16 → PmpCfg
  addr : Fin 16 → BitVec 54

/-- The inputs of one cycle. -/
structure In where
  rstNi : Bool
  command : Command
  pmpConf : PmpConf
  weFlag : Bool
  abort : Bool

/-- The registers. -/
structure State where
  startD : BitVec 32
  lengthD : BitVec 32
  sourceAddrLsbD : BitVec 32
  sourceAddrMsbD : BitVec 32
  destAddrLsbD : BitVec 32
  destAddrMsbD : BitVec 32
  ctrl : Ctrl
  pmpAddr : BitVec 64
  pmpAccessType : PmpAccess
  pmpCheckCtr : BitVec 32
  pmpAllow : Bool
  valid : BitVec 32

def reset : State where
  startD := 0#32
  lengthD := 0#32
  sourceAddrLsbD := 0#32
  sourceAddrMsbD := 0#32
  destAddrLsbD := 0#32
  destAddrMsbD := 0#32
  ctrl := .IDLE
  pmpAddr := 0#64
  pmpAccessType := ACCESS_READ
  pmpCheckCtr := 0#32
  pmpAllow := false
  valid := VALID_IDLE

/-- An address with its three lowest bits cleared. -/
def alignedAddr (msb lsb : BitVec 32) : BitVec 64 :=
  msb ++ lsb.extractLsb' 3 29 ++ 0#3

/-- The address that the check loop computes from its counter. -/
def checkAddr (base : BitVec 64) (ctr : BitVec 32) : BitVec 64 :=
  base + ctr.setWidth 64 * 4#64

/-- `pmp_data_allow`: the least privilege is chosen for every access. -/
def pmpDataAllow (s : State) (i : In) : Bool :=
  pmp i.pmpConf.addr i.pmpConf.cfg s.pmpAddr s.pmpAccessType PRIV_LVL_U

/-- The counter has run below zero. -/
abbrev CTR_END : BitVec 32 := 0xffffffff#32

/-- `dma_ctrl`, without `abort`. -/
def control (s : State) (i : In) : State :=
  match s.ctrl with
  | .IDLE =>
    if s.startD ≠ 0#32 then
      { s with
        ctrl := .CHECK_LOAD
        pmpCheckCtr := s.lengthD
        pmpAddr := 0#64
        pmpAllow := true
        valid := VALID_IDLE }
    else { s with valid := VALID_IDLE }
  | .CHECK_LOAD =>
    if s.pmpCheckCtr = CTR_END then
      { s with
        ctrl := if s.pmpAllow && pmpDataAllow s i then .LOAD
          else .CHECK_STORE }
    else
      { s with
        pmpAddr := checkAddr (alignedAddr s.sourceAddrMsbD s.sourceAddrLsbD)
          s.pmpCheckCtr
        pmpAccessType := ACCESS_READ
        pmpAllow :=
          (s.pmpAllow && (pmpDataAllow s i || s.pmpCheckCtr == s.lengthD)) ||
            (i.weFlag && s.lengthD == 3#32)
        pmpCheckCtr := s.pmpCheckCtr - 1#32 }
  | .LOAD =>
    { s with
      valid := s.valid ||| VALID_LOAD
      ctrl := .CHECK_STORE
      pmpCheckCtr := s.lengthD
      pmpAddr := 0#64
      pmpAllow := true }
  | .CHECK_STORE =>
    if s.pmpCheckCtr = CTR_END then
      { s with
        ctrl := if s.pmpAllow && pmpDataAllow s i then .STORE else .DONE }
    else
      { s with
        pmpAddr := checkAddr (alignedAddr s.destAddrMsbD s.destAddrLsbD)
          s.pmpCheckCtr
        pmpAccessType := ACCESS_WRITE
        pmpAllow := pmpDataAllow s i
        pmpCheckCtr := s.pmpCheckCtr - 1#32 }
  | .STORE => { s with valid := s.valid ||| VALID_STORE, ctrl := .DONE }
  | .DONE =>
    { s with
      valid := s.valid ||| VALID_DONE
      ctrl := if i.command.done ≠ 0#32 then .IDLE else .DONE }
  -- the state is never written here: its enable stays low
  | .ABORT => s
  | .START_LOAD | .START_STORE => { s with ctrl := .IDLE }

/-- The command is latched while the controller is idle or done. -/
def saveInputs (s : State) (i : In) (d : State) : State :=
  if s.ctrl = .IDLE ∨ s.ctrl = .DONE then
    { d with
      startD := i.command.start
      lengthD := i.command.length
      sourceAddrLsbD := i.command.sourceAddrLsb
      sourceAddrMsbD := i.command.sourceAddrMsb
      destAddrLsbD := i.command.destAddrLsb
      destAddrMsbD := i.command.destAddrMsb }
  else d

/-- One cycle. -/
def step (s : State) (i : In) : State :=
  if i.rstNi then
    saveInputs s i
      (if i.abort then { control s i with ctrl := .ABORT } else control s i)
  else reset

/-! ## How the checking and the transferring states are entered -/

variable {s : State} {i : In}

/-- A turn of the load check. -/
theorem control_checkLoad (hc : s.ctrl = .CHECK_LOAD)
    (hne : s.pmpCheckCtr ≠ CTR_END) :
    control s i =
      { s with
        pmpAddr := checkAddr (alignedAddr s.sourceAddrMsbD s.sourceAddrLsbD)
          s.pmpCheckCtr
        pmpAccessType := ACCESS_READ
        pmpAllow :=
          (s.pmpAllow && (pmpDataAllow s i || s.pmpCheckCtr == s.lengthD)) ||
            (i.weFlag && s.lengthD == 3#32)
        pmpCheckCtr := s.pmpCheckCtr - 1#32 } := by
  simp only [control, hc, if_neg hne]

/-- A turn of the store check. -/
theorem control_checkStore (hc : s.ctrl = .CHECK_STORE)
    (hne : s.pmpCheckCtr ≠ CTR_END) :
    control s i =
      { s with
        pmpAddr := checkAddr (alignedAddr s.destAddrMsbD s.destAddrLsbD)
          s.pmpCheckCtr
        pmpAccessType := ACCESS_WRITE
        pmpAllow := pmpDataAllow s i
        pmpCheckCtr := s.pmpCheckCtr - 1#32 } := by
  simp only [control, hc, if_neg hne]

/-- Outside `IDLE` and `DONE` the command is kept. -/
theorem step_of_busy (hr : i.rstNi = true) (ha : i.abort = false)
    (hi : s.ctrl ≠ .IDLE) (hd : s.ctrl ≠ .DONE) :
    step s i = control s i := by
  simp [step, saveInputs, hr, ha, hi, hd]

/-- A cycle that does not end in `IDLE` or `ABORT` is neither a reset nor an
abort. -/
theorem step_not_reset (hi : (step s i).ctrl ≠ .IDLE)
    (ha : (step s i).ctrl ≠ .ABORT) :
    i.rstNi = true ∧ i.abort = false := by
  by_cases hr : i.rstNi = true
  · refine ⟨hr, ?_⟩
    by_contra hab
    rw [Bool.not_eq_false] at hab
    apply ha
    simp only [step, hr, hab, if_true, saveInputs]
    split_ifs <;> rfl
  · exact absurd (by simp [step, hr, reset]) hi

/-- The state after a cycle without a reset and an abort. -/
theorem ctrl_step (hr : i.rstNi = true) (ha : i.abort = false) :
    (step s i).ctrl = (control s i).ctrl ∧
      (step s i).pmpAddr = (control s i).pmpAddr ∧
      (step s i).pmpAccessType = (control s i).pmpAccessType ∧
      (step s i).pmpCheckCtr = (control s i).pmpCheckCtr ∧
      (step s i).pmpAllow = (control s i).pmpAllow ∧
      (step s i).valid = (control s i).valid := by
  simp only [step, hr, ha, if_true, saveInputs, Bool.false_eq_true, if_false]
  split_ifs <;> exact ⟨rfl, rfl, rfl, rfl, rfl, rfl⟩

/-- A cycle that ends elsewhere follows `control`. -/
theorem control_of_step {c : Ctrl} (h : (step s i).ctrl = c)
    (hi : c ≠ .IDLE) (ha : c ≠ .ABORT) :
    (control s i).ctrl = c ∧
      (s.ctrl ≠ .IDLE → s.ctrl ≠ .DONE → step s i = control s i) := by
  obtain ⟨hr, hab⟩ := step_not_reset (by rw [h]; exact hi)
    (by rw [h]; exact ha)
  rw [(ctrl_step hr hab).1] at h
  exact ⟨h, step_of_busy hr hab⟩

/-- The load check starts from `IDLE` and goes on from itself. -/
theorem step_checkLoad (h : (step s i).ctrl = .CHECK_LOAD) :
    (s.ctrl = .IDLE ∧ s.startD ≠ 0#32 ∧
        (step s i).pmpCheckCtr = s.lengthD ∧
        (step s i).valid = VALID_IDLE) ∨
      (s.ctrl = .CHECK_LOAD ∧ s.pmpCheckCtr ≠ CTR_END ∧
        step s i = control s i) := by
  obtain ⟨hr, ha⟩ := step_not_reset (by rw [h]; decide) (by rw [h]; decide)
  have hctrl := ctrl_step (s := s) hr ha
  rw [hctrl.1] at h
  cases hc : s.ctrl
  case IDLE =>
    refine Or.inl ⟨rfl, ?_⟩
    rw [hctrl.2.2.2.1, hctrl.2.2.2.2.2]
    by_cases hs : s.startD = 0#32
    · simp [control, hc, hs] at h
    · exact ⟨hs, by simp [control, hc, hs], by simp [control, hc, hs]⟩
  case CHECK_LOAD =>
    refine Or.inr ⟨rfl, ?_, step_of_busy hr ha (by simp [hc]) (by simp [hc])⟩
    intro hend
    simp only [control, hc, hend, if_true] at h
    split_ifs at h
  case CHECK_STORE =>
    simp only [control, hc] at h
    split_ifs at h
  case DONE =>
    simp only [control, hc] at h
    split_ifs at h
  all_goals simp [control, hc] at h

/-- The load is granted by the end of the load check. -/
theorem step_load (h : (step s i).ctrl = .LOAD) :
    s.ctrl = .CHECK_LOAD ∧ s.pmpCheckCtr = CTR_END ∧
      s.pmpAllow = true ∧ pmpDataAllow s i = true ∧
      step s i = { s with ctrl := .LOAD } := by
  obtain ⟨h, hbusy⟩ := control_of_step h (by decide) (by decide)
  cases hc : s.ctrl
  case CHECK_LOAD =>
    rw [hbusy (by simp [hc]) (by simp [hc])]
    by_cases hend : s.pmpCheckCtr = CTR_END
    · simp only [control, hc, hend, if_true] at h
      split_ifs at h with hyes
      rw [Bool.and_eq_true] at hyes
      refine ⟨rfl, hend, hyes.1, hyes.2, ?_⟩
      simp [control, hc, hend, hyes]
    · simp [control, hc, hend] at h
  case IDLE | CHECK_STORE | DONE =>
    simp only [control, hc] at h
    split_ifs at h
  all_goals simp [control, hc] at h

/-- The store check is entered from `LOAD` and, with everything else
unchanged, from a load check that ends without the grant. -/
theorem step_checkStore (h : (step s i).ctrl = .CHECK_STORE) :
    (s.ctrl = .LOAD ∧ step s i = control s i) ∨
      (s.ctrl = .CHECK_LOAD ∧ s.pmpCheckCtr = CTR_END ∧
        (s.pmpAllow && pmpDataAllow s i) = false ∧
        step s i = { s with ctrl := .CHECK_STORE }) ∨
      (s.ctrl = .CHECK_STORE ∧ s.pmpCheckCtr ≠ CTR_END ∧
        step s i = control s i) := by
  obtain ⟨h, hbusy⟩ := control_of_step h (by decide) (by decide)
  cases hc : s.ctrl
  case LOAD =>
    exact Or.inl ⟨rfl, hbusy (by simp [hc]) (by simp [hc])⟩
  case CHECK_LOAD =>
    refine Or.inr (Or.inl ⟨rfl, ?_⟩)
    rw [hbusy (by simp [hc]) (by simp [hc])]
    by_cases hend : s.pmpCheckCtr = CTR_END
    · refine ⟨hend, ?_, ?_⟩
      · by_contra hyes
        rw [Bool.not_eq_false] at hyes
        simp [control, hc, hend, hyes] at h
      · simp only [control, hc, hend, if_true] at h ⊢
        rw [h]
    · simp [control, hc, hend] at h
  case CHECK_STORE =>
    refine Or.inr (Or.inr ⟨rfl, ?_, hbusy (by simp [hc]) (by simp [hc])⟩)
    intro hend
    simp only [control, hc, hend, if_true] at h
    split_ifs at h
  case IDLE | DONE =>
    simp only [control, hc] at h
    split_ifs at h
  all_goals simp [control, hc] at h

/-- The store is granted by the end of the store check. -/
theorem step_store (h : (step s i).ctrl = .STORE) :
    s.ctrl = .CHECK_STORE ∧ s.pmpCheckCtr = CTR_END ∧
      s.pmpAllow = true ∧ pmpDataAllow s i = true ∧
      step s i = { s with ctrl := .STORE } := by
  obtain ⟨h, hbusy⟩ := control_of_step h (by decide) (by decide)
  cases hc : s.ctrl
  case CHECK_STORE =>
    rw [hbusy (by simp [hc]) (by simp [hc])]
    by_cases hend : s.pmpCheckCtr = CTR_END
    · simp only [control, hc, hend, if_true] at h
      split_ifs at h with hyes
      rw [Bool.and_eq_true] at hyes
      refine ⟨rfl, hend, hyes.1, hyes.2, ?_⟩
      simp [control, hc, hend, hyes]
    · simp [control, hc, hend] at h
  case IDLE | CHECK_LOAD | DONE =>
    simp only [control, hc] at h
    split_ifs at h
  all_goals simp [control, hc] at h

/-- The flags that a state adds to the state output. -/
def Ctrl.flag : Ctrl → BitVec 32
  | .LOAD => VALID_LOAD
  | .STORE => VALID_STORE
  | .DONE => VALID_DONE
  | _ => 0#32

/-- The state output is cleared or gains the flag of the state. -/
theorem valid_step :
    (step s i).valid = VALID_IDLE ∨
      (step s i).valid = s.valid ||| s.ctrl.flag := by
  have hcontrol : (control s i).valid = VALID_IDLE ∨
      (control s i).valid = s.valid ||| s.ctrl.flag := by
    unfold control
    split
    all_goals rename_i hc
    all_goals rw [hc]
    all_goals try split_ifs
    all_goals simp [Ctrl.flag]
  simp only [step, saveInputs]
  split_ifs
  all_goals first
    | exact Or.inl rfl
    | exact hcontrol

/-- The cycle raises bit `b` of the state output. -/
def Raises (b : Nat) (s : State) (i : In) : Prop :=
  s.valid.getLsbD b = false ∧ (step s i).valid.getLsbD b = true

theorem flag_of_raises {b : Nat} (h : Raises b s i) :
    s.ctrl.flag.getLsbD b = true := by
  obtain ⟨h0, h1⟩ := h
  rcases @valid_step s i with hv | hv
  · rw [hv] at h1
    simp at h1
  · rw [hv, BitVec.getLsbD_or, h0, Bool.false_or] at h1
    exact h1

/-- `VALID_LOAD` is raised in `LOAD` only. -/
theorem raises_load (h : Raises 1 s i) : s.ctrl = .LOAD := by
  have hflag := flag_of_raises h
  revert hflag
  cases s.ctrl <;> decide

/-- `VALID_STORE` is raised in `STORE` only. -/
theorem raises_store (h : Raises 2 s i) : s.ctrl = .STORE := by
  have hflag := flag_of_raises h
  revert hflag
  cases s.ctrl <;> decide

end ArianeSoc.Dma
