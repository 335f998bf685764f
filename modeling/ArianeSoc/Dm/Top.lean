import ArianeSoc.BitField
import ArianeSoc.Sync
import Mathlib.Algebra.Group.Nat.Defs
import Mathlib.Data.Nat.Log

/-!
# The debug module

The registers of `dm_csrs.sv` that abstract commands depend on, the control
queue of `dm_mem.sv` with the writes of the harts, and their connection in
`dm_top.sv`.  A request of the debugger is taken into account when it is
accepted; the responses, the system bus and the read data of the harts are
left out.

Packed arrays are one word: `data` has `DataCount` words of 32 bits,
`progbuf` has `ProgBufSize`.  `cmd_valid_q` has no reset.
-/

namespace ArianeSoc.Dm

/-! ## `dm_pkg` -/

abbrev Data0 : BitVec 8 := 0x04#8
abbrev DMControl : BitVec 8 := 0x10#8
abbrev AbstractCS : BitVec 8 := 0x16#8
abbrev Command : BitVec 8 := 0x17#8
abbrev AbstractAuto : BitVec 8 := 0x18#8
abbrev ProgBuf0 : BitVec 8 := 0x20#8

/-- `Data0 + DataCount` and `ProgBuf0 + ProgBufSize`, which the ranges of
the code include. -/
abbrev DataEnd : BitVec 8 := 0x06#8
abbrev ProgBufEnd : BitVec 8 := 0x28#8

abbrev CmdErrNone : BitVec 3 := 0#3
abbrev CmdErrBusy : BitVec 3 := 1#3
abbrev CmdErrNotSupported : BitVec 3 := 2#3
abbrev CmdErrorException : BitVec 3 := 3#3
abbrev CmdErrorHaltResume : BitVec 3 := 4#3

abbrev DTM_READ : BitVec 2 := 1#2
abbrev DTM_WRITE : BitVec 2 := 2#2

/-! ## `dm_csrs` -/

/-- `dmi_req_t`. -/
structure DmiReq where
  addr : BitVec 7
  op : BitVec 2
  data : BitVec 32
  deriving DecidableEq, Repr

/-- The address as `dm_csr_e`. -/
def DmiReq.csr (r : DmiReq) : BitVec 8 := r.addr.setWidth 8

/-- The fields of `dmcontrol_t` that are not tied to zero. -/
structure DmControl where
  haltreq : Bool
  resumereq : Bool
  hartsello : BitVec 10
  hartselhi : BitVec 10
  ndmreset : Bool
  dmactive : Bool
  deriving DecidableEq, Repr

def DmControl.ofBits (x : BitVec 32) : DmControl where
  haltreq := x.getLsbD 31
  resumereq := x.getLsbD 30
  hartsello := x.extractLsb' 16 10
  hartselhi := x.extractLsb' 6 10
  ndmreset := x.getLsbD 1
  dmactive := x.getLsbD 0

def DmControl.hartsel (d : DmControl) : BitVec 20 :=
  d.hartselhi ++ d.hartsello

/-- The registers. -/
structure Csrs where
  dmcontrol : DmControl
  cmderr : BitVec 3
  command : BitVec 32
  cmdValid : Bool
  autoexecdata : BitVec 12
  autoexecprogbuf : BitVec 16
  progbuf : BitVec 256
  data : BitVec 64
  deriving DecidableEq, Repr

/-- The registers at reset. -/
def Csrs.reset (cmdValid : Bool) : Csrs where
  dmcontrol := ⟨false, false, 0#10, 0#10, false, false⟩
  cmderr := CmdErrNone
  command := 0#32
  cmdValid := cmdValid
  autoexecdata := 0#12
  autoexecprogbuf := 0#16
  progbuf := 0#256
  data := 0#64

/-- Word `k` of the data and of the program buffer. -/
def dataWord (k : ℕ) : BitField 64 32 := ⟨32 * k⟩

def progbufWord (k : ℕ) : BitField 256 32 := ⟨32 * k⟩

section Access

variable (c : Csrs) (busy : Bool) (r : DmiReq)

def DmiReq.isData : Bool := Data0 ≤ r.csr && r.csr ≤ DataEnd

def DmiReq.isProgBuf : Bool := ProgBuf0 ≤ r.csr && r.csr ≤ ProgBufEnd

/-- The bit of `abstractauto` for a data word or a word of the program
buffer. -/
def Csrs.autoexec : Bool :=
  if r.isData then c.autoexecdata.getLsbD (r.csr.toNat % 16 - 4)
  else if r.isProgBuf then c.autoexecprogbuf.getLsbD (r.csr.toNat % 16)
  else false

/-- A write while a command is executed. -/
def Csrs.busyError : Csrs :=
  { c with
    cmderr := if c.cmderr = CmdErrNone then CmdErrBusy else c.cmderr }

/-- A read may start a command. -/
def Csrs.read : Csrs :=
  if busy then c else { c with cmdValid := c.autoexec r }

def Csrs.write : Csrs :=
  if r.isData then
    if busy then c
    else
      { c with
        data := (dataWord (r.csr.toNat - 4)).set r.data c.data
        cmdValid := c.autoexec r }
  else if r.csr = DMControl then
    { c with dmcontrol := DmControl.ofBits r.data }
  else if r.csr = AbstractCS then
    if busy then c.busyError
    else { c with cmderr := ~~~r.data.extractLsb' 8 3 &&& c.cmderr }
  else if r.csr = Command then
    if busy then c.busyError
    else { c with cmdValid := true, command := r.data }
  else if r.csr = AbstractAuto then
    if busy then c.busyError
    else
      { c with
        autoexecdata := (r.data.extractLsb' 0 2).setWidth 12
        autoexecprogbuf := (r.data.extractLsb' 16 8).setWidth 16 }
  else if r.isProgBuf then
    if busy then c
    else
      { c with
        progbuf := (progbufWord (r.csr.toNat - 32)).set r.data c.progbuf
        cmdValid := c.autoexec r }
  else c

/-- The accepted request. -/
def Csrs.access (req : Option DmiReq) : Csrs :=
  match req with
  | none => { c with cmdValid := false }
  | some r =>
    if r.op = DTM_READ then { c with cmdValid := false }.read busy r
    else if r.op = DTM_WRITE then { c with cmdValid := false }.write busy r
    else { c with cmdValid := false }

end Access

/-- The inputs from `dm_mem` next to the request. -/
structure CsrsIn where
  req : Option DmiReq
  cmdbusy : Bool
  cmderror : Option (BitVec 3)
  data : Option (BitVec 64)
  resumeack : Bool

section Cycle

variable (c : Csrs) (i : CsrsIn)

/-- The new values.  An error of the hart has precedence over the bus. -/
def Csrs.comb : Csrs :=
  let d := c.access i.cmdbusy i.req
  { d with
    cmderr := i.cmderror.getD d.cmderr
    data := i.data.getD d.data
    dmcontrol :=
      { d.dmcontrol with
        resumereq := d.dmcontrol.resumereq &&
          !(c.dmcontrol.resumereq && i.resumeack) } }

/-- One cycle.  Without `dmactive` everything but `dmactive` is reset. -/
def Csrs.step : Csrs :=
  if c.dmcontrol.dmactive then c.comb i
  else
    { Csrs.reset false with
      dmcontrol :=
        { (Csrs.reset false).dmcontrol with
          dmactive := (c.comb i).dmcontrol.dmactive } }

/-- A new resume request lowers the acknowledge of the last one. -/
def Csrs.clearResumeack (busy : Bool) (req : Option DmiReq) : Bool :=
  !c.dmcontrol.resumereq && (c.access busy req).dmcontrol.resumereq

end Cycle

/-! ## `dm_mem` -/

/-- The harts, and those of them that can be selected. -/
structure Config where
  nrHarts : ℕ
  selectableHarts : ℕ → Bool

def Config.hartSelLen (cfg : Config) : ℕ :=
  if cfg.nrHarts = 1 then 1 else Nat.clog 2 cfg.nrHarts

def Config.selectable (cfg : Config) (k : ℕ) : Bool :=
  decide (k < cfg.nrHarts) && cfg.selectableHarts k

/-- `state_e`. -/
inductive MemState
  | Idle | Go | Resume | CmdExecuting
  deriving DecidableEq, Repr

structure Mem where
  state : MemState
  halted : ℕ → Bool
  resuming : ℕ → Bool

def Mem.reset : Mem := ⟨.Idle, fun _ => false, fun _ => false⟩

/-- A write of a hart to the module. -/
structure HartWrite where
  addr : BitVec 64
  wdata : BitVec 64
  be : BitVec 8
  deriving DecidableEq, Repr

section HartWrite

variable (cfg : Config) (w : HartWrite)

def HartWrite.offset : BitVec 12 := w.addr.setWidth 12

def HartWrite.hartSel : ℕ := w.wdata.toNat % 2 ^ cfg.hartSelLen

abbrev Halted : BitVec 12 := 0x100#12
abbrev Going : BitVec 12 := 0x104#12
abbrev Resuming : BitVec 12 := 0x108#12
abbrev Exception : BitVec 12 := 0x10c#12

/-- A write to the data words; the range of the code ends at
`DataAddr + 4 * DataCount`. -/
def HartWrite.isData : Bool := 0x380#12 ≤ w.offset && w.offset ≤ 0x388#12

/-- The bytes that the hart writes. -/
def HartWrite.mask : BitVec 64 :=
  (List.range 8).foldl (fun m k =>
    if w.be.getLsbD k then m ||| (0xff#64 <<< (8 * k)) else m) 0#64

/-- The data words after the write. -/
def HartWrite.patch (data : BitVec 64) : BitVec 64 :=
  BitField.merge w.mask data w.wdata

end HartWrite

/-- The inputs from `dm_csrs` and of the bus. -/
structure MemIn where
  hartsel : BitVec 20
  haltreq : ℕ → Bool
  resumereq : ℕ → Bool
  clearResumeack : Bool
  cmdValid : Bool
  cmd : BitVec 32
  data : BitVec 64
  bus : Option HartWrite

/-- `unsupported_command`. -/
def unsupportedCommand (cmd : BitVec 32) : Bool :=
  let aarsize := cmd.extractLsb' 20 3
  let transfer := cmd.getLsbD 17
  if cmd.extractLsb' 24 8 = 0#8 then
    if aarsize < 4#3 && transfer then cmd.extractLsb' 14 2 != 0#2
    else 4#3 ≤ aarsize || cmd.getLsbD 19
  else true

section Queue

variable (cfg : Config) (m : Mem) (i : MemIn)

def MemIn.hart : ℕ := i.hartsel.toNat

/-- The hart writes to `Halted` or `Resuming`, for itself. -/
def MemIn.halts (k : ℕ) : Bool :=
  decide (k < cfg.nrHarts) &&
    i.bus.any fun w => w.offset == Halted && w.hartSel cfg == k

def MemIn.resumes (k : ℕ) : Bool :=
  decide (k < cfg.nrHarts) &&
    i.bus.any fun w => w.offset == Resuming && w.hartSel cfg == k

def MemIn.going : Bool := i.bus.any fun w => w.offset == Going

def MemIn.exception : Bool := i.bus.any fun w => w.offset == Exception

def Mem.cmdbusy : Bool := m.state != .Idle

/-- The resume request of the selected hart is taken. -/
def Mem.takesResume : Bool :=
  m.state == .Idle && i.resumereq i.hart && !m.resuming i.hart &&
    !i.haltreq i.hart && m.halted i.hart

/-- `cmderror_valid_o` and `cmderror_o`. -/
def Mem.cmderror : Option (BitVec 3) :=
  if i.exception then some CmdErrorException
  else if unsupportedCommand i.cmd && i.cmdValid then
    some CmdErrNotSupported
  else if m.state == .Idle && i.cmdValid && !m.halted i.hart then
    some CmdErrorHaltResume
  else none

def Mem.nextState : MemState :=
  match m.state with
  | .Idle =>
    if m.takesResume i then .Resume
    else if i.cmdValid && m.halted i.hart then .Go
    else .Idle
  | .Go => if i.going then .CmdExecuting else .Go
  | .Resume => if m.resuming i.hart then .Idle else .Resume
  | .CmdExecuting => if i.halts cfg i.hart then .Idle else .CmdExecuting

/-- `data_valid_o` and `data_o`. -/
def MemIn.dataOut : Option (BitVec 64) :=
  match i.bus with
  | some w => if w.isData then some (w.patch i.data) else none
  | none => none

/-- One cycle. -/
def Mem.step : Mem where
  state := m.nextState cfg i
  halted k :=
    cfg.selectable k && (i.halts cfg k || (m.halted k && !i.resumes cfg k))
  resuming k :=
    cfg.selectable k && (i.resumes cfg k ||
      (m.resuming k && !(i.clearResumeack && i.hart == k)))

end Queue

/-! ## `dm_top` -/

/-- The registers of the module. -/
structure State where
  csrs : Csrs
  mem : Mem

def State.reset (cmdValid : Bool) : State := ⟨Csrs.reset cmdValid, Mem.reset⟩

/-- The accepted request and the write of a hart in one cycle. -/
structure In where
  req : Option DmiReq
  bus : Option HartWrite
  deriving DecidableEq, Repr

section Top

variable (cfg : Config) (s : State) (i : In)

/-- `haltreq_o` and `resumereq_o` are set for the selected hart. -/
def State.selects (k : ℕ) : Bool :=
  s.csrs.dmcontrol.hartsel.toNat % 2 ^ cfg.hartSelLen == k

def State.memIn : MemIn where
  hartsel := s.csrs.dmcontrol.hartsel
  haltreq k := s.csrs.dmcontrol.haltreq && s.selects cfg k
  resumereq k := s.csrs.dmcontrol.resumereq && s.selects cfg k
  clearResumeack := s.csrs.clearResumeack s.mem.cmdbusy i.req
  cmdValid := s.csrs.cmdValid
  cmd := s.csrs.command
  data := s.csrs.data
  bus := i.bus

def State.csrsIn : CsrsIn where
  req := i.req
  cmdbusy := s.mem.cmdbusy
  cmderror := s.mem.cmderror (s.memIn cfg i)
  data := (s.memIn cfg i).dataOut
  resumeack := (List.range cfg.nrHarts).any s.mem.resuming

/-- One cycle. -/
def step : State where
  csrs := s.csrs.step (s.csrsIn cfg i)
  mem := s.mem.step cfg (s.memIn cfg i)

end Top

end ArianeSoc.Dm
