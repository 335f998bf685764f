import Mathlib.Algebra.Group.Nat.Defs
import ArianeSoc.Noc.Msg
import ArianeSoc.Framing
import ArianeSoc.Sync

/-!
# The packet filter of the chipset

`packet_filter.v.pyv` hands the packets of NoC2 to the crossbar.  It holds
back the header of a packet until the flit behind it has come, since the
address in there says to which port of the crossbar a request for memory
goes.

`AddrMap` is what the generated part of the source depends on: the entries
of `devices.xml`.  `portAt` is the port of an address in its own terms, and
`passed` is what should come out for the flits that went in.
-/

namespace ArianeSoc.Chipset.PacketFilter

open Noc (Flit)

/-! ## The address map -/

/-- An entry of `devices.xml` as `ReadDevicesXMLFile` returns it. -/
structure Device where
  isMem : Bool
  isVirtual : Bool
  streamAccessible : Bool
  base : BitVec 40
  length : BitVec 40
  portnum : BitVec 8
  /-- The range ends within the physical addresses. -/
  fits : base.toNat + length.toNat < 2 ^ 40

/-- The devices behind the first entry, which is the chip, and whether one
of `PITON_FPGA_SYNTH` and `MONITOR_INVALID_ACCESSES` is defined. -/
structure AddrMap where
  devices : List Device
  strict : Bool

def Device.inRange (d : Device) (a : BitVec 40) : Bool :=
  decide (d.base ≤ a) && decide (a < d.base + d.length)

/-- The device has a comparison of its own. -/
def Device.isOwn (d : Device) : Bool := !d.isMem && !d.isVirtual

namespace AddrMap

variable (m : AddrMap)

/-- `mem_port`, which starts out as -1. -/
def memPort : BitVec 8 :=
  ((m.devices.filter fun d => d.isMem).getLast?).elim (-1#8) fun d =>
    d.portnum

/-- `mem_addr_range`. -/
def memAddrRange (a : BitVec 40) : Bool :=
  (m.devices.filter fun d => !d.isOwn).any fun d => d.inRange a

/-- The generated chain of comparisons: the first that holds. -/
def ownPort (uartBootEn : Bool) (a : BitVec 40) : Option (BitVec 8) :=
  ((m.devices.filter fun d => d.isOwn).find? fun d =>
    d.inRange a && (d.streamAccessible || !uartBootEn)).map fun d =>
      d.portnum

end AddrMap

def isMemRequest (h : Flit) : Bool :=
  MSG_TYPE.get h = MSG_TYPE_LOAD_MEM || MSG_TYPE.get h = MSG_TYPE_STORE_MEM ||
    MSG_TYPE.get h = MSG_TYPE_NC_LOAD_REQ ||
    MSG_TYPE.get h = MSG_TYPE_NC_STORE_REQ

/-- `readdressed_flit0` and `invalid_access`. -/
def readdress (m : AddrMap) (uartBootEn : Bool) (flit0 data : Flit) :
    Flit × Bool :=
  if isMemRequest flit0 then
    match m.ownPort uartBootEn (MSG_ADDR_.get data) with
    | some portnum => (MSG_DST_X.set portnum flit0, false)
    | none =>
      if m.strict then
        if m.memAddrRange (MSG_ADDR_.get data) || uartBootEn then
          (MSG_DST_X.set m.memPort flit0, false)
        else (flit0, true)
      else (MSG_DST_X.set m.memPort flit0, false)
  else (flit0, false)

/-! ## The state machine -/

inductive State where
  | IDLE | ONLYHEADERFLIT | ONEFLIT | TWOFLITS | SENDING | DRAINTWO | DRAINONE
  deriving DecidableEq

/-- The registers. -/
structure Regs where
  flitBuffer0Reg : Flit
  flitBuffer1Reg : Flit
  numFlitsReg : BitVec 8
  flitsSentReg : BitVec 8
  stateReg : State
  invalidAccessQ : Bool

/-- The inputs of a cycle. -/
structure In where
  noc2FilterVal : Bool
  noc2FilterData : Flit
  xbarFilterRdy : Bool
  uartBootEn : Bool

/-- The outputs of a cycle and the registers after it. -/
structure Out where
  filterXbarVal : Bool
  filterXbarData : Flit
  filterNoc2Rdy : Bool
  next : Regs

def reset : Regs where
  flitBuffer0Reg := 0#64
  flitBuffer1Reg := 0#64
  numFlitsReg := 0#8
  flitsSentReg := 0#8
  stateReg := .IDLE
  invalidAccessQ := false

section Comb

variable (m : AddrMap) (s : Regs) (i : In)

/-- The registers behind a flit that comes in where a header is due. -/
def takeHeader (stateNext : State) : Regs where
  flitBuffer0Reg := if i.noc2FilterVal then i.noc2FilterData else 0#64
  flitBuffer1Reg := 0#64
  numFlitsReg :=
    if i.noc2FilterVal then MSG_LENGTH.get i.noc2FilterData else 0#8
  flitsSentReg := 0#8
  stateReg := stateNext
  invalidAccessQ := s.invalidAccessQ

/-- The registers behind a flit that goes out and one that comes in. -/
def shift (flitsSentNext : BitVec 8) (stateNext : State) : Regs :=
  { s with
    flitBuffer0Reg := s.flitBuffer1Reg
    flitBuffer1Reg := i.noc2FilterData
    flitsSentReg := flitsSentNext
    stateReg := stateNext }

/-- The two `always @*` blocks. -/
def comb : Out :=
  match s.stateReg with
  | .IDLE =>
    if i.noc2FilterVal && MSG_LENGTH.get i.noc2FilterData = 0#8 then
      { filterXbarVal := true
        filterXbarData := s.flitBuffer0Reg
        filterNoc2Rdy := true
        next := takeHeader s i
          (if i.xbarFilterRdy then .IDLE else .ONLYHEADERFLIT) }
    else
      { filterXbarVal := false
        filterXbarData := 0#64
        filterNoc2Rdy := true
        next := takeHeader s i
          (if i.noc2FilterVal then .ONEFLIT else .IDLE) }
  | .ONLYHEADERFLIT =>
    if i.xbarFilterRdy then
      { filterXbarVal := true
        filterXbarData := s.flitBuffer0Reg
        filterNoc2Rdy := true
        next := takeHeader s i
          (if i.noc2FilterVal && MSG_LENGTH.get i.noc2FilterData = 0#8 then
            if i.xbarFilterRdy then .IDLE else .ONLYHEADERFLIT
          else if i.noc2FilterVal then .ONEFLIT else .IDLE) }
    else
      { filterXbarVal := true
        filterXbarData := s.flitBuffer0Reg
        filterNoc2Rdy := false
        next := { s with flitBuffer1Reg := 0#64, flitsSentReg := 0#8 } }
  | .ONEFLIT =>
    { filterXbarVal := false
      filterXbarData := 0#64
      filterNoc2Rdy := true
      next := { s with
        flitBuffer0Reg :=
          if i.noc2FilterVal then
            (readdress m i.uartBootEn s.flitBuffer0Reg i.noc2FilterData).1
          else s.flitBuffer0Reg
        flitBuffer1Reg := if i.noc2FilterVal then i.noc2FilterData else 0#64
        flitsSentReg := 0#8
        stateReg := if i.noc2FilterVal then .TWOFLITS else .ONEFLIT
        invalidAccessQ := s.invalidAccessQ || (i.noc2FilterVal &&
          (readdress m i.uartBootEn s.flitBuffer0Reg
            i.noc2FilterData).2) } }
  | .TWOFLITS =>
    if s.numFlitsReg = 1#8 then
      if i.xbarFilterRdy then
        { filterXbarVal := true
          filterXbarData := s.flitBuffer0Reg
          filterNoc2Rdy := false
          next := shift s i 1#8 .DRAINONE }
      else
        { filterXbarVal := true
          filterXbarData := s.flitBuffer0Reg
          filterNoc2Rdy := false
          next := { s with flitsSentReg := 0#8 } }
    else if i.xbarFilterRdy && i.noc2FilterVal then
      { filterXbarVal := true
        filterXbarData := s.flitBuffer0Reg
        filterNoc2Rdy := true
        next := shift s i 1#8
          (if s.numFlitsReg = 2#8 then .DRAINTWO else .SENDING) }
    else
      { filterXbarVal := false
        filterXbarData := s.flitBuffer0Reg
        filterNoc2Rdy := false
        next := { s with flitsSentReg := 0#8 } }
  | .SENDING =>
    if i.xbarFilterRdy && i.noc2FilterVal &&
        s.flitsSentReg < s.numFlitsReg + 1#8 then
      { filterXbarVal := true
        filterXbarData := s.flitBuffer0Reg
        filterNoc2Rdy := true
        next := shift s i (s.flitsSentReg + 1#8)
          (if s.flitsSentReg = s.numFlitsReg - 2#8 then .DRAINTWO
          else .SENDING) }
    else
      { filterXbarVal := false
        filterXbarData := s.flitBuffer0Reg
        filterNoc2Rdy := false
        next := s }
  | .DRAINTWO =>
    if i.xbarFilterRdy then
      { filterXbarVal := true
        filterXbarData := s.flitBuffer0Reg
        filterNoc2Rdy := false
        next := { s with
          flitBuffer0Reg := s.flitBuffer1Reg
          flitBuffer1Reg := 0#64
          flitsSentReg := s.flitsSentReg + 1#8
          stateReg := .DRAINONE } }
    else
      { filterXbarVal := false
        filterXbarData := s.flitBuffer0Reg
        filterNoc2Rdy := false
        next := s }
  | .DRAINONE =>
    if i.xbarFilterRdy then
      { filterXbarVal := true
        filterXbarData := s.flitBuffer0Reg
        filterNoc2Rdy := false
        next := { s with
          flitBuffer0Reg := 0#64
          flitBuffer1Reg := 0#64
          numFlitsReg := 0#8
          flitsSentReg := 0#8
          stateReg := .IDLE } }
    else
      { filterXbarVal := false
        filterXbarData := s.flitBuffer0Reg
        filterNoc2Rdy := false
        next := s }

/-- A flit comes in. -/
def accepts : Bool := i.noc2FilterVal && (comb m s i).filterNoc2Rdy

/-- A flit goes out. -/
def sends : Bool := (comb m s i).filterXbarVal && i.xbarFilterRdy

/-- A flit that comes in would be a header. -/
def atHeader : Bool :=
  match s.stateReg with
  | .IDLE => true
  | .ONLYHEADERFLIT => i.xbarFilterRdy
  | _ => false

end Comb

end ArianeSoc.Chipset.PacketFilter
