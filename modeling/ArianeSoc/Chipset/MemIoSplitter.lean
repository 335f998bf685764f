import ArianeSoc.Noc.Msg

/-!
# The splitter between memory and I/O

`mem_io_splitter.v`: the requests of NoC2 go to the memory or to the I/O
devices, and the responses of both go to NoC3.  Each way has two buffers in
a row and a parser in front of them.

The two ways share no register; `Noc2` and `Noc3` are their registers.
-/

namespace ArianeSoc.Chipset.MemIoSplitter

open Noc (Flit)

/-- `msg_state_*`. -/
inductive MsgState where
  | inval | header0 | header1 | header2 | data
  deriving DecidableEq

/-- `msg_dest_*` and `msg_src_*`. -/
inductive Side where
  | inval | io | mem
  deriving DecidableEq

/-- The `ifdef`s that choose how the address selects a side: without
`PITON_PROTO`; with it and `PITONSYS_NO_MC`; with it and
`PITON_FPGA_BRAM_TEST`; with it alone. -/
inductive Config where
  | emulated | noMc | bramTest | proto

/-- The inputs of a cycle. -/
structure In where
  uartBootEn : Bool
  noc2Val : Bool
  noc2Data : Flit
  ioRdy : Bool
  memRdy : Bool
  ioVal : Bool
  ioData : Flit
  memVal : Bool
  memData : Flit
  noc3Rdy : Bool

/-! ## From NoC2 to I/O and memory -/

/-- The bits of `MSG_ADDR_HI_` down to `MSG_ADDR_HI_-27`. -/
def addrHigh (data : Flit) : BitVec 28 := data.extractLsb' 28 28

def addrMsb (data : Flit) : Bool := data.getLsbD 55

/-- `noc2_splitter_buf0_dest_next`. -/
def destNext (cfg : Config) (uartBootEn : Bool) (data : Flit) : Side :=
  match cfg with
  | .noMc => .io
  | .bramTest =>
    if uartBootEn then .io else if addrMsb data then .io else .mem
  | .proto =>
    if uartBootEn then
      if addrHigh data = 0xfff0c2c#28 then .io else .mem
    else if addrMsb data then .io else .mem
  | .emulated => if addrHigh data = 0xfff0c2c#28 then .io else .mem

structure Noc2 where
  buf0DataF : Flit
  buf0StateF : MsgState
  buf0DestF : Side
  msgStateF : MsgState
  msgCounterF : BitVec 8
  buf1DataF : Flit
  buf1StateF : MsgState
  buf1DestF : Side

namespace Noc2

def reset : Noc2 where
  buf0DataF := 0#64
  buf0StateF := .inval
  buf0DestF := .inval
  msgStateF := .inval
  msgCounterF := 0#8
  buf1DataF := 0#64
  buf1StateF := .inval
  buf1DestF := .inval

variable (cfg : Config) (s : Noc2) (i : In)

def msgStateNext : MsgState :=
  if s.msgStateF = .inval then .header0
  else if s.msgStateF = .header0 then .header1
  else if s.msgStateF = .header1 then .header2
  else if s.msgCounterF = 0#8 then .header0
  else if s.msgStateF = .header2 then .data
  else if s.msgStateF = .data then .data
  else .inval

/-- `memio_splitter_rdy_mux_sel`. -/
def rdyMuxSel : Side :=
  if s.buf1DestF ≠ .inval then s.buf1DestF
  else if s.buf0StateF = .header1 then s.buf0DestF
  else .inval

def rdyMuxOut : Bool :=
  if s.rdyMuxSel = .io then i.ioRdy
  else if s.rdyMuxSel = .mem then i.memRdy
  else false

def buf0Val : Bool := s.buf0StateF ≠ .inval

def buf1Val : Bool := s.buf1StateF ≠ .inval

def stallBuf1 : Bool := s.buf1Val && !s.rdyMuxOut i

def stallBuf0 : Bool := s.stallBuf1 i && s.buf0Val

/-- `splitter_noc2_rdy`. -/
def rdy : Bool := !s.stallBuf0 i

/-- `noc2_splitter_go`. -/
def go : Bool := i.noc2Val && s.rdy i

/-- `splitter_io_val` and `splitter_mem_val`, with `buf1DataF` as data. -/
def outVal (d : Side) : Bool := s.buf1Val && decide (s.rdyMuxSel = d)

/-- The registers in front of the first buffer. -/
def nextBuf0 : Noc2 :=
  if s.stallBuf0 i then s
  else if s.go i then
    { s with
      buf0DataF := i.noc2Data
      msgStateF := s.msgStateNext
      buf0StateF := s.msgStateNext
      msgCounterF :=
        if s.msgStateNext = .header0 then MSG_LENGTH.get i.noc2Data
        else s.msgCounterF - 1#8
      buf0DestF :=
        if s.msgStateNext = .header0 then .inval
        else if s.msgStateNext = .header1 then
          destNext cfg i.uartBootEn i.noc2Data
        else s.buf0DestF }
  else { s with buf0DataF := i.noc2Data, buf0StateF := .inval }

def next : Noc2 :=
  if s.stallBuf1 i then s.nextBuf0 cfg i
  else
    { s.nextBuf0 cfg i with
      buf1DataF := s.buf0DataF
      buf1StateF := s.buf0StateF
      buf1DestF := s.buf0DestF }

end Noc2

/-! ## From I/O and memory to NoC3 -/

structure Noc3 where
  buf0DataF : Flit
  buf0StateF : MsgState
  msgStateF : MsgState
  msgCounterF : BitVec 8
  msgSrcF : Side
  buf1DataF : Flit
  buf1StateF : MsgState

namespace Noc3

def reset : Noc3 where
  buf0DataF := 0#64
  buf0StateF := .inval
  msgStateF := .inval
  msgCounterF := 0#8
  msgSrcF := .inval
  buf1DataF := 0#64
  buf1StateF := .inval

variable (s : Noc3) (i : In)

def msgStateNext : MsgState :=
  if s.msgStateF = .inval then .header0
  else if s.msgCounterF = 0#8 then .header0
  else if s.msgStateF = .header0 then .data
  else if s.msgStateF = .data then .data
  else .inval

/-- `memio_splitter_input_mux_sel`. -/
def inputMuxSel : Side :=
  if s.msgStateNext ≠ .header0 then s.msgSrcF
  else if i.memVal && !i.ioVal then .mem
  else if i.ioVal && !i.memVal then .io
  else if !i.ioVal && !i.memVal then s.msgSrcF
  else if s.msgSrcF = .mem then .io
  else .mem

def buf1Val : Bool := s.buf1StateF ≠ .inval

/-- `stall_memio_splitter_buf1`, and `stall_memio_splitter_buf0` too. -/
def stall : Bool := s.buf1Val && !i.noc3Rdy

/-- `memio_splitter_val`. -/
def val : Bool :=
  if s.inputMuxSel i = .io then i.ioVal else i.memVal

/-- `memio_splitter_data_mux_out`. -/
def dataMuxOut : Flit :=
  if s.inputMuxSel i = .io then i.ioData else i.memData

/-- `splitter_mem_rdy`. -/
def memRdy : Bool := if s.inputMuxSel i = .io then false else !s.stall i

/-- `splitter_io_rdy`. -/
def ioRdy : Bool := if s.inputMuxSel i = .io then !s.stall i else false

/-- `memio_splitter_go`. -/
def go : Bool := s.val i && !s.stall i

def next : Noc3 :=
  if s.stall i then s
  else if s.go i then
    { buf0DataF := s.dataMuxOut i
      buf0StateF := s.msgStateNext
      msgStateF := s.msgStateNext
      msgCounterF :=
        if s.msgStateNext = .header0 then MSG_LENGTH.get (s.dataMuxOut i)
        else s.msgCounterF - 1#8
      msgSrcF :=
        if s.msgStateNext = .header0 then s.inputMuxSel i else s.msgSrcF
      buf1DataF := s.buf0DataF
      buf1StateF := s.buf0StateF }
  else
    { s with
      buf0DataF := s.dataMuxOut i
      buf0StateF := .inval
      buf1DataF := s.buf0DataF
      buf1StateF := s.buf0StateF }

end Noc3

end ArianeSoc.Chipset.MemIoSplitter
