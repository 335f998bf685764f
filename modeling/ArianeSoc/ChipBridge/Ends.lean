import ArianeSoc.Noc.Msg

/-!
# The two ends of the chip bridge

`chip_net_chooser_32.v` picks the network whose flit goes next, for two
cycles at a time, and counts the flits of each network that the other side
has not given back yet.  `chip_bridge_send_32.v` puts the flit on the channel
in two halves, the low one first.

The FIFOs between the networks and the chooser are the asynchronous or the
synchronous ones of `chip_bridge_out`; here they are inputs: `val`, that the
FIFO of a network does not look empty, and `din`, its oldest flit.

`chip_bridge_rcv_32.v` puts two halves of one channel together and writes
the flit into the FIFO of its network.  Where the chip takes a flit out, a
credit goes into the credit FIFO, and from there back over the channel.

The FIFOs cross from one clock to another, so that a word may be in one and
not be seen yet; they are lists here, and what is seen of them is an input.
-/

namespace ArianeSoc.ChipBridge

open Noc (Flit)

/-- The networks. -/
inductive Net where
  | n1 | n2 | n3
  deriving DecidableEq

/-- The number of a network on the channel, on which 0 is idle. -/
def Net.channel : Net → BitVec 2
  | .n1 => 0b01#2
  | .n2 => 0b10#2
  | .n3 => 0b11#2

/-- What the channel carries in a cycle. -/
structure Half where
  channel : BitVec 2
  data : BitVec 32

/-! ## The chooser -/

structure Chooser where
  credit : Net → BitVec 9
  sel23 : Bool
  sel13 : Bool
  sel12 : Bool
  sel123 : BitVec 2
  selectReg : BitVec 2
  selectCounter : Bool

namespace Chooser

def reset : Chooser where
  credit := fun _ => 0#9
  sel23 := false
  sel13 := false
  sel12 := false
  sel123 := 0b00#2
  selectReg := 0b00#2
  selectCounter := false

variable (s : Chooser) (val : Net → Bool) (din : Net → Flit)

/-- The network has nothing to send or may not send. -/
def full (k : Net) : Bool := s.credit k = 255#9 || !val k

def select : BitVec 2 :=
  if s.selectCounter then s.selectReg
  else if s.full val .n1 && s.full val .n2 && s.full val .n3 then 0b00#2
  else if s.full val .n2 && s.full val .n3 then 0b01#2
  else if s.full val .n1 && s.full val .n3 then 0b10#2
  else if s.full val .n1 && s.full val .n2 then 0b11#2
  else if s.full val .n1 then if s.sel23 then 0b11#2 else 0b10#2
  else if s.full val .n2 then if s.sel13 then 0b11#2 else 0b01#2
  else if s.full val .n3 then if s.sel12 then 0b10#2 else 0b01#2
  else s.sel123

def rdy (k : Net) : Bool := s.select val = k.channel && !s.selectCounter

def dataOut : Flit :=
  if s.rdy val .n1 then din .n1
  else if s.rdy val .n2 then din .n2
  else if s.rdy val .n3 then din .n3
  else 0#64

/-- The flit of the network goes. -/
def sends (k : Net) : Bool := s.rdy val k && val k

def next (creditFromFpga : Net → Bool) : Chooser where
  credit := fun k =>
    if s.sends val k then
      if creditFromFpga k then s.credit k else s.credit k + 1#9
    else if creditFromFpga k then s.credit k - 1#9
    else s.credit k
  sel23 :=
    if s.sends val .n3 then false
    else if s.sends val .n2 then true else s.sel23
  sel13 :=
    if s.sends val .n3 then false
    else if s.sends val .n1 then true else s.sel13
  sel12 :=
    if s.sends val .n2 then false
    else if s.sends val .n1 then true else s.sel12
  sel123 :=
    if s.sends val .n3 && s.sel123 = 0b11#2 then 0b01#2
    else if s.sends val .n2 && s.sel123 = 0b10#2 then 0b11#2
    else if s.sends val .n1 && s.sel123 = 0b01#2 then 0b10#2
    else if s.credit .n1 < 255#9 && s.credit .n2 < 255#9 &&
        s.credit .n3 < 255#9 && s.sel123 = 0b00#2 then 0b01#2
    else s.sel123
  selectReg := s.select val
  selectCounter := if s.select val = 0b00#2 then false else !s.selectCounter

end Chooser

/-! ## The serialiser -/

structure Serial where
  serialBufferData : BitVec 32
  serialBufferDataF : BitVec 32
  serialBufferChannel : BitVec 2
  serialBufferChannelDup : BitVec 2
  serialBufferDataCounter : Bool

namespace Serial

def reset : Serial where
  serialBufferData := 0#32
  serialBufferDataF := 0#32
  serialBufferChannel := 0b00#2
  serialBufferChannelDup := 0b00#2
  serialBufferDataCounter := true

/-- What is on the channel. -/
def out (s : Serial) : Half := ⟨s.serialBufferChannel, s.serialBufferDataF⟩

def next (s : Serial) (channelToSerialBuffer : BitVec 2)
    (dataToSerialBuffer : Flit) : Serial :=
  if channelToSerialBuffer ≠ 0b00#2 && s.serialBufferDataCounter then
    { serialBufferDataF := dataToSerialBuffer.extractLsb' 0 32
      serialBufferData := dataToSerialBuffer.extractLsb' 32 32
      serialBufferChannel := channelToSerialBuffer
      serialBufferChannelDup := channelToSerialBuffer
      serialBufferDataCounter := !s.serialBufferDataCounter }
  else if s.serialBufferChannelDup ≠ 0b00#2 && !s.serialBufferDataCounter then
    { s with
      serialBufferDataF := s.serialBufferData
      serialBufferDataCounter := !s.serialBufferDataCounter }
  else
    { s with
      serialBufferDataCounter := true
      serialBufferChannel := channelToSerialBuffer
      serialBufferChannelDup := channelToSerialBuffer }

end Serial

end ArianeSoc.ChipBridge

namespace ArianeSoc.ChipBridge

open Noc (Flit)

/-! ## Reassembly -/

structure Buffer where
  channelBuffer : BitVec 32
  channelBufferCount : Bool
  bufferedChannel : BitVec 2

namespace Buffer

variable (s : Buffer) (line : Half)

/-- `buffered_data`. -/
def bufferedData : Flit := line.data ++ s.channelBuffer

/-- `sort_val_1` to `sort_val_3`, with `bufferedData` as data. -/
def sortVal (k : Net) : Bool :=
  s.bufferedChannel = k.channel && s.channelBufferCount

def next : Buffer :=
  if line.channel ≠ 0b00#2 then
    { channelBuffer := line.data
      bufferedChannel := line.channel
      channelBufferCount := !s.channelBufferCount }
  else
    { s with bufferedChannel := line.channel, channelBufferCount := false }

end Buffer

/-- A credit for each network. -/
abbrev Credits := Net → Bool

structure Receiver where
  buffer : Buffer
  fifo : Net → List Flit
  creditFifo : List Credits
  creditToFpgaR : Credits

namespace Receiver

/-- `buffered_channel` is not reset. -/
def reset (bufferedChannel : BitVec 2) : Receiver where
  buffer := ⟨0#32, false, bufferedChannel⟩
  fifo := fun _ => []
  creditFifo := []
  creditToFpgaR := fun _ => false

variable (s : Receiver)

/-- The edge of `wr_clk`, with the half on the channel; `seen` says that the
credit FIFO does not look empty.  A flit for a full FIFO is lost. -/
def channelEdge (depth : ℕ) (line : Half) (seen : Bool) : Receiver where
  buffer := s.buffer.next line
  fifo := fun k =>
    if s.buffer.sortVal k && decide ((s.fifo k).length < depth) then
      s.fifo k ++ [s.buffer.bufferedData line]
    else s.fifo k
  creditFifo := if seen then s.creditFifo.tail else s.creditFifo
  creditToFpgaR :=
    if seen then s.creditFifo.headD fun _ => false else fun _ => false

/-- `bout_val_1` to `bout_val_3`; `seen` says that the FIFO does not look
empty, `creditFull` is `credit_fifo_full`. -/
def boutVal (seen : Net → Bool) (creditFull : Bool) (k : Net) : Bool :=
  seen k && !(s.fifo k).isEmpty && !creditFull

/-- `credit_gather`: the flits that the chip takes. -/
def creditGather (seen : Net → Bool) (creditFull : Bool)
    (boutRdy : Net → Bool) : Credits :=
  fun k => boutRdy k && s.boutVal seen creditFull k

/-- The edge of `rd_clk`. -/
def chipEdge (gather : Credits) : Receiver :=
  { s with
    fifo := fun k => if gather k then (s.fifo k).tail else s.fifo k
    creditFifo :=
      if gather .n1 || gather .n2 || gather .n3 then s.creditFifo ++ [gather]
      else s.creditFifo }

end Receiver

end ArianeSoc.ChipBridge
