import ArianeSoc.Noc.Msg

/-!
# The bridge from the network to AXI-Lite

`noc_axilite_bridge.v`: a parser that fills a buffer for loads and one for
stores, the AXI-Lite channels that empty them, a buffer for the response to
a load and one for the response to a store, and an arbiter between these.

The response codes of AXI are left out: the bridge stores them and does not
read them.
-/

namespace ArianeSoc.Chipset.AxiliteBridge

open Noc (Flit)

/-! ## Parameters -/

structure Params where
  slaveRespBytewidth : Int
  swapEndianess : Bool
  alignRdata : Bool
  /-- The type in the response to a request of another type than those that
  the bridge answers, which the source leaves undefined. -/
  typeX : BitVec 8

/-- `MSG_STATE_*`. -/
inductive MsgState where
  | inval | header0 | header1 | header2 | data
  deriving DecidableEq

/-- `MSG_TYPE_INVAL`, `MSG_TYPE_LOAD` and `MSG_TYPE_STORE`. -/
inductive MsgType where
  | inval | load | store
  deriving DecidableEq

/-- `BUF_STATUS_*`. -/
inductive BufStatus where
  | incomp | comp | waitresp | respsend
  deriving DecidableEq

/-- `LOAD_ACK` and `STORE_ACK`. -/
inductive Ack where
  | load | store
  deriving DecidableEq

/-! ## What the fields of a request say -/

section Fields

variable (p : Params)

/-- The bytes in the other order. -/
def swapBytes (x : BitVec 64) : BitVec 64 :=
  x.extractLsb' 0 8 ++ x.extractLsb' 8 8 ++ x.extractLsb' 16 8 ++
    x.extractLsb' 24 8 ++ x.extractLsb' 32 8 ++ x.extractLsb' 40 8 ++
    x.extractLsb' 48 8 ++ x.extractLsb' 56 8

/-- `m_axi_araddr` and `m_axi_awaddr`. -/
def axiAddr (header1 : Flit) : BitVec 64 :=
  (MSG_ADDR_.get header1).setWidth 64

def wStrb (header1 : Flit) : BitVec 8 :=
  if MSG_DATA_SIZE_.get header1 = MSG_DATA_SIZE_0B then 0b00000000#8
  else if MSG_DATA_SIZE_.get header1 = MSG_DATA_SIZE_1B then 0b00000001#8
  else if MSG_DATA_SIZE_.get header1 = MSG_DATA_SIZE_2B then 0b00000011#8
  else if MSG_DATA_SIZE_.get header1 = MSG_DATA_SIZE_4B then 0b00001111#8
  else if MSG_DATA_SIZE_.get header1 = MSG_DATA_SIZE_8B then 0b11111111#8
  else 0b11111111#8

/-- `w_reqbuf_size`, and `r_reqbuf_size` for accesses of any width. -/
def reqbufSize (header1 : Flit) : BitVec 3 :=
  if MSG_DATA_SIZE_.get header1 = MSG_DATA_SIZE_0B then 0b00#3
  else if MSG_DATA_SIZE_.get header1 = MSG_DATA_SIZE_1B then 0b00#3
  else if MSG_DATA_SIZE_.get header1 = MSG_DATA_SIZE_2B then 0b01#3
  else if MSG_DATA_SIZE_.get header1 = MSG_DATA_SIZE_4B then 0b10#3
  else if MSG_DATA_SIZE_.get header1 = MSG_DATA_SIZE_8B then 0b11#3
  else 0b11#3

def rReqbufSize (header1 : Flit) : BitVec 3 :=
  if p.slaveRespBytewidth ≤ 0 then reqbufSize header1
  else if p.slaveRespBytewidth = 1 then 0b00#3
  else if p.slaveRespBytewidth = 2 then 0b01#3
  else if p.slaveRespBytewidth = 4 then 0b10#3
  else if p.slaveRespBytewidth = 8 then 0b11#3
  else 0b11#3

def wdata (data0 : Flit) : BitVec 64 :=
  if p.swapEndianess then swapBytes data0 else data0

/-- `a_axi_rdata_shifted`. -/
def rdataShifted (header1 : Flit) (rdata : BitVec 64) : BitVec 64 :=
  if p.alignRdata then
    rdata >>> ((axiAddr header1).extractLsb' 0 3 ++ 0b000#3)
  else rdata

/-- `a_axi_rdata_masked_tmp`: the bytes of the access, repeated. -/
def rdataMaskedTmp (header1 : Flit) (rdata : BitVec 64) : BitVec 64 :=
  let shifted := rdataShifted p header1 rdata
  let size := MSG_DATA_SIZE_.get header1
  if p.slaveRespBytewidth ≤ 0 then
    if size = MSG_DATA_SIZE_0B then 0#64
    else if size = MSG_DATA_SIZE_1B then (shifted.extractLsb' 0 8).replicate 8
    else if size = MSG_DATA_SIZE_2B then
      (shifted.extractLsb' 0 16).replicate 4
    else if size = MSG_DATA_SIZE_4B then
      (shifted.extractLsb' 0 32).replicate 2
    else if size = MSG_DATA_SIZE_8B then shifted
    else shifted
  else if p.slaveRespBytewidth = 1 then
    (rdata.extractLsb' 0 8).replicate 8
  else if p.slaveRespBytewidth = 2 then
    (rdata.extractLsb' 0 16).replicate 4
  else if p.slaveRespBytewidth = 4 then
    (rdata.extractLsb' 0 32).replicate 2
  else if p.slaveRespBytewidth = 8 then rdata
  else rdata

def rdataMasked (header1 : Flit) (rdata : BitVec 64) : BitVec 64 :=
  if p.swapEndianess then swapBytes (rdataMaskedTmp p header1 rdata)
  else rdataMaskedTmp p header1 rdata

/-- The header of a response, from the first and the third header flit of
the request. -/
def respHeader (header0 header2 : Flit) (length type : BitVec 8) : Flit :=
  MSG_SRC_CHIPID_.get header2 ++ MSG_SRC_X_.get header2 ++
    MSG_SRC_Y_.get header2 ++ MSG_SRC_FBITS_.get header2 ++ length ++ type ++
    MSG_MSHRID.get header0 ++ 0#6

def rRespHeader0Next (header0 header1 header2 : Flit) : Flit :=
  respHeader header0 header2
    (if MSG_TYPE.get header0 = MSG_TYPE_NC_LOAD_REQ ∧
        MSG_DATA_SIZE_.get header1 ≤ MSG_DATA_SIZE_8B then 1#8 else 8#8)
    (if MSG_TYPE.get header0 = MSG_TYPE_NC_LOAD_REQ then
      MSG_TYPE_NC_LOAD_MEM_ACK
    else if MSG_TYPE.get header0 = MSG_TYPE_LOAD_MEM then
      MSG_TYPE_LOAD_MEM_ACK
    else p.typeX)

def wRespHeader0Next (header0 header2 : Flit) : Flit :=
  respHeader header0 header2 0#8
    (if MSG_TYPE.get header0 = MSG_TYPE_NC_STORE_REQ then
      MSG_TYPE_NC_STORE_MEM_ACK
    else if MSG_TYPE.get header0 = MSG_TYPE_STORE_MEM then
      MSG_TYPE_STORE_MEM_ACK
    else p.typeX)

end Fields

/-! ## Registers and inputs -/

/-- The registers of `noc_axilite_bridge`. -/
structure Regs where
  msgStateF : MsgState
  msgTypeF : MsgType
  msgCounterF : BitVec 8
  rReqBufHeader0F : Flit
  rReqBufHeader1F : Flit
  rReqBufHeader2F : Flit
  rReqBufStatusF : BufStatus
  wReqBufHeader0F : Flit
  wReqBufHeader1F : Flit
  wReqBufHeader2F : Flit
  wReqBufData0F : Flit
  wAddrReqBufStatusF : BufStatus
  wDataReqBufStatusF : BufStatus
  rRespBufHeader0F : Flit
  rRespBufData0F : BitVec 64
  rRespBufStatusF : BufStatus
  wRespBufHeader0F : Flit
  wAddrRespBufStatusF : BufStatus
  wDataRespBufStatusF : BufStatus
  ackLoadCounterF : BitVec 8
  arbF : Ack

/-- The inputs of a cycle. -/
structure In where
  /-- `some` flit if `splitter_bridge_val` is high. -/
  data : Option Flit
  splitterRdy : Bool
  awready : Bool
  wready : Bool
  arready : Bool
  /-- `some` data if `m_axi_rvalid` is high. -/
  rdata : Option (BitVec 64)
  bvalid : Bool

namespace Regs

def reset : Regs where
  msgStateF := .inval
  msgTypeF := .inval
  msgCounterF := 0#8
  rReqBufHeader0F := 0#64
  rReqBufHeader1F := 0#64
  rReqBufHeader2F := 0#64
  rReqBufStatusF := .incomp
  wReqBufHeader0F := 0#64
  wReqBufHeader1F := 0#64
  wReqBufHeader2F := 0#64
  wReqBufData0F := 0#64
  wAddrReqBufStatusF := .incomp
  wDataReqBufStatusF := .incomp
  rRespBufHeader0F := 0#64
  rRespBufData0F := 0#64
  rRespBufStatusF := .incomp
  wRespBufHeader0F := 0#64
  wAddrRespBufStatusF := .incomp
  wDataRespBufStatusF := .incomp
  ackLoadCounterF := 0#8
  arbF := .load

variable (p : Params) (q : Regs) (i : In)

/-! ## Requests from the network -/

/-- `splitter_io_msg_type_mux_out`. -/
def msgTypeMuxOut : MsgType :=
  match i.data with
  | none => .inval
  | some x =>
    if MSG_TYPE.get x = MSG_TYPE_LOAD_REQ ∨
        MSG_TYPE.get x = MSG_TYPE_NC_LOAD_REQ ∨
        MSG_TYPE.get x = MSG_TYPE_LOAD_MEM then .load
    else if MSG_TYPE.get x = MSG_TYPE_STORE_REQ ∨
        MSG_TYPE.get x = MSG_TYPE_NC_STORE_REQ ∨
        MSG_TYPE.get x = MSG_TYPE_STORE_MEM then .store
    else .inval

/-- `splitter_io_msg_state_next`. -/
def msgStateNext : MsgState :=
  if q.msgStateF = .inval then .header0
  else if q.msgStateF = .header0 then .header1
  else if q.msgStateF = .header1 then .header2
  else if q.msgCounterF = 0#8 then .header0
  else if q.msgStateF = .header2 then .data
  else if q.msgStateF = .data then .data
  else .inval

/-- `splitter_io_msg_type_next`. -/
def msgTypeNext : MsgType :=
  if q.msgStateNext = .inval then .inval
  else if q.msgStateNext = .header0 then msgTypeMuxOut i
  else q.msgTypeF

def wReqBufStatus : BufStatus :=
  if q.wAddrReqBufStatusF = .incomp ∧ q.wDataReqBufStatusF = .incomp then
    .incomp
  else .comp

/-- `bridge_splitter_rdy`. -/
def bridgeRdy : Bool :=
  q.msgTypeNext i = .inval ||
    (q.msgTypeNext i = .load && q.rReqBufStatusF = .incomp) ||
    (q.msgTypeNext i = .store && q.wReqBufStatus = .incomp)

/-- The flit that `splitter_io_go` lets in. -/
def taken : Option Flit := if q.bridgeRdy i then i.data else none

def loadGo : Bool :=
  q.msgTypeNext i = .load && (q.taken i).isSome &&
    q.rReqBufStatusF = .incomp

def storeGo : Bool :=
  q.msgTypeNext i = .store && (q.taken i).isSome &&
    q.wReqBufStatus = .incomp

/-- The flit on `splitter_bridge_data`. -/
def bridgeData : Flit := i.data.getD 0#64

def msgCounterNext : BitVec 8 :=
  if q.msgStateNext = .header0 then MSG_LENGTH.get (bridgeData i)
  else q.msgCounterF - 1#8

def wStatusUpdate : Bool :=
  q.storeGo i && q.msgStateNext = .data && q.msgCounterF = 1#8

/-! ## AXI-Lite -/

def arvalid : Bool :=
  q.rReqBufStatusF = .comp && q.rRespBufStatusF = .incomp

def awvalid : Bool :=
  q.wReqBufStatus = .comp && q.wAddrRespBufStatusF = .incomp

def wvalid : Bool :=
  q.wReqBufStatus = .comp && q.wDataRespBufStatusF = .incomp

def arGo : Bool := q.arvalid && i.arready

def awGo : Bool := q.awvalid && i.awready

def wGo : Bool := q.wvalid && i.wready

def wRespBufStatus : BufStatus :=
  if q.wAddrRespBufStatusF = .incomp ∨ q.wDataRespBufStatusF = .incomp then
    .incomp
  else if q.wAddrRespBufStatusF = .comp ∨ q.wDataRespBufStatusF = .comp then
    .comp
  else if q.wAddrRespBufStatusF = .waitresp ∨
      q.wDataRespBufStatusF = .waitresp then .waitresp
  else .respsend

def rready : Bool := q.rRespBufStatusF = .waitresp

def bready : Bool := q.wRespBufStatus = .waitresp

/-- The data that `m_axi_r_go` lets in. -/
def rTaken : Option (BitVec 64) := if q.rready then i.rdata else none

def bGo : Bool := q.bready && i.bvalid

/-! ## Responses to the network -/

def rRespBufVal : Bool := q.rRespBufStatusF = .respsend

def wRespBufVal : Bool := q.wRespBufStatus = .respsend

/-- `io_splitter_ack_load`. -/
def ackLoad : Flit :=
  if q.ackLoadCounterF = MSG_LENGTH.get q.rRespBufHeader0F then
    q.rRespBufHeader0F
  else q.rRespBufData0F

/-- `io_splitter_ack_mux_sel`. -/
def ackMuxSel : Ack :=
  if q.rRespBufVal && !q.wRespBufVal then .load
  else if q.wRespBufVal && !q.rRespBufVal then .store
  else if q.wRespBufVal && q.rRespBufVal then
    if q.ackLoadCounterF = MSG_LENGTH.get q.rRespBufHeader0F then q.arbF
    else .load
  else .load

def ackLoadGo : Bool :=
  q.ackMuxSel = .load && q.rRespBufVal && i.splitterRdy

def ackStoreGo : Bool :=
  q.ackMuxSel = .store && q.wRespBufVal && i.splitterRdy

/-- The flit that goes out: `bridge_splitter_val` and
`bridge_splitter_data`. -/
def flitOut : Option Flit :=
  match q.ackMuxSel with
  | .load => if q.rRespBufVal then some q.ackLoad else none
  | .store => if q.wRespBufVal then some q.wRespBufHeader0F else none

/-! ## One cycle -/

def next : Regs where
  msgStateF :=
    if (q.taken i).isSome then q.msgStateNext else q.msgStateF
  msgTypeF := if (q.taken i).isSome then q.msgTypeNext i else q.msgTypeF
  msgCounterF :=
    if (q.taken i).isSome then q.msgCounterNext i else q.msgCounterF
  rReqBufHeader0F :=
    if q.loadGo i && q.msgStateNext = .header0 then bridgeData i
    else q.rReqBufHeader0F
  rReqBufHeader1F :=
    if q.loadGo i && q.msgStateNext = .header1 then bridgeData i
    else q.rReqBufHeader1F
  rReqBufHeader2F :=
    if q.loadGo i && q.msgStateNext = .header2 then bridgeData i
    else q.rReqBufHeader2F
  rReqBufStatusF :=
    if q.loadGo i && q.msgStateNext = .header2 then .comp
    else if q.arGo i then .incomp
    else q.rReqBufStatusF
  wReqBufHeader0F :=
    if q.storeGo i && q.msgStateNext = .header0 then bridgeData i
    else q.wReqBufHeader0F
  wReqBufHeader1F :=
    if q.storeGo i && q.msgStateNext = .header1 then bridgeData i
    else q.wReqBufHeader1F
  wReqBufHeader2F :=
    if q.storeGo i && q.msgStateNext = .header2 then bridgeData i
    else q.wReqBufHeader2F
  wReqBufData0F :=
    if q.storeGo i && q.msgStateNext = .data then bridgeData i
    else q.wReqBufData0F
  wAddrReqBufStatusF :=
    if q.wStatusUpdate i then .comp
    else if q.awGo i then .incomp
    else q.wAddrReqBufStatusF
  wDataReqBufStatusF :=
    if q.wStatusUpdate i then .comp
    else if q.wGo i then .incomp
    else q.wDataReqBufStatusF
  rRespBufHeader0F :=
    if q.arGo i then
      rRespHeader0Next p q.rReqBufHeader0F q.rReqBufHeader1F
        q.rReqBufHeader2F
    else q.rRespBufHeader0F
  rRespBufData0F :=
    match q.rTaken i with
    | none => q.rRespBufData0F
    | some rdata => rdataMasked p q.rReqBufHeader1F rdata
  rRespBufStatusF :=
    if q.arGo i then .waitresp
    else if (q.rTaken i).isSome then .respsend
    else if q.ackLoadGo i && q.ackLoadCounterF = 0#8 &&
        q.rRespBufStatusF ≠ .waitresp then .incomp
    else q.rRespBufStatusF
  wRespBufHeader0F :=
    if q.awGo i then
      wRespHeader0Next p q.wReqBufHeader0F q.wReqBufHeader2F
    else q.wRespBufHeader0F
  wAddrRespBufStatusF :=
    if q.awGo i then .waitresp
    else if q.bGo i then .respsend
    else if q.ackStoreGo i then .incomp
    else q.wAddrRespBufStatusF
  wDataRespBufStatusF :=
    if q.wGo i then .waitresp
    else if q.bGo i then .respsend
    else if q.ackStoreGo i then .incomp
    else q.wDataRespBufStatusF
  ackLoadCounterF :=
    if q.rRespBufStatusF = .waitresp then MSG_LENGTH.get q.rRespBufHeader0F
    else if q.ackLoadGo i && q.ackLoadCounterF ≠ 0#8 then
      q.ackLoadCounterF - 1#8
    else q.ackLoadCounterF
  arbF :=
    if q.wRespBufVal && q.rRespBufVal && q.ackLoadGo i then .store
    else if q.wRespBufVal && q.rRespBufVal && q.ackStoreGo i then .load
    else q.arbF

end Regs

end ArianeSoc.Chipset.AxiliteBridge
