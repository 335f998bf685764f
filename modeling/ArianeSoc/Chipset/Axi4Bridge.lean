import ArianeSoc.ByteLanes
import ArianeSoc.Noc.Msg

/-!
# The AXI4 ends of the memory bridge

Four of the modules of `noc_axi4_bridge`.  The deserialiser collects the
flits of a request, `noc_axi4_bridge_write` and `noc_axi4_bridge_read` make
the AXI transactions of 64 bytes, and the serialiser turns a response into
flits.

`storage_addr_trans` is generated for a platform and is a parameter, as is
`uart_boot_en`, the way in which the chip boots.  The response codes of AXI,
the outputs that are tied to a constant and the encodings of a state that
name none are left out.
-/

namespace ArianeSoc.Chipset.Axi4Bridge

open Noc (Flit)

/-! ## Words -/

/-- The three flits of a header, `{pkt_w3, pkt_w2, pkt_w1}`. -/
structure Header where
  w1 : Flit
  w2 : Flit
  w3 : Flit
  deriving DecidableEq

def Header.zero : Header := ⟨0#64, 0#64, 0#64⟩

/-- A word of `AXI4_DATA_WIDTH`. -/
abbrev Data := BitVec 512

/-- `NOC_AXI4_BRIDGE_BUFFER_ADDR_SIZE`. -/
def BUFFER_ADDR_SIZE : ℕ := 1

/-- The number of one of the `NOC_AXI4_BRIDGE_IN_FLIGHT_LIMIT` slots. -/
abbrev Id := BitVec BUFFER_ADDR_SIZE

/-- `m_axi_arid`, `m_axi_awid` and `m_axi_wid`. -/
def axiId (id : Id) : BitVec 6 := id.setWidth 6

def MSG_DATA_SIZE_16B : BitVec 3 := 0b101#3
def MSG_DATA_SIZE_32B : BitVec 3 := 0b110#3
def MSG_DATA_SIZE_64B : BitVec 3 := 0b111#3

structure Params where
  uartBootEn : Bool
  /-- `storage_addr_trans`. -/
  storageAddr : BitVec 40 → BitVec 64

/-! ## What the fields of a header say -/

section Fields

variable (p : Params) (header : Header)

/-- `virt_addr`. -/
def virtAddr : BitVec 40 := MSG_ADDR_.get header.w2

/-- The address that the bridge computes, `addr`. -/
def addr : BitVec 64 :=
  if p.uartBootEn then
    (p.storageAddr (virtAddr header)).extractLsb' 0 61 ++ 0b000#3
  else (virtAddr header).setWidth 64

/-- `{addr[63:6], 6'b0}`. -/
def lineAddr (addr : BitVec 64) : BitVec 64 :=
  addr.extractLsb' 6 58 ++ 0b000000#6

/-- `pkt_command`, which is `WRITE` for these. -/
def isWrite : Bool :=
  MSG_TYPE.get header.w1 = MSG_TYPE_STORE_MEM ||
    MSG_TYPE.get header.w1 = MSG_TYPE_NC_STORE_REQ

/-- `uncacheable`, with the type of the requests that always are. -/
def uncacheable (type : BitVec 8) : Bool :=
  (virtAddr header).getLsbD 39 || MSG_TYPE.get header.w1 = type

/-- `offset`. -/
def offset (type : BitVec 8) : BitVec 6 :=
  if uncacheable header type then (virtAddr header).extractLsb' 0 6 else 0#6

/-- The bytes that a read is for, `size`. -/
def readSize : BitVec 7 :=
  if uncacheable header MSG_TYPE_NC_LOAD_REQ then
    let size := MSG_DATA_SIZE_.get header.w2
    if size = MSG_DATA_SIZE_0B then 0#7
    else if size = MSG_DATA_SIZE_1B then 1#7
    else if size = MSG_DATA_SIZE_2B then 2#7
    else if size = MSG_DATA_SIZE_4B then 4#7
    else if size = MSG_DATA_SIZE_8B then 8#7
    else if size = MSG_DATA_SIZE_16B then 16#7
    else if size = MSG_DATA_SIZE_32B then 32#7
    else if size = MSG_DATA_SIZE_64B then 64#7
    else 0#7
  else 64#7

/-- `resp_data`: the bytes of the access, repeated. -/
def respData (size : BitVec 7) (data : Data) : Data :=
  if size = 0#7 then 0#512
  else if size = 1#7 then (data.extractLsb' 0 8).replicate 64
  else if size = 2#7 then (data.extractLsb' 0 16).replicate 32
  else if size = 4#7 then (data.extractLsb' 0 32).replicate 16
  else if size = 8#7 then (data.extractLsb' 0 64).replicate 8
  else if size = 16#7 then (data.extractLsb' 0 128).replicate 4
  else if size = 32#7 then (data.extractLsb' 0 256).replicate 2
  else data

/-- `strb_before_offset`. -/
def strbBeforeOffset : BitVec 64 :=
  if uncacheable header MSG_TYPE_NC_STORE_REQ then
    let size := MSG_DATA_SIZE_.get header.w2
    if size = MSG_DATA_SIZE_0B then 0#64
    else if size = MSG_DATA_SIZE_1B then 0b1#64
    else if size = MSG_DATA_SIZE_2B then 0b11#64
    else if size = MSG_DATA_SIZE_4B then 0xf#64
    else if size = MSG_DATA_SIZE_8B then 0xff#64
    else if size = MSG_DATA_SIZE_16B then 0xffff#64
    else if size = MSG_DATA_SIZE_32B then 0xffffffff#64
    else if size = MSG_DATA_SIZE_64B then 0xffffffffffffffff#64
    else 0#64
  else 0xffffffffffffffff#64

/-- The type and the length in the header of a response. -/
def respType : BitVec 8 × BitVec 8 :=
  let type := MSG_TYPE.get header.w1
  if type = MSG_TYPE_LOAD_MEM then (MSG_TYPE_LOAD_MEM_ACK, 8#8)
  else if type = MSG_TYPE_STORE_MEM then (MSG_TYPE_STORE_MEM_ACK, 0#8)
  else if type = MSG_TYPE_NC_LOAD_REQ then (MSG_TYPE_NC_LOAD_MEM_ACK, 8#8)
  else if type = MSG_TYPE_NC_STORE_REQ then (MSG_TYPE_NC_STORE_MEM_ACK, 0#8)
  else (0#8, 0#8)

/-- `resp_header`. -/
def respHeader : Flit :=
  MSG_SRC_CHIPID_.get header.w3 ++ MSG_SRC_X_.get header.w3 ++
    MSG_SRC_Y_.get header.w3 ++ MSG_SRC_FBITS_.get header.w3 ++
    (respType header).2 ++ (respType header).1 ++
    MSG_MSHRID.get header.w1 ++ 0#6

end Fields

/-! ## The deserialiser -/

namespace Deser

inductive State where
  | acceptW1 | acceptW2 | acceptW3 | acceptData | send
  deriving DecidableEq

/-- The registers of `noc_axi4_bridge_deser`. -/
structure Regs where
  pktW1 : Flit
  pktW2 : Flit
  pktW3 : Flit
  /-- `PAYLOAD_LEN` flits. -/
  inDataBuf : BitVec 3 → Flit
  remainingFlits : BitVec 8
  state : State

/-- The inputs: `some` flit if `flit_in_val` is high. -/
structure In where
  flitIn : Option Flit
  phyInitDone : Bool
  outRdy : Bool

namespace Regs

def reset : Regs where
  pktW1 := 0#64
  pktW2 := 0#64
  pktW3 := 0#64
  inDataBuf _ := 0#64
  remainingFlits := 0#8
  state := .acceptW1

variable (q : Regs) (i : In)

/-- The flit that `flit_in_go` lets in. -/
def taken : Option Flit :=
  if q.state ≠ .send ∧ i.phyInitDone = true then i.flitIn else none

def outVal : Bool := q.state = .send

def headerOut : Header := ⟨q.pktW1, q.pktW2, q.pktW3⟩

/-- `data_out`, from the flits of a buffer. -/
def concat (buf : BitVec 3 → Flit) : Data :=
  buf 0#3 ++ buf 1#3 ++ buf 2#3 ++ buf 3#3 ++ buf 4#3 ++ buf 5#3 ++
    buf 6#3 ++ buf 7#3

def dataOut : Data := concat q.inDataBuf

/-- The buffer takes a flit that is offered, whether the module is ready for
it or not. -/
def inDataBufNext (k : BitVec 3) : Flit :=
  match q.state, i.flitIn with
  | .acceptData, some x =>
    if k.setWidth 8 = q.remainingFlits then x else q.inDataBuf k
  | .send, _ => if i.outRdy then 0#64 else q.inDataBuf k
  | _, _ => q.inDataBuf k

def next : Regs :=
  let q' := { q with inDataBuf := q.inDataBufNext i }
  match q.state with
  | .acceptW1 =>
    match q.taken i with
    | some x =>
      { q' with
        state := .acceptW2
        remainingFlits := MSG_LENGTH.get x - 1#8
        pktW1 := x }
    | none => q'
  | .acceptW2 =>
    match q.taken i with
    | some x =>
      { q' with
        state := .acceptW3
        remainingFlits := q.remainingFlits - 1#8
        pktW2 := x }
    | none => q'
  | .acceptW3 =>
    match q.taken i with
    | some x =>
      if q.remainingFlits = 0#8 then
        { q' with state := .send, remainingFlits := 0#8, pktW3 := x }
      else
        { q' with
          state := .acceptData
          remainingFlits := q.remainingFlits - 1#8
          pktW3 := x }
    | none => q'
  | .acceptData =>
    match q.taken i with
    | some _ =>
      if q.remainingFlits = 0#8 then
        { q' with state := .send, remainingFlits := 0#8 }
      else { q' with remainingFlits := q.remainingFlits - 1#8 }
    | none => q'
  | .send =>
    if i.outRdy then
      { q' with
        state := .acceptW1
        remainingFlits := 0#8
        pktW1 := 0#64
        pktW2 := 0#64
        pktW3 := 0#64 }
    else q'

end Regs

end Deser

/-! ## Reads -/

namespace Read

inductive ReqState where
  | idle | gotReq
  deriving DecidableEq

inductive RespState where
  | idle | gotResp | sendResp
  deriving DecidableEq

/-- The registers of `noc_axi4_bridge_read`. -/
structure Regs where
  reqState : ReqState
  reqHeaderF : Header
  reqIdF : Id
  size : Id → BitVec 7
  offset : Id → BitVec 6
  respState : RespState
  respIdF : Id
  dataOffseted : Data
  respData : Data

/-- The inputs. -/
structure In where
  /-- `some` header and id if `req_val` is high; `req_rdy` is the state
  `idle`. -/
  req : Option (Header × Id)
  respRdy : Bool
  arready : Bool
  /-- `some` id and data if `m_axi_rvalid` is high. -/
  r : Option (BitVec 6 × Data)

namespace Regs

def reset : Regs where
  reqState := .idle
  reqHeaderF := Header.zero
  reqIdF := 0
  size _ := 0#7
  offset _ := 0#6
  respState := .idle
  respIdF := 0
  dataOffseted := 0#512
  respData := 0#512

variable (p : Params) (q : Regs) (i : In)

def arvalid : Bool := q.reqState = .gotReq

def argo : Bool := q.arvalid && i.arready

def arid : BitVec 6 := axiId q.reqIdF

def araddr : BitVec 64 := lineAddr (addr p q.reqHeaderF)

def rready : Bool := q.respState = .idle

/-- What `m_axi_rgo` lets in. -/
def rTaken : Option (BitVec 6 × Data) := if q.rready then i.r else none

def respVal : Bool := q.respState = .sendResp

def respGo : Bool := q.respVal && i.respRdy

def next : Regs where
  reqState :=
    match q.reqState with
    | .idle => if i.req.isSome then .gotReq else .idle
    | .gotReq => if q.argo i then .idle else .gotReq
  reqHeaderF :=
    match q.reqState with
    | .idle => i.req.elim q.reqHeaderF fun r => r.1
    | .gotReq => if q.argo i then Header.zero else q.reqHeaderF
  reqIdF :=
    match q.reqState with
    | .idle => i.req.elim q.reqIdF fun r => r.2
    | .gotReq => if q.argo i then 0 else q.reqIdF
  size k :=
    if k = q.reqIdF ∧ q.argo i = true then readSize q.reqHeaderF
    else if k = q.respIdF ∧ q.respGo i = true then 0#7
    else q.size k
  offset k :=
    if k = q.reqIdF ∧ q.argo i = true then
      Axi4Bridge.offset q.reqHeaderF MSG_TYPE_NC_LOAD_REQ
    else if k = q.respIdF ∧ q.respGo i = true then 0#6
    else q.offset k
  respState :=
    match q.respState with
    | .idle => if (q.rTaken i).isSome then .gotResp else .idle
    | .gotResp => .sendResp
    | .sendResp => if q.respGo i then .idle else .sendResp
  respIdF :=
    match q.respState with
    | .idle => (q.rTaken i).elim q.respIdF fun r => r.1.setWidth _
    | .gotResp => q.respIdF
    | .sendResp => if q.respGo i then 0 else q.respIdF
  -- `m_axi_rid` is one of the ids that have been sent out
  dataOffseted :=
    (q.rTaken i).elim 0#512 fun r =>
      r.2 >>> (8 * (q.offset (r.1.setWidth _)).toNat)
  respData :=
    match q.respState with
    | .idle => 0#512
    | .gotResp => Axi4Bridge.respData (q.size q.respIdF) q.dataOffseted
    | .sendResp => if q.respGo i then 0#512 else q.respData

end Regs

end Read

/-! ## Writes -/

namespace Write

inductive ReqState where
  | idle | gotReq | prepReq | sentAw | sentW
  deriving DecidableEq

inductive RespState where
  | idle | gotResp
  deriving DecidableEq

/-- The registers of `noc_axi4_bridge_write`. -/
structure Regs where
  reqState : ReqState
  reqHeaderF : Header
  reqIdF : Id
  reqDataF : Data
  strbBeforeOffset : BitVec 64
  offset : BitVec 6
  addr : BitVec 64
  respState : RespState
  respIdF : Id

/-- The inputs. -/
structure In where
  /-- `some` header and id if `req_val` is high; `req_rdy` is the state
  `idle`. -/
  req : Option (Header × Id)
  reqData : Data
  respRdy : Bool
  awready : Bool
  wready : Bool
  /-- `some` id if `m_axi_bvalid` is high. -/
  b : Option (BitVec 6)

namespace Regs

def reset : Regs where
  reqState := .idle
  reqHeaderF := Header.zero
  reqIdF := 0
  reqDataF := 0#512
  strbBeforeOffset := 0#64
  offset := 0#6
  addr := 0#64
  respState := .idle
  respIdF := 0

variable (p : Params) (q : Regs) (i : In)

def awvalid : Bool := q.reqState = .prepReq || q.reqState = .sentW

def wvalid : Bool := q.reqState = .prepReq || q.reqState = .sentAw

def awgo : Bool := q.awvalid && i.awready

def wgo : Bool := q.wvalid && i.wready

def awaddr : BitVec 64 := lineAddr q.addr

def wstrb : BitVec 64 := q.strbBeforeOffset <<< q.offset.toNat

def wdata : Data := q.reqDataF <<< (8 * q.offset.toNat)

def bready : Bool := q.respState = .idle

/-- What `m_axi_bgo` lets in. -/
def bTaken : Option (BitVec 6) := if q.bready then i.b else none

def respVal : Bool := q.respState = .gotResp

def respGo : Bool := q.respVal && i.respRdy

/-- The request is sent: both its address and its data. -/
def sent : Bool :=
  match q.reqState with
  | .prepReq => q.awgo i && q.wgo i
  | .sentAw => q.wgo i
  | .sentW => q.awgo i
  | _ => false

def next : Regs where
  reqState :=
    match q.reqState with
    | .idle => if i.req.isSome then .gotReq else .idle
    | .gotReq => .prepReq
    | .prepReq =>
      if q.awgo i && q.wgo i then .idle
      else if q.awgo i then .sentAw
      else if q.wgo i then .sentW
      else .prepReq
    | .sentAw => if q.wgo i then .idle else .sentAw
    | .sentW => if q.awgo i then .idle else .sentW
  reqHeaderF :=
    match q.reqState with
    | .idle => i.req.elim q.reqHeaderF fun r => r.1
    | _ => if q.sent i then Header.zero else q.reqHeaderF
  reqIdF :=
    match q.reqState with
    | .idle => i.req.elim q.reqIdF fun r => r.2
    | _ => if q.sent i then 0 else q.reqIdF
  reqDataF :=
    match q.reqState with
    | .idle => q.reqDataF
    | .gotReq => i.reqData
    | _ => if q.sent i then 0#512 else q.reqDataF
  strbBeforeOffset := Axi4Bridge.strbBeforeOffset q.reqHeaderF
  offset := Axi4Bridge.offset q.reqHeaderF MSG_TYPE_NC_STORE_REQ
  addr := Axi4Bridge.addr p q.reqHeaderF
  respState :=
    match q.respState with
    | .idle => if (q.bTaken i).isSome then .gotResp else .idle
    | .gotResp => if q.respGo i then .idle else .gotResp
  respIdF :=
    match q.respState with
    | .idle => (q.bTaken i).elim q.respIdF fun b => b.setWidth _
    | .gotResp => if q.respGo i then 0 else q.respIdF

end Regs

end Write

/-! ## The serialiser -/

namespace Ser

inductive State where
  | accept | sendHeader | sendData
  deriving DecidableEq

/-- The registers of `noc_axi4_bridge_ser`. -/
structure Regs where
  dataInF : Data
  state : State
  remainingFlits : BitVec 8
  respHeader : Flit

/-- The inputs. -/
structure In where
  headerIn : Header
  dataIn : Data
  inVal : Bool
  flitOutRdy : Bool

namespace Regs

def reset : Regs where
  dataInF := 0#512
  state := .accept
  remainingFlits := 0#8
  respHeader := 0#64

variable (q : Regs) (i : In)

def inRdy : Bool := q.state = .accept

def inGo : Bool := i.inVal && q.inRdy

/-- The shift is by an expression of 32 bits. -/
def dataFlit : Flit :=
  (q.dataInF >>> (64#32 * (8#32 - q.remainingFlits.setWidth 32)).toNat).setWidth
    64

/-- The flit that is put out if `flit_out_val` is high. -/
def flitOut : Option Flit :=
  match q.state with
  | .accept => none
  | .sendHeader => some q.respHeader
  | .sendData => some q.dataFlit

def next : Regs where
  dataInF := if q.inGo i then i.dataIn else q.dataInF
  state :=
    match q.state with
    | .accept => if i.inVal then .sendHeader else .accept
    | .sendHeader =>
      if i.flitOutRdy then
        if MSG_LENGTH.get q.respHeader = 0#8 then .accept else .sendData
      else .sendHeader
    | .sendData =>
      if q.remainingFlits = 1#8 then
        if i.flitOutRdy then .accept else .sendData
      else .sendData
  remainingFlits :=
    match q.state with
    | .accept => 0#8
    | .sendHeader =>
      if i.flitOutRdy then
        if MSG_LENGTH.get q.respHeader = 0#8 then 0#8
        else MSG_LENGTH.get q.respHeader
      else q.remainingFlits
    | .sendData =>
      -- the last flit is not counted with `flit_out_rdy`
      if q.remainingFlits = 1#8 then 0#8
      else if i.flitOutRdy then q.remainingFlits - 1#8
      else q.remainingFlits
  respHeader :=
    match q.state with
    | .accept =>
      if q.inGo i then Axi4Bridge.respHeader i.headerIn else q.respHeader
    | .sendHeader => if i.flitOutRdy then 0#64 else q.respHeader
    | .sendData => q.respHeader

end Regs

end Ser

end ArianeSoc.Chipset.Axi4Bridge
