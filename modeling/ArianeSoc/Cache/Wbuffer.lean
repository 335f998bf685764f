import ArianeSoc.CommonCells.FifoV3
import ArianeSoc.CommonCells.RrArbTree

/-!
# The write buffer of the data cache

`wt_dcache_wbuffer.sv`.  An entry keeps one 64-bit word, with a valid, a
dirty and an in-flight bit for each byte; a transaction slot keeps the bytes
of one entry that were sent to the memory.  A cycle looks up an entry in the
cache, drops what an invalidation makes unknown, evicts the bytes of a
transaction that was answered, sends dirty bytes and takes a store, in this
order.

A word of the memory has the number that its address has without the offset
of the byte.  Data of 64 bits are eight bytes; vectors of ways are numbers.
-/

namespace ArianeSoc.Cache

open CommonCells

/-! ## `wt_cache_pkg` -/

/-- The widths of the design and the cacheable words. -/
structure Config where
  cacheIdWidth : ℕ
  indexWidth : ℕ
  offsetWidth : ℕ
  cacheable : ℕ → Bool

/-- The bytes of a transfer. -/
def toByteEnable8 (offset size : ℕ) : BitVec 8 :=
  match size with
  | 0 => 0x01#8 <<< offset
  | 1 => 0x03#8 <<< offset
  | 2 => 0x0f#8 <<< offset
  | _ => 0xff#8

/-- Transfers shorter than a double word are replicated. -/
def repData64 (data : ℕ → BitVec 8) (offset size : ℕ) (k : ℕ) : BitVec 8 :=
  match size with
  | 0 => data offset
  | 1 => data (offset + k % 2)
  | 2 => data (offset + k % 4)
  | _ => data k

/-- The size of the next transfer. -/
def toSize64 (be : BitVec 8) : ℕ :=
  if be = 0xff#8 then 3
  else if be = 0x0f#8 ∨ be = 0xf0#8 then 2
  else if be = 0xc0#8 ∨ be = 0x30#8 ∨ be = 0x0c#8 ∨ be = 0x03#8 then 1
  else 0

/-- `wbuffer_t`. -/
structure WbufferEntry where
  wtag : ℕ
  data : ℕ → BitVec 8
  dirty : BitVec 8
  valid : BitVec 8
  txblock : BitVec 8
  checked : Bool
  hitOh : ℕ

/-- `tx_stat_t`. -/
structure TxStat where
  vld : Bool
  be : BitVec 8
  ptr : ℕ
  deriving DecidableEq, Repr

/-! ## The registers and the inputs -/

structure Wbuffer where
  wbuffer : ℕ → WbufferEntry
  txStat : ℕ → TxStat
  ncPending : Bool
  checkPtr : ℕ
  checkPtr1 : ℕ
  checkEn : Bool
  checkEn1 : Bool
  rdTag : ℕ
  rdHitOh : ℕ
  wrClVld : Bool
  wrClIdx : ℕ
  rtrnFifo : FifoV3 ℕ
  txArb : RrArbTree
  dirtyArb : RrArbTree
  cleanArb : RrArbTree

structure WbufferIn where
  cacheEn : Bool
  dataReq : Bool
  wtag : ℕ
  dataBe : BitVec 8
  dataWdata : ℕ → BitVec 8
  missAck : Bool
  missRtrn : Option ℕ
  rdAck : Bool
  rdHitOh : ℕ
  wrCl : Option ℕ
  wrAck : Bool

def WbufferEntry.reset : WbufferEntry := ⟨0, fun _ => 0#8, 0#8, 0#8, 0#8, false, 0⟩

def Wbuffer.reset : Wbuffer where
  wbuffer := fun _ => WbufferEntry.reset
  txStat := fun _ => ⟨false, 0#8, 0⟩
  ncPending := false
  checkPtr := 0
  checkPtr1 := 0
  checkEn := false
  checkEn1 := false
  rdTag := 0
  rdHitOh := 0
  wrClVld := false
  wrClIdx := 0
  rtrnFifo := FifoV3.init 0
  txArb := RrArbTree.reset
  dirtyArb := RrArbTree.reset
  cleanArb := RrArbTree.reset

/-- The index of the cache line of a word. -/
def Config.clIdx (cfg : Config) (wtag : ℕ) : ℕ :=
  wtag >>> (cfg.offsetWidth - 3) % 2 ^ (cfg.indexWidth - cfg.offsetWidth)

namespace Wbuffer

variable (cfg : Config) (s : Wbuffer) (i : WbufferIn)

/-! ## The outputs -/

section Flags

variable (k : ℕ)

/-- The dirty bytes of an entry of which nothing is in flight. -/
def bdirty : BitVec 8 :=
  if (s.wbuffer k).txblock ≠ 0#8 then 0#8
  else (s.wbuffer k).dirty &&& (s.wbuffer k).valid

def dirty : Bool := s.bdirty k != 0#8

def valid : Bool := (s.wbuffer k).valid != 0#8

def hit : Bool := s.valid k && (s.wbuffer k).wtag == i.wtag

/-- An invalidation or a refill of this or the last cycle hits the entry. -/
def invalHit : Bool :=
  (i.wrCl.any fun c => s.valid k && cfg.clIdx (s.wbuffer k).wtag == c) ||
    (s.wrClVld && s.valid k &&
      cfg.clIdx (s.wbuffer k).wtag == s.wrClIdx)

def tocheck : Bool := !(s.wbuffer k).checked && s.valid k

end Flags

/-- The free transaction slots. -/
def txFree (k : ℕ) : Bool := !(s.txStat k).vld

def txId : ℕ := s.txArb.idxLocked cfg.cacheIdWidth s.txFree

def freeTxSlots : Bool := anyReq s.txFree cfg.cacheIdWidth 0

def dirtyPtr : ℕ := s.dirtyArb.idxLocked 3 s.dirty

def bdirtyOff : ℕ := lzc 8 (s.bdirty s.dirtyPtr).getLsbD

def missReq : Bool := anyReq s.dirty 3 0 && s.freeTxSlots cfg

def missSize : ℕ := toSize64 (s.bdirty s.dirtyPtr)

def missWdata : ℕ → BitVec 8 :=
  repData64 (s.wbuffer s.dirtyPtr).data s.bdirtyOff s.missSize

def txBe : BitVec 8 := toByteEnable8 s.bdirtyOff s.missSize

def checkPtrD : ℕ := s.cleanArb.idx 3 s.tocheck

def rdReq : Bool := anyReq s.tocheck 3 0

def rtrnId : ℕ := s.rtrnFifo.dataO

def rtrnPtr : ℕ := (s.txStat s.rtrnId).ptr

/-- The bytes that are not dirty again can go to the cache. -/
def wrDataBe : BitVec 8 :=
  (s.txStat s.rtrnId).be &&& ~~~(s.wbuffer s.rtrnPtr).dirty

/-- A transaction was answered and the line of its word is known. -/
def answered : Bool := !s.rtrnFifo.emptyO && (s.wbuffer s.rtrnPtr).checked

/-- The word has to be written to the cache, too. -/
def wrReq : Bool :=
  s.answered && s.wrDataBe != 0#8 && (s.wbuffer s.rtrnPtr).hitOh != 0

def evict : Bool := s.answered && (!s.wrReq || i.wrAck)

/-- Dirty bytes are sent. -/
def dirtyRdEn : Bool := s.missReq cfg && i.missAck

def emptyO : Bool := !(List.range 8).any s.valid

def full : Bool := lzcEmpty 8 fun k => !s.valid k

def hits : Bool := (List.range 8).any (s.hit i)

def wrPtr : ℕ :=
  if s.hits i then lzc 8 (s.hit i) else lzc 8 fun k => !s.valid k

def rdy : Bool := s.hits i || !s.full

def addrIsNc : Bool := !i.cacheEn || !cfg.cacheable i.wtag

/-- A store is taken: `data_gnt`. -/
def dataGnt : Bool :=
  i.dataReq && s.rdy i && (s.emptyO || !(addrIsNc cfg i || s.ncPending))

/-! ## The update of the entries -/

section Update

variable (buf : ℕ → WbufferEntry)

/-- The tag lookup returns. -/
def updLookup : ℕ → WbufferEntry :=
  if s.checkEn1 && s.valid s.checkPtr1 then
    Function.update buf s.checkPtr1
      { buf s.checkPtr1 with checked := true, hitOh := s.rdHitOh }
  else buf

def updInval : ℕ → WbufferEntry := fun k =>
  if s.invalHit cfg i k then { buf k with checked := false } else buf k

/-- The entry without the bytes of the answered transaction. -/
def evictEntry (e : WbufferEntry) : WbufferEntry :=
  let be := (s.txStat s.rtrnId).be
  let valid := e.valid &&& ~~~(be &&& ~~~(s.wbuffer s.rtrnPtr).dirty)
  { e with
    txblock := e.txblock &&& ~~~be
    valid := valid
    checked := e.checked && valid != 0#8 }

def updEvict : ℕ → WbufferEntry :=
  if s.evict i then
    Function.update buf s.rtrnPtr (s.evictEntry (buf s.rtrnPtr))
  else buf

def sendEntry (e : WbufferEntry) : WbufferEntry :=
  { e with
    dirty := e.dirty &&& ~~~s.txBe
    txblock := e.txblock ||| s.txBe }

def updSend : ℕ → WbufferEntry :=
  if s.dirtyRdEn cfg i then
    Function.update buf s.dirtyPtr (s.sendEntry (buf s.dirtyPtr))
  else buf

def storeEntry (e : WbufferEntry) : WbufferEntry :=
  { e with
    checked := false
    wtag := i.wtag
    valid := e.valid ||| i.dataBe
    dirty := e.dirty ||| i.dataBe
    data := fun j => if i.dataBe.getLsbD j then i.dataWdata j else e.data j }

def updStore : ℕ → WbufferEntry :=
  if s.dataGnt cfg i then
    Function.update buf (s.wrPtr i) (storeEntry i (buf (s.wrPtr i)))
  else buf

/-- The entries after a cycle. -/
def wbufferD : ℕ → WbufferEntry :=
  s.updStore cfg i (s.updSend cfg i (s.updEvict i
    (s.updInval cfg i (s.updLookup s.wbuffer))))

end Update

/-- The transaction slots after a cycle. -/
def txStatD : ℕ → TxStat :=
  let tx :=
    if s.evict i then
      Function.update s.txStat s.rtrnId
        { s.txStat s.rtrnId with vld := false }
    else s.txStat
  if s.dirtyRdEn cfg i then
    Function.update tx (s.txId cfg) ⟨true, s.txBe, s.dirtyPtr⟩
  else tx

/-- One cycle. -/
def step : Wbuffer where
  wbuffer := s.wbufferD cfg i
  txStat := s.txStatD cfg i
  ncPending := if s.dataGnt cfg i then addrIsNc cfg i else s.ncPending
  checkPtr := s.checkPtrD
  checkPtr1 := s.checkPtr
  checkEn := s.rdReq && i.rdAck
  checkEn1 := s.checkEn
  rdTag := (s.wbuffer s.checkPtrD).wtag >>> (cfg.indexWidth - 3)
  rdHitOh := i.rdHitOh
  wrClVld := i.wrCl.isSome
  wrClIdx := i.wrCl.getD s.wrClIdx
  rtrnFifo := s.rtrnFifo.next (2 ^ cfg.cacheIdWidth)
    ⟨false, i.missRtrn.isSome, i.missRtrn.getD 0, s.evict i⟩
  txArb :=
    s.txArb.nextLocked cfg.cacheIdWidth s.txFree (s.dirtyRdEn cfg i)
  dirtyArb := s.dirtyArb.nextLocked 3 s.dirty (s.dirtyRdEn cfg i)
  cleanArb := s.cleanArb.next 3 s.tocheck (s.rdReq && i.rdAck)

end Wbuffer

end ArianeSoc.Cache
