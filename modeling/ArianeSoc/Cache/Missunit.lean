import ArianeSoc.Cache.Ctrl

/-!
# The miss unit of the data cache

`wt_dcache_missunit.sv`.  The last port is the one of the write buffer and
writes, the others read.  One read is in flight at a time, in the MSHR; a
read is replayed if the line of the MSHR was its own while it waited, and
stalled while a transaction of the write buffer is in flight to its line.  A
write is stalled while the MSHR has its line.

`fsm` is the process `p_fsm`.  The data that an atomic operation brings back
are left out, and whether its backoff is over is an input.
-/

namespace ArianeSoc.Cache

open CommonCells

/-! ## `lfsr_8bit` -/

/-- The next value of the shift register. -/
def lfsrNext (q : BitVec 8) : BitVec 8 :=
  (q <<< 1) ||| if q.getLsbD 7 ^^ q.getLsbD 3 ^^ q.getLsbD 2 ^^ q.getLsbD 1
    then 0#8 else 1#8

/-! ## The memory interface -/

/-- `amo_t`. -/
inductive AmoOp
  | AMO_NONE | AMO_LR | AMO_SC | AMO_SWAP | AMO_ADD | AMO_AND | AMO_OR
  | AMO_XOR | AMO_MAX | AMO_MAXU | AMO_MIN | AMO_MINU | AMO_CAS1 | AMO_CAS2
  deriving DecidableEq, Repr

structure AmoReq (cfg : DcacheConfig) where
  req : Bool
  amoOp : AmoOp
  size : BitVec 2
  operandA : Paddr cfg
  operandB : ℕ → BitVec 8

/-- `dcache_out_t`, what is used of it. -/
inductive DcacheOut
  | DCACHE_STORE_REQ | DCACHE_LOAD_REQ | DCACHE_ATOMIC_REQ
  deriving DecidableEq, Repr

/-- `dcache_in_t`. -/
inductive DcacheRtrn
  | DCACHE_INV_REQ | DCACHE_STORE_ACK | DCACHE_LOAD_ACK | DCACHE_ATOMIC_ACK
  | DCACHE_INT_ACK
  deriving DecidableEq, Repr

/-- `dcache_req_t`. -/
structure MemReq (cfg : DcacheConfig) where
  rtype : DcacheOut
  size : BitVec 3
  way : ℕ
  paddr : Paddr cfg
  data : ℕ → BitVec 8
  nc : Bool
  tid : BitVec cfg.cacheIdWidth
  amoOp : AmoOp

/-- `cache_inval_t`. -/
structure CacheInval (cfg : DcacheConfig) where
  vld : Bool
  all : Bool
  idx : BitVec cfg.clIdxWidth
  way : BitVec cfg.wayWidth

/-- `dcache_rtrn_t`. -/
structure MemRtrn (cfg : DcacheConfig) where
  rtype : DcacheRtrn
  data : ℕ → BitVec 8
  inv : CacheInval cfg
  tid : BitVec cfg.cacheIdWidth

/-- The offset of an address that is aligned to a transfer. -/
def paddrSizeAlign {w : ℕ} (off : BitVec w) (size : BitVec 3) : BitVec w :=
  match size with
  | 1#3 => (off >>> 1) <<< 1
  | 2#3 => (off >>> 2) <<< 2
  | 3#3 => (off >>> 3) <<< 3
  | 7#3 => 0#w
  | _ => off

/-! ## The registers and the inputs -/

inductive MissState
  | IDLE | DRAIN | AMO | FLUSH | STORE_WAIT | LOAD_WAIT | AMO_WAIT
  deriving DecidableEq, Repr

/-- `mshr_t`. -/
structure Mshr (cfg : DcacheConfig) where
  paddr : Paddr cfg
  size : BitVec 3
  vldBits : Ways cfg
  id : BitVec cfg.cacheIdWidth
  nc : Bool
  replWay : ℕ
  missPortIdx : ℕ

structure Missunit (cfg : DcacheConfig) where
  state : MissState
  mshr : Mshr cfg
  mshrVld : Bool
  mshrVld1 : Bool
  enable : Bool
  flushAck : Bool
  cnt : BitVec cfg.clIdxWidth
  missReqMasked : ℕ → Bool
  rdrdCollision : ℕ → Bool
  amoReq : Bool
  storesInflight : BitVec (cfg.cacheIdWidth + 1)
  lfsr : BitVec 8

structure MissIn (cfg : DcacheConfig) where
  enable : Bool
  flush : Bool
  wbufferEmpty : Bool
  amoReq : AmoReq cfg
  backoffOver : Bool
  port : ℕ → MissPort cfg
  txPaddr : ℕ → Paddr cfg
  txVld : ℕ → Bool
  memRtrn : Option (MemRtrn cfg)
  memDataAck : Bool

def Missunit.reset (cfg : DcacheConfig) : Missunit cfg where
  state := .FLUSH
  mshr := ⟨⟨0#_, 0#_, 0#_⟩, 0#3, 0#_, 0#_, false, 0, 0⟩
  mshrVld := false
  mshrVld1 := false
  enable := false
  flushAck := false
  cnt := 0#_
  missReqMasked := fun _ => false
  rdrdCollision := fun _ => false
  amoReq := false
  storesInflight := 0#_
  lfsr := 0#8

namespace Missunit

variable {cfg : DcacheConfig} (s : Missunit cfg) (i : MissIn cfg)

/-! ## The arbitration -/

def lockReqs : Bool := s.state == .STORE_WAIT || s.state == .LOAD_WAIT

def maskReads : Bool := s.mshrVld || s.state == .DRAIN

/-- `miss_req_masked_d`. -/
def missReqMaskedD (p : ℕ) : Bool :=
  if s.lockReqs then s.missReqMasked p
  else if s.maskReads then (i.port p).we && (i.port p).req
  else (i.port p).req

def missPortIdx : ℕ := lzc cfg.numPorts (s.missReqMaskedD i)

/-- The port that is served. -/
def sel : MissPort cfg := i.port (s.missPortIdx i)

def anyMissReq : Bool := !lzcEmpty cfg.numPorts (s.missReqMaskedD i)

/-! ## The responses of the memory -/

section Responses

/-- A response of type `t` comes in. -/
def rtrn (t : DcacheRtrn) : Bool := i.memRtrn.any fun r => r.rtype == t

def loadAck : Bool := rtrn i .DCACHE_LOAD_ACK && s.mshrVld

def storeAck : Bool := rtrn i .DCACHE_STORE_ACK && s.storesInflight != 0#_

def amoAck : Bool := rtrn i .DCACHE_ATOMIC_ACK && s.amoReq

def invVldAll : Bool :=
  i.memRtrn.any fun r => r.rtype == .DCACHE_INV_REQ && r.inv.all

def invVld : Bool :=
  i.memRtrn.any fun r =>
    r.rtype == .DCACHE_INV_REQ && (r.inv.vld || r.inv.all)

/-- `miss_rtrn_vld_o`. -/
def missRtrnVld (p : ℕ) : Bool :=
  s.loadAck i && p == s.mshr.missPortIdx ||
    s.storeAck i && p == cfg.numPorts - 1

end Responses

/-! ## The collisions -/

/-- The request of the port is to the line of the MSHR. -/
def rdrdCollisionNow (p : ℕ) : Bool :=
  s.mshr.paddr.SameLine (i.port p).paddr && (s.mshrVld || s.mshrVld1)

def rdrdCollisionD (p : ℕ) : Bool :=
  (i.port p).req && (s.rdrdCollision p || s.rdrdCollisionNow i p)

/-- A write to the line of the MSHR. -/
def rdwrCollision : Bool :=
  s.mshr.paddr.SameLine (i.port (cfg.numPorts - 1)).paddr && s.mshrVld

/-- A read of a line that a transaction writes. -/
def txRdwrCollision : Bool :=
  (List.range (2 ^ cfg.cacheIdWidth)).any fun k =>
    (s.sel i).paddr.SameLine (i.txPaddr k) && i.txVld k

/-! ## The replacement -/

def allWaysValid : Bool :=
  lzcEmpty cfg.setAssoc fun k => !(s.sel i).vldBits.getLsbD k

def replWay : ℕ :=
  if s.allWaysValid i then s.lfsr.toNat % cfg.setAssoc
  else lzc cfg.setAssoc fun k => !(s.sel i).vldBits.getLsbD k

/-! ## The control -/

/-- What `p_fsm` decides. -/
structure Out where
  stateD : MissState
  enableD : Bool
  flushAckD : Bool
  flushAckO : Bool
  memDataReq : Bool
  rtype : DcacheOut
  mshrAllocate : Bool
  updateLfsr : Bool
  missReplay : Bool
  amoRespAck : Bool
  deriving DecidableEq, Repr

def flushEn : Bool := s.state == .FLUSH

def flushDone : Bool := s.cnt == BitVec.allOnes _

def amoSel : Bool := s.state == .AMO || s.state == .AMO_WAIT

/-- The defaults. -/
def hold : Out where
  stateD := s.state
  enableD := s.enable && i.enable
  flushAckD := s.flushAck
  flushAckO := false
  memDataReq := false
  rtype := .DCACHE_LOAD_REQ
  mshrAllocate := false
  updateLfsr := false
  missReplay := false
  amoRespAck := false

/-- Everything is written back and read. -/
def drained : Bool := i.wbufferEmpty && !s.mshrVld

/-- A write is passed through. -/
def passWrite : Out :=
  if s.rdwrCollision i then s.hold i
  else
    { s.hold i with
      memDataReq := true
      rtype := .DCACHE_STORE_REQ
      stateD := if i.memDataAck then .IDLE else .STORE_WAIT }

/-- A read gets the MSHR. -/
def passRead : Out :=
  if !(!s.mshrVld || s.loadAck i) then s.hold i
  else if s.rdrdCollisionD i (s.missPortIdx i) then
    { s.hold i with missReplay := true }
  else if s.txRdwrCollision i then s.hold i
  else
    { s.hold i with
      memDataReq := true
      rtype := .DCACHE_LOAD_REQ
      updateLfsr := s.allWaysValid i && i.memDataAck
      mshrAllocate := i.memDataAck
      stateD := if i.memDataAck then .IDLE else .LOAD_WAIT }

def fsm : Out :=
  match s.state with
  | .IDLE =>
    if i.flush || i.enable && !s.enable then
      if s.drained i then
        { s.hold i with flushAckD := i.flush, stateD := .FLUSH }
      else { s.hold i with stateD := .DRAIN }
    else if i.amoReq.req then
      { s.hold i with stateD := if s.drained i then .AMO else .DRAIN }
    else if s.anyMissReq i then
      if (s.sel i).we then s.passWrite i else s.passRead i
    else s.hold i
  | .STORE_WAIT =>
    { s.hold i with
      memDataReq := true
      rtype := .DCACHE_STORE_REQ
      stateD := if i.memDataAck then .IDLE else .STORE_WAIT }
  | .LOAD_WAIT =>
    { s.hold i with
      memDataReq := true
      rtype := .DCACHE_LOAD_REQ
      updateLfsr := s.allWaysValid i && i.memDataAck
      mshrAllocate := i.memDataAck
      stateD := if i.memDataAck then .IDLE else .LOAD_WAIT }
  | .DRAIN =>
    { s.hold i with
      memDataReq := s.anyMissReq i && !s.rdwrCollision i
      rtype :=
        if s.anyMissReq i && !s.rdwrCollision i then .DCACHE_STORE_REQ
        else .DCACHE_LOAD_REQ
      stateD := if s.drained i then .IDLE else .DRAIN }
  | .FLUSH =>
    if s.flushDone then
      { s.hold i with
        stateD := .IDLE
        flushAckO := s.flushAck
        flushAckD := false
        enableD := i.enable }
    else s.hold i
  | .AMO =>
    let req := i.amoReq.amoOp != .AMO_LR || i.backoffOver
    { s.hold i with
      memDataReq := req
      rtype := .DCACHE_ATOMIC_REQ
      stateD := if req && i.memDataAck then .AMO_WAIT else .AMO }
  | .AMO_WAIT =>
    if s.amoAck i then { s.hold i with amoRespAck := true, stateD := .IDLE }
    else s.hold i

/-- `miss_ack_o`. -/
def missAck (p : ℕ) : Bool :=
  !s.amoSel && p == s.missPortIdx i && i.memDataAck && (s.fsm i).memDataReq

/-- `miss_replay_o`. -/
def missReplay (p : ℕ) : Bool :=
  p == s.missPortIdx i && (s.fsm i).missReplay

/-- `mem_data_o`. -/
def memData : MemReq cfg :=
  if s.amoSel then
    { rtype := (s.fsm i).rtype
      size := i.amoReq.size.setWidth 3
      way := 0
      paddr := { i.amoReq.operandA with
        off := paddrSizeAlign i.amoReq.operandA.off
          (i.amoReq.size.setWidth 3) }
      data := fun k =>
        i.amoReq.operandB (if i.amoReq.size = 2#2 then k % 4 else k)
      nc := true
      tid := 1#_
      amoOp := i.amoReq.amoOp }
  else
    { rtype := (s.fsm i).rtype
      size := (s.sel i).size
      way := s.replWay i
      paddr := { (s.sel i).paddr with
        off := paddrSizeAlign (s.sel i).paddr.off (s.sel i).size }
      data := (s.sel i).wdata
      nc := (s.sel i).nc
      tid := (s.sel i).id
      amoOp := .AMO_NONE }

/-- A store goes to the memory. -/
def storeSent : Bool :=
  (s.fsm i).memDataReq && i.memDataAck &&
    (s.fsm i).rtype == .DCACHE_STORE_REQ

/-! ## The writes to the cache memory -/

/-- A read that is not cached does not write. -/
def clWriteEn : Bool := s.loadAck i && !s.mshr.nc

/-- `wr_cl_we_o`. -/
def wrClWe : Ways cfg :=
  if s.flushEn then BitVec.allOnes _
  else if invVldAll i then BitVec.allOnes _
  else if invVld i then
    i.memRtrn.elim 0#_ fun r => BitVec.twoPow _ r.inv.way.toNat
  else if s.clWriteEn i then BitVec.twoPow _ s.mshr.replWay
  else 0#_

/-- `wr_cl_vld_o`. -/
def wrClVld : Bool := s.loadAck i || s.wrClWe i != 0#_

/-- `wr_vld_bits_o`. -/
def wrVldBits : Ways cfg :=
  if s.flushEn then 0#_
  else if invVld i then 0#_
  else if s.clWriteEn i then BitVec.twoPow _ s.mshr.replWay
  else 0#_

/-- `wr_cl_idx_o`. -/
def wrClIdx : BitVec cfg.clIdxWidth :=
  if s.flushEn then s.cnt
  else if invVld i then i.memRtrn.elim 0#_ fun r => r.inv.idx
  else s.mshr.paddr.idx

/-! ## The next state -/

def mshrD : Mshr cfg :=
  if (s.fsm i).mshrAllocate then
    { paddr := (s.sel i).paddr
      size := (s.sel i).size
      vldBits := (s.sel i).vldBits
      id := (s.sel i).id
      nc := (s.sel i).nc
      replWay := s.replWay i
      missPortIdx := s.missPortIdx i }
  else s.mshr

/-- One cycle. -/
def step : Missunit cfg where
  state := (s.fsm i).stateD
  mshr := s.mshrD i
  mshrVld :=
    if (s.fsm i).mshrAllocate then true
    else if s.loadAck i then false else s.mshrVld
  mshrVld1 := s.mshrVld
  enable := (s.fsm i).enableD
  flushAck := (s.fsm i).flushAckD
  cnt := if s.flushEn then s.cnt + 1#_ else 0#_
  missReqMasked := s.missReqMaskedD i
  rdrdCollision := s.rdrdCollisionD i
  amoReq := i.amoReq.req
  storesInflight :=
    if s.storeAck i && s.storeSent i then s.storesInflight
    else if s.storeAck i then s.storesInflight - 1#_
    else if s.storeSent i then s.storesInflight + 1#_
    else s.storesInflight
  lfsr := if (s.fsm i).updateLfsr then lfsrNext s.lfsr else s.lfsr

/-! ## What a cycle does -/

variable {s i}

/-- The port that is served has a request. -/
theorem missPortIdx_spec (h : s.anyMissReq i = true) :
    s.missPortIdx i < cfg.numPorts ∧
      s.missReqMaskedD i (s.missPortIdx i) = true := by
  rw [anyMissReq, Bool.not_eq_true'] at h
  obtain ⟨k, hk, hreq⟩ := lzcEmpty_iff.mp h
  exact lzc_spec hk hreq

/-- A read may be sent. -/
structure ReadFree (s : Missunit cfg) (i : MissIn cfg) : Prop where
  idle : s.state = .IDLE
  req : s.anyMissReq i = true
  read : (s.sel i).we = false
  free : s.mshrVld = true → s.loadAck i = true
  fresh : s.rdrdCollisionD i (s.missPortIdx i) = false
  drained : s.txRdwrCollision i = false

/-- A write may be sent. -/
def WriteFree (s : Missunit cfg) (i : MissIn cfg) : Prop :=
  s.anyMissReq i = true ∧ s.rdwrCollision i = false ∧
    (s.state = .DRAIN ∨ s.state = .IDLE ∧ (s.sel i).we = true)

/-- Nothing is sent. -/
structure Quiet (o : Out) : Prop where
  req : o.memDataReq = false
  alloc : o.mshrAllocate = false
  load : o.stateD ≠ .LOAD_WAIT
  store : o.stateD ≠ .STORE_WAIT

/-- A read is sent; it is in the MSHR from its acknowledge on. -/
structure Reads (o : Out) (ack : Bool) : Prop where
  req : o.memDataReq = true
  rtype : o.rtype = .DCACHE_LOAD_REQ
  alloc : o.mshrAllocate = ack
  replay : o.missReplay = false
  next : o.stateD = if ack then .IDLE else .LOAD_WAIT

/-- A write is sent. -/
structure Writes (o : Out) : Prop where
  req : o.memDataReq = true
  rtype : o.rtype = .DCACHE_STORE_REQ
  alloc : o.mshrAllocate = false
  replay : o.missReplay = false
  next : o.stateD ≠ .LOAD_WAIT

theorem passWrite_cases (hst : s.state = .IDLE) :
    Quiet (s.passWrite i) ∨
      s.rdwrCollision i = false ∧ Writes (s.passWrite i) := by
  rw [passWrite]
  split_ifs with hcoll
  · exact Or.inl (by rw [hold, hst]; exact ⟨rfl, rfl, nofun, nofun⟩)
  · exact Or.inr ⟨by simpa using hcoll, rfl, rfl, rfl, rfl, nofun⟩
  · exact Or.inr ⟨by simpa using hcoll, rfl, rfl, rfl, rfl, nofun⟩

theorem passRead_cases (hst : s.state = .IDLE) :
    Quiet (s.passRead i) ∨
      (s.mshrVld = true → s.loadAck i = true) ∧
        s.rdrdCollisionD i (s.missPortIdx i) = false ∧
        s.txRdwrCollision i = false ∧ Reads (s.passRead i) i.memDataAck := by
  rw [passRead]
  split_ifs with hfree hreplay htx hack
  · exact Or.inl (by rw [hold, hst]; exact ⟨rfl, rfl, nofun, nofun⟩)
  · exact Or.inl (by rw [hold, hst]; exact ⟨rfl, rfl, nofun, nofun⟩)
  · exact Or.inl (by rw [hold, hst]; exact ⟨rfl, rfl, nofun, nofun⟩)
  · refine Or.inr ⟨fun h => ?_, by simpa using hreplay, by simpa using htx,
      rfl, rfl, rfl, rfl, (if_pos hack).symm⟩
    simpa [h] using hfree
  · refine Or.inr ⟨fun h => ?_, by simpa using hreplay, by simpa using htx,
      rfl, rfl, rfl, rfl, (if_neg hack).symm⟩
    simpa [h] using hfree

/-- What a cycle does at the memory: nothing, a read, a write or an atomic
operation. -/
theorem fsm_cases :
    Quiet (s.fsm i) ∨
      (s.state = .LOAD_WAIT ∨ ReadFree s i) ∧
        Reads (s.fsm i) i.memDataAck ∨
      (s.state = .STORE_WAIT ∨ WriteFree s i) ∧ Writes (s.fsm i) ∧
        ((s.fsm i).stateD = .STORE_WAIT → s.state ≠ .DRAIN) ∨
      s.state = .AMO ∧ (s.fsm i).rtype = .DCACHE_ATOMIC_REQ ∧
        (s.fsm i).mshrAllocate = false ∧
        (s.fsm i).stateD ≠ .LOAD_WAIT ∧ (s.fsm i).stateD ≠ .STORE_WAIT := by
  cases hst : s.state with
  | IDLE =>
    rw [fsm, hst]
    dsimp only
    split_ifs with hflush hdrain hamo hdrain hreq hwe
    · exact Or.inl ⟨rfl, rfl, nofun, nofun⟩
    · exact Or.inl ⟨rfl, rfl, nofun, nofun⟩
    · exact Or.inl ⟨rfl, rfl, nofun, nofun⟩
    · exact Or.inl ⟨rfl, rfl, nofun, nofun⟩
    · rcases passWrite_cases hst with hq | ⟨hcoll, hw⟩
      · exact Or.inl hq
      · exact Or.inr (Or.inr (Or.inl ⟨Or.inr ⟨hreq, hcoll, Or.inr ⟨hst, hwe⟩⟩,
          hw, fun _ => nofun⟩))
    · rcases passRead_cases hst with hq | ⟨hfree, hfresh, htx, hr⟩
      · exact Or.inl hq
      · exact Or.inr (Or.inl ⟨Or.inr ⟨hst, hreq, by simpa using hwe, hfree,
          hfresh, htx⟩, hr⟩)
    · exact Or.inl (by rw [hold, hst]; exact ⟨rfl, rfl, nofun, nofun⟩)
  | STORE_WAIT =>
    rw [fsm, hst]
    refine Or.inr (Or.inr (Or.inl ⟨Or.inl rfl, ⟨rfl, rfl, rfl, rfl, ?_⟩,
      fun _ => nofun⟩))
    dsimp only
    split_ifs <;> exact nofun
  | LOAD_WAIT =>
    rw [fsm, hst]
    exact Or.inr (Or.inl ⟨Or.inl rfl, rfl, rfl, rfl, rfl, rfl⟩)
  | DRAIN =>
    have hnext : ∀ st, st = .LOAD_WAIT ∨ st = .STORE_WAIT →
        (if s.drained i = true then MissState.IDLE else .DRAIN) ≠ st := by
      intro st hbad
      split_ifs <;> rcases hbad with rfl | rfl <;> exact nofun
    rw [fsm, hst]
    dsimp only
    by_cases hreq : (s.anyMissReq i && !s.rdwrCollision i) = true
    · obtain ⟨hany, hcoll⟩ : s.anyMissReq i = true ∧
          s.rdwrCollision i = false := by simpa using hreq
      refine Or.inr (Or.inr (Or.inl ⟨Or.inr ⟨hany, hcoll, Or.inl hst⟩,
        ⟨hreq, if_pos hreq, rfl, rfl, hnext _ (Or.inl rfl)⟩,
        fun h => absurd h (hnext _ (Or.inr rfl))⟩))
    · exact Or.inl ⟨by simpa using hreq, rfl, hnext _ (Or.inl rfl),
        hnext _ (Or.inr rfl)⟩
  | FLUSH =>
    rw [fsm, hst]
    dsimp only
    split_ifs
    · exact Or.inl ⟨rfl, rfl, nofun, nofun⟩
    · exact Or.inl (by rw [hold, hst]; exact ⟨rfl, rfl, nofun, nofun⟩)
  | AMO =>
    rw [fsm, hst]
    refine Or.inr (Or.inr (Or.inr ⟨rfl, rfl, rfl, ?_, ?_⟩)) <;>
      dsimp only <;> split_ifs <;> exact nofun
  | AMO_WAIT =>
    rw [fsm, hst]
    dsimp only
    split_ifs
    · exact Or.inl ⟨rfl, rfl, nofun, nofun⟩
    · exact Or.inl (by rw [hold, hst]; exact ⟨rfl, rfl, nofun, nofun⟩)

end Missunit

end ArianeSoc.Cache
