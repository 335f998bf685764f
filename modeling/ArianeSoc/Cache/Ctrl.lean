import ArianeSoc.CommonCells.RrArbTree

/-!
# The read controller of the data cache

`wt_dcache_ctrl.sv`.  A request gives the index and the offset first and
the tag one cycle later.  The controller looks up the cache speculatively,
goes to the miss unit if the line is not there, and looks it up again where
the lookup collided with a write of a line or the miss with another one.

A killed request is answered in the cycle of the kill.  If it has a
transaction, `KILL_MISS` waits for the response to that; if it waits for
the acknowledge, `KILL_MISS_ACK` goes on asking.
-/

namespace ArianeSoc.Cache

/-! ## The geometry of the cache -/

/-- The widths of the data cache, the number of its ports and the tags that
are cacheable. -/
structure DcacheConfig where
  tagWidth : ℕ
  clIdxWidth : ℕ
  offsetWidth : ℕ
  wayWidth : ℕ
  cacheIdWidth : ℕ
  numPorts : ℕ
  cacheable : BitVec tagWidth → Bool

/-- `DCACHE_SET_ASSOC`. -/
abbrev DcacheConfig.setAssoc (cfg : DcacheConfig) : ℕ := 2 ^ cfg.wayWidth

/-- A set of ways. -/
abbrev Ways (cfg : DcacheConfig) : Type := BitVec cfg.setAssoc

/-- A physical address: the tag, the index of the line and the offset. -/
structure Paddr (cfg : DcacheConfig) where
  tag : BitVec cfg.tagWidth
  idx : BitVec cfg.clIdxWidth
  off : BitVec cfg.offsetWidth
  deriving DecidableEq, Repr

/-- The addresses are in one cache line. -/
def Paddr.SameLine {cfg : DcacheConfig} (a b : Paddr cfg) : Prop :=
  a.tag = b.tag ∧ a.idx = b.idx

instance {cfg : DcacheConfig} (a b : Paddr cfg) : Decidable (a.SameLine b) :=
  inferInstanceAs (Decidable (_ ∧ _))

/-- What a port asks the miss unit for. -/
structure MissPort (cfg : DcacheConfig) where
  req : Bool
  nc : Bool
  we : Bool
  wdata : ℕ → BitVec 8
  paddr : Paddr cfg
  vldBits : Ways cfg
  size : BitVec 3
  id : BitVec cfg.cacheIdWidth

/-! ## The registers and the inputs -/

/-- `state_e`. -/
inductive CtrlState
  | IDLE | READ | MISS_REQ | MISS_WAIT | KILL_MISS | KILL_MISS_ACK
  | REPLAY_REQ | REPLAY_READ
  deriving DecidableEq, Repr

structure Ctrl (cfg : DcacheConfig) where
  state : CtrlState
  addressTag : BitVec cfg.tagWidth
  addressIdx : BitVec cfg.clIdxWidth
  addressOff : BitVec cfg.offsetWidth
  vldData : Ways cfg
  dataSize : BitVec 2
  rdReq : Bool
  rdAck : Bool

def Ctrl.reset (cfg : DcacheConfig) : Ctrl cfg :=
  ⟨.IDLE, 0#_, 0#_, 0#_, 0#_, 0#2, false, false⟩

/-- `req_port_i`, what the controller uses of it. -/
structure CoreReq (cfg : DcacheConfig) where
  dataReq : Bool
  tagValid : Bool
  killReq : Bool
  addressTag : BitVec cfg.tagWidth
  addressIdx : BitVec cfg.clIdxWidth
  addressOff : BitVec cfg.offsetWidth
  dataSize : BitVec 2

/-- The answers of the cache memory to a read port. -/
structure Lookup (cfg : DcacheConfig) where
  rdAck : Bool
  rdVldBits : Ways cfg
  rdHitOh : Ways cfg

structure CtrlIn (cfg : DcacheConfig) where
  cacheEn : Bool
  core : CoreReq cfg
  missAck : Bool
  missReplay : Bool
  missRtrnVld : Bool
  wrClVld : Bool
  mem : Lookup cfg

/-! ## The outputs -/

namespace Ctrl

variable {cfg : DcacheConfig}

section Outputs

variable (s : Ctrl cfg) (r : CoreReq cfg)

/-- `rd_req_o`. -/
def rdReqO : Bool :=
  match s.state with
  | .IDLE => r.dataReq
  | .READ | .REPLAY_READ | .REPLAY_REQ => true
  | _ => false

/-- `miss_req_o`. -/
def missReqO : Bool :=
  match s.state with
  | .MISS_REQ | .KILL_MISS_ACK => true
  | _ => false

/-- The tag comes in. -/
def saveTag : Bool := s.state == .READ && !r.killReq && r.tagValid

/-- `rd_tag_o`. -/
def addressTagD : BitVec cfg.tagWidth :=
  if s.saveTag r then r.addressTag else s.addressTag

/-- `miss_paddr_o`. -/
def paddr : Paddr cfg := ⟨s.addressTag, s.addressIdx, s.addressOff⟩

/-- `miss_nc_o`. -/
def missNc (cacheEn : Bool) : Bool := !cacheEn || !cfg.cacheable s.addressTag

/-- The port at the miss unit; `1` is `RdAmoTxId`. -/
def missPort (cacheEn : Bool) : MissPort cfg where
  req := s.missReqO
  nc := s.missNc cacheEn
  we := false
  wdata := fun _ => 0#8
  paddr := s.paddr
  vldBits := s.vldData
  size := if s.missNc cacheEn then s.dataSize.setWidth 3 else 7#3
  id := 1#_

end Outputs

/-! ## The control -/

/-- What `p_fsm` decides: the next state, `data_rvalid` and `data_gnt`. -/
structure Out where
  stateD : CtrlState
  dataRvalid : Bool
  dataGnt : Bool
  deriving DecidableEq, Repr

variable (s : Ctrl cfg) (i : CtrlIn cfg)

/-- The states `READ` and `REPLAY_READ`. -/
def read : Out :=
  if i.core.killReq then ⟨.IDLE, true, false⟩
  else if i.core.tagValid || s.state == .REPLAY_READ then
    if i.wrClVld || !s.rdAck then ⟨.REPLAY_REQ, false, false⟩
    else if i.mem.rdHitOh != 0#_ && i.cacheEn then
      if i.mem.rdAck && i.core.dataReq then ⟨.READ, true, true⟩
      else ⟨.IDLE, true, false⟩
    else ⟨.MISS_REQ, false, false⟩
  else ⟨s.state, false, false⟩

def fsm : Out :=
  match s.state with
  | .IDLE =>
    if i.core.dataReq && i.mem.rdAck then ⟨.READ, false, true⟩
    else ⟨.IDLE, false, false⟩
  | .READ | .REPLAY_READ => s.read i
  | .MISS_REQ =>
    if i.core.killReq then
      ⟨if i.missAck then .KILL_MISS else .KILL_MISS_ACK, true, false⟩
    else if i.missReplay then ⟨.REPLAY_REQ, false, false⟩
    else if i.missAck then ⟨.MISS_WAIT, false, false⟩
    else ⟨.MISS_REQ, false, false⟩
  | .MISS_WAIT =>
    if i.core.killReq then
      ⟨if i.missRtrnVld then .IDLE else .KILL_MISS, true, false⟩
    else if i.missRtrnVld then ⟨.IDLE, true, false⟩
    else ⟨.MISS_WAIT, false, false⟩
  | .REPLAY_REQ =>
    if i.core.killReq then ⟨.IDLE, true, false⟩
    else if i.mem.rdAck then ⟨.REPLAY_READ, false, false⟩
    else ⟨.REPLAY_REQ, false, false⟩
  | .KILL_MISS_ACK =>
    if i.missReplay then ⟨.IDLE, false, false⟩
    else if i.missAck then ⟨.KILL_MISS, false, false⟩
    else ⟨.KILL_MISS_ACK, false, false⟩
  | .KILL_MISS =>
    if i.missRtrnVld then ⟨.IDLE, false, false⟩
    else ⟨.KILL_MISS, false, false⟩

/-- `rd_idx_o` and `rd_off_o`. -/
def addressIdxD : BitVec cfg.clIdxWidth :=
  if (s.fsm i).dataGnt then i.core.addressIdx else s.addressIdx

def addressOffD : BitVec cfg.offsetWidth :=
  if (s.fsm i).dataGnt then i.core.addressOff else s.addressOff

/-- One cycle. -/
def step : Ctrl cfg where
  state := (s.fsm i).stateD
  addressTag := s.addressTagD i.core
  addressIdx := s.addressIdxD i
  addressOff := s.addressOffD i
  vldData := if s.rdReq then i.mem.rdVldBits else s.vldData
  dataSize := if (s.fsm i).dataGnt then i.core.dataSize else s.dataSize
  rdReq := s.rdReqO i.core
  rdAck := i.mem.rdAck

/-! ## What a cycle does -/

/-- A request is taken and not yet answered. -/
def Active (st : CtrlState) : Prop :=
  st = .READ ∨ st = .REPLAY_READ ∨ st = .MISS_REQ ∨ st = .MISS_WAIT ∨
    st = .REPLAY_REQ

instance (st : CtrlState) : Decidable (Active st) :=
  inferInstanceAs (Decidable (_ ∨ _ ∨ _ ∨ _ ∨ _))

/-- A transaction is in flight. -/
def Waits (st : CtrlState) : Prop := st = .MISS_WAIT ∨ st = .KILL_MISS

instance (st : CtrlState) : Decidable (Waits st) :=
  inferInstanceAs (Decidable (_ ∨ _))

variable {s i}

/-- A request is taken in `IDLE` or in the cycle of a hit. -/
theorem gnt_cases (h : (s.fsm i).dataGnt = true) :
    (s.fsm i).stateD = .READ ∧
      (¬Active s.state ∧ ¬Waits s.state ∧ (s.fsm i).dataRvalid = false ∨
        Active s.state ∧ (s.fsm i).dataRvalid = true) := by
  cases hst : s.state <;> simp only [fsm, read, hst] at h ⊢ <;>
    split_ifs at h ⊢ <;> simp_all [Active, Waits]

/-- No request is taken while another one is at the miss unit. -/
theorem no_gnt (h : s.missReqO = true ∨ Waits s.state) :
    (s.fsm i).dataGnt = false := by
  cases hst : s.state <;> simp [missReqO, Waits, hst] at h <;>
    simp only [fsm, hst] <;> split_ifs <;> rfl

/-- Only a request that was taken is answered. -/
theorem rvalid_active (h : (s.fsm i).dataRvalid = true) : Active s.state := by
  cases hst : s.state <;> simp only [fsm, read, hst] at h <;>
    split_ifs at h <;> simp_all [Active]

/-- A request is at work until it is answered. -/
theorem active_step :
    Active (s.fsm i).stateD ↔ (s.fsm i).dataGnt = true ∨
      Active s.state ∧ (s.fsm i).dataRvalid = false := by
  cases hst : s.state <;> simp only [fsm, read, hst] <;>
    split_ifs <;> simp_all [Active]

/-- A kill is answered at once. -/
theorem kill_rvalid (h : Active s.state) (hk : i.core.killReq = true) :
    (s.fsm i).dataRvalid = true := by
  cases hst : s.state <;> simp [Active, hst] at h <;>
    simp [fsm, read, hst, hk]

/-- The response is awaited from the acknowledge on. -/
theorem waits_step (h : ¬(i.missAck = true ∧ i.missReplay = true)) :
    Waits (s.fsm i).stateD ↔ s.missReqO = true ∧ i.missAck = true ∨
      Waits s.state ∧ i.missRtrnVld = false := by
  cases hst : s.state <;> simp only [fsm, read, missReqO, hst] <;>
    split_ifs <;> simp_all [Waits]

/-- A request to the miss unit stays until it is acknowledged or replayed. -/
theorem missReqO_step (h : s.missReqO = true) (ha : i.missAck = false)
    (hr : i.missReplay = false) : (s.step i).missReqO = true := by
  show (match (s.fsm i).stateD with
    | .MISS_REQ | .KILL_MISS_ACK => true | _ => false) = true
  cases hst : s.state <;> simp [missReqO, hst] at h <;>
    simp only [fsm, hst] <;> split_ifs <;> simp_all

/-- A response answers the request if it was not killed. -/
theorem rtrn_rvalid (h : Waits s.state) (hr : i.missRtrnVld = true) :
    (s.fsm i).dataRvalid = true ↔ Active s.state := by
  cases hst : s.state <;> simp [Waits, hst] at h <;>
    simp only [fsm, hst] <;> split_ifs <;> simp_all [Active]

end Ctrl

end ArianeSoc.Cache
