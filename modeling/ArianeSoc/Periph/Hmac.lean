import ArianeSoc.Periph.CryptoRegs
import Mathlib.Data.List.FinRange

/-!
# The HMAC wrapper

`hmac_wrapper.sv` and the state machine of `hmac.sv` over the registers of
`Periph.CryptoRegs`.  The engine hashes the inner and the outer key block,
or loads their hashes if the key is bypassed, each followed by the message.
`sha256` is a machine whose outputs are registers; it sees `h_block` only
while `h_block_update` is set.
-/

namespace ArianeSoc.Periph.Hmac

/-! ## The engine -/

/-- The states of `hmac`. -/
inductive Phase
  | IDLE | HASHI_1 | HASHI_1_WAIT | HASHI_2 | HASHI_2_WAIT | HASHI_3
  | HASHI_3_WAIT | HASHO_1 | HASHO_1_WAIT | HASHO_2 | HASHO_2_WAIT | LAST
  deriving DecidableEq, Repr

/-- The inputs of `sha256`. -/
structure ShaIn where
  clear : Bool
  init : Bool
  next : Bool
  block : BitVec 512
  hBlock : Option (BitVec 256)
  deriving DecidableEq, Repr

/-- `sha256`. -/
structure Sha (S : Type) where
  step : S → ShaIn → S
  ready : S → Bool
  digest : S → BitVec 256
  digestValid : S → Bool

/-- The registers of `hmac`. -/
structure Engine (S : Type) where
  state : Phase
  hash : BitVec 256
  ready : Bool
  hashValid : Bool
  shaInit : Bool
  shaNewMsg : Bool
  shaMsg : BitVec 512
  shaHBlock : BitVec 256
  shaHBlockUpdate : Bool
  shaIdigest : BitVec 256
  sha : S

/-- The inputs of `hmac`. -/
structure EngineIn where
  clear : Bool
  init : Bool
  key : BitVec 256
  ikeyHash : BitVec 256
  okeyHash : BitVec 256
  keyHashBypass : Bool
  message : BitVec 512

def EngineIn.ipad (j : EngineIn) : BitVec 512 :=
  (j.key ++ 0#256) ^^^ BitVec.replicate 64 0x36#8

def EngineIn.opad (j : EngineIn) : BitVec 512 :=
  (j.key ++ 0#256) ^^^ BitVec.replicate 64 0x5c#8

variable {S : Type} (σ : Sha S)

/-- Hash the block `msg` from the initial value, or start from `h`. -/
def Engine.start (e : Engine S) (bypass : Bool) (msg : BitVec 512)
    (h : BitVec 256) (next : Phase) : Engine S :=
  { e with
    shaMsg := msg
    shaHBlock := h
    shaInit := !bypass
    shaHBlockUpdate := bypass
    shaNewMsg := false
    state := next }

/-- Hash one more block. -/
def Engine.more (e : Engine S) (msg : BitVec 512) (next : Phase) : Engine S :=
  { e with shaMsg := msg, shaNewMsg := true, state := next }

/-- The state machine. -/
def Engine.control (e : Engine S) (j : EngineIn) : Engine S :=
  match e.state with
  | .IDLE =>
    let e := { e with
      shaInit := false, shaNewMsg := false, shaMsg := 0#512, ready := true }
    if j.init then { e with hashValid := false, state := .HASHI_1 } else e
  | .HASHI_1 =>
    if σ.ready e.sha then
      e.start j.keyHashBypass j.ipad j.ikeyHash .HASHI_1_WAIT
    else e
  | .HASHI_1_WAIT =>
    { e with state := .HASHI_2, shaHBlockUpdate := false, shaInit := false }
  | .HASHI_2 =>
    if σ.ready e.sha then e.more j.message .HASHI_2_WAIT else e
  | .HASHI_2_WAIT => { e with state := .HASHI_3, shaNewMsg := false }
  | .HASHI_3 =>
    if σ.ready e.sha then
      e.more (1#1 ++ 0#447 ++ 1024#64) .HASHI_3_WAIT
    else e
  | .HASHI_3_WAIT => { e with state := .HASHO_1, shaNewMsg := false }
  | .HASHO_1 =>
    if σ.digestValid e.sha then
      { e with shaIdigest := σ.digest e.sha }.start j.keyHashBypass j.opad
        j.okeyHash .HASHO_1_WAIT
    else e
  | .HASHO_1_WAIT =>
    { e with state := .HASHO_2, shaHBlockUpdate := false, shaInit := false }
  | .HASHO_2 =>
    if σ.ready e.sha then
      e.more (e.shaIdigest ++ 1#1 ++ 0#191 ++ 768#64) .HASHO_2_WAIT
    else e
  | .HASHO_2_WAIT => { e with state := .LAST, shaNewMsg := false }
  | .LAST =>
    if σ.digestValid e.sha then
      { e with hash := σ.digest e.sha, hashValid := true, state := .IDLE }
    else e

/-- What `sha256` sees in this cycle. -/
def Engine.shaIn (e : Engine S) (clear : Bool) : ShaIn where
  clear := clear
  init := e.shaInit
  next := e.shaNewMsg
  block := e.shaMsg
  hBlock := if e.shaHBlockUpdate then some e.shaHBlock else none

/-- One cycle of the engine. -/
def Engine.step (e : Engine S) (j : EngineIn) : Engine S :=
  { (if j.clear then
      { e with
        state := .IDLE, hash := 0#256, ready := false, hashValid := false
        shaHBlockUpdate := false, shaInit := false, shaNewMsg := false }
    else e.control σ j) with
    sha := σ.step e.sha (e.shaIn j.clear) }

/-! ## The wrapper -/

structure State (S : Type) where
  regs : hmac.Regs
  startHashR : Bool
  engine : Engine S

variable (r : hmac.Regs) (debugMode : Bool)

def key : BitVec 256 :=
  if debugMode then 0#256 else concat 8 fun k => r (.key0 k)

/-- The hash of the inner key is not cleared in debug mode. -/
def ikeyHash : BitVec 256 := concat 8 fun k => r (.ikeyHash k)

def okeyHash : BitVec 256 :=
  if debugMode then 0#256 else concat 8 fun k => r (.okeyHash k)

def bigData : BitVec 512 := concat 16 fun k => r (.data k.rev)

/-- The registers with an arm in the read process, and their lock bits. -/
def readable : List HmacReg :=
  (List.finRange 16).map .data ++ (List.finRange 8).map .ikeyHash ++
    (List.finRange 8).map .okeyHash

def readLock : HmacReg → ℕ
  | .data _ => 2
  | _ => 4

variable (s : State S) (i : RegIn)

/-- The read process. -/
def rdata : BitVec 64 :=
  let k := i.axi.index 7
  if i.axi.en && i.acct then
    match hmac.readRegs readable readLock s.regs i with
    | some v => v
    | none =>
      if k = 0 then i.gated 0 (BitVec.ofBool s.engine.ready)
      else if k = 17 then i.gated 0 (BitVec.ofBool s.engine.hashValid)
      else if 18 ≤ k ∧ k ≤ 25 then
        i.gated 6 (s.engine.hash.extractLsb' (32 * (k - 18)) 32)
      else 0#64
  else 0#64

/-- The inputs of the engine. -/
def engineIn : EngineIn where
  clear := i.clear
  init := (s.regs .startHash).getLsbD 0 && !s.startHashR
  key := key s.regs i.debugMode
  ikeyHash := ikeyHash s.regs
  okeyHash := okeyHash s.regs i.debugMode
  keyHashBypass := (s.regs .keyHashBypass).getLsbD 0
  message := bigData s.regs

/-- One cycle. -/
def step : State S where
  regs := hmac.step s.regs i
  startHashR := !i.clear && (s.regs .startHash).getLsbD 0
  engine := s.engine.step σ (engineIn s i)

end ArianeSoc.Periph.Hmac
