import ArianeSoc.Periph.CryptoRegs
import Mathlib.Data.List.FinRange

/-!
# The AES wrappers

`aes0_wrapper.sv`, `aes1_wrapper.sv` and `aes2_wrapper.sv`: the choice of
the key, the engine and the read process, over the registers of
`Periph.CryptoRegs`.

The engines are modelled as far as the key goes.  AES0 samples state and
key in the cycle after a rising `start`, and its rounds are a machine
behind the two sampled registers.  AES1 samples the key in the first cycles
of the key generation.  AES2 is a machine that sees the selected key in
every cycle.
-/

namespace ArianeSoc.Periph

/-! ## `aes0_wrapper` -/

namespace Aes0

/-- The rounds and the key expansion of `aes_192`, behind `s0` and `k0`. -/
structure Rounds (P : Type) where
  next : P → BitVec 128 → BitVec 192 → P
  out : P → BitVec 128

/-- The registers of `aes_192`. -/
structure Engine (P : Type) where
  startR : Bool
  validCounter : BitVec 5
  s0 : BitVec 128
  k0 : BitVec 192
  rounds : P

variable {P : Type} (ρ : Rounds P)

/-- `out_valid`. -/
def Engine.outValid (e : Engine P) : Bool := e.validCounter = 0#5

/-- `start_posedge`. -/
def Engine.startPosedge (e : Engine P) (start : Bool) : Bool :=
  start && !e.startR

def Engine.step (e : Engine P) (start : Bool) (state : BitVec 128)
    (key : BitVec 192) : Engine P where
  startR := start
  validCounter :=
    if e.startPosedge start then 25#5
    else if e.outValid then e.validCounter else e.validCounter - 1#5
  s0 := if e.startPosedge start then state ^^^ key.extractLsb' 64 128 else e.s0
  k0 := if e.startPosedge start then key else e.k0
  rounds := ρ.next e.rounds e.s0 e.k0

structure State (P : Type) where
  regs : aes0.Regs
  engine : Engine P

variable (r : aes0.Regs) (debugMode : Bool)

def pCBig : BitVec 128 := concat 4 fun k => r (.pC k)

def stateBig : BitVec 128 := concat 4 fun k => r (.state k)

def keyBig0 : BitVec 192 :=
  if debugMode then 0#192 else concat 6 fun k => r (.key0 k)

def keyBig1 : BitVec 192 :=
  if debugMode then 0#192 else concat 6 fun k => r (.key1 k)

/-- The third key is not cleared in debug mode. -/
def keyBig2 : BitVec 192 := concat 6 fun k => r (.key2 k)

def keyBig : BitVec 192 :=
  if (r .keySel).getLsbD 1 then keyBig2 r
  else if (r .keySel).getLsbD 0 then keyBig1 r debugMode
  else keyBig0 r debugMode

/-- `key0[address[8:3]]`; a read beyond the array returns the unknown
value `x`. -/
def keyWord (x : ℕ → BitVec 32) (k : ℕ) : BitVec 32 :=
  if h : k < 6 then r (.key0 ⟨k, h⟩) else x k

/-- The registers with an arm in the read process, and their lock bits. -/
def readable : List Aes0Reg := .start :: (List.finRange 4).map .pC

def readLock : Aes0Reg → ℕ
  | .start => 0
  | _ => 2

variable (s : State P) (i : RegIn)

/-- The cipher text. -/
def ct : BitVec 128 := pCBig s.regs ^^^ ρ.out s.engine.rounds

/-- The read process.  Before the cipher text is valid, the words without
an arm return a word of the first key. -/
def rdata (x : ℕ → BitVec 32) : BitVec 64 :=
  let k := i.axi.index 6
  if i.axi.en && i.acct then
    match aes0.readRegs readable readLock s.regs i with
    | some v => v
    | none =>
      if k = 11 then i.gated 6 (BitVec.ofBool s.engine.outValid)
      else if 12 ≤ k ∧ k ≤ 15 then
        i.gated 4 ((ct ρ s).extractLsb' (32 * (k - 12)) 32)
      else if s.engine.outValid then 0#64
      else (keyWord s.regs x k).setWidth 64
  else 0#64

/-- One cycle. -/
def step : State P where
  regs := aes0.step s.regs i
  engine := s.engine.step ρ ((s.regs .start).getLsbD 0) (stateBig s.regs)
    (keyBig s.regs i.debugMode)

end Aes0

/-! ## `aes1_wrapper` -/

namespace Aes1

/-- The states of `aes_key_mem`. -/
inductive KeyCtrl
  | IDLE | INIT | GENERATE | DONE
  deriving DecidableEq, Repr

/-- The inputs of the core less the key. -/
structure CoreIn where
  clear : Bool
  encdec : Bool
  init : Bool
  next : Bool
  keylen : Bool
  block : BitVec 128
  deriving DecidableEq, Repr

/-- `aes1_core` around the key generator: it sees where the generator is
and the key while that loads it. -/
structure Core (C : Type) where
  step : C → CoreIn → KeyCtrl → BitVec 4 → Option (BitVec 256) → C
  ready : C → Bool
  valid : C → Bool
  /-- The result of the encipher or of the decipher block. -/
  result : C → Bool → BitVec 128

/-- `initD` and `nextD` are the registered `init` and `next`. -/
structure State (C : Type) where
  regs : aes1.Regs
  initD : Bool
  nextD : Bool
  keyCtrl : KeyCtrl
  roundCtr : BitVec 4
  core : C

variable {C : Type} (κ : Core C) (r : aes1.Regs) (debugMode : Bool)

def coreKey0 : BitVec 256 :=
  if debugMode then 0#256 else concat 8 fun k => r (.key0 k.rev)

/-- The second key is not cleared in debug mode. -/
def coreKey1 : BitVec 256 := concat 8 fun k => r (.key1 k.rev)

def coreKey2 : BitVec 256 :=
  if debugMode then 0#256 else concat 8 fun k => r (.key2 k.rev)

def coreKey : BitVec 256 :=
  if (r .keySel).getLsbD 1 then coreKey2 r debugMode
  else if (r .keySel).getLsbD 0 then coreKey1 r
  else coreKey0 r debugMode

def coreKeylen : BitVec 1 :=
  if (r .keySel).getLsbD 1 then r .keylen2
  else if (r .keySel).getLsbD 0 then r .keylen1
  else r .keylen0

def coreBlock : BitVec 128 := concat 4 fun k => r (.block k.rev)

/-- `num_rounds`. -/
def numRounds : BitVec 4 := if coreKeylen r = 0#1 then 10#4 else 14#4

/-- The registers that can be read behind lock bit 2. -/
def readable : List Aes1Reg :=
  (List.finRange 8).map .key0 ++ (List.finRange 8).map .key1 ++
    (List.finRange 8).map .key2

abbrev CORE_NAME0 : BitVec 32 := 0x61657320#32
abbrev CORE_NAME1 : BitVec 32 := 0x20202020#32
abbrev CORE_VERSION : BitVec 32 := 0x302e3630#32

variable (s : State C) (i : RegIn)

def coreInit : Bool := (s.regs .init).getLsbD 0 && !s.initD

def coreNext : Bool := (s.regs .next).getLsbD 0 && !s.nextD

/-- The key generator loads the key: the upper half in the first round, the
lower half of a long key in the second. -/
def loadsKey : Bool :=
  !i.clear && s.keyCtrl = .GENERATE &&
    (s.roundCtr = 0#4 || s.roundCtr = 1#4 && coreKeylen s.regs = 1#1)

/-- The result of the selected block. -/
def result : BitVec 128 := κ.result s.core ((s.regs .encdec).getLsbD 0)

/-- The read process. -/
def rdata : BitVec 64 :=
  let k := i.axi.index 9
  if i.axi.en && i.acct then
    match aes1.readRegs readable (fun _ => 2) s.regs i with
    | some v => v
    | none =>
      if k = 0x00 then i.gated 0 CORE_NAME0
      else if k = 0x01 then i.gated 0 CORE_NAME1
      else if k = 0x02 then i.gated 0 CORE_VERSION
      else if k = 0x08 then
        i.gated 0 (coreKeylen s.regs ++ s.regs .encdec ++ s.regs .next ++
          s.regs .init)
      else if k = 0x09 then
        i.gated 4 (BitVec.ofBool (κ.valid s.core) ++
          BitVec.ofBool (κ.ready s.core))
      else if 0x50 ≤ k ∧ k ≤ 0x53 then
        i.gated 4 ((result κ s).extractLsb' (32 * (k - 0x50)) 32)
      else 0#64
  else 0#64

/-- `key_mem_ctrl`. -/
def keyCtrlN : KeyCtrl :=
  match s.keyCtrl with
  | .IDLE => if coreInit s then .INIT else .IDLE
  | .INIT => .GENERATE
  | .GENERATE => if s.roundCtr = numRounds s.regs then .DONE else .GENERATE
  | .DONE => .IDLE

/-- `round_ctr`. -/
def roundCtrN : BitVec 4 :=
  match s.keyCtrl with
  | .INIT => 0#4
  | .GENERATE => s.roundCtr + 1#4
  | _ => s.roundCtr

def coreIn : CoreIn where
  clear := i.clear
  encdec := (s.regs .encdec).getLsbD 0
  init := coreInit s
  next := coreNext s
  keylen := (coreKeylen s.regs).getLsbD 0
  block := coreBlock s.regs

/-- One cycle. -/
def step : State C where
  regs := aes1.step s.regs i
  initD := !i.clear && (s.regs .init).getLsbD 0
  nextD := !i.clear && (s.regs .next).getLsbD 0
  keyCtrl := if i.clear then .IDLE else keyCtrlN s
  roundCtr := if i.clear then 0#4 else roundCtrN s
  core := κ.step s.core (coreIn s i) s.keyCtrl s.roundCtr
    (if loadsKey s i then some (coreKey s.regs i.debugMode) else none)

end Aes1

/-! ## `aes2_wrapper` -/

namespace Aes2

/-- The inputs of the engine. -/
structure EngineIn where
  clear : Bool
  start : Bool
  iv : BitVec 128
  ciiK : BitVec 128
  inputPc : BitVec 128
  deriving DecidableEq, Repr

/-- `aes2_interface`: the outputs are registers. -/
structure Engine (E : Type) where
  step : E → EngineIn → E
  ct : E → BitVec 128
  ctValid : E → Bool

structure State (E : Type) where
  regs : aes2.Regs
  engine : E

variable {E : Type} (μ : Engine E) (r : aes2.Regs) (debugMode : Bool)

def stateBig : BitVec 128 := concat 4 fun k => r (.state k)

def diiData : BitVec 128 := concat 4 fun k => r (.pC k)

def ciiK0 : BitVec 128 :=
  if debugMode then 0#128 else concat 4 fun k => r (.key0 k)

def ciiK1 : BitVec 128 :=
  if debugMode then 0#128 else concat 4 fun k => r (.key1 k)

def ciiK2 : BitVec 128 :=
  if debugMode then 0#128 else concat 4 fun k => r (.key2 k)

def ciiK : BitVec 128 :=
  if (r .keySel).getLsbD 1 then ciiK2 r debugMode
  else if (r .keySel).getLsbD 0 then ciiK1 r debugMode
  else ciiK0 r debugMode

/-- `key0[address[8:3]]`; a read beyond the array returns the unknown
value `x`. -/
def keyWord (x : ℕ → BitVec 32) (k : ℕ) : BitVec 32 :=
  if h : k < 4 then r (.key0 ⟨k, h⟩) else x k

/-- The registers with an arm in the read process, and their lock bits. -/
def readable : List Aes2Reg := .start :: (List.finRange 4).map .pC

def readLock : Aes2Reg → ℕ
  | .start => 0
  | _ => 2

variable (s : State E) (i : RegIn)

/-- The read process. -/
def rdata (x : ℕ → BitVec 32) : BitVec 64 :=
  let k := i.axi.index 6
  if i.axi.en && i.acct then
    match aes2.readRegs readable readLock s.regs i with
    | some v => v
    | none =>
      if k = 9 then i.gated 6 (BitVec.ofBool (μ.ctValid s.engine))
      else if 10 ≤ k ∧ k ≤ 13 then
        i.gated 4 ((μ.ct s.engine).extractLsb' (32 * (k - 10)) 32)
      else if μ.ctValid s.engine then 0#64
      else (keyWord s.regs x k).setWidth 64
  else 0#64

/-- One cycle. -/
def step : State E where
  regs := aes2.step s.regs i
  engine := μ.step s.engine
    { clear := i.clear
      start := (s.regs .start).getLsbD 0
      iv := stateBig s.regs
      ciiK := ciiK s.regs i.debugMode
      inputPc := diiData s.regs }

end Aes2

end ArianeSoc.Periph
