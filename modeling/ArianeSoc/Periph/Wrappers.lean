import Mathlib.Logic.Function.Basic
import ArianeSoc.RiscvPkg

/-!
# The register lock, the reset controller and the access control

The wrappers `reglk_wrapper.sv`, `rst_wrapper.sv` and `acct_wrapper.sv`, and
`step`, which connects them as `riscv_peripherals.sv` does.  What
`axi_lite_interface` hands to a wrapper is an input, and so is the rest of
the chip: `jtag_unlock`, the privilege level and `we_flag_0`.

The lock register holds a byte for each peripheral and the access control a
nibble.  `NB_PERIPHERALS` is 14 and `NB_SLAVE` is one, as the instances set
them; the access control then has three words, and the arms of its write
case for the words above write nowhere.
-/

namespace ArianeSoc.Periph

/-- A request behind the AXI lite interface. -/
structure AxiLite where
  en : Bool
  we : Bool
  address : BitVec 64
  wdata : BitVec 64

/-- The word that the address selects, of `n` words, by `bits` bits of the
address. -/
def AxiLite.word (axi : AxiLite) (bits n : Nat) : Option (Fin n) :=
  let k := (axi.address.extractLsb' 3 bits).toNat
  if h : k < n then some ⟨k, h⟩ else none

/-- The word that is written, if any; `acct` is `acct_ctrl_i`. -/
def AxiLite.writes (axi : AxiLite) (acct : Bool) (bits n : Nat) :
    Option (Fin n) :=
  if axi.en && acct && axi.we then axi.word bits n else none

/-- The word that is read, if any. -/
def AxiLite.reads (axi : AxiLite) (acct : Bool) (bits n : Nat) :
    Option (Fin n) :=
  if axi.en && acct then axi.word bits n else none

/-! ## `reglk_wrapper` -/

abbrev ReglkMem := Fin 6 → BitVec 32

/-- `reglk_ctrl_o`. -/
def reglkCtrlO (m : ReglkMem) : BitVec 112 :=
  (m 5 ++ m 4 ++ m 3 ++ m 2 ++ m 1 ++ m 0).setWidth 112

/-- `reglk_ctrl[j*8+7:j*8]`, the lock byte of peripheral `j`. -/
def lockByte (m : ReglkMem) (j : Nat) : BitVec 8 :=
  (reglkCtrlO m).extractLsb' (8 * j) 8

/-- The word that holds the lock registers' own byte. -/
abbrev OWN_WORD : Fin 6 := 2

/-- The bit that locks a word. -/
def reglkLockBit : Fin 6 → Nat
  | 0 => 3
  | _ => 1

/-- What a write to a locked word leaves there: word 2 receives word 3. -/
def reglkLocked (m : ReglkMem) : Fin 6 → BitVec 32
  | 2 => m 3
  | k => m k

def reglkWrapper (m : ReglkMem) (clear : Bool) (lock : BitVec 8)
    (acct : Bool) (axi : AxiLite) : ReglkMem :=
  if clear then fun _ => 0#32
  else
    match axi.writes acct 5 6 with
    | some k =>
      Function.update m k
        (if lock.getLsbD (reglkLockBit k) then reglkLocked m k
          else axi.wdata.setWidth 32)
    | none => m

def reglkRdata (m : ReglkMem) (lock : BitVec 8) (acct : Bool)
    (axi : AxiLite) : BitVec 64 :=
  match axi.reads acct 5 6 with
  | some k => if lock.getLsbD 0 then 0#64 else (m k).setWidth 64
  | none => 0#64

/-! ## `rst_wrapper` -/

structure RstCtrl where
  start : Bool
  rstId : BitVec 5
  rstMem : BitVec 14
  deriving DecidableEq

def RstCtrl.reset : RstCtrl := ⟨false, 0#5, 0#14⟩

/-- The reset line of peripheral `k`. -/
def RstCtrl.rst (r : RstCtrl) (k : Nat) : Bool := r.rstMem.getLsbD k

/-- `rst_mem` after a cycle: a line rises while `start` is set, and all
fall when it is cleared. -/
def RstCtrl.nextMem (r : RstCtrl) : BitVec 14 :=
  if r.start then
    if r.rstId < 14#5 then r.rstMem ||| 1#14 <<< r.rstId.toNat else r.rstMem
  else 0#14

def rstWrapper (r : RstCtrl) (rstNi : Bool) (lock : BitVec 8) (acct : Bool)
    (axi : AxiLite) : RstCtrl :=
  if !rstNi || r.rst 12 then RstCtrl.reset
  else
    let d := { r with rstMem := r.nextMem }
    match axi.writes acct 6 2 with
    | some 0 =>
      { d with
        start := if lock.getLsbD 1 then r.start else axi.wdata.getLsbD 0 }
    | some 1 =>
      { d with
        rstId := if lock.getLsbD 1 then r.rstId else axi.wdata.setWidth 5 }
    | none => d

def rstRdata (r : RstCtrl) (lock : BitVec 8) (acct : Bool) (axi : AxiLite) :
    BitVec 64 :=
  match axi.reads acct 6 1 with
  | some _ =>
    if lock.getLsbD 0 then 0#64 else (BitVec.ofBool r.start).setWidth 64
  | none => 0#64

/-! ## `acct_wrapper` -/

abbrev AcctMem := Fin 3 → BitVec 32

/-- The access-control bits as the memory holds them. -/
def acctBits (m : AcctMem) : BitVec 96 := m 2 ++ m 1 ++ m 0

/-- `acc_ctrl_o`. -/
def accCtrlO (m : AcctMem) (weFlag : Bool) : BitVec 56 :=
  (m 2 ++ m 1 ++ (m 0 ||| (BitVec.fill 8 weFlag).setWidth 32)).setWidth 56

def acctWrapper (m : AcctMem) (clear : Bool) (lock : BitVec 8) (acct : Bool)
    (axi : AxiLite) : AcctMem :=
  if clear then fun _ => 0xffffffff#32
  else
    match axi.writes acct 8 3 with
    | some k =>
      Function.update m k
        (if lock.getLsbD 5 then m k else axi.wdata.setWidth 32)
    | none => m

def acctRdata (m : AcctMem) (lock : BitVec 8) (acct : Bool)
    (axi : AxiLite) : BitVec 64 :=
  match axi.reads acct 8 3 with
  | some k => if lock.getLsbD 4 then 0#64 else (m k).setWidth 64
  | none => 0#64

/-! ## `riscv_peripherals` -/

/-- `acc_ctrl_c[i][j]`: the access of peripheral `j` at level `i`. -/
def accCtrlC (accCtrl : BitVec 56) (i j : Nat) : Bool :=
  accCtrl.getLsbD (j * 4 + i) || (j == 5 && accCtrl.getLsbD (4 * 4 + i))

structure State where
  reglk : ReglkMem
  rst : RstCtrl
  acct : AcctMem

structure In where
  rstNi : Bool
  jtagUnlock : Bool
  privLvl : PrivLvl
  weFlag0 : Bool
  reglkAxi : AxiLite
  rstAxi : AxiLite
  acctAxi : AxiLite

/-- `acct_ctrl_i` of peripheral `j`. -/
def acctCtrl (s : State) (i : In) (j : Nat) : Bool :=
  accCtrlC (accCtrlO s.acct i.weFlag0) i.privLvl.toNat j

/-- The registers after a system reset. -/
def reset : State := ⟨fun _ => 0#32, RstCtrl.reset, fun _ => 0xffffffff#32⟩

/-- The lock registers are cleared by the system reset, by JTAG and by the
reset controller. -/
def reglkClear (s : State) (i : In) : Bool :=
  !(i.rstNi && !i.jtagUnlock && !s.rst.rst 9)

def step (s : State) (i : In) : State where
  reglk := reglkWrapper s.reglk (reglkClear s i) (lockByte s.reglk 9)
    (acctCtrl s i 9) i.reglkAxi
  rst := rstWrapper s.rst i.rstNi (lockByte s.reglk 12) (acctCtrl s i 12)
    i.rstAxi
  acct := acctWrapper s.acct (!(i.rstNi && !s.rst.rst 6))
    (lockByte s.reglk 6) (acctCtrl s i 6) i.acctAxi

/-! ## Without access -/

variable {axi : AxiLite} {lock : BitVec 8}

theorem writes_without_access (bits n : Nat) :
    axi.writes false bits n = none := by
  simp [AxiLite.writes]

theorem reads_without_access (bits n : Nat) :
    axi.reads false bits n = none := by
  simp [AxiLite.reads]

/-- Without access a request neither changes a wrapper nor reads it. -/
theorem reglk_without_access (m : ReglkMem) :
    reglkWrapper m false lock false axi = m ∧
      reglkRdata m lock false axi = 0#64 := by
  simp [reglkWrapper, reglkRdata, writes_without_access,
    reads_without_access]

theorem acct_without_access (m : AcctMem) :
    acctWrapper m false lock false axi = m ∧
      acctRdata m lock false axi = 0#64 := by
  simp [acctWrapper, acctRdata, writes_without_access, reads_without_access]

theorem rst_without_access (r : RstCtrl) :
    (rstWrapper r true lock false axi).start = (r.start && !r.rst 12) ∧
      rstRdata r lock false axi = 0#64 := by
  simp only [rstWrapper, rstRdata, writes_without_access,
    reads_without_access, Bool.not_true, Bool.false_or, and_true]
  split_ifs with h <;> simp [RstCtrl.reset, h]

end ArianeSoc.Periph
