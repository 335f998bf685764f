import ArianeSoc.Dm.Top
import ArianeSoc.Rv64

/-!
# The programs of abstract commands

`dm_mem` offers a hart a program of ten words for the abstract command that
the debugger has written (`abstract_cmd_rom`), and a word at `WhereTo` that
jumps to it.  The hart saves `a0` and, where it needs it, `s0` in the scratch
registers, gets the address of the module into `a0`, moves the register from
or to the data words and restores what it has saved.
-/

namespace ArianeSoc.Dm

open InstrFormat
open Rv64 (Hart Instr Env)

/-! ## `dm_pkg` -/

abbrev AccessRegister : BitVec 8 := 0#8

/-- The fields of a command. -/
def cmdtype (cmd : BitVec 32) : BitVec 8 := cmd.extractLsb' 24 8
def aarsize (cmd : BitVec 32) : BitVec 3 := cmd.extractLsb' 20 3
def aarpostincrement (cmd : BitVec 32) : Bool := cmd.getLsbD 19
def postexec (cmd : BitVec 32) : Bool := cmd.getLsbD 18
def transfer (cmd : BitVec 32) : Bool := cmd.getLsbD 17
def write (cmd : BitVec 32) : Bool := cmd.getLsbD 16
def regno (cmd : BitVec 32) : BitVec 16 := cmd.extractLsb' 0 16

abbrev CSR_DSCRATCH0 : BitVec 12 := 0x7b2#12
abbrev CSR_DSCRATCH1 : BitVec 12 := 0x7b3#12

/-- `a0` and `s0`. -/
abbrev a0 : Reg := 10#5
abbrev s0 : Reg := 8#5

abbrev DataAddr : BitVec 12 := 0x380#12
abbrev HaltAddress : BitVec 12 := 0x800#12
abbrev ResumeAddress : BitVec 12 := 0x804#12
abbrev ExceptionAddress : BitVec 12 := 0x808#12

def jal (rd : Reg) (imm : BitVec 21) : BitVec 32 :=
  imm.extractLsb' 20 1 ++ imm.extractLsb' 1 10 ++ imm.extractLsb' 11 1 ++
    imm.extractLsb' 12 8 ++ rd ++ 0x6f#7

def slli (rd rs1 : Reg) (shamt : BitVec 6) : BitVec 32 :=
  0#6 ++ shamt ++ rs1 ++ 1#3 ++ rd ++ 0x13#7

def srli (rd rs1 : Reg) (shamt : BitVec 6) : BitVec 32 :=
  0#6 ++ shamt ++ rs1 ++ 5#3 ++ rd ++ 0x13#7

def load (size : BitVec 3) (dest base : Reg) (offset : BitVec 12) :
    BitVec 32 :=
  offset ++ base ++ size ++ dest ++ 0x03#7

def auipc (rd : Reg) (imm : BitVec 21) : BitVec 32 :=
  imm.extractLsb' 20 1 ++ imm.extractLsb' 1 10 ++ imm.extractLsb' 11 1 ++
    imm.extractLsb' 12 8 ++ rd ++ 0x17#7

def store (size : BitVec 3) (src base : Reg) (offset : BitVec 12) :
    BitVec 32 :=
  offset.extractLsb' 5 7 ++ src ++ base ++ size ++
    offset.extractLsb' 0 5 ++ 0x23#7

def floatLoad (size : BitVec 3) (dest base : Reg) (offset : BitVec 12) :
    BitVec 32 :=
  offset ++ base ++ size ++ dest ++ 0b0000111#7

def floatStore (size : BitVec 3) (src base : Reg) (offset : BitVec 12) :
    BitVec 32 :=
  offset.extractLsb' 5 7 ++ src ++ base ++ size ++
    offset.extractLsb' 0 5 ++ 0b0100111#7

def csrw (csr : BitVec 12) (rs1 : Reg) : BitVec 32 :=
  csr ++ rs1 ++ 1#3 ++ 0#5 ++ 0x73#7

def csrr (csr : BitVec 12) (dest : Reg) : BitVec 32 :=
  csr ++ 0#5 ++ 2#3 ++ dest ++ 0x73#7

def ebreak : BitVec 32 := 0x00100073#32

def nop : BitVec 32 := 0x00000013#32

def illegal : BitVec 32 := 0x00000000#32

/-! ## `dm_mem` -/

abbrev WhereTo : BitVec 12 := 0x300#12
abbrev DataBase : BitVec 12 := DataAddr
abbrev ProgBufBase : BitVec 12 := 0x360#12
abbrev AbstractCmdBase : BitVec 12 := 0x338#12
abbrev FlagsBase : BitVec 12 := 0x400#12

/-- `abstract_cmd`, by its lower and upper words, and
`unsupported_command`. -/
structure AbstractCmd where
  lo : ℕ → BitVec 32
  hi : ℕ → BitVec 32
  unsupported : Bool

/-- The assignments `abstract_cmd[k][31:0] = w` and
`abstract_cmd[k][63:32] = w`. -/
def AbstractCmd.setLo (c : AbstractCmd) (k : ℕ) (w : BitVec 32) :
    AbstractCmd :=
  { c with lo := fun j => if j = k then w else c.lo j }

def AbstractCmd.setHi (c : AbstractCmd) (k : ℕ) (w : BitVec 32) :
    AbstractCmd :=
  { c with hi := fun j => if j = k then w else c.hi j }

/-- The default memory. -/
def AbstractCmd.default : AbstractCmd where
  lo k :=
    if k = 0 then illegal
    else if k = 1 then srli a0 a0 12#6
    else if k = 4 then csrr CSR_DSCRATCH1 a0
    else nop
  hi k :=
    if k = 0 then auipc a0 0#21
    else if k = 1 then slli a0 a0 12#6
    else if k = 4 then ebreak
    else nop
  unsupported := false

/-- The command is left at once. -/
def AbstractCmd.leave (c : AbstractCmd) : AbstractCmd :=
  { c.setLo 0 ebreak with unsupported := true }

/-- A transfer through `s0`, which is kept in the other scratch register. -/
def AbstractCmd.throughS0 (c : AbstractCmd) (w w' : BitVec 32) :
    AbstractCmd :=
  (((c.setLo 2 (csrw CSR_DSCRATCH0 s0)).setHi 2 w).setLo 3 w').setHi 3
    (csrr CSR_DSCRATCH0 s0)

section AbstractCmd

variable (cmd : BitVec 32)

/-- The register is `a0`, whose value is in a scratch register. -/
def isA0 : Bool :=
  (regno cmd).getLsbD 12 && !(regno cmd).getLsbD 5 &&
    (regno cmd).extractLsb' 0 5 = a0

/-- The data words to a register. -/
def writeCmd : AbstractCmd :=
  let c := AbstractCmd.default.setLo 0 (csrw CSR_DSCRATCH1 a0)
  let reg := (regno cmd).extractLsb' 0 5
  if (regno cmd).extractLsb' 14 2 ≠ 0#2 then c.leave
  else if isA0 cmd then
    c.throughS0 (load (aarsize cmd) s0 a0 DataAddr) (csrw CSR_DSCRATCH1 s0)
  else if (regno cmd).getLsbD 12 then
    if (regno cmd).getLsbD 5 then
      c.setLo 2 (floatLoad (aarsize cmd) reg a0 DataAddr)
    else c.setLo 2 (load (aarsize cmd) reg a0 DataAddr)
  else
    c.throughS0 (load (aarsize cmd) s0 a0 DataAddr)
      (csrw ((regno cmd).extractLsb' 0 12) s0)

/-- A register to the data words. -/
def readCmd : AbstractCmd :=
  let c := AbstractCmd.default.setLo 0 (csrw CSR_DSCRATCH1 a0)
  let reg := (regno cmd).extractLsb' 0 5
  if (regno cmd).extractLsb' 14 2 ≠ 0#2 then c.leave
  else if isA0 cmd then
    c.throughS0 (csrr CSR_DSCRATCH1 s0) (store (aarsize cmd) s0 a0 DataAddr)
  else if (regno cmd).getLsbD 12 then
    if (regno cmd).getLsbD 5 then
      c.setLo 2 (floatStore (aarsize cmd) reg a0 DataAddr)
    else c.setLo 2 (store (aarsize cmd) reg a0 DataAddr)
  else
    c.throughS0 (csrr ((regno cmd).extractLsb' 0 12) s0)
      (store (aarsize cmd) s0 a0 DataAddr)

/-- `abstract_cmd_rom`.  `MaxAar` is 4 for a bus of 64 bits. -/
def abstractCmd : AbstractCmd :=
  if cmdtype cmd = AccessRegister then
    let c :=
      if aarsize cmd < 4#3 && transfer cmd && write cmd then writeCmd cmd
      else if aarsize cmd < 4#3 && transfer cmd && !write cmd then
        readCmd cmd
      else if 4#3 ≤ aarsize cmd || aarpostincrement cmd then
        AbstractCmd.default.leave
      else AbstractCmd.default
    -- the hart runs into the program buffer
    if postexec cmd && !c.unsupported then c.setHi 4 nop else c
  else AbstractCmd.default.leave

end AbstractCmd

/-- The inputs of the read logic, and the page on which the module is. -/
structure Page where
  page : BitVec 52
  cmd : BitVec 32
  progbuf : BitVec 256
  hartsel : BitVec 20
  resumereq : Bool
  cmdbusy : Bool
  resume : Bool
  go : Bool

namespace Page

variable (m : Page) (data : BitVec 64) (addr : BitVec 12)

/-- The jump at `WhereTo`.  Without a transfer it is to the program buffer
if that is to be executed. -/
def whereTo : Option (BitVec 32) :=
  if m.cmdbusy then
    if cmdtype m.cmd = AccessRegister && !transfer m.cmd &&
        postexec m.cmd then
      some (jal 0#5 ((ProgBufBase - WhereTo).setWidth 21))
    else some (jal 0#5 ((AbstractCmdBase - WhereTo).setWidth 21))
  else if m.resumereq then
    some (jal 0#5 ((ResumeAddress - WhereTo).setWidth 21))
  else none

/-- The flags of the selected hart, and zero for the others. -/
def flags : BitVec 64 :=
  if addr.extractLsb' 3 9 ++ 0#3 - FlagsBase =
      (m.hartsel.extractLsb' 3 9 ++ 0#3 : BitVec 12) then
    (0#6 ++ BitVec.ofBool m.resume ++ BitVec.ofBool m.go).setWidth 64 <<<
      (8 * (m.hartsel.extractLsb' 0 3).toNat)
  else 0#64

/-- The double word of a range that an address is in. -/
def index (base : BitVec 12) : ℕ :=
  (addr.extractLsb' 3 9 - base.extractLsb' 3 9).toNat

/-- `rdata_d`, where it is not the old one.  The range of the data words
ends at `0x388`, which is behind them and left out. -/
def rdata : Option (BitVec 64) :=
  if addr = WhereTo then m.whereTo.map (0#32 ++ ·)
  else if DataBase ≤ addr ∧ addr < 0x388#12 then some data
  else if ProgBufBase ≤ addr ∧ addr ≤ 0x37f#12 then
    some (m.progbuf.extractLsb' (64 * index addr ProgBufBase) 64)
  else if AbstractCmdBase ≤ addr ∧ addr ≤ 0x35f#12 then
    some ((abstractCmd m.cmd).hi (index addr AbstractCmdBase) ++
      (abstractCmd m.cmd).lo (index addr AbstractCmdBase))
  else if FlagsBase ≤ addr ∧ addr ≤ 0x7ff#12 then some (m.flags addr)
  else none

/-- The half of a word of the bus at an address. -/
def half (d : BitVec 64) (upper : Bool) : BitVec 32 :=
  if upper then d.extractLsb' 32 32 else d.extractLsb' 0 32

/-- An instruction, and the bytes from an address on, that a hart reads. -/
def fetch (a : BitVec 64) : Option (BitVec 32) :=
  if a.extractLsb' 12 52 = m.page then
    (m.rdata data (a.extractLsb' 0 12)).map (half · (a.getLsbD 2))
  else none

def loadBus (a : BitVec 64) : Option (BitVec 64) :=
  if a.extractLsb' 12 52 = m.page then
    (m.rdata data (a.extractLsb' 0 12)).map fun d : BitVec 64 =>
      d >>> (8 * (a.extractLsb' 0 3).toNat)
  else none

/-- The data words after a store of `2 ^ n` bytes. -/
def storeBus (a : BitVec 64) (n : ℕ) (v : BitVec 64) :
    Option (BitVec 64) :=
  if a.extractLsb' 12 52 = m.page then
    let lane := (a.extractLsb' 0 3).toNat
    let w : HartWrite :=
      { addr := a
        wdata := v <<< (8 * lane)
        be := (BitVec.allOnes (2 ^ n)).setWidth 8 <<< lane }
    some (if w.isData then w.patch data else data)
  else none

end Page

/-- The CSRs of a hart, but for the scratch registers, and its
floating-point formats. -/
structure Cpu (σ : Type) where
  csrRead : σ → BitVec 12 → Option (BitVec 64)
  csrWrite : σ → BitVec 12 → BitVec 64 → Option σ
  fpLegal : σ → BitVec 3 → Bool

/-- The scratch registers of the debug mode, which hold what is written to
them, and the other CSRs. -/
structure HartCsrs (σ : Type) where
  dscratch0 : BitVec 64
  dscratch1 : BitVec 64
  others : σ

namespace HartCsrs

variable {σ : Type} (cpu : Cpu σ) (s : HartCsrs σ) (c : BitVec 12)

def read : Option (BitVec 64) :=
  if c = CSR_DSCRATCH0 then some s.dscratch0
  else if c = CSR_DSCRATCH1 then some s.dscratch1
  else cpu.csrRead s.others c

def write (v : BitVec 64) : Option (HartCsrs σ) :=
  if c = CSR_DSCRATCH0 then some { s with dscratch0 := v }
  else if c = CSR_DSCRATCH1 then some { s with dscratch1 := v }
  else (cpu.csrWrite s.others c v).map fun x => { s with others := x }

end HartCsrs

/-- The hart in debug mode, with the module on its bus. -/
def Page.env {σ : Type} (m : Page) (cpu : Cpu σ) :
    Env (HartCsrs σ) (BitVec 64) where
  csrRead := HartCsrs.read cpu
  csrWrite := HartCsrs.write cpu
  fpLegal s := cpu.fpLegal s.others
  fetch := m.fetch
  load := m.loadBus
  store := m.storeBus
  entry := m.page ++ HaltAddress
  exception := m.page ++ ExceptionAddress

/-! ## Addresses on the page -/

theorem page_add (p : BitVec 52) {o : BitVec 12} {n : ℕ}
    (h : o.toNat + n < 4096) :
    p ++ o + BitVec.ofNat 64 n = p ++ (o + BitVec.ofNat 12 n) := by
  have hp := p.isLt
  apply BitVec.eq_of_toNat_eq
  rw [BitVec.toNat_add, BitField.toNat_append_add,
    BitField.toNat_append_add, BitVec.toNat_add, BitVec.toNat_ofNat,
    BitVec.toNat_ofNat]
  omega

/-- The shifts of a program clear the offset. -/
theorem page_shift (p : BitVec 52) (o : BitVec 12) :
    (p ++ o) >>> 12 <<< 12 = p ++ 0#12 := by
  have hp := p.isLt
  have ho := o.isLt
  apply BitVec.eq_of_toNat_eq
  rw [BitVec.toNat_shiftLeft, BitVec.toNat_ushiftRight,
    BitField.toNat_append_add, BitField.toNat_append_add,
    Nat.shiftRight_eq_div_pow, Nat.shiftLeft_eq]
  show (p.toNat * 4096 + o.toNat) / 4096 * 4096 % 18446744073709551616 =
    p.toNat * 4096 + 0
  omega

section Fetch

variable {m : Page} {data : BitVec 64}

theorem page_fields (p : BitVec 52) (o : BitVec 12) :
    (p ++ o).extractLsb' 12 52 = p ∧ (p ++ o).extractLsb' 0 12 = o :=
  ⟨BitVec.extractLsb'_append_eq_left, BitVec.extractLsb'_append_eq_right⟩

theorem fetch_page (o : BitVec 12) :
    m.fetch data (m.page ++ o) =
      (m.rdata data o).map (Page.half · (o.getLsbD 2)) := by
  have hbit : (m.page ++ o).getLsbD 2 = o.getLsbD 2 := by
    rw [BitVec.getLsbD_append, if_pos (by decide)]
  rw [Page.fetch, (page_fields m.page o).1, if_pos rfl,
    (page_fields m.page o).2, hbit]

theorem half_false (x y : BitVec 32) : Page.half (x ++ y) false = y :=
  BitVec.extractLsb'_append_eq_right

theorem half_true (x y : BitVec 32) : Page.half (x ++ y) true = x :=
  BitVec.extractLsb'_append_eq_left

/-- Word `k` of the program. -/
def AbstractCmd.word (c : AbstractCmd) (k : ℕ) : BitVec 32 :=
  if k % 2 = 0 then c.lo (k / 2) else c.hi (k / 2)

theorem fetch_word {k : ℕ} (hk : k < 10) :
    m.fetch data (m.page ++ (AbstractCmdBase + BitVec.ofNat 12 (4 * k))) =
      some ((abstractCmd m.cmd).word k) := by
  have hto : ∀ k < 10,
      AbstractCmdBase + BitVec.ofNat 12 (4 * k) ≠ WhereTo := by decide
  have hdata : ∀ k < 10,
      ¬ (DataBase ≤ AbstractCmdBase + BitVec.ofNat 12 (4 * k) ∧
        AbstractCmdBase + BitVec.ofNat 12 (4 * k) < 0x388#12) := by decide
  have hprog : ∀ k < 10,
      ¬ (ProgBufBase ≤ AbstractCmdBase + BitVec.ofNat 12 (4 * k) ∧
        AbstractCmdBase + BitVec.ofNat 12 (4 * k) ≤ 0x37f#12) := by decide
  have hcmd : ∀ k < 10,
      AbstractCmdBase ≤ AbstractCmdBase + BitVec.ofNat 12 (4 * k) ∧
        AbstractCmdBase + BitVec.ofNat 12 (4 * k) ≤ 0x35f#12 := by decide
  have hindex : ∀ k < 10,
      Page.index (AbstractCmdBase + BitVec.ofNat 12 (4 * k))
        AbstractCmdBase = k / 2 := by decide
  have hhalf : ∀ k < 10,
      (AbstractCmdBase + BitVec.ofNat 12 (4 * k)).getLsbD 2 =
        decide (k % 2 = 1) := by decide
  rw [fetch_page, Page.rdata, if_neg (hto k hk), if_neg (hdata k hk),
    if_neg (hprog k hk), if_pos (hcmd k hk), hindex k hk, hhalf k hk,
    Option.map_some, AbstractCmd.word]
  rcases Nat.mod_two_eq_zero_or_one k with h0 | h1
  · rw [h0, if_pos rfl, decide_eq_false (by decide), half_false]
  · rw [h1, if_neg (by decide), decide_eq_true rfl, half_true]

end Fetch

/-! ## The words of a transfer -/

/-- A register that a command may name. -/
inductive Target where
  | gpr (r : Reg)
  | fpr (r : Reg)
  | csr (c : BitVec 12)
  deriving DecidableEq

/-- The numbers from `0x1000`, from `0x1020` and from `0`. -/
def Target.regno : Target → BitVec 16
  | gpr r => 0x080#11 ++ r
  | fpr r => 0x081#11 ++ r
  | csr c => 0#4 ++ c

/-- A transfer from or to a register, but for the scratch registers. -/
structure Transfer (cmd : BitVec 32) (t : Target) : Prop where
  cmdtype : cmdtype cmd = AccessRegister
  transfer : transfer cmd = true
  size_lt : aarsize cmd < 4#3
  regno : regno cmd = t.regno
  ne_dscratch0 : t ≠ .csr CSR_DSCRATCH0
  ne_dscratch1 : t ≠ .csr CSR_DSCRATCH1

theorem regno_gpr (r : Reg) :
    (Target.gpr r).regno.extractLsb' 14 2 = 0#2 ∧
      (Target.gpr r).regno.getLsbD 12 = true ∧
      (Target.gpr r).regno.getLsbD 5 = false ∧
      (Target.gpr r).regno.extractLsb' 0 5 = r := by
  refine ⟨?_, ?_, ?_, BitVec.extractLsb'_append_eq_right⟩
  · rw [Target.regno, field_high (by decide)]
    rfl
  · rw [Target.regno, BitVec.getLsbD_append, if_neg (by decide)]
    rfl
  · rw [Target.regno, BitVec.getLsbD_append, if_neg (by decide)]
    rfl

theorem regno_fpr (r : Reg) :
    (Target.fpr r).regno.extractLsb' 14 2 = 0#2 ∧
      (Target.fpr r).regno.getLsbD 12 = true ∧
      (Target.fpr r).regno.getLsbD 5 = true ∧
      (Target.fpr r).regno.extractLsb' 0 5 = r := by
  refine ⟨?_, ?_, ?_, BitVec.extractLsb'_append_eq_right⟩
  · rw [Target.regno, field_high (by decide)]
    rfl
  · rw [Target.regno, BitVec.getLsbD_append, if_neg (by decide)]
    rfl
  · rw [Target.regno, BitVec.getLsbD_append, if_neg (by decide)]
    rfl

theorem regno_csr (c : BitVec 12) :
    (Target.csr c).regno.extractLsb' 14 2 = 0#2 ∧
      (Target.csr c).regno.getLsbD 12 = false ∧
      (Target.csr c).regno.extractLsb' 0 12 = c := by
  refine ⟨?_, ?_, BitVec.extractLsb'_append_eq_right⟩
  · rw [Target.regno, field_high (by decide)]
    rfl
  · rw [Target.regno, BitVec.getLsbD_append, if_neg (by decide)]
    rfl

/-- The instructions that save `a0` and get the address of the module. -/
def prologue : List Instr :=
  [.csrrw 0#5 a0 CSR_DSCRATCH1, .auipc a0 0#20, .srli a0 a0 12#6,
    .slli a0 a0 12#6]

def nops : List Instr :=
  [.addi 0#5 0#5 0#12, .addi 0#5 0#5 0#12, .addi 0#5 0#5 0#12]

/-- A transfer through `s0`. -/
def throughS0 (i j : Instr) : List Instr :=
  [.csrrw 0#5 s0 CSR_DSCRATCH0, i, j, .csrrs s0 0#5 CSR_DSCRATCH0]

/-- The program around the instructions of a transfer, but for its last
word. -/
def program (body : List Instr) : List Instr :=
  prologue ++ body ++ [.csrrs a0 0#5 CSR_DSCRATCH1]

/-- The instructions that move a register. -/
def body (cmd : BitVec 32) : Target → List Instr
  | .gpr r =>
    if write cmd then
      if r = a0 then
        throughS0 (.load (aarsize cmd) s0 a0 DataAddr)
          (.csrrw 0#5 s0 CSR_DSCRATCH1)
      else .load (aarsize cmd) r a0 DataAddr :: nops
    else if r = a0 then
      throughS0 (.csrrs s0 0#5 CSR_DSCRATCH1)
        (.store (aarsize cmd) s0 a0 DataAddr)
    else .store (aarsize cmd) r a0 DataAddr :: nops
  | .fpr r =>
    if write cmd then .fload (aarsize cmd) r a0 DataAddr :: nops
    else .fstore (aarsize cmd) r a0 DataAddr :: nops
  | .csr c =>
    if write cmd then
      throughS0 (.load (aarsize cmd) s0 a0 DataAddr) (.csrrw 0#5 s0 c)
    else
      throughS0 (.csrrs s0 0#5 c) (.store (aarsize cmd) s0 a0 DataAddr)

/-- The last word: the hart leaves, or runs into the program buffer. -/
def AbstractCmd.finish (c : AbstractCmd) (postexec : Bool) : AbstractCmd :=
  if postexec then c.setHi 4 nop else c

/-- The instructions of the program, but for the last. -/
def AbstractCmd.decoded (c : AbstractCmd) : List (Option Instr) :=
  (List.range 9).map fun k => Rv64.decode (c.word k)

theorem decode_csrw (csr : BitVec 12) (r : Reg) :
    Rv64.decode (csrw csr r) = some (.csrrw 0#5 r csr) :=
  Rv64.decode_csrrw

theorem decode_csrr (csr : BitVec 12) (r : Reg) :
    Rv64.decode (csrr csr r) = some (.csrrs r 0#5 csr) :=
  Rv64.decode_csrrs

theorem decode_load {size : BitVec 3} (hsize : size < 4#3) (r : Reg) :
    Rv64.decode (load size r a0 DataAddr) =
      some (.load size r a0 DataAddr) := by
  refine Rv64.decode_load fun h7 => ?_
  rw [h7] at hsize
  exact absurd hsize (by decide)

theorem decode_store {size : BitVec 3} (hsize : size < 4#3) (r : Reg) :
    Rv64.decode (store size r a0 DataAddr) =
      some (.store size r a0 DataAddr) :=
  Rv64.decode_store hsize

theorem decode_nop : Rv64.decode nop = some (.addi 0#5 0#5 0#12) := by
  decide

/-- The default memory with the word that saves `a0`. -/
def AbstractCmd.saved : AbstractCmd :=
  AbstractCmd.default.setLo 0 (csrw CSR_DSCRATCH1 a0)

theorem decode_auipc : Rv64.decode (auipc a0 0#21) = some (.auipc a0 0#20) := by
  decide

theorem decode_srli : Rv64.decode (srli a0 a0 12#6) =
    some (.srli a0 a0 12#6) := by
  decide

theorem decode_slli : Rv64.decode (slli a0 a0 12#6) =
    some (.slli a0 a0 12#6) := by
  decide

theorem decoded_direct {w : BitVec 32} {i : Instr}
    (hi : Rv64.decode w = some i) (b : Bool) :
    ((AbstractCmd.saved.setLo 2 w).finish b).decoded =
      (program (i :: nops)).map some := by
  have hlist : ((AbstractCmd.saved.setLo 2 w).finish b).decoded =
      [csrw CSR_DSCRATCH1 a0, auipc a0 0#21, srli a0 a0 12#6,
        slli a0 a0 12#6, w, nop, nop, nop,
        csrr CSR_DSCRATCH1 a0].map Rv64.decode := by
    cases b <;> rfl
  rw [hlist]
  simp only [List.map_cons, List.map_nil, decode_csrw, decode_auipc,
    decode_srli, decode_slli, hi, decode_nop, decode_csrr]
  rfl

theorem decoded_throughS0 {w w' : BitVec 32} {i j : Instr}
    (hi : Rv64.decode w = some i) (hj : Rv64.decode w' = some j) (b : Bool) :
    ((AbstractCmd.saved.throughS0 w w').finish b).decoded =
      (program (throughS0 i j)).map some := by
  have hlist : ((AbstractCmd.saved.throughS0 w w').finish b).decoded =
      [csrw CSR_DSCRATCH1 a0, auipc a0 0#21, srli a0 a0 12#6,
        slli a0 a0 12#6, csrw CSR_DSCRATCH0 s0, w, w',
        csrr CSR_DSCRATCH0 s0, csrr CSR_DSCRATCH1 a0].map Rv64.decode := by
    cases b <;> rfl
  rw [hlist]
  simp only [List.map_cons, List.map_nil, decode_csrw, decode_auipc,
    decode_srli, decode_slli, hi, hj, decode_csrr]
  rfl

/-- The program of a command before its last word, which leaves. -/
structure AbstractCmd.Holds (c : AbstractCmd) (is : List Instr) : Prop where
  supported : c.unsupported = false
  last : c.hi 4 = ebreak
  decoded : ∀ b, (c.finish b).decoded = (program is).map some

theorem holds_direct {w : BitVec 32} {i : Instr}
    (hi : Rv64.decode w = some i) :
    (AbstractCmd.saved.setLo 2 w).Holds (i :: nops) :=
  ⟨rfl, rfl, decoded_direct hi⟩

theorem holds_throughS0 {w w' : BitVec 32} {i j : Instr}
    (hi : Rv64.decode w = some i) (hj : Rv64.decode w' = some j) :
    (AbstractCmd.saved.throughS0 w w').Holds (throughS0 i j) :=
  ⟨rfl, rfl, decoded_throughS0 hi hj⟩

section Transfer

variable {cmd : BitVec 32} {t : Target}

theorem isA0_gpr {r : Reg} (h : regno cmd = (Target.gpr r).regno) :
    isA0 cmd = decide (r = a0) := by
  obtain ⟨-, h12, h5, hr⟩ := regno_gpr r
  rw [isA0, h, h12, h5, hr, Bool.not_false, Bool.and_self, Bool.true_and]

theorem writeCmd_holds (h : Transfer cmd t) (hw : write cmd = true) :
    (writeCmd cmd).Holds (body cmd t) := by
  have hload : ∀ r, Rv64.decode (load (aarsize cmd) r a0 DataAddr) = _ :=
    decode_load h.size_lt
  cases t with
  | gpr r =>
    obtain ⟨h14, h12, h5, hr⟩ := regno_gpr r
    simp only [writeCmd, body, isA0_gpr h.regno, h.regno, h14, h12, h5, hr,
      hw, ne_eq, not_true, if_false, if_true, decide_eq_true_eq,
      Bool.false_eq_true]
    split
    · exact holds_throughS0 (hload s0) (decode_csrw _ _)
    · exact holds_direct (hload r)
  | fpr r =>
    obtain ⟨h14, h12, h5, hr⟩ := regno_fpr r
    have ha0 : isA0 cmd = false := by
      rw [isA0, h.regno, h5, Bool.not_true, Bool.and_false, Bool.false_and]
    simp only [writeCmd, body, ha0, h.regno, h14, h12, h5, hr, hw, ne_eq,
      not_true, if_false, if_true, Bool.false_eq_true]
    exact holds_direct Rv64.decode_fload
  | csr c =>
    obtain ⟨h14, h12, hc⟩ := regno_csr c
    have ha0 : isA0 cmd = false := by
      rw [isA0, h.regno, h12, Bool.false_and, Bool.false_and]
    simp only [writeCmd, body, ha0, h.regno, h14, h12, hc, hw, ne_eq,
      not_true, if_false, if_true, Bool.false_eq_true]
    exact holds_throughS0 (hload s0) (decode_csrw _ _)

theorem readCmd_holds (h : Transfer cmd t) (hw : write cmd = false) :
    (readCmd cmd).Holds (body cmd t) := by
  have hstore : ∀ r, Rv64.decode (store (aarsize cmd) r a0 DataAddr) = _ :=
    decode_store h.size_lt
  cases t with
  | gpr r =>
    obtain ⟨h14, h12, h5, hr⟩ := regno_gpr r
    simp only [readCmd, body, isA0_gpr h.regno, h.regno, h14, h12, h5, hr,
      hw, ne_eq, not_true, if_false, if_true, decide_eq_true_eq,
      Bool.false_eq_true]
    split
    · exact holds_throughS0 (decode_csrr _ _) (hstore s0)
    · exact holds_direct (hstore r)
  | fpr r =>
    obtain ⟨h14, h12, h5, hr⟩ := regno_fpr r
    have ha0 : isA0 cmd = false := by
      rw [isA0, h.regno, h5, Bool.not_true, Bool.and_false, Bool.false_and]
    simp only [readCmd, body, ha0, h.regno, h14, h12, h5, hr, hw, ne_eq,
      not_true, if_false, if_true, Bool.false_eq_true]
    exact holds_direct Rv64.decode_fstore
  | csr c =>
    obtain ⟨h14, h12, hc⟩ := regno_csr c
    have ha0 : isA0 cmd = false := by
      rw [isA0, h.regno, h12, Bool.false_and, Bool.false_and]
    simp only [readCmd, body, ha0, h.regno, h14, h12, hc, hw, ne_eq,
      not_true, if_false, Bool.false_eq_true]
    exact holds_throughS0 (decode_csrr _ _) (hstore s0)

theorem abstractCmd_of_transfer (h : Transfer cmd t) :
    ∃ c : AbstractCmd, c.Holds (body cmd t) ∧
      abstractCmd cmd = c.finish (postexec cmd) := by
  have hsize : decide (aarsize cmd < 4#3) = true := decide_eq_true h.size_lt
  cases hw : write cmd with
  | true =>
    refine ⟨writeCmd cmd, writeCmd_holds h hw, ?_⟩
    have hu := (writeCmd_holds h hw).supported
    simp only [abstractCmd, h.cmdtype, hsize, h.transfer, hw, hu, if_true,
      Bool.and_self, Bool.not_false, Bool.and_true, AbstractCmd.finish]
  | false =>
    refine ⟨readCmd cmd, readCmd_holds h hw, ?_⟩
    have hu := (readCmd_holds h hw).supported
    simp only [abstractCmd, h.cmdtype, hsize, h.transfer, hw, hu, if_true,
      Bool.and_self, Bool.not_false, Bool.and_true, Bool.and_false,
      Bool.false_eq_true, if_false, AbstractCmd.finish]

end Transfer

end ArianeSoc.Dm
