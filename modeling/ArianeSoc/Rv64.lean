import ArianeSoc.InstrFormat
import Mathlib.Algebra.Group.Nat.Defs
import Mathlib.Data.Nat.Bits

/-!
# A hart that runs a program in debug mode

The instructions of RV64 that such programs use: the jump, immediate and
shift instructions, loads and stores of integer and floating-point
registers, CSR accesses and `ebreak`.  The CSRs of a hart, the floating-point
formats that it has and its bus are a parameter, `Env`.  In debug mode
`ebreak` and an exception go to an address each.

* `decode_load` and the lemmas beside it decode the words of the formats.
* `steps_execs`: a program without jumps is executed word by word.
* `reg_setReg`: the integer registers after a write.

Nothing here names a design.
-/

namespace Rv64

open InstrFormat

inductive Instr where
  | auipc (rd : Reg) (imm : BitVec 20)
  | jal (rd : Reg) (half : BitVec 20)
  | addi (rd rs1 : Reg) (imm : BitVec 12)
  | slli (rd rs1 : Reg) (shamt : BitVec 6)
  | srli (rd rs1 : Reg) (shamt : BitVec 6)
  | load (funct3 : BitVec 3) (rd rs1 : Reg) (imm : BitVec 12)
  | store (funct3 : BitVec 3) (rs2 rs1 : Reg) (imm : BitVec 12)
  | fload (funct3 : BitVec 3) (rd rs1 : Reg) (imm : BitVec 12)
  | fstore (funct3 : BitVec 3) (rs2 rs1 : Reg) (imm : BitVec 12)
  | csrrw (rd rs1 : Reg) (csr : BitVec 12)
  | csrrs (rd rs1 : Reg) (csr : BitVec 12)
  | ebreak
  deriving DecidableEq

/-- The instruction goes on with the next one. -/
def Instr.plain : Instr → Bool
  | .jal .. | .ebreak => false
  | _ => true

def decode (w : BitVec 32) : Option Instr :=
  let opcode := w.extractLsb' 0 7
  let rd := w.extractLsb' 7 5
  let funct3 := w.extractLsb' 12 3
  let rs1 := w.extractLsb' 15 5
  let rs2 := w.extractLsb' 20 5
  let immI := w.extractLsb' 20 12
  let immS := w.extractLsb' 25 7 ++ w.extractLsb' 7 5
  if opcode = 0x17#7 then some (.auipc rd (w.extractLsb' 12 20))
  else if opcode = 0x6f#7 then
    some (.jal rd (w.extractLsb' 31 1 ++ w.extractLsb' 12 8 ++
      w.extractLsb' 20 1 ++ w.extractLsb' 21 10))
  else if opcode = 0x13#7 then
    if funct3 = 0#3 then some (.addi rd rs1 immI)
    else if funct3 = 1#3 ∧ w.extractLsb' 26 6 = 0#6 then
      some (.slli rd rs1 (immI.extractLsb' 0 6))
    else if funct3 = 5#3 ∧ w.extractLsb' 26 6 = 0#6 then
      some (.srli rd rs1 (immI.extractLsb' 0 6))
    else none
  else if opcode = 0x03#7 then
    if funct3 = 7#3 then none else some (.load funct3 rd rs1 immI)
  else if opcode = 0x23#7 then
    if funct3 < 4#3 then some (.store funct3 rs2 rs1 immS) else none
  else if opcode = 0x07#7 then some (.fload funct3 rd rs1 immI)
  else if opcode = 0x27#7 then some (.fstore funct3 rs2 rs1 immS)
  else if opcode = 0x73#7 then
    if funct3 = 1#3 then some (.csrrw rd rs1 immI)
    else if funct3 = 2#3 then some (.csrrs rd rs1 immI)
    else if w = 0x00100073#32 then some .ebreak
    else none
  else none

section Decode

variable {imm : BitVec 12} {rd rs1 rs2 : Reg} {funct3 : BitVec 3}

theorem decode_auipc {imm : BitVec 20} :
    decode (uType imm rd 0x17#7) = some (.auipc rd imm) := by
  obtain ⟨hop, hrd, himm⟩ := @uType_fields rd 0x17#7 imm
  simp [decode, hop, hrd, himm]

theorem decode_slli {shamt : BitVec 6} :
    decode (iType (0#6 ++ shamt) rs1 1#3 rd 0x13#7) =
      some (.slli rd rs1 shamt) := by
  obtain ⟨hop, hrd, hf, hrs1, himm, hupper⟩ :=
    @iType_fields (0#6 ++ shamt) rs1 rd 1#3 0x13#7
  have hlow : (0#6 ++ shamt).extractLsb' 0 6 = shamt :=
    BitVec.extractLsb'_append_eq_right
  have hhigh : (0#6 ++ shamt).extractLsb' 6 6 = 0#6 :=
    BitVec.extractLsb'_append_eq_left
  rw [hhigh] at hupper
  simp only [decode, hop, hrd, hf, hrs1, himm, hupper, hlow]
  rfl

theorem decode_srli {shamt : BitVec 6} :
    decode (iType (0#6 ++ shamt) rs1 5#3 rd 0x13#7) =
      some (.srli rd rs1 shamt) := by
  obtain ⟨hop, hrd, hf, hrs1, himm, hupper⟩ :=
    @iType_fields (0#6 ++ shamt) rs1 rd 5#3 0x13#7
  have hlow : (0#6 ++ shamt).extractLsb' 0 6 = shamt :=
    BitVec.extractLsb'_append_eq_right
  have hhigh : (0#6 ++ shamt).extractLsb' 6 6 = 0#6 :=
    BitVec.extractLsb'_append_eq_left
  rw [hhigh] at hupper
  simp only [decode, hop, hrd, hf, hrs1, himm, hupper, hlow]
  rfl

theorem decode_load (hf : funct3 ≠ 7#3) :
    decode (iType imm rs1 funct3 rd 0x03#7) =
      some (.load funct3 rd rs1 imm) := by
  obtain ⟨hop, hrd, hf3, hrs1, himm, -⟩ :=
    @iType_fields imm rs1 rd funct3 0x03#7
  simp [decode, hop, hrd, hf3, hrs1, himm, hf]

theorem decode_store (hf : funct3 < 4#3) :
    decode (sType imm rs2 rs1 funct3 0x23#7) =
      some (.store funct3 rs2 rs1 imm) := by
  obtain ⟨hop, hf3, hrs1, hrs2, himm⟩ :=
    @sType_fields imm rs1 rs2 funct3 0x23#7
  simp [decode, hop, hf3, hrs1, hrs2, himm, hf]

theorem decode_fload :
    decode (iType imm rs1 funct3 rd 0x07#7) =
      some (.fload funct3 rd rs1 imm) := by
  obtain ⟨hop, hrd, hf3, hrs1, himm, -⟩ :=
    @iType_fields imm rs1 rd funct3 0x07#7
  simp [decode, hop, hrd, hf3, hrs1, himm]

theorem decode_fstore :
    decode (sType imm rs2 rs1 funct3 0x27#7) =
      some (.fstore funct3 rs2 rs1 imm) := by
  obtain ⟨hop, hf3, hrs1, hrs2, himm⟩ :=
    @sType_fields imm rs1 rs2 funct3 0x27#7
  simp [decode, hop, hf3, hrs1, hrs2, himm]

theorem decode_csrrw :
    decode (iType imm rs1 1#3 rd 0x73#7) = some (.csrrw rd rs1 imm) := by
  obtain ⟨hop, hrd, hf3, hrs1, himm, -⟩ :=
    @iType_fields imm rs1 rd 1#3 0x73#7
  simp [decode, hop, hrd, hf3, hrs1, himm]

theorem decode_csrrs :
    decode (iType imm rs1 2#3 rd 0x73#7) = some (.csrrs rd rs1 imm) := by
  obtain ⟨hop, hrd, hf3, hrs1, himm, -⟩ :=
    @iType_fields imm rs1 rd 2#3 0x73#7
  simp [decode, hop, hrd, hf3, hrs1, himm]

end Decode

/-! ## The hart -/

/-- The registers, with the state `σ` of the CSRs and `μ` of the memory. -/
structure Hart (σ μ : Type) where
  pc : BitVec 64
  x : Reg → BitVec 64
  f : Reg → BitVec 64
  csrs : σ
  mem : μ

/-- What a hart has and is connected to. -/
structure Env (σ μ : Type) where
  csrRead : σ → BitVec 12 → Option (BitVec 64)
  csrWrite : σ → BitVec 12 → BitVec 64 → Option σ
  /-- The floating-point loads and stores of this width are legal. -/
  fpLegal : σ → BitVec 3 → Bool
  fetch : μ → BitVec 64 → Option (BitVec 32)
  /-- The bytes from an address on, of which a load takes those it needs. -/
  load : μ → BitVec 64 → Option (BitVec 64)
  /-- A store of the lowest `2 ^ n` bytes. -/
  store : μ → BitVec 64 → ℕ → BitVec 64 → Option μ
  /-- Where `ebreak` goes, and an exception. -/
  entry : BitVec 64
  exception : BitVec 64

variable {σ μ : Type}

namespace Hart

variable (h : Hart σ μ)

/-- An integer register; `x0` reads as zero. -/
def reg (r : Reg) : BitVec 64 := if r = 0#5 then 0#64 else h.x r

def setReg (r : Reg) (v : BitVec 64) : Hart σ μ :=
  { h with x := fun k => if k = r then v else h.x k }

def next : Hart σ μ := { h with pc := h.pc + 4#64 }

variable {h} {r k : Reg} {v : BitVec 64}

@[simp] theorem reg_next : h.next.reg r = h.reg r := rfl

theorem reg_setReg : (h.setReg r v).reg k =
    if k = r ∧ k ≠ 0#5 then v else h.reg k := by
  rw [reg, reg, setReg]
  by_cases hk : k = 0#5 <;> simp [hk]

theorem reg_setReg_self (hr : r ≠ 0#5) : (h.setReg r v).reg r = v := by
  rw [reg_setReg, if_pos ⟨rfl, hr⟩]

theorem reg_setReg_of_ne (hk : k ≠ r) : (h.setReg r v).reg k = h.reg k := by
  rw [reg_setReg, if_neg fun hkr => hk hkr.1]

end Hart

/-! ## Execution -/

/-- The bits of an access, by the lower bits of `funct3`. -/
def width (funct3 : BitVec 3) : ℕ := 8 * 2 ^ (funct3.extractLsb' 0 2).toNat

/-- The value of a load, extended by the upper bit of `funct3`. -/
def extend (funct3 : BitVec 3) (v : BitVec 64) : BitVec 64 :=
  if funct3.getLsbD 2 then (v.setWidth (width funct3)).setWidth 64
  else (v.setWidth (width funct3)).signExtend 64

/-- A narrow value in a floating-point register is boxed. -/
def box (funct3 : BitVec 3) (v : BitVec 64) : BitVec 64 :=
  (BitVec.allOnes 64 <<< width funct3) |||
    (v.setWidth (width funct3)).setWidth 64

namespace Env

variable (e : Env σ μ) (h : Hart σ μ)

/-- The hart after an instruction, if that makes no exception. -/
def exec : Instr → Option (Hart σ μ)
  | .auipc rd imm =>
    some (h.setReg rd (h.pc + (imm ++ 0#12).signExtend 64)).next
  | .jal rd half =>
    some
      { h.setReg rd (h.pc + 4#64) with
        pc := h.pc + (half ++ 0#1).signExtend 64 }
  | .addi rd rs1 imm =>
    some (h.setReg rd (h.reg rs1 + imm.signExtend 64)).next
  | .slli rd rs1 shamt =>
    some (h.setReg rd (h.reg rs1 <<< shamt.toNat)).next
  | .srli rd rs1 shamt =>
    some (h.setReg rd (h.reg rs1 >>> shamt.toNat)).next
  | .load funct3 rd rs1 imm =>
    (e.load h.mem (h.reg rs1 + imm.signExtend 64)).map fun v =>
      (h.setReg rd (extend funct3 v)).next
  | .store funct3 rs2 rs1 imm =>
    (e.store h.mem (h.reg rs1 + imm.signExtend 64)
      (funct3.extractLsb' 0 2).toNat (h.reg rs2)).map fun m =>
        { h with mem := m }.next
  | .fload funct3 rd rs1 imm =>
    if e.fpLegal h.csrs funct3 then
      (e.load h.mem (h.reg rs1 + imm.signExtend 64)).map fun v =>
        { h with
          f := fun k => if k = rd then box funct3 v else h.f k }.next
    else none
  | .fstore funct3 rs2 rs1 imm =>
    if e.fpLegal h.csrs funct3 then
      (e.store h.mem (h.reg rs1 + imm.signExtend 64)
        (funct3.extractLsb' 0 2).toNat (h.f rs2)).map fun m =>
          { h with mem := m }.next
    else none
  | .csrrw rd rs1 csr =>
    -- without a destination the CSR is not read
    if rd = 0#5 then
      (e.csrWrite h.csrs csr (h.reg rs1)).map fun s =>
        { h with csrs := s }.next
    else
      (e.csrRead h.csrs csr).bind fun v =>
        (e.csrWrite h.csrs csr (h.reg rs1)).map fun s =>
          ({ h with csrs := s }.setReg rd v).next
  | .csrrs rd rs1 csr =>
    (e.csrRead h.csrs csr).bind fun v =>
      if rs1 = 0#5 then some (h.setReg rd v).next
      else
        (e.csrWrite h.csrs csr (v ||| h.reg rs1)).map fun s =>
          ({ h with csrs := s }.setReg rd v).next
  | .ebreak => some { h with pc := e.entry }

/-- The instruction at an address. -/
def instrAt (m : μ) (a : BitVec 64) : Option Instr :=
  (e.fetch m a).bind decode

def step : Hart σ μ :=
  ((e.instrAt h.mem h.pc).bind (e.exec h)).getD { h with pc := e.exception }

def steps : ℕ → Hart σ μ → Hart σ μ
  | 0, h => h
  | n + 1, h => steps n (e.step h)

/-- A list of instructions, one after the other. -/
def execs : List Instr → Hart σ μ → Option (Hart σ μ)
  | [], h => some h
  | i :: is, h => (e.exec h i).bind (execs is)

variable {e h} {h' h'' : Hart σ μ} {i : Instr} {is js : List Instr}

theorem step_eq (hi : e.instrAt h.mem h.pc = some i)
    (hexec : e.exec h i = some h') : e.step h = h' := by
  rw [step, hi, Option.bind_some, hexec, Option.getD_some]

theorem steps_add (n m : ℕ) : e.steps (n + m) h = e.steps m (e.steps n h) := by
  induction n generalizing h with
  | zero => rw [Nat.zero_add, steps]
  | succ n ih => rw [Nat.succ_add, steps, steps, ih]

theorem execs_append :
    e.execs (is ++ js) h = (e.execs is h).bind (e.execs js) := by
  induction is generalizing h with
  | nil => rfl
  | cons i is ih =>
    rw [List.cons_append, execs, execs, Option.bind_assoc]
    congr 1
    funext h
    exact ih

theorem pc_of_exec (hplain : i.plain = true)
    (hexec : e.exec h i = some h') : h'.pc = h.pc + 4#64 := by
  cases i with
  | jal rd half => cases hplain
  | ebreak => cases hplain
  | auipc rd imm => cases hexec; rfl
  | addi rd rs1 imm => cases hexec; rfl
  | slli rd rs1 shamt => cases hexec; rfl
  | srli rd rs1 shamt => cases hexec; rfl
  | load funct3 rd rs1 imm =>
    obtain ⟨v, -, rfl⟩ := Option.map_eq_some_iff.1 hexec
    rfl
  | store funct3 rs2 rs1 imm =>
    obtain ⟨m, -, rfl⟩ := Option.map_eq_some_iff.1 hexec
    rfl
  | fload funct3 rd rs1 imm =>
    rw [exec] at hexec
    split at hexec
    · obtain ⟨v, -, rfl⟩ := Option.map_eq_some_iff.1 hexec
      rfl
    · cases hexec
  | fstore funct3 rs2 rs1 imm =>
    rw [exec] at hexec
    split at hexec
    · obtain ⟨m, -, rfl⟩ := Option.map_eq_some_iff.1 hexec
      rfl
    · cases hexec
  | csrrw rd rs1 csr =>
    rw [exec] at hexec
    split at hexec
    · obtain ⟨s, -, rfl⟩ := Option.map_eq_some_iff.1 hexec
      rfl
    · obtain ⟨v, -, hs⟩ := Option.bind_eq_some_iff.1 hexec
      obtain ⟨s, -, rfl⟩ := Option.map_eq_some_iff.1 hs
      rfl
  | csrrs rd rs1 csr =>
    obtain ⟨v, -, hs⟩ := Option.bind_eq_some_iff.1 hexec
    split at hs
    · cases hs
      rfl
    · obtain ⟨s, -, rfl⟩ := Option.map_eq_some_iff.1 hs
      rfl

theorem pc_of_execs (hplain : ∀ i ∈ is, i.plain = true)
    (hexecs : e.execs is h = some h') :
    h'.pc = h.pc + BitVec.ofNat 64 (4 * is.length) := by
  induction is generalizing h with
  | nil =>
    cases hexecs
    exact (BitVec.add_zero _).symm
  | cons i is ih =>
    obtain ⟨h₁, hexec, hrest⟩ := Option.bind_eq_some_iff.1 hexecs
    have hpc : h₁.pc = h.pc + 4#64 :=
      pc_of_exec (hplain i List.mem_cons_self) hexec
    rw [ih (fun j hj => hplain j (List.mem_cons_of_mem i hj)) hrest, hpc,
      BitVec.add_assoc, List.length_cons, Nat.mul_succ,
      Nat.add_comm (4 * is.length), BitVec.ofNat_add]

/-- A program without jumps at the program counter, which is there whatever
it stores. -/
theorem steps_execs (hplain : ∀ i ∈ is, i.plain = true)
    (hcode : ∀ (m : μ), ∀ k < is.length,
      e.instrAt m (h.pc + BitVec.ofNat 64 (4 * k)) = is[k]?)
    (hexecs : e.execs is h = some h') : e.steps is.length h = h' := by
  induction is generalizing h with
  | nil =>
    cases hexecs
    rfl
  | cons i is ih =>
    obtain ⟨h₁, hexec, hrest⟩ := Option.bind_eq_some_iff.1 hexecs
    have hpc : h₁.pc = h.pc + 4#64 :=
      pc_of_exec (hplain i List.mem_cons_self) hexec
    have hi : e.instrAt h.mem h.pc = some i := by
      have h0 := hcode h.mem 0 (Nat.succ_pos _)
      rwa [Nat.mul_zero, BitVec.add_zero] at h0
    rw [List.length_cons, steps, step_eq hi hexec]
    refine ih (fun j hj => hplain j (List.mem_cons_of_mem i hj)) ?_ hrest
    intro m k hk
    have hnext := hcode m (k + 1) (Nat.succ_lt_succ hk)
    have haddr : h₁.pc + BitVec.ofNat 64 (4 * k) =
        h.pc + BitVec.ofNat 64 (4 * (k + 1)) := by
      rw [hpc, BitVec.add_assoc, Nat.mul_succ, Nat.add_comm (4 * k),
        BitVec.ofNat_add]
    rw [haddr, hnext, List.getElem?_cons_succ]

end Env

end Rv64
