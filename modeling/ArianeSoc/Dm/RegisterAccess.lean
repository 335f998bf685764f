import ArianeSoc.Dm.AbstractCommand

/-!
# Access to the registers of a halted hart

`access` is what a transfer should do with the registers and the data words.
While a program has `a0`, and `s0`, in the scratch registers, `view` shows the
registers as they are outside of it, so that each of its instructions either
keeps the view or is the access.

* `execs_put` and `execs_get`: a transfer through the view.
* `steps_transfer`: the hart gets to the program, does the access and leaves
  or goes on in the program buffer.
-/

namespace ArianeSoc.Dm

open InstrFormat
open Rv64 (Hart Instr Env)

/-! ## Register access -/

/-- The registers of a hart, but for the scratch registers. -/
structure Regs (σ : Type) where
  gpr : Reg → BitVec 64
  fpr : Reg → BitVec 64
  csrs : σ

namespace Regs

variable {σ : Type} (cpu : Cpu σ) (size : BitVec 3) (s : Regs σ)

/-- The value of a register that the hart can read. -/
def get : Target → Option (BitVec 64)
  | .gpr r => some (s.gpr r)
  | .fpr r => if cpu.fpLegal s.csrs size then some (s.fpr r) else none
  | .csr c => cpu.csrRead s.csrs c

/-- A value to a register that the hart can write; `x0` stays zero. -/
def put (d : BitVec 64) : Target → Option (Regs σ)
  | .gpr r =>
    some
      { s with
        gpr := fun k =>
          if k = r ∧ k ≠ 0#5 then Rv64.extend size d else s.gpr k }
  | .fpr r =>
    if cpu.fpLegal s.csrs size then
      some
        { s with
          fpr := fun k => if k = r then Rv64.box size d else s.fpr k }
    else none
  | .csr c =>
    (cpu.csrWrite s.csrs c (Rv64.extend size d)).map fun x =>
      { s with csrs := x }

end Regs

/-- The lowest bytes of the data words are replaced. -/
def narrow (size : BitVec 3) (d v : BitVec 64) : BitVec 64 :=
  BitField.merge ((BitVec.allOnes (Rv64.width size)).setWidth 64) d v

/-- What a transfer does to the registers and to the data words. -/
def access {σ : Type} (cpu : Cpu σ) (cmd : BitVec 32) (t : Target)
    (s : Regs σ) (d : BitVec 64) : Option (Regs σ × BitVec 64) :=
  if write cmd then (s.put cpu (aarsize cmd) d t).map (·, d)
  else (s.get cpu (aarsize cmd) t).map (s, narrow (aarsize cmd) d ·)

/-- The registers of a hart whose `a0`, and whose `s0` where a transfer goes
through it, are in the scratch registers. -/
def view {σ : Type} (through : Bool) (h : Hart (HartCsrs σ) (BitVec 64)) :
    Regs σ where
  gpr k :=
    if k = a0 then h.csrs.dscratch1
    else if through = true ∧ k = s0 then h.csrs.dscratch0
    else h.reg k
  fpr := h.f
  csrs := h.csrs.others

/-- The registers of a hart. -/
def regs {σ : Type} (h : Hart (HartCsrs σ) (BitVec 64)) : Regs σ where
  gpr := h.reg
  fpr := h.f
  csrs := h.csrs.others

section Bus

variable {m : Page} {data : BitVec 64} {size : BitVec 3}

theorem data_address (p : BitVec 52) :
    p ++ 0#12 + DataAddr.signExtend 64 = p ++ DataAddr :=
  page_add p (o := 0#12) (n := 0x380) (by decide)

theorem loadBus_data : m.loadBus data (m.page ++ DataAddr) = some data := by
  have hlow : (m.page ++ DataAddr).extractLsb' 0 3 = 0#3 := by
    rw [field_low (by decide)]
    rfl
  rw [Page.loadBus, (page_fields m.page _).1, if_pos rfl,
    (page_fields m.page _).2, hlow]
  show some (data >>> 0) = some data
  rw [BitVec.ushiftRight_zero]

/-- The lanes of an access at the start of a double word. -/
theorem mask_lanes (hsize : size < 4#3) (a v : BitVec 64) :
    HartWrite.mask
      ⟨a, v, (BitVec.allOnes (2 ^ (size.extractLsb' 0 2).toNat)).setWidth 8
        <<< (0#3).toNat⟩ =
      (BitVec.allOnes (Rv64.width size)).setWidth 64 := by
  have h : ∀ size : BitVec 3, size < 4#3 →
      (List.range 8).foldl (fun (m : BitVec 64) k =>
        if ((BitVec.allOnes (2 ^ (size.extractLsb' 0 2).toNat)).setWidth 8
          <<< (0#3).toNat).getLsbD k then m ||| (0xff#64 <<< (8 * k))
        else m) 0#64 =
        (BitVec.allOnes (Rv64.width size)).setWidth 64 := by decide +kernel
  exact h size hsize

theorem storeBus_data (hsize : size < 4#3) (v : BitVec 64) :
    m.storeBus data (m.page ++ DataAddr) (size.extractLsb' 0 2).toNat v =
      some (narrow size data v) := by
  have hlow : (m.page ++ DataAddr).extractLsb' 0 3 = 0#3 := by
    rw [field_low (by decide)]
    rfl
  have hoff : (m.page ++ DataAddr).setWidth 12 = DataAddr :=
    BitVec.setWidth_append_eq_right
  rw [Page.storeBus, (page_fields m.page _).1, if_pos rfl, hlow]
  simp only [HartWrite.isData, HartWrite.offset, hoff, HartWrite.patch,
    mask_lanes hsize]
  show some (BitField.merge _ data (v <<< 0)) = _
  rw [BitVec.shiftLeft_zero, narrow]

end Bus

section Exec

variable {σ : Type} {m : Page} {cpu : Cpu σ}
  {h : Hart (HartCsrs σ) (BitVec 64)} {cmd : BitVec 32} {t : Target}
  {size : BitVec 3} {r : Reg}

/-- The hart has the address of the module in `a0`. -/
def Based (m : Page) (h : Hart (HartCsrs σ) (BitVec 64)) : Prop :=
  h.reg a0 = m.page ++ 0#12

theorem exec_load (hbase : Based m h) :
    (m.env cpu).exec h (.load size r a0 DataAddr) =
      some (h.setReg r (Rv64.extend size h.mem)).next := by
  show (m.loadBus h.mem (h.reg a0 + _)).map _ = _
  rw [hbase, data_address, loadBus_data, Option.map_some]

theorem exec_store (hsize : size < 4#3) (hbase : Based m h) :
    (m.env cpu).exec h (.store size r a0 DataAddr) =
      some { h with mem := narrow size h.mem (h.reg r) }.next := by
  show (m.storeBus h.mem (h.reg a0 + _) _ _).map _ = _
  rw [hbase, data_address, storeBus_data hsize, Option.map_some]

theorem exec_fload (hbase : Based m h)
    (hlegal : cpu.fpLegal h.csrs.others size = true) :
    (m.env cpu).exec h (.fload size r a0 DataAddr) =
      some
        { h with
          f := fun k =>
            if k = r then Rv64.box size h.mem else h.f k }.next := by
  show (if cpu.fpLegal h.csrs.others size then
    (m.loadBus h.mem (h.reg a0 + _)).map _ else none) = _
  rw [hlegal, if_pos rfl, hbase, data_address, loadBus_data,
    Option.map_some]

theorem exec_fstore (hsize : size < 4#3) (hbase : Based m h)
    (hlegal : cpu.fpLegal h.csrs.others size = true) :
    (m.env cpu).exec h (.fstore size r a0 DataAddr) =
      some { h with mem := narrow size h.mem (h.f r) }.next := by
  show (if cpu.fpLegal h.csrs.others size then
    (m.storeBus h.mem (h.reg a0 + _) _ _).map _ else none) = _
  rw [hlegal, if_pos rfl, hbase, data_address, storeBus_data hsize,
    Option.map_some]

theorem view_false {k : Reg} :
    (view false h).gpr k = if k = a0 then h.csrs.dscratch1 else h.reg k := by
  simp [view]

theorem view_true {k : Reg} :
    (view true h).gpr k =
      if k = a0 then h.csrs.dscratch1
      else if k = s0 then h.csrs.dscratch0
      else h.reg k := by
  simp [view]

theorem regs_eq_view {q : Hart (HartCsrs σ) (BitVec 64)} {b : Bool}
    (hgpr : ∀ k, h.reg k = (view b q).gpr k) (hfpr : h.f = q.f)
    (hcsrs : h.csrs.others = q.csrs.others) : regs h = view b q := by
  rw [regs, view, hfpr, hcsrs, Regs.mk.injEq]
  exact ⟨funext hgpr, rfl, rfl⟩

/-- The program counter without the offset, to `a0`. -/
theorem execs_base (cpu : Cpu σ) {o : BitVec 12} (hpc : h.pc = m.page ++ o) :
    ∃ h', (m.env cpu).execs
        [.auipc a0 0#20, .srli a0 a0 12#6, .slli a0 a0 12#6] h = some h' ∧
      Based m h' ∧ (∀ k, k ≠ a0 → h'.reg k = h.reg k) ∧ h'.f = h.f ∧
      h'.csrs = h.csrs ∧ h'.mem = h.mem := by
  let h₁ := (h.setReg a0 (h.pc + (0#20 ++ 0#12).signExtend 64)).next
  let h₂ := (h₁.setReg a0 (h₁.reg a0 >>> (12#6).toNat)).next
  let h₃ := (h₂.setReg a0 (h₂.reg a0 <<< (12#6).toNat)).next
  have hexecs : (m.env cpu).execs
      [.auipc a0 0#20, .srli a0 a0 12#6, .slli a0 a0 12#6] h = some h₃ := rfl
  have h₁a0 : h₁.reg a0 = h.pc := by
    rw [Hart.reg_next, Hart.reg_setReg_self (by decide)]
    exact BitVec.add_zero h.pc
  have h₂a0 : h₂.reg a0 = h₁.reg a0 >>> 12 := by
    rw [Hart.reg_next, Hart.reg_setReg_self (by decide)]
    rfl
  have h₃a0 : h₃.reg a0 = h₂.reg a0 <<< 12 := by
    rw [Hart.reg_next, Hart.reg_setReg_self (by decide)]
    rfl
  refine ⟨h₃, hexecs, ?_, ?_, rfl, rfl, rfl⟩
  · rw [Based, h₃a0, h₂a0, h₁a0, hpc, page_shift]
  · intro k hk
    rw [Hart.reg_next, Hart.reg_setReg_of_ne hk, Hart.reg_next,
      Hart.reg_setReg_of_ne hk, Hart.reg_next, Hart.reg_setReg_of_ne hk]

/-- `prologue` saves `a0`. -/
theorem execs_prologue (cpu : Cpu σ) {o : BitVec 12} (hpc : h.pc = m.page ++ o)
    (ho : o.toNat + 4 < 4096) :
    ∃ h', (m.env cpu).execs prologue h = some h' ∧ Based m h' ∧
      view false h' = regs h ∧ h'.mem = h.mem := by
  let h₁ : Hart (HartCsrs σ) (BitVec 64) :=
    { h with csrs := { h.csrs with dscratch1 := h.reg a0 } }.next
  have hsave : (m.env cpu).exec h (.csrrw 0#5 a0 CSR_DSCRATCH1) = some h₁ :=
    rfl
  have hpc₁ : h₁.pc = m.page ++ (o + 4#12) := by
    show h.pc + 4#64 = _
    rw [hpc, page_add m.page (n := 4) ho]
  obtain ⟨h', hexecs, hbase, hreg, hf, hcsrs, hmem⟩ :=
    execs_base cpu hpc₁
  refine ⟨h', ?_, hbase, ?_, hmem⟩
  · rw [prologue, Env.execs, hsave, Option.bind_some, hexecs]
  refine (regs_eq_view (fun k => ?_) hf.symm ?_).symm
  · rw [view_false, hcsrs]
    by_cases hk : k = a0
    · rw [if_pos hk, hk]
      rfl
    · rw [if_neg hk, hreg k hk]
  · rw [hcsrs]

/-- The last instruction restores it. -/
theorem execs_epilogue (m : Page) (cpu : Cpu σ)
    (h : Hart (HartCsrs σ) (BitVec 64)) :
    ∃ h', (m.env cpu).execs [.csrrs a0 0#5 CSR_DSCRATCH1] h = some h' ∧
      regs h' = view false h ∧ h'.mem = h.mem := by
  refine ⟨(h.setReg a0 h.csrs.dscratch1).next, rfl, ?_, rfl⟩
  refine regs_eq_view (fun k => ?_) rfl rfl
  rw [Hart.reg_next, view_false]
  by_cases hk : k = a0
  · rw [if_pos hk, hk, Hart.reg_setReg_self (by decide)]
  · rw [if_neg hk, Hart.reg_setReg_of_ne hk]

/-- A write of `x0`. -/
theorem view_zero {v : BitVec 64} :
    view false (h.setReg 0#5 v).next = view false h := by
  have hreg : ∀ k, (h.setReg 0#5 v).reg k = h.reg k := by
    intro k
    rw [Hart.reg_setReg, if_neg fun hk => hk.2 hk.1]
  rw [view, view, Regs.mk.injEq]
  exact ⟨funext fun k => by rw [Hart.reg_next, hreg]; rfl, rfl, rfl⟩

theorem execs_nops (m : Page) (cpu : Cpu σ)
    (h : Hart (HartCsrs σ) (BitVec 64)) :
    ∃ h', (m.env cpu).execs nops h = some h' ∧
      view false h' = view false h ∧ h'.mem = h.mem := by
  refine ⟨_, rfl, ?_, rfl⟩
  rw [view_zero, view_zero, view_zero]

/-- A transfer by one instruction. -/
theorem execs_direct {i : Instr} {q : Hart (HartCsrs σ) (BitVec 64)}
    {s : Regs σ} {d : BitVec 64} (hi : (m.env cpu).exec h i = some q)
    (hview : view false q = s) (hmem : q.mem = d) :
    ∃ h', (m.env cpu).execs (i :: nops) h = some h' ∧
      view false h' = s ∧ h'.mem = d := by
  obtain ⟨h', hnops, hview', hmem'⟩ := execs_nops m cpu q
  refine ⟨h', ?_, hview'.trans hview, hmem'.trans hmem⟩
  rw [Env.execs, hi, Option.bind_some, hnops]

/-- A transfer by two instructions that may change `s0`. -/
theorem execs_throughS0 {i j : Instr} {s : Regs σ} {d : BitVec 64}
    (hij : ∀ p, Based m p → view true p = view false h → p.mem = h.mem →
      ∃ q, (m.env cpu).execs [i, j] p = some q ∧ view true q = s ∧ q.mem = d)
    (hbase : Based m h) :
    ∃ h', (m.env cpu).execs (throughS0 i j) h = some h' ∧
      view false h' = s ∧ h'.mem = d := by
  let p : Hart (HartCsrs σ) (BitVec 64) :=
    { h with csrs := { h.csrs with dscratch0 := h.reg s0 } }.next
  have hp : view true p = view false h := by
    rw [view, view, Regs.mk.injEq]
    refine ⟨funext fun k => ?_, rfl, rfl⟩
    by_cases hk : k = s0
    · rw [hk]
      rfl
    · simp only [hk, and_false]
      rfl
  obtain ⟨q, hexecs, hview, hmem⟩ := hij p hbase hp rfl
  refine ⟨(q.setReg s0 q.csrs.dscratch0).next, ?_, ?_, hmem⟩
  · have hsplit : throughS0 i j =
        [.csrrw 0#5 s0 CSR_DSCRATCH0] ++ [i, j] ++
          [.csrrs s0 0#5 CSR_DSCRATCH0] := rfl
    rw [hsplit, Env.execs_append, Env.execs_append]
    show (((m.env cpu).execs [i, j] p).bind _) = _
    rw [hexecs]
    rfl
  · rw [← hview, view, view, Regs.mk.injEq]
    refine ⟨funext fun k => ?_, rfl, rfl⟩
    rw [Hart.reg_next]
    by_cases hk : k = s0
    · rw [hk, Hart.reg_setReg_self (by decide)]
      rfl
    · simp only [Hart.reg_setReg_of_ne hk, hk, and_false]
      rfl

theorem view_setReg {v : BitVec 64} (hr : r ≠ a0) :
    view false (h.setReg r v).next =
      { view false h with
        gpr := fun k =>
          if k = r ∧ k ≠ 0#5 then v else (view false h).gpr k } := by
  rw [view, Regs.mk.injEq]
  refine ⟨funext fun k => ?_, rfl, rfl⟩
  simp only [Bool.false_eq_true, false_and, if_false, view_false]
  by_cases hk : k = a0
  · have hkr : ¬ (k = r ∧ k ≠ 0#5) := fun hkr => hr (hkr.1.symm.trans hk)
    rw [if_pos hk, if_neg hkr, if_pos hk]
    rfl
  · rw [if_neg hk, if_neg hk, Hart.reg_next, Hart.reg_setReg]

theorem view_s0 {v : BitVec 64} :
    view true (h.setReg s0 v).next = view true h := by
  rw [view, view, Regs.mk.injEq]
  refine ⟨funext fun k => ?_, rfl, rfl⟩
  rw [Hart.reg_next]
  by_cases hk : k = s0
  · rw [hk]
    rfl
  · rw [Hart.reg_setReg_of_ne hk]
    rfl

/-- A write of the saved `a0`. -/
theorem view_dscratch1 {v : BitVec 64} :
    view true { h with csrs := { h.csrs with dscratch1 := v } }.next =
      { view true h with
        gpr := fun k =>
          if k = a0 ∧ k ≠ 0#5 then v else (view true h).gpr k } := by
  rw [view, Regs.mk.injEq]
  refine ⟨funext fun k => ?_, rfl, rfl⟩
  rw [view_true]
  by_cases hk : k = a0
  · have hk0 : k ≠ 0#5 := hk ▸ (by decide : a0 ≠ 0#5)
    rw [if_pos hk, if_pos ⟨hk, hk0⟩]
    rfl
  · have hka : ¬ (k = a0 ∧ k ≠ 0#5) := fun hka => hk hka.1
    simp only [if_neg hk, if_neg hka, true_and]
    rfl

/-- The data words to a CSR. -/
theorem execs_load_csrw {c : BitVec 12} {x : HartCsrs σ} (hbase : Based m h)
    (hx : h.csrs.write cpu c (Rv64.extend size h.mem) = some x) :
    (m.env cpu).execs
        [.load size s0 a0 DataAddr, .csrrw 0#5 s0 c] h =
      some
        { (h.setReg s0 (Rv64.extend size h.mem)).next with csrs := x }.next := by
  let q := (h.setReg s0 (Rv64.extend size h.mem)).next
  have hs0 : q.reg s0 = Rv64.extend size h.mem := by
    rw [Hart.reg_next, Hart.reg_setReg_self (by decide)]
  rw [Env.execs, exec_load hbase, Option.bind_some, Env.execs]
  show (Option.map _ (HartCsrs.write cpu h.csrs c (q.reg s0))).bind _ = _
  rw [hs0, hx]
  rfl

/-- A CSR to the data words. -/
theorem execs_csrr_store {c : BitVec 12} {v : BitVec 64}
    (hsize : size < 4#3) (hbase : Based m h)
    (hv : h.csrs.read cpu c = some v) :
    (m.env cpu).execs
        [.csrrs s0 0#5 c, .store size s0 a0 DataAddr] h =
      some
        { (h.setReg s0 v).next with mem := narrow size h.mem v }.next := by
  have hs0 : (h.setReg s0 v).next.reg s0 = v := by
    rw [Hart.reg_next, Hart.reg_setReg_self (by decide)]
  have hcsrr : (m.env cpu).exec h (.csrrs s0 0#5 c) =
      some (h.setReg s0 v).next := by
    show (HartCsrs.read cpu h.csrs c).bind _ = _
    rw [hv]
    rfl
  have hbase' : Based m (h.setReg s0 v).next := by
    rw [Based, Hart.reg_next, Hart.reg_setReg_of_ne (by decide)]
    exact hbase
  rw [Env.execs, hcsrr, Option.bind_some, Env.execs, exec_store hsize hbase',
    hs0]
  rfl

theorem HartCsrs.write_others {x : HartCsrs σ} {c : BitVec 12} {v : BitVec 64}
    {o : σ} (h0 : c ≠ CSR_DSCRATCH0) (h1 : c ≠ CSR_DSCRATCH1)
    (hwrite : cpu.csrWrite x.others c v = some o) :
    x.write cpu c v = some { x with others := o } := by
  rw [HartCsrs.write, if_neg h0, if_neg h1, hwrite, Option.map_some]

theorem HartCsrs.read_others {x : HartCsrs σ} {c : BitVec 12}
    (h0 : c ≠ CSR_DSCRATCH0) (h1 : c ≠ CSR_DSCRATCH1) :
    x.read cpu c = cpu.csrRead x.others c := by
  rw [HartCsrs.read, if_neg h0, if_neg h1]

/-- The data words to a register, while `a0` is saved. -/
theorem execs_put (hr : Transfer cmd t) (hw : write cmd = true)
    (hbase : Based m h) {s : Regs σ}
    (hput : (view false h).put cpu (aarsize cmd) h.mem t = some s) :
    ∃ h', (m.env cpu).execs (body cmd t) h = some h' ∧
      view false h' = s ∧ h'.mem = h.mem := by
  cases t with
  | gpr r =>
    simp only [body, hw, if_true]
    cases hput
    by_cases hra : r = a0
    · rw [if_pos hra, hra]
      refine execs_throughS0 (fun p hp hview hmem => ?_) hbase
      refine ⟨_, execs_load_csrw hp rfl, ?_, hmem⟩
      rw [← hview, ← hmem,
        ← view_s0 (h := p) (v := Rv64.extend (aarsize cmd) p.mem)]
      exact view_dscratch1
    · rw [if_neg hra]
      refine execs_direct (exec_load hbase) ?_ rfl
      exact view_setReg hra
  | fpr r =>
    simp only [body, hw, if_true]
    rw [Regs.put] at hput
    split at hput
    · rename_i hlegal
      cases hput
      exact execs_direct (exec_fload hbase hlegal) rfl rfl
    · cases hput
  | csr c =>
    have h0 : c ≠ CSR_DSCRATCH0 := fun hc => hr.ne_dscratch0 (hc ▸ rfl)
    have h1 : c ≠ CSR_DSCRATCH1 := fun hc => hr.ne_dscratch1 (hc ▸ rfl)
    simp only [body, hw, if_true]
    obtain ⟨o, hwrite, rfl⟩ := Option.map_eq_some_iff.1 hput
    refine execs_throughS0 (fun p hp hview hmem => ?_) hbase
    have hothers : p.csrs.others = h.csrs.others :=
      congrArg Regs.csrs hview
    have hx : p.csrs.write cpu c (Rv64.extend (aarsize cmd) p.mem) =
        some { p.csrs with others := o } := by
      refine HartCsrs.write_others h0 h1 ?_
      rw [hothers, hmem]
      exact hwrite
    refine ⟨_, execs_load_csrw hp hx, ?_, hmem⟩
    rw [← hview, ← view_s0 (h := p)]
    rfl

/-- A register to the data words, while `a0` is saved. -/
theorem execs_get (hr : Transfer cmd t) (hw : write cmd = false)
    (hbase : Based m h) {v : BitVec 64}
    (hget : (view false h).get cpu (aarsize cmd) t = some v) :
    ∃ h', (m.env cpu).execs (body cmd t) h = some h' ∧
      view false h' = view false h ∧
      h'.mem = narrow (aarsize cmd) h.mem v := by
  have hsize := hr.size_lt
  cases t with
  | gpr r =>
    simp only [body, hw, if_false, Bool.false_eq_true]
    cases hget
    by_cases hra : r = a0
    · rw [if_pos hra, hra]
      refine execs_throughS0 (fun p hp hview hmem => ?_) hbase
      refine ⟨_, execs_csrr_store hsize hp rfl, ?_, ?_⟩
      · rw [← hview, ← view_s0 (h := p)]
        rfl
      · rw [← hview, ← hmem]
        rfl
    · rw [if_neg hra]
      refine execs_direct (exec_store hsize hbase) rfl ?_
      rw [view_false, if_neg hra]
      rfl
  | fpr r =>
    simp only [body, hw, if_false, Bool.false_eq_true]
    rw [Regs.get] at hget
    split at hget
    · rename_i hlegal
      cases hget
      exact execs_direct (exec_fstore hsize hbase hlegal) rfl rfl
    · cases hget
  | csr c =>
    have h0 : c ≠ CSR_DSCRATCH0 := fun hc => hr.ne_dscratch0 (hc ▸ rfl)
    have h1 : c ≠ CSR_DSCRATCH1 := fun hc => hr.ne_dscratch1 (hc ▸ rfl)
    simp only [body, hw, if_false, Bool.false_eq_true]
    refine execs_throughS0 (fun p hp hview hmem => ?_) hbase
    have hothers : p.csrs.others = h.csrs.others :=
      congrArg Regs.csrs hview
    have hv : p.csrs.read cpu c = some v := by
      rw [HartCsrs.read_others h0 h1, hothers]
      exact hget
    refine ⟨_, execs_csrr_store hsize hp hv, ?_, ?_⟩
    · rw [← hview, ← view_s0 (h := p)]
      rfl
    · rw [← hmem]
      rfl

/-- The program of a transfer, but for its last word. -/
theorem execs_program {o : BitVec 12} (hr : Transfer cmd t)
    (hpc : h.pc = m.page ++ o) (ho : o.toNat + 4 < 4096)
    {s : Regs σ} {d : BitVec 64}
    (haccess : access cpu cmd t (regs h) h.mem = some (s, d)) :
    ∃ h', (m.env cpu).execs (program (body cmd t)) h = some h' ∧
      regs h' = s ∧ h'.mem = d := by
  obtain ⟨p, hprologue, hbase, hview, hmem⟩ :=
    execs_prologue cpu hpc ho
  have hbody : ∃ q, (m.env cpu).execs (body cmd t) p = some q ∧
      view false q = s ∧ q.mem = d := by
    rw [access, ← hview, ← hmem] at haccess
    cases hw : write cmd with
    | true =>
      rw [hw, if_pos rfl] at haccess
      obtain ⟨s', hput, heq⟩ := Option.map_eq_some_iff.1 haccess
      obtain ⟨rfl, rfl⟩ := Prod.mk.inj heq
      exact execs_put hr hw hbase hput
    | false =>
      rw [hw, if_neg (by decide)] at haccess
      obtain ⟨v, hget, heq⟩ := Option.map_eq_some_iff.1 haccess
      obtain ⟨rfl, rfl⟩ := Prod.mk.inj heq
      exact execs_get hr hw hbase hget
  obtain ⟨q, hexecs, hq, hqmem⟩ := hbody
  obtain ⟨h', hepilogue, hregs, hmem'⟩ :=
    execs_epilogue m cpu q
  refine ⟨h', ?_, hregs.trans hq, hmem'.trans hqmem⟩
  rw [program, Env.execs_append, Env.execs_append, hprologue,
    Option.bind_some, hexecs, Option.bind_some, hepilogue]

theorem instrAt_whereTo (cpu : Cpu σ) {w : BitVec 32} {i : Instr} {d : BitVec 64}
    (hw : m.whereTo = some w) (hi : Rv64.decode w = some i) :
    (m.env cpu).instrAt d (m.page ++ WhereTo) = some i := by
  have hfetch : m.fetch d (m.page ++ WhereTo) = some w := by
    rw [fetch_page, Page.rdata, if_pos rfl, hw, Option.map_some,
      Option.map_some, show WhereTo.getLsbD 2 = false from rfl, half_false]
  show (m.fetch d (m.page ++ WhereTo)).bind Rv64.decode = some i
  rw [hfetch, Option.bind_some, hi]

theorem regs_zero {v : BitVec 64} : regs (h.setReg 0#5 v) = regs h := by
  rw [regs, regs, Regs.mk.injEq]
  refine ⟨funext fun k => ?_, rfl, rfl⟩
  rw [Hart.reg_setReg, if_neg fun hk => hk.2 hk.1]

/-- A jump on the page. -/
theorem step_jal {half : BitVec 20} {o : BitVec 12} (o' : BitVec 12)
    (hpc : h.pc = m.page ++ o)
    (hi : (m.env cpu).instrAt h.mem h.pc = some (.jal 0#5 half))
    (hhalf : (half ++ 0#1).signExtend 64 = BitVec.ofNat 64 (o' - o).toNat)
    (ho : o.toNat + (o' - o).toNat < 4096) :
    ((m.env cpu).step h).pc = m.page ++ o' ∧
      regs ((m.env cpu).step h) = regs h ∧
      ((m.env cpu).step h).mem = h.mem := by
  rw [Env.step_eq hi rfl]
  refine ⟨?_, regs_zero, rfl⟩
  show h.pc + (half ++ 0#1).signExtend 64 = _
  rw [hhalf, hpc, page_add m.page ho, BitVec.ofNat_toNat, BitVec.setWidth_eq,
    BitVec.add_comm, BitVec.sub_add_cancel]

theorem plain_program (cmd : BitVec 32) (t : Target) :
    ∀ i ∈ program (body cmd t), i.plain = true := by
  rw [← List.all_eq_true]
  cases t with
  | gpr r =>
    simp only [body]
    split
    · split <;> rfl
    · split <;> rfl
  | fpr r =>
    simp only [body]
    split <;> rfl
  | csr c =>
    simp only [body]
    split <;> rfl

/-- Word `k` of the program is at its address. -/
theorem instrAt_word (cpu : Cpu σ) {d : BitVec 64} {k : ℕ} (hk : k < 10) :
    (m.env cpu).instrAt d
        (m.page ++ AbstractCmdBase + BitVec.ofNat 64 (4 * k)) =
      Rv64.decode ((abstractCmd m.cmd).word k) := by
  have haddr : AbstractCmdBase.toNat + 4 * k < 4096 := by
    rw [show AbstractCmdBase.toNat = 824 from rfl]
    omega
  rw [page_add m.page haddr]
  show (m.fetch d _).bind Rv64.decode = _
  rw [fetch_word hk, Option.bind_some]

/-- The last word of a supported command. -/
theorem word_last {c : AbstractCmd} {is : List Instr} (hc : c.Holds is)
    (b : Bool) :
    Rv64.decode ((c.finish b).word 9) =
      if b then some (.addi 0#5 0#5 0#12) else some .ebreak := by
  cases b with
  | true => exact decode_nop
  | false =>
    show Rv64.decode (c.hi 4) = _
    rw [hc.last]
    decide

/-- The instructions of a supported command are at their addresses. -/
theorem instrAt_program (cpu : Cpu σ) {c : AbstractCmd} {is : List Instr} {d : BitVec 64}
    (hc : c.Holds is) (hcmd : abstractCmd m.cmd = c.finish (postexec m.cmd)) :
    (program is).length = 9 ∧ ∀ k < 9,
      (m.env cpu).instrAt d
          (m.page ++ AbstractCmdBase + BitVec.ofNat 64 (4 * k)) =
        (program is)[k]? := by
  have hlen := congrArg List.length (hc.decoded (postexec m.cmd))
  rw [AbstractCmd.decoded, List.length_map, List.length_map,
    List.length_range] at hlen
  refine ⟨hlen.symm, fun k hk => ?_⟩
  have hget := congrArg (fun l => l[k]?) (hc.decoded (postexec m.cmd))
  simp only [AbstractCmd.decoded, List.getElem?_map,
    List.getElem?_range hk, Option.map_some] at hget
  rw [instrAt_word cpu (Nat.lt_succ_of_lt hk), hcmd]
  have hk' : k < (program is).length := by omega
  rw [List.getElem?_eq_getElem hk', Option.map_some, Option.some_inj] at hget
  rw [hget, List.getElem?_eq_getElem hk']

/-- The hart runs the program of a transfer, and leaves or goes on in the
program buffer. -/
theorem steps_transfer (hr : Transfer m.cmd t) (hbusy : m.cmdbusy = true)
    (hpc : h.pc = m.page ++ WhereTo) {s : Regs σ} {d : BitVec 64}
    (haccess : access cpu m.cmd t (regs h) h.mem = some (s, d)) :
    regs ((m.env cpu).steps 11 h) = s ∧
      ((m.env cpu).steps 11 h).mem = d ∧
      ((m.env cpu).steps 11 h).pc =
        m.page ++ if postexec m.cmd then ProgBufBase else HaltAddress := by
  have hto : m.whereTo =
      some (jal 0#5 ((AbstractCmdBase - WhereTo).setWidth 21)) := by
    rw [Page.whereTo, if_pos hbusy, hr.transfer, Bool.not_true,
      Bool.and_false, Bool.false_and, if_neg (by decide)]
  have hjal := instrAt_whereTo cpu (d := h.mem)
    (i := .jal 0#5 0x1c#20) hto (by decide)
  rw [← hpc] at hjal
  obtain ⟨hpc₁, hregs₁, hmem₁⟩ :=
    step_jal AbstractCmdBase hpc hjal (by decide) (by decide)
  obtain ⟨c, hc, hcmd⟩ := abstractCmd_of_transfer hr
  rw [← hregs₁, ← hmem₁] at haccess
  obtain ⟨h₂, hexecs, hregs₂, hmem₂⟩ :=
    execs_program (m := m) hr hpc₁ (by decide) haccess
  obtain ⟨hlen, -⟩ := instrAt_program cpu (d := h.mem) hc hcmd
  have hsteps : (m.env cpu).steps 9 ((m.env cpu).step h) = h₂ := by
    rw [← hlen]
    refine Env.steps_execs (plain_program m.cmd t) ?_ hexecs
    intro d k hk
    rw [hpc₁]
    exact (instrAt_program cpu (d := d) hc hcmd).2 k (hlen ▸ hk)
  have hpc₂ : h₂.pc = m.page ++ AbstractCmdBase + BitVec.ofNat 64 (4 * 9) := by
    rw [Env.pc_of_execs (plain_program m.cmd t) hexecs, hpc₁, hlen]
  have hlast := instrAt_word cpu (m := m) (d := h₂.mem) (k := 9) (by decide)
  rw [hcmd, word_last hc, ← hpc₂] at hlast
  have hall : (m.env cpu).steps 11 h = (m.env cpu).step h₂ := by
    show (m.env cpu).steps (9 + 1) ((m.env cpu).step h) = _
    rw [Env.steps_add, hsteps]
    rfl
  rw [hall]
  cases hpost : postexec m.cmd with
  | true =>
    rw [hpost, if_pos rfl] at hlast
    rw [Env.step_eq hlast rfl]
    refine ⟨?_, hmem₂, ?_⟩
    · rw [← hregs₂]
      exact regs_zero
    · show h₂.pc + 4#64 = _
      rw [hpc₂, BitVec.add_assoc]
      exact page_add m.page (n := 40) (by decide)
  | false =>
    rw [hpost, if_neg (by decide)] at hlast
    rw [Env.step_eq hlast rfl]
    exact ⟨hregs₂, hmem₂, rfl⟩

/-- Without a transfer the hart jumps to the program buffer. -/
theorem step_postexec (hcmd : cmdtype m.cmd = AccessRegister)
    (htransfer : transfer m.cmd = false) (hpost : postexec m.cmd = true)
    (hbusy : m.cmdbusy = true) (hpc : h.pc = m.page ++ WhereTo) :
    ((m.env cpu).step h).pc = m.page ++ ProgBufBase ∧
      regs ((m.env cpu).step h) = regs h ∧
      ((m.env cpu).step h).mem = h.mem := by
  have hto : m.whereTo =
      some (jal 0#5 ((ProgBufBase - WhereTo).setWidth 21)) := by
    rw [Page.whereTo, if_pos hbusy, hcmd, htransfer, hpost]
    rfl
  have hjal := instrAt_whereTo cpu (d := h.mem)
    (i := .jal 0#5 0x30#20) hto (by decide)
  rw [← hpc] at hjal
  exact step_jal ProgBufBase hpc hjal (by decide) (by decide)

/-- A transfer to a register keeps the other integer registers, and one from
a register keeps them all. -/
theorem gpr_of_access {s s' : Regs σ} {d d' : BitVec 64}
    (haccess : access cpu cmd t s d = some (s', d'))
    (hr : write cmd = false ∨ t ≠ .gpr r) : s'.gpr r = s.gpr r := by
  rw [access] at haccess
  split at haccess
  · rename_i hw
    obtain ⟨s'', hput, heq⟩ := Option.map_eq_some_iff.1 haccess
    obtain ⟨rfl, -⟩ := Prod.mk.inj heq
    rw [hw] at hr
    have ht : t ≠ .gpr r := hr.resolve_left (by decide)
    cases t with
    | gpr r' =>
      cases hput
      exact if_neg fun (hrr : r = r' ∧ r ≠ 0#5) => ht (hrr.1 ▸ rfl)
    | fpr r' =>
      rw [Regs.put] at hput
      split at hput
      · cases hput
        rfl
      · cases hput
    | csr c =>
      obtain ⟨o, -, rfl⟩ := Option.map_eq_some_iff.1 hput
      rfl
  · obtain ⟨v, -, heq⟩ := Option.map_eq_some_iff.1 haccess
    obtain ⟨rfl, -⟩ := Prod.mk.inj heq
    rfl

end Exec

/-! ## Reports -/

/-- The numbers of which the two upper bits are set are reserved. -/
theorem unsupported_move (cmd : BitVec 32) :
    (writeCmd cmd).unsupported = ((regno cmd).extractLsb' 14 2 != 0#2) ∧
      (readCmd cmd).unsupported =
        ((regno cmd).extractLsb' 14 2 != 0#2) := by
  by_cases h14 : (regno cmd).extractLsb' 14 2 = 0#2
  · rw [h14, bne_self_eq_false]
    constructor
    · rw [writeCmd, if_neg (not_not.2 h14)]
      split_ifs <;> rfl
    · rw [readCmd, if_neg (not_not.2 h14)]
      split_ifs <;> rfl
  · rw [bne_iff_ne.2 h14, writeCmd, if_pos h14, readCmd, if_pos h14]
    exact ⟨rfl, rfl⟩

theorem unsupportedCommand_fields (cmd : BitVec 32) :
    unsupportedCommand cmd =
      if cmdtype cmd = AccessRegister then
        if aarsize cmd < 4#3 && transfer cmd then
          (regno cmd).extractLsb' 14 2 != 0#2
        else 4#3 ≤ aarsize cmd || aarpostincrement cmd
      else true := by
  have hregno : (regno cmd).extractLsb' 14 2 = cmd.extractLsb' 14 2 :=
    BitVec.extractLsb'_extractLsb'_of_le (by decide)
  rw [hregno]
  rfl

theorem unsupported_eq (cmd : BitVec 32) :
    (abstractCmd cmd).unsupported = unsupportedCommand cmd := by
  have hlast : ∀ (c : AbstractCmd) (b : Bool),
      (if b then c.setHi 4 nop else c).unsupported = c.unsupported := by
    intro c b
    cases b <;> rfl
  obtain ⟨hwrite, hread⟩ := unsupported_move cmd
  rw [abstractCmd, unsupportedCommand_fields]
  by_cases htype : cmdtype cmd = AccessRegister
  · rw [if_pos htype, hlast, if_pos htype]
    cases aarsize cmd < 4#3 && transfer cmd with
    | true =>
      cases write cmd with
      | true => exact hwrite
      | false => exact hread
    | false =>
      show (if 4#3 ≤ aarsize cmd || aarpostincrement cmd then _
        else AbstractCmd.default).unsupported = _
      cases decide (4#3 ≤ aarsize cmd) || aarpostincrement cmd <;> rfl
  · rw [if_neg htype, if_neg htype]
    rfl

/-- The commands that are reported. -/
theorem unsupported_of_other {cmd : BitVec 32}
    (h : cmdtype cmd ≠ AccessRegister ∨ 4#3 ≤ aarsize cmd ∨
      transfer cmd = true ∧ (regno cmd).extractLsb' 14 2 ≠ 0#2 ∨
      transfer cmd = false ∧ aarpostincrement cmd = true) :
    unsupportedCommand cmd = true := by
  rw [unsupportedCommand_fields]
  by_cases htype : cmdtype cmd = AccessRegister
  · rw [if_pos htype]
    obtain htype' | hsize | ⟨htransfer, hregno⟩ | ⟨htransfer, hincr⟩ := h
    · exact absurd htype htype'
    · have hlt : decide (aarsize cmd < 4#3) = false :=
        decide_eq_false (BitVec.not_lt.2 hsize)
      rw [hlt, Bool.false_and, if_neg (by decide), decide_eq_true hsize,
        Bool.true_or]
    · by_cases hsize : aarsize cmd < 4#3
      · rw [decide_eq_true hsize, htransfer, Bool.and_self, if_pos rfl]
        exact bne_iff_ne.2 hregno
      · rw [decide_eq_false hsize, Bool.false_and, if_neg (by decide),
          decide_eq_true (BitVec.not_lt.1 hsize), Bool.true_or]
    · rw [htransfer, Bool.and_false, if_neg (by decide), hincr, Bool.or_true]
  · exact if_neg htype

/-- Whether the debugger gets an error for the command. -/
def Reports (cmd : BitVec 32) (b : Bool) : Prop :=
  (abstractCmd cmd).unsupported = b ∧
    ∀ (q : Mem) (i : MemIn), i.cmd = cmd → i.cmdValid = true →
      i.exception = false →
      (q.cmderror i = some CmdErrNotSupported ↔ b = true)

theorem reports (cmd : BitVec 32) : Reports cmd (unsupportedCommand cmd) := by
  refine ⟨unsupported_eq cmd, fun q i hcmd hvalid hexception => ?_⟩
  rw [Mem.cmderror, hexception, hcmd, hvalid]
  cases unsupportedCommand cmd with
  | true => simp
  | false =>
    simp only [Bool.false_eq_true, if_false, Bool.false_and, iff_false]
    split
    · decide
    · decide

/-- Every transfer that the hart permits is not reported, does the access
and nothing else, and gets back to the debug ROM or, if it is to execute the
program buffer, there.  Commands of another type, too wide ones, those with a
reserved number and an increment without a transfer are reported.  Without a
transfer the program buffer is executed at once. -/
theorem Page.command_program {σ : Type} (m : Page) (cpu : Cpu σ)
    (hbusy : m.cmdbusy = true) :
    (∀ t, Transfer m.cmd t → Reports m.cmd false ∧
      ∀ (h : Hart (HartCsrs σ) (BitVec 64)) (s : Regs σ) (d : BitVec 64),
        h.pc = m.page ++ WhereTo →
        access cpu m.cmd t (regs h) h.mem = some (s, d) →
          regs ((m.env cpu).steps 11 h) = s ∧
          (∀ r, write m.cmd = false ∨ t ≠ .gpr r →
            ((m.env cpu).steps 11 h).reg r = h.reg r) ∧
          ((m.env cpu).steps 11 h).mem = d ∧
          ((m.env cpu).steps 11 h).pc =
            m.page ++
              if postexec m.cmd then ProgBufBase else HaltAddress) ∧
      (cmdtype m.cmd ≠ AccessRegister ∨ 4#3 ≤ aarsize m.cmd ∨
        transfer m.cmd = true ∧ (regno m.cmd).extractLsb' 14 2 ≠ 0#2 ∨
        transfer m.cmd = false ∧ aarpostincrement m.cmd = true →
          Reports m.cmd true) ∧
      (cmdtype m.cmd = AccessRegister → aarsize m.cmd < 4#3 →
        transfer m.cmd = false → aarpostincrement m.cmd = false →
        postexec m.cmd = true →
          Reports m.cmd false ∧
          ∀ h : Hart (HartCsrs σ) (BitVec 64), h.pc = m.page ++ WhereTo →
            ((m.env cpu).step h).pc = m.page ++ ProgBufBase ∧
            regs ((m.env cpu).step h) = regs h ∧
            ((m.env cpu).step h).mem = h.mem) := by
  refine ⟨fun t hr => ⟨?_, fun h s d hpc haccess => ?_⟩, fun hother => ?_,
    fun hcmd hsize htransfer hincr hpost => ⟨?_, fun h hpc => ?_⟩⟩
  · obtain ⟨c, hc, hcmd⟩ := abstractCmd_of_transfer hr
    have hu : unsupportedCommand m.cmd = false := by
      rw [← unsupported_eq, hcmd]
      cases postexec m.cmd <;> exact hc.supported
    exact hu ▸ reports m.cmd
  · obtain ⟨hregs, hmem, hpc'⟩ := steps_transfer hr hbusy hpc haccess
    refine ⟨hregs, fun r hne => ?_, hmem, hpc'⟩
    exact (congrFun (congrArg Regs.gpr hregs) r).trans
      (gpr_of_access haccess hne)
  · exact unsupported_of_other hother ▸ reports m.cmd
  · have hu : unsupportedCommand m.cmd = false := by
      rw [unsupportedCommand_fields, if_pos hcmd, htransfer, Bool.and_false,
        if_neg (by decide), hincr, Bool.or_false]
      exact decide_eq_false (BitVec.not_le.2 hsize)
    exact hu ▸ reports m.cmd
  · exact step_postexec hcmd htransfer hpost hbusy hpc

/-- A hart with `mscratch` and floating-point registers of 32 and 64 bits. -/
def mscratchCpu : Cpu (BitVec 64) where
  csrRead s c := if c = 0x340#12 then some s else none
  csrWrite _ c v := if c = 0x340#12 then some v else none
  fpLegal _ size := size = 2#3 || size = 3#3

/-- The module with a command, and with a loop in the program buffer. -/
def busyPage (cmd : BitVec 32) : Page where
  page := 0#52
  cmd := cmd
  progbuf := 0x6f#256
  hartsel := 0#20
  resumereq := false
  cmdbusy := true
  resume := false
  go := true

/-- A hart on its way to the program. -/
def goingHart : Hart (HartCsrs (BitVec 64)) (BitVec 64) where
  pc := 0#52 ++ WhereTo
  x r := if r = a0 then 5#64 else 6#64
  f _ := 0#64
  csrs := ⟨0#64, 0#64, 0#64⟩
  mem := 0xfffffff7#64

/-- A word of the data is moved to `a0`. -/
theorem Page.command_program_a0 :
    (regs (((busyPage 0x0023100a#32).env mscratchCpu).steps 11
        goingHart)).gpr a0 = 0xfffffffffffffff7#64 ∧
      (((busyPage 0x0023100a#32).env mscratchCpu).steps 11 goingHart).pc =
        0#52 ++ HaltAddress := by
  have hr : Transfer (busyPage 0x0023100a#32).cmd (.gpr a0) :=
    ⟨rfl, rfl, by decide, rfl, by decide, by decide⟩
  obtain ⟨hregs, -, -, hpc⟩ :=
    ((Page.command_program (busyPage 0x0023100a#32) mscratchCpu rfl).1
      (.gpr a0) hr).2 goingHart _ _ rfl rfl
  rw [hregs, hpc]
  decide +kernel

theorem pc_loop {cmd : BitVec 32} {n : ℕ}
    {h : Hart (HartCsrs (BitVec 64)) (BitVec 64)}
    (hpc : h.pc = 0#52 ++ ProgBufBase) :
    (((busyPage cmd).env mscratchCpu).steps n h).pc =
      0#52 ++ ProgBufBase := by
  induction n generalizing h with
  | zero => exact hpc
  | succ n ih =>
    have hfetch : (busyPage cmd).fetch h.mem (0#52 ++ ProgBufBase) =
        some 0x6f#32 := by
      refine (fetch_page (m := busyPage cmd) ProgBufBase).trans ?_
      rw [Page.rdata, if_neg (by decide), if_neg (by decide),
        if_pos (by decide)]
      rfl
    have hi : ((busyPage cmd).env mscratchCpu).instrAt h.mem h.pc =
        some (.jal 0#5 0#20) := by
      show ((busyPage cmd).fetch h.mem h.pc).bind Rv64.decode = _
      rw [hpc, hfetch]
      decide
    have hstep := step_jal (m := busyPage cmd) ProgBufBase hpc hi (by decide)
      (by decide)
    rw [Env.steps]
    exact ih hstep.1

/-- A command with `postexec` may never get back to the ROM, one without a
transfer is not reported, and a transfer to a register that the hart cannot
write makes an exception and changes `a0`. -/
theorem Page.not_command_program :
    (Transfer 0x00361001#32 (.gpr 1#5) ∧ ∀ n,
      (((busyPage 0x00361001#32).env mscratchCpu).steps n goingHart).pc ≠
        0#52 ++ HaltAddress) ∧
    ((∀ t, ¬ Transfer 0x00240000#32 t) ∧ Reports 0x00240000#32 false) ∧
    (Transfer 0x00330f11#32 (.csr 0xf11#12) ∧
      (((busyPage 0x00330f11#32).env mscratchCpu).steps 8 goingHart).pc =
        0#52 ++ ExceptionAddress ∧
      (((busyPage 0x00330f11#32).env mscratchCpu).steps 8 goingHart).reg a0 ≠
        goingHart.reg a0) := by
  have hr : Transfer 0x00361001#32 (.gpr 1#5) :=
    ⟨rfl, rfl, by decide, rfl, by decide, by decide⟩
  refine ⟨⟨hr, fun n => ?_⟩, ⟨fun t ht => ?_, reports 0x00240000#32⟩,
    ⟨rfl, rfl, by decide, rfl, by decide, by decide⟩, ?_, ?_⟩
  · have hpc :
        (((busyPage 0x00361001#32).env mscratchCpu).steps 11 goingHart).pc =
          0#52 ++ ProgBufBase :=
      (steps_transfer (m := busyPage 0x00361001#32) hr rfl rfl rfl).2.2
    by_cases hn : n < 11
    · have hfirst : ∀ n < 11,
          (((busyPage 0x00361001#32).env mscratchCpu).steps n goingHart).pc ≠
            0#52 ++ HaltAddress := by decide +kernel
      exact hfirst n hn
    · obtain ⟨k, rfl⟩ := Nat.exists_eq_add_of_le (Nat.not_lt.1 hn)
      rw [Env.steps_add, pc_loop hpc]
      decide
  · exact absurd ht.transfer (by decide)
  · decide +kernel
  · decide +kernel

end ArianeSoc.Dm
