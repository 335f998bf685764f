import ArianeSoc.Issue.Hazard

/-!
# The operands of an instruction

`Delivered` says what a source operand holds when a unit gets its
instruction: the value of an instruction in flight that writes the
register, of the youngest one in general, or what the register file holds
if there is none.

Two kinds of instructions in flight are followed by a flush before
anything behind them commits, and the issue stage does not order them with
other writers: those that carry an exception, which are issued without the
write-after-write check, and SFENCE.VMA, which writes its register while
it waits.  Behind these the operand is the value of one of the writers.

A write-back port forwards to the register that the cell of its
transaction id names, issued or not.  `FreshPorts` says that no port names
a cell that is left over from a flush.
-/

namespace ArianeSoc.IssueStage

open Scoreboard (Rec)

variable {b : ℕ} {wtDcache : Bool} {t : Tracked b} {e : Env b} {r : Rec b}
  {d : Reg} {v : BitVec 64}

/-- The value that an instruction in flight has produced: on a write-back
port in this cycle or written back before. -/
def produced (wb : List (Scoreboard.WbPort b)) (r : Rec b) :
    Option (BitVec 64) :=
  match wb.find? fun p =>
      p.valid && !p.ex.valid && p.transId == r.name with
  | some p => some p.wbdata
  | none =>
    if (Scoreboard.offered r).valid then some (Scoreboard.offered r).result
    else none

/-- The youngest instruction in flight that writes `d`, of those that
count as writers. -/
def youngestWriter (counts : Rec b → Bool) (d : Reg) (l : List (Rec b)) :
    Option (Rec b) :=
  l.reverse.find? fun r => counts r && dest r.entry == d

/-- The value of a register for the instruction that is issued next. -/
def valueOf (counts : Rec b → Bool) (t : Tracked b)
    (wb : List (Scoreboard.WbPort b)) (d : Reg) : Option (BitVec 64) :=
  if d = Reg.zero then some 0#64
  else
    match youngestWriter counts d t.inflight with
    | some r => produced wb r
    | none => some (ReadOperands.regfile t.st.iro d)

/-- The instruction commits, if nothing before it takes it back. -/
def Sound (r : Rec b) : Prop :=
  r.entry.ex.valid = false ∧ r.entry.op ≠ .SFENCE_VMA

/-- A port with a value for `d` names a cell that is issued. -/
def FreshPorts (t : Tracked b) (e : Env b) (d : Reg) : Prop :=
  ∀ p ∈ e.wb, p.valid = true → p.ex.valid = false →
    (t.st.sb.mem p.transId).dest = d → (t.st.sb.mem p.transId).issued = true

instance (t : Tracked b) (e : Env b) (d : Reg) :
    Decidable (FreshPorts t e d) :=
  inferInstanceAs (Decidable (∀ p ∈ e.wb, _))

/-- The value `v` is that of register `d`. -/
structure Delivered (t : Tracked b) (e : Env b) (d : Reg) (v : BitVec 64) :
    Prop where
  zero : d = Reg.zero → v = 0#64
  writer : d ≠ Reg.zero →
    (∀ r ∈ t.inflight, dest r.entry ≠ d) ∧
        v = ReadOperands.regfile t.st.iro d ∨
      ∃ r ∈ t.inflight, dest r.entry = d ∧ produced e.wb r = some v
  youngest : (∀ r ∈ t.inflight, dest r.entry = d → Sound r) →
    valueOf (fun _ => true) t e.wb d = some v

/-! ## Forwarding -/

/-- What a port forwards is the value of the instruction whose id it
carries. -/
theorem produced_of_fwdPort {i : Scoreboard.In b} (h : Inv t)
    {p : Scoreboard.WbPort b}
    (hp : Scoreboard.fwdPort t.st.sb i d = some p)
    (hiss : (t.st.sb.mem p.transId).issued = true) :
    ∃ r ∈ t.inflight, dest r.entry = d ∧
      produced i.wb r = some p.wbdata := by
  obtain ⟨r, hr, hname⟩ := Scoreboard.inflight_of_issued h.refines hiss
  have hmem := Scoreboard.mem_of_inflight h.refines hr
  obtain ⟨hq, before, after, hwb, hno⟩ :=
    List.find?_eq_some_iff_append.mp hp
  simp only [Bool.and_eq_true, beq_iff_eq] at hq
  have hdest : dest r.entry = d := by
    rw [← dest_cellOf, ← hmem, hname]
    exact hq.2
  have hfind : (i.wb.find? fun p =>
      p.valid && !p.ex.valid && p.transId == r.name) = some p := by
    refine List.find?_eq_some_iff_append.mpr
      ⟨by simp [hq.1.1, hq.1.2, hname], before, after, hwb, fun a ha => ?_⟩
    -- an earlier port with the same id would have been forwarded
    have hna := hno a ha
    simp only [Bool.not_eq_true', Bool.and_eq_false_iff,
      beq_eq_false_iff_ne] at hna ⊢
    refine hna.imp_right fun hne heq => hne ?_
    rw [heq, hmem, dest_cellOf, hdest]
  exact ⟨r, hr, hdest, by rw [produced, hfind]⟩

/-- What a cell forwards is the value that was written back to it. -/
theorem produced_of_fwdCell {i : Scoreboard.In b} (h : Inv t)
    (hp : Scoreboard.fwdPort t.st.sb i d = none) {k : BitVec b}
    (hk : Scoreboard.fwdCell t.st.sb d = some k) :
    ∃ r ∈ t.inflight, dest r.entry = d ∧
      produced i.wb r = some (t.st.sb.mem k).sbe.result := by
  have hq := List.find?_some hk
  simp only [Bool.and_eq_true, beq_iff_eq] at hq
  obtain ⟨⟨hiss, hv⟩, hd⟩ := hq
  obtain ⟨r, hr, rfl⟩ := Scoreboard.inflight_of_issued h.refines hiss
  have hmem := Scoreboard.mem_of_inflight h.refines hr
  have hdest : dest r.entry = d := by
    rw [← dest_cellOf, ← hmem]
    exact hd
  have hnone : (i.wb.find? fun p =>
      p.valid && !p.ex.valid && p.transId == r.name) = none := by
    refine List.find?_eq_none.mpr fun p hmp hpq => ?_
    simp only [Bool.and_eq_true, beq_iff_eq] at hpq
    refine List.find?_eq_none.mp hp p hmp ?_
    rw [hpq.2, hmem, dest_cellOf, hdest]
    simpa using hpq.1
  refine ⟨r, hr, hdest, ?_⟩
  rw [hmem] at hv ⊢
  have hoff : (Scoreboard.offered r).valid = true := hv
  rw [produced, hnone]
  exact if_pos hoff

/-- A forwarded value is that of an instruction in flight. -/
theorem produced_of_rsFwd {i : Scoreboard.In b} (h : Inv t)
    (hwb : i.wb = e.wb) (hf : FreshPorts t e d)
    (hv : Scoreboard.rsFwd t.st.sb i d = some v) :
    ∃ r ∈ t.inflight, dest r.entry = d ∧ produced e.wb r = some v := by
  rw [← hwb]
  unfold Scoreboard.rsFwd at hv
  cases hp : Scoreboard.fwdPort t.st.sb i d with
  | some p =>
    rw [hp] at hv
    obtain rfl := Option.some.inj hv
    have hmem : p ∈ e.wb := hwb ▸ List.mem_of_find?_eq_some hp
    have hq := List.find?_some hp
    simp only [Bool.and_eq_true, Bool.not_eq_true', beq_iff_eq] at hq
    exact produced_of_fwdPort h hp (hf p hmem hq.1.1 hq.1.2 hq.2)
  | none =>
    rw [hp] at hv
    obtain ⟨k, hk, rfl⟩ := Option.map_eq_some_iff.mp hv
    exact produced_of_fwdCell h hp hk

/-! ## The one writer -/

/-- The sound writer of a register is its youngest writer. -/
theorem youngestWriter_eq (h : Inv t) (hd : d ≠ Reg.zero)
    (hs : ∀ r ∈ t.inflight, dest r.entry = d → Sound r)
    (hr : r ∈ t.inflight) (hdest : dest r.entry = d) :
    youngestWriter (fun _ => true) d t.inflight = some r := by
  have hone := h.unique d hd fun r' hr' hd' => (hs r' hr' hd').2
  have hmem : ∀ r' ∈ t.inflight, dest r'.entry = d →
      r' ∈ soundWriters d t.inflight := by
    intro r' hr' hd'
    refine List.mem_filter.mpr ⟨hr', ?_⟩
    simp [hd', (hs r' hr' hd').1]
  unfold youngestWriter
  cases hfind : t.inflight.reverse.find? fun r =>
      true && dest r.entry == d with
  | none =>
    have hno := List.find?_eq_none.mp hfind r (List.mem_reverse.mpr hr)
    exact absurd hdest (by simpa using hno)
  | some r' =>
    have hd' := List.find?_some hfind
    have hr' := List.mem_reverse.mp (List.mem_of_find?_eq_some hfind)
    have hsome := hmem r' hr' (by simpa using hd')
    have hself := hmem r hr hdest
    obtain ⟨w, hw⟩ := List.length_eq_one_iff.mp
      (Nat.le_antisymm hone (List.length_pos_of_mem hself))
    rw [hw, List.mem_singleton] at hsome hself
    rw [hsome, hself]

theorem youngestWriter_none (hno : ∀ r ∈ t.inflight, dest r.entry ≠ d) :
    youngestWriter (fun _ => true) d t.inflight = none := by
  refine List.find?_eq_none.mpr fun r hr => ?_
  simp [hno r (List.mem_reverse.mp hr)]

/-! ## The operands -/

theorem delivered_zero (hv : v = 0#64) : Delivered t e Reg.zero v where
  zero _ := hv
  writer hne := absurd rfl hne
  youngest _ := by rw [hv, valueOf, if_pos rfl]

theorem delivered_regfile (hd : d ≠ Reg.zero)
    (hno : ∀ r ∈ t.inflight, dest r.entry ≠ d) :
    Delivered t e d (ReadOperands.regfile t.st.iro d) where
  zero h0 := absurd h0 hd
  writer _ := Or.inl ⟨hno, rfl⟩
  youngest _ := by rw [valueOf, if_neg hd, youngestWriter_none hno]

theorem delivered_produced (h : Inv t) (hd : d ≠ Reg.zero)
    (hr : r ∈ t.inflight) (hdest : dest r.entry = d)
    (hp : produced e.wb r = some v) : Delivered t e d v where
  zero h0 := absurd h0 hd
  writer _ := Or.inr ⟨r, hr, hdest, hp⟩
  youngest hs := by
    rw [valueOf, if_neg hd, youngestWriter_eq h hd hs hr hdest]
    exact hp

/-- A source that does not stall. -/
theorem delivered_source (h : Inv t) (hf : FreshPorts t e d)
    (hstall : ReadOperands.stallOn (readIn wtDcache t.st e) true d =
      false) :
    Delivered t e d
      (ReadOperands.source t.st.iro (readIn wtDcache t.st e) true d) := by
  have hcases := ReadOperands.source_of_stallOn (q := t.st.iro) hstall
  by_cases hd : d = Reg.zero
  · subst hd
    rcases hcases with ⟨-, hreg⟩ | ⟨hc, -⟩
    · exact delivered_zero (hreg.trans h.zero)
    · exact absurd rfl hc
  · rcases hcases with ⟨hc, hreg⟩ | ⟨-, hv, hrs⟩
    · rw [hreg]
      exact delivered_regfile hd ((rdClobberO_eq_none_iff h hd).mp hc)
    · have hv' : Scoreboard.rsValidO t.st.sb
          (scoreboardInWith wtDcache t.st e false) d = true := hv
      simp only [Scoreboard.rsValidO, Bool.and_eq_true] at hv'
      obtain ⟨w, hw⟩ := Option.isSome_iff_exists.mp hv'.1
      have hsrc : ReadOperands.source t.st.iro (readIn wtDcache t.st e) true
          d = w := by
        rw [hrs]
        show (Scoreboard.rsFwd _ _ d).getD 0#64 = w
        rw [hw, Option.getD_some]
      obtain ⟨r, hr, hdest, hp⟩ := produced_of_rsFwd (e := e) h rfl hf hw
      rw [hsrc]
      exact delivered_produced h hd hr hdest hp

/-- Whenever a unit gets an instruction, in any run, each of its source
operands is the value of its register. -/
theorem operands_delivered (wtDcache : Bool) (es : List (Env b)) (e : Env b) :
    let t := Sync.run (track wtDcache) (Tracked.reset b) es
    let next := (track wtDcache t e).st.iro
    let x := (readIn wtDcache t.st e).issueInstr
    next.unitValid = true →
      (x.useZimm = false → x.usePc = false →
        FreshPorts t e (ReadOperands.rs1 x) →
          Delivered t e (ReadOperands.rs1 x) next.fuData.operandA) ∧
      (ReadOperands.immediateB x = false →
        FreshPorts t e (ReadOperands.rs2 x) →
          Delivered t e (ReadOperands.rs2 x) next.fuData.operandB) ∧
      (isImmFpr x.op = true →
        FreshPorts t e (ReadOperands.rs3 x) →
          Delivered t e (ReadOperands.rs3 x) next.fuData.imm) := by
  intro t next x hunit
  have h : Inv t := inv_run wtDcache es
  obtain ⟨hhanded, hfu⟩ := ReadOperands.unitValid_step.mp hunit
  simp only [ReadOperands.handed, Bool.and_eq_true,
    Bool.not_eq_true'] at hhanded
  obtain ⟨hstall, -⟩ :=
    ReadOperands.ready_of_issueAck hhanded.1.2 hhanded.1.1.1 hfu
  simp only [ReadOperands.stall, Bool.or_eq_false_iff] at hstall
  refine ⟨fun hz hpc hf => ?_, fun himm hf => ?_, fun hop hf => ?_⟩
  · have hs := hstall.1.1
    have hz' : (readIn wtDcache t.st e).issueInstr.useZimm = false := hz
    have hpc' : (readIn wtDcache t.st e).issueInstr.usePc = false := hpc
    have hA : next.fuData.operandA = ReadOperands.source t.st.iro
        (readIn wtDcache t.st e) true (ReadOperands.rs1 x) := by
      show ReadOperands.operandAN _ _ = _
      simp [ReadOperands.operandAN, hz', hpc', x]
    rw [hz'] at hs
    rw [hA]
    exact delivered_source h hf hs
  · have himm' : ReadOperands.immediateB
        (readIn wtDcache t.st e).issueInstr = false := himm
    have hB : next.fuData.operandB = ReadOperands.source t.st.iro
        (readIn wtDcache t.st e) true (ReadOperands.rs2 x) := by
      show ReadOperands.operandBN _ _ = _
      simp [ReadOperands.operandBN, himm', x]
    rw [hB]
    exact delivered_source h hf hstall.1.2
  · have hs := hstall.2
    have hop' : isImmFpr (readIn wtDcache t.st e).issueInstr.op = true := hop
    have hC : next.fuData.imm = ReadOperands.source t.st.iro
        (readIn wtDcache t.st e) true (ReadOperands.rs3 x) := by
      show ReadOperands.immN _ _ = _
      simp [ReadOperands.immN, hop', x]
    rw [hop'] at hs
    rw [hC]
    exact delivered_source h hf hs

/-! ## Runs -/

/-- The cycle in which the front end offers the instruction `w`. -/
def Env.fetched (w : Decoder.Instr) : Env b where
  dec :=
    { debugReq := false, pc := 0#64, isCompressed := false,
      compressedInstr := 0#16, isIllegal := false, instruction := w,
      predictAddress := 0#64, ex := ExceptionT.none, irq := 0#2,
      irqCtrl := ⟨0#64, 0#64, 0#64, false, false⟩, privLvl := PRIV_LVL_M,
      debugMode := false, fs := 0#2, frm := 0#3, tvm := false, tw := false,
      tsr := false }
  decodedInstrValid := true
  wb := []
  targetAddress := 0#64
  fluReady := true
  lsuReady := true
  fpuReady := true
  haltCsr := false
  commit :=
    { halt := false, flushDcache := false, singleStep := false,
      commitInstr0 := Scoreboard.zeroEntry,
      commitInstr1 := Scoreboard.zeroEntry, amoRespAck := false,
      csrException := ExceptionT.none, commitLsuReady := true,
      noStPending := true }
  amoResult := 0#64
  csrRdata := 0#64
  ctrl :=
    { fenceActive := false, flushDcacheAck := false, eret := false,
      exValid := false, setDebugPc := false, isMispredict := false,
      flushCsr := false, fenceI := false, fence := false,
      sfenceVma := false, flushCommit := false }

/-- The unit writes `v` back under the id `k`. -/
def Env.writing (e : Env b) (k : BitVec b) (v : BitVec 64) : Env b :=
  { e with wb := [⟨true, k, v, ExceptionT.none⟩] }

/-- The instruction is fetched in the cycle of a debug request. -/
def Env.interrupted (e : Env b) : Env b :=
  { e with dec := { e.dec with debugReq := true } }

/-- `addi x5, x0, 1`, `addi x5, x0, 2` and `addi x6, x5, 0`. -/
abbrev SET_ONE : Decoder.Instr := 0x00100293#32
abbrev SET_TWO : Decoder.Instr := 0x00200293#32
abbrev COPY : Decoder.Instr := 0x00028313#32

/-- The value of `x5` is written back in the cycle in which it is read. -/
theorem operands_delivered_forwarded :
    let t := Sync.run (track false) (Tracked.reset 3) [Env.fetched SET_ONE]
    let e := (Env.fetched COPY).writing 0#3 1#64
    let x := (readIn false t.st e).issueInstr
    let next := (track false t e).st.iro
    ReadOperands.rs1 x = ⟨false, 5#6⟩ ∧ next.fuData.operandA = 1#64 ∧
      Delivered t e (ReadOperands.rs1 x) next.fuData.operandA :=
  ⟨by decide +kernel, by decide +kernel,
    (operands_delivered false [Env.fetched SET_ONE]
      ((Env.fetched COPY).writing 0#3 1#64) (by decide +kernel)).1
      (by decide +kernel) (by decide +kernel) (by decide +kernel)⟩

/-- Behind an instruction with an exception the operand need not be the
value of the youngest writer, whether the instruction with the exception
counts as a writer or not. -/
theorem operand_behind_exception :
    (let t := Sync.run (track false) (Tracked.reset 3)
      [Env.fetched SET_ONE,
        ((Env.fetched SET_TWO).interrupted).writing 0#3 1#64]
    let e := Env.fetched COPY
    let x := (readIn false t.st e).issueInstr
    let next := (track false t e).st.iro
    next.unitValid = true ∧ x.useZimm = false ∧ x.usePc = false ∧
      next.fuData.operandA = 1#64 ∧
      valueOf (fun _ => true) t e.wb (ReadOperands.rs1 x) = some 2#64) ∧
    (let t := Sync.run (track false) (Tracked.reset 3)
      [Env.fetched SET_ONE, (Env.fetched SET_TWO).interrupted]
    let e := Env.fetched COPY
    let x := (readIn false t.st e).issueInstr
    let next := (track false t e).st.iro
    next.unitValid = true ∧ x.useZimm = false ∧ x.usePc = false ∧
      next.fuData.operandA = 2#64 ∧
      valueOf (fun r => !r.entry.ex.valid) t e.wb (ReadOperands.rs1 x) =
        none) := by
  decide +kernel

end ArianeSoc.IssueStage
