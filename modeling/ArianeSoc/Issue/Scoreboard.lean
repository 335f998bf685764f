import ArianeSoc.RiscvPkg
import ArianeSoc.Sync
import Mathlib.Algebra.Group.Nat.Defs
import Mathlib.Logic.Function.Basic

/-!
# The scoreboard

`State` holds the registers of `scoreboard.sv` for `2 ^ b` entries, so that
a pointer is a `BitVec b` and wraps as in the source.  `issueFifo` is the
process of that name, one function for each of its parts, in their order:

* `issueWrite`: the decoded instruction enters at the issue pointer;
* `fuNone`: an instruction without a unit is valid immediately;
* `writeBack`: the write-back ports, one after the other;
* `commitPorts`: the acknowledged entries leave;
* `flushAll`: the full flush.

The write-back ports are a list, as the module has any number of them.

The process writes an array in several places.  Seen from one cell it is a
function of the old cell: `issueFifo_cell` says what the cell holds next, in
terms of the write-backs that name it, and the rest of the development uses
nothing else of the process.
-/

namespace ArianeSoc.Scoreboard

/-- An element of `mem_q`. -/
structure Slot where
  issued : Bool
  isRdFprFlag : Bool
  sbe : ScoreboardEntry

/-- The registers. -/
structure State (b : ℕ) where
  mem : BitVec b → Slot
  issueCnt : BitVec b
  issuePointer : BitVec b
  commitPointer0 : BitVec b
  commitPointer1 : BitVec b

/-- A write-back port. -/
structure WbPort (b : ℕ) where
  valid : Bool
  transId : BitVec b
  wbdata : BitVec 64
  ex : ExceptionT

/-- The inputs of one cycle, less those of the operand read. -/
structure In (b : ℕ) where
  flushUnissuedInstr : Bool
  flush : Bool
  unresolvedBranch : Bool
  decodedInstr : ScoreboardEntry
  decodedInstrValid : Bool
  issueAck : Bool
  wb : List (WbPort b)
  targetAddress : BitVec 64
  commitAck0 : Bool
  commitAck1 : Bool

/-- An entry of a cleared register. -/
def zeroEntry : ScoreboardEntry where
  pc := 0#64
  transId := 0#3
  fu := .NONE
  op := .ADD
  rs1 := 0#6
  rs2 := 0#6
  rd := 0#6
  result := 0#64
  valid := false
  useImm := false
  useZimm := false
  usePc := false
  ex := ExceptionT.none
  predictAddress := 0#64
  isCompressed := false

/-- The registers after a reset. -/
def reset (b : ℕ) : State b where
  mem := fun _ => ⟨false, false, zeroEntry⟩
  issueCnt := 0#b
  issuePointer := 0#b
  commitPointer0 := 0#b
  commitPointer1 := 0#b

variable {b : ℕ}

/-- `issue_full`. -/
def issueFull (s : State b) : Bool := s.issueCnt = BitVec.allOnes b

/-- `commit_instr_o[0]`. -/
def commitInstr0 (s : State b) : ScoreboardEntry :=
  { (s.mem s.commitPointer0).sbe with
    transId := s.commitPointer0.setWidth 3 }

/-- `commit_instr_o[1]`. -/
def commitInstr1 (s : State b) : ScoreboardEntry :=
  { (s.mem s.commitPointer1).sbe with
    transId := s.commitPointer1.setWidth 3 }

/-- `issue_instr_o`. -/
def issueInstrO (s : State b) (i : In b) : ScoreboardEntry :=
  { i.decodedInstr with transId := s.issuePointer.setWidth 3 }

/-- `issue_instr_valid_o`. -/
def issueInstrValidO (s : State b) (i : In b) : Bool :=
  i.decodedInstrValid && !i.unresolvedBranch && !issueFull s

/-- `decoded_instr_ack_o`. -/
def decodedInstrAckO (s : State b) (i : In b) : Bool :=
  i.issueAck && !issueFull s

/-- `issue_en`. -/
def issueEn (s : State b) (i : In b) : Bool :=
  i.decodedInstrValid && decodedInstrAckO s i && !i.flushUnissuedInstr

/-! ## The process `issue_fifo` -/

abbrev Mem (b : ℕ) := BitVec b → Slot

/-- What the issue writes. -/
def issuedSlot (i : In b) : Slot :=
  ⟨true, isRdFpr i.decodedInstr.op, i.decodedInstr⟩

def issueWrite (s : State b) (i : In b) (m : Mem b) : Mem b :=
  if issueEn s i then Function.update m s.issuePointer (issuedSlot i) else m

def fuNone (s : State b) (m : Mem b) : Mem b := fun k =>
  if (s.mem k).sbe.fu = .NONE ∧ (s.mem k).issued then
    { m k with sbe := { (m k).sbe with valid := true } }
  else m k

/-- The entry `e` after a write-back; `fu` is the unit that the register
holds.  The floating-point unit leaves its flags in the cause. -/
def written (targetAddress : BitVec 64) (fu : FuT) (p : WbPort b)
    (e : ScoreboardEntry) : ScoreboardEntry :=
  { e with
    valid := true
    result := p.wbdata
    predictAddress := targetAddress
    ex :=
      if p.ex.valid then p.ex
      else if fu = .FPU ∨ fu = .FPU_VEC then { e.ex with cause := p.ex.cause }
      else e.ex }

/-- One write-back port.  An entry that is not issued is not written, as
something may still be in the pipeline after a flush. -/
def writeBackPort (s : State b) (i : In b) (m : Mem b) (p : WbPort b) :
    Mem b :=
  if p.valid ∧ (s.mem p.transId).issued then
    Function.update m p.transId
      { m p.transId with
        sbe := written i.targetAddress (s.mem p.transId).sbe.fu p
          (m p.transId).sbe }
  else m

def writeBack (s : State b) (i : In b) (m : Mem b) : Mem b :=
  i.wb.foldl (writeBackPort s i) m

/-- The entry is considered finished. -/
def Slot.finish (c : Slot) : Slot :=
  { c with issued := false, sbe := { c.sbe with valid := false } }

def commitPort (ptr : BitVec b) (ack : Bool) (m : Mem b) : Mem b :=
  if ack then Function.update m ptr (m ptr).finish else m

def commitPorts (s : State b) (i : In b) (m : Mem b) : Mem b :=
  commitPort s.commitPointer1 i.commitAck1
    (commitPort s.commitPointer0 i.commitAck0 m)

def flushAll (i : In b) (m : Mem b) : Mem b := fun k =>
  if i.flush then
    { m k with
      issued := false
      sbe := { (m k).sbe with
        valid := false, ex := { (m k).sbe.ex with valid := false } } }
  else m k

def issueFifo (s : State b) (i : In b) : Mem b :=
  flushAll i <| commitPorts s i <| writeBack s i <| fuNone s <|
    issueWrite s i s.mem

/-! ## Counter and pointers -/

/-- `num_commit`. -/
def numCommit (i : In b) : ℕ := i.commitAck0.toNat + i.commitAck1.toNat

def issueCntN (s : State b) (i : In b) : BitVec b :=
  if i.flush then 0#b
  else s.issueCnt - BitVec.ofNat b (numCommit i) +
    BitVec.ofNat b (issueEn s i).toNat

def commitPointerN0 (s : State b) (i : In b) : BitVec b :=
  if i.flush then 0#b else s.commitPointer0 + BitVec.ofNat b (numCommit i)

def commitPointerN1 (s : State b) (i : In b) : BitVec b :=
  if i.flush then 0#b else commitPointerN0 s i + 1#b

def issuePointerN (s : State b) (i : In b) : BitVec b :=
  if i.flush then 0#b
  else s.issuePointer + BitVec.ofNat b (issueEn s i).toNat

/-- One cycle. -/
def step (s : State b) (i : In b) : State b where
  mem := issueFifo s i
  issueCnt := issueCntN s i
  issuePointer := issuePointerN s i
  commitPointer0 := commitPointerN0 s i
  commitPointer1 := commitPointerN1 s i

end ArianeSoc.Scoreboard

namespace ArianeSoc.Scoreboard

variable {b : ℕ} {s : State b} {i : In b} {m : Mem b} {k : BitVec b}

/-- The write-back ports that name cell `k`. -/
def portsOf (i : In b) (k : BitVec b) : List (WbPort b) :=
  i.wb.filter fun p => p.valid && p.transId == k

/-- The entry of an issued instruction after the write-backs of a cycle. -/
def entryAfter (i : In b) (k : BitVec b) (fu : FuT) (e : ScoreboardEntry) :
    ScoreboardEntry :=
  (portsOf i k).foldl (fun e p => written i.targetAddress fu p e)
    (if fu = .NONE then { e with valid := true } else e)

/-- The commit ports acknowledge cell `k`. -/
def acked (s : State b) (i : In b) (k : BitVec b) : Prop :=
  i.commitAck0 = true ∧ k = s.commitPointer0 ∨
    i.commitAck1 = true ∧ k = s.commitPointer1

instance (s : State b) (i : In b) (k : BitVec b) : Decidable (acked s i k) :=
  inferInstanceAs (Decidable (_ ∨ _))

/-- A flushed cell. -/
def Slot.drop (c : Slot) : Slot :=
  { c with
    issued := false
    sbe := { c.sbe with valid := false, ex := { c.sbe.ex with valid := false } } }

theorem issueWrite_cell :
    issueWrite s i m k =
      if issueEn s i = true ∧ k = s.issuePointer then issuedSlot i
      else m k := by
  unfold issueWrite
  by_cases hen : issueEn s i = true
  · simp only [hen, if_true, true_and]
    rw [Function.update_apply]
  · simp [hen]

/-- The ports, one after the other, on one cell. -/
theorem writeBackPorts_cell (ps : List (WbPort b)) (m : Mem b) :
    ps.foldl (writeBackPort s i) m k =
      if (s.mem k).issued = true then
        { m k with
          sbe := (ps.filter fun p => p.valid && p.transId == k).foldl
            (fun e p => written i.targetAddress (s.mem k).sbe.fu p e)
            (m k).sbe }
      else m k := by
  induction ps generalizing m with
  | nil => simp
  | cons p ps ih =>
    rw [List.foldl_cons, ih]
    by_cases hk : p.valid = true ∧ p.transId = k
    · obtain ⟨hv, rfl⟩ := hk
      by_cases hiss : (s.mem p.transId).issued = true
      · simp [writeBackPort, hv, hiss]
      · simp [writeBackPort, hiss]
    · have hm : writeBackPort s i m p k = m k := by
        unfold writeBackPort
        split_ifs with hw
        · exact Function.update_of_ne (fun h => hk ⟨hw.1, h.symm⟩) _ _
        · rfl
      have hf : (p.valid && p.transId == k) = false := by
        rw [Bool.and_eq_false_iff, beq_eq_false_iff_ne]
        rcases not_and_or.mp hk with h | h
        · exact Or.inl (Bool.eq_false_iff.mpr h)
        · exact Or.inr h
      rw [hm, List.filter_cons_of_neg (by simp [hf])]

theorem writeBack_fuNone_cell :
    writeBack s i (fuNone s m) k =
      if (s.mem k).issued = true then
        { m k with sbe := entryAfter i k (s.mem k).sbe.fu (m k).sbe }
      else m k := by
  rw [writeBack, writeBackPorts_cell]
  by_cases hiss : (s.mem k).issued = true
  · by_cases hfu : (s.mem k).sbe.fu = .NONE <;>
      simp [fuNone, entryAfter, portsOf, hiss, hfu]
  · simp [fuNone, hiss]

theorem finish_finish (c : Slot) : c.finish.finish = c.finish := rfl

theorem commitPorts_cell :
    commitPorts s i m k = if acked s i k then (m k).finish else m k := by
  have hport : ∀ (ptr : BitVec b) ack (m : Mem b),
      commitPort ptr ack m k =
        if ack = true ∧ k = ptr then (m k).finish else m k := by
    intro ptr ack m
    unfold commitPort
    by_cases hack : ack = true
    · simp only [hack, if_true, true_and, Function.update_apply]
      split_ifs with hk
      · rw [hk]
      · rfl
    · simp [hack]
  unfold commitPorts
  rw [hport, hport]
  by_cases h0 : i.commitAck0 = true ∧ k = s.commitPointer0
  · have ha : acked s i k := Or.inl h0
    rw [if_pos h0, if_pos ha, finish_finish, ite_self]
  · rw [if_neg h0]
    exact if_congr (or_iff_right h0).symm rfl rfl

/-- What a cell holds after a cycle. -/
theorem issueFifo_cell :
    issueFifo s i k =
      let c := if issueEn s i = true ∧ k = s.issuePointer then issuedSlot i
        else s.mem k
      let c := if (s.mem k).issued = true then
        { c with sbe := entryAfter i k (s.mem k).sbe.fu c.sbe } else c
      let c := if acked s i k then c.finish else c
      if i.flush = true then c.drop else c := by
  have hflush : ∀ m : Mem b,
      flushAll i m k = if i.flush = true then (m k).drop else m k :=
    fun _ => rfl
  unfold issueFifo
  rw [hflush, commitPorts_cell, writeBack_fuNone_cell, issueWrite_cell]

/-! ## The flags of a cell -/

/-- A cell is issued after a cycle if it was issued before, or in this
cycle, and was neither acknowledged nor flushed. -/
theorem issueFifo_issued :
    (issueFifo s i k).issued = true ↔
      i.flush = false ∧ ¬ acked s i k ∧
        (issueEn s i = true ∧ k = s.issuePointer ∨
          (s.mem k).issued = true) := by
  rw [issueFifo_cell]
  dsimp only
  split_ifs <;> simp_all [issuedSlot, Slot.finish, Slot.drop]

/-- Only issued cells become valid. -/
theorem issueFifo_valid
    (h : (s.mem k).sbe.valid = true → (s.mem k).issued = true) :
    (issueFifo s i k).sbe.valid = true →
      (issueFifo s i k).issued = true := by
  rw [issueFifo_cell]
  dsimp only
  split_ifs <;> simp_all [issuedSlot, Slot.finish, Slot.drop]

end ArianeSoc.Scoreboard
