import ArianeSoc.Core.Backend
import ArianeSoc.RegWindow

/-!
# The values in flight

What the instructions in flight are going to leave in the integer registers,
against `Rv64Int`.

* `seen` is how an instruction in flight is seen by those behind it.  The
  value of a CSR instruction and of an atomic comes with its commit.
* `Explains` says of an instruction of RV64IM in flight that its value is the
  right one for the registers at its point of the program, and that it is in
  the scoreboard or still in a fixed latency unit.
* `Runs` is what an instruction does to the registers.  Those outside RV64IM
  leave some value in their destination.
-/

namespace ArianeSoc.Backend

open Scoreboard (Rec WbPort)
open RegWindow Rv64Int

/-- The integer registers of a hart. -/
abbrev RegFile := InstrFormat.Reg → BitVec 64

/-- The registers at a point of the program, as far as they are known. -/
abbrev Known := View InstrFormat.Reg (BitVec 64)

/-! ## What an instruction does -/

/-- The integer register that an instruction writes; register zero, if it
writes none. -/
def destination (e : ScoreboardEntry) : InstrFormat.Reg :=
  if isRdFpr e.op then 0#5 else e.rd.setWidth 5

/-- The division that the divider gets wrong. -/
def Odd (x : RegFile) : Instr → Prop
  | .div o _ rs1 rs2 => Mult.MinusOneByOne o (x rs1) (x rs2)
  | _ => False

/-- If `j` is an instruction of RV64IM, then `w` is its value. -/
def Right (j : Decoder.In) (x : RegFile) (w : BitVec 64) : Prop :=
  ∀ instr u, decode j.instruction = some instr → ¬ Odd x instr →
    instr.value x j.pc (Execute.len j) = some u → w = u

/-- The instruction `j` makes `y` of the registers `x`. -/
def Runs (j : Decoder.In) (x y : RegFile) : Prop :=
  match decode j.instruction with
  | some instr =>
    (∃ w, y = write x instr.rd w) ∧
      (¬ Odd x instr → y = instr.exec x j.pc (Execute.len j))
  | none => ∃ w, y = write x (destination (Decoder.decoder j)) w

/-- The instructions `js`, one after the other. -/
def Follows : List Decoder.In → RegFile → RegFile → Prop
  | [], x, y => y = x
  | j :: js, x, z => ∃ y, Runs j x y ∧ Follows js y z

theorem Follows.append {js js' : List Decoder.In} {x y z : RegFile}
    (h : Follows js x y) (h' : Follows js' y z) :
    Follows (js ++ js') x z := by
  induction js generalizing x with
  | nil =>
    obtain rfl := h
    exact h'
  | cons j js ih =>
    obtain ⟨y', hrun, hrest⟩ := h
    exact ⟨y', hrun, ih hrest⟩

theorem Odd.congr {x y : RegFile} {instr : Instr}
    (h : ∀ r ∈ instr.sources, x r = y r) (hx : Odd x instr) :
    Odd y instr := by
  cases instr with
  | div o rd rs1 rs2 =>
    have h1 := h rs1 (by simp [Instr.sources])
    have h2 := h rs2 (by simp [Instr.sources])
    show Mult.MinusOneByOne o (y rs1) (y rs2)
    rw [← h1, ← h2]
    exact hx
  | _ => exact hx

/-! ## An instruction in flight -/

/-- The value comes with the commit. -/
def late (e : ScoreboardEntry) : Bool := e.fu == .CSR || isAmo e.op

/-- What the instructions behind it see of an instruction. -/
def seen (r : Rec 3) : Seen InstrFormat.Reg (BitVec 64) where
  dest := if destination r.entry = 0#5 then none
    else some (destination r.entry)
  out := if late r.entry || !(Scoreboard.offered r).valid then none
    else some (Scoreboard.offered r).result

/-- The instruction is not going to be followed by a flush. -/
structure Steady (r : Rec 3) : Prop where
  ex : (Scoreboard.offered r).ex.valid = false
  amo : isAmo r.entry.op = false

/-- The value of the instruction is going to be `w`. -/
structure Brings (q : State) (r : Rec 3) (w : BitVec 64) : Prop where
  unit : fluUnit r.entry.fu = true
  running : Unanswered r → Flu.Holds q.flu (op q) r.name w
  result : (Scoreboard.offered r).valid = true →
    (Scoreboard.offered r).result = w

/-- With the registers `v`, the value of the instruction is right. -/
def Explains (q : State) (v : Known) (r : Rec 3) : Prop :=
  ∀ j instr, q.fetched[r.serial]? = some j → r.entry.ex.valid = false →
    decode j.instruction = some instr →
      ∃ x w, (∀ s ∈ instr.sources, v s = some (x s)) ∧ Right j x w ∧
        Brings q r w

theorem monotone_explains (q : State) : Monotone (Explains q) := by
  intro v v' r hv h j instr hj hex hdec
  obtain ⟨x, w, hx, hw⟩ := h j instr hj hex hdec
  exact ⟨x, w, fun s hs => hv s _ (hx s hs), hw⟩

/-- The integer registers. -/
abbrev gpr (q : State) : RegFile := q.stage.st.iro.gpr

/-- The invariant of the pipeline. -/
structure Inv (q : State) : Prop where
  stage : IssueStage.Inv q.stage
  lawful : RetireQueue.Lawful q.stage.queue.q
  fetched : q.stage.queue.q.issued =
    q.fetched.map fun j => ReadOperands.reName (Decoder.decoder j)
  flu : Flu.Inv q.flu (op q)
  pending : ∀ k, Flu.Pending q.flu (op q) k → ∃ r ∈ q.stage.inflight,
    r.name = k ∧ fluUnit r.entry.fu = true ∧ Unanswered r
  sfence : ∀ r ∈ q.stage.inflight,
    r.entry.op = .SFENCE_VMA → r.entry.rd = 0#6
  explained :
    Explained seen Steady (Explains q) (start (gpr q)) q.stage.inflight

section Entries

variable {q : State} {j : Decoder.In} {r : Rec 3} {e : ScoreboardEntry}
  {a : InstrFormat.Reg} {instr : Instr}

theorem seen_dest : (seen r).dest = some a ↔
    a ≠ 0#5 ∧ destination r.entry = a := by
  unfold seen
  dsimp only
  split_ifs with h
  · rw [h]
    simp only [ne_eq, false_iff, not_and]
    exact fun ha heq => ha heq.symm
  · rw [Option.some.injEq]
    exact ⟨fun heq => ⟨heq ▸ h, heq⟩, And.right⟩

theorem setWidth_regAddr (a : InstrFormat.Reg) :
    (Decoder.regAddr a).setWidth 5 = a := by
  rw [Decoder.regAddr, BitVec.setWidth_setWidth_of_le a (by decide : 5 ≤ 6),
    BitVec.setWidth_eq]

/-- The destination is a register of the integer file. -/
theorem dest_iff (haddr : (e.rd.setWidth 5).setWidth 6 = e.rd)
    (ha : a ≠ 0#5) :
    IssueStage.dest e = ⟨false, Decoder.regAddr a⟩ ↔ destination e = a := by
  show (⟨isRdFpr e.op, e.rd⟩ : ArianeSoc.Reg) = _ ↔ _
  rw [ArianeSoc.Reg.mk.injEq, destination]
  constructor
  · rintro ⟨hfpr, hrd⟩
    rw [hfpr, if_neg Bool.false_ne_true, hrd, setWidth_regAddr]
  · intro h
    split_ifs at h with hfpr
    · exact absurd h.symm ha
    · refine ⟨Bool.eq_false_iff.mpr hfpr, ?_⟩
      rw [← haddr, h]
      rfl

theorem destination_reName :
    destination (ReadOperands.reName (Decoder.decoder j)) =
      destination (Decoder.decoder j) := by
  unfold destination ReadOperands.reName
  dsimp only
  rw [BitVec.setWidth_setWidth_of_le _ (by decide : 5 ≤ 6),
    BitVec.setWidth_eq]

/-- What was fetched for an instruction of the queue. -/
theorem Inv.fetched_of (h : Inv q) (hr : r ∈ q.stage.queue.q.all) :
    ∃ j, q.fetched[r.serial]? = some j ∧
      r.entry = ReadOperands.reName (Decoder.decoder j) := by
  have hentry := h.lawful.entry r hr
  rw [h.fetched, List.getElem?_map] at hentry
  obtain ⟨j, hj, heq⟩ := Option.map_eq_some_iff.mp hentry
  exact ⟨j, hj, heq.symm⟩

/-- An instruction without an exception is legal and was fetched without
one. -/
theorem legal_of_ex
    (hex : (ReadOperands.reName (Decoder.decoder j)).ex.valid = false) :
    j.ex.valid = false ∧ (Decoder.decodeInstr j).illegalInstr = false := by
  obtain ⟨hfetch, hown, -⟩ := Decoder.exception_valid_eq_false.mp hex
  refine ⟨hfetch, ?_⟩
  by_contra hill
  rw [Decoder.instrException,
    if_pos (Or.inl (Bool.eq_true_of_not_eq_false hill))] at hown
  cases hown

/-- An instruction of RV64IM without an exception was accepted. -/
theorem accepts_of_ex
    (hex : (ReadOperands.reName (Decoder.decoder j)).ex.valid = false)
    (hdec : decode j.instruction = some instr) :
    Execute.Accepts j instr := by
  have h := Execute.agrees (legal_of_ex hex).1
  rw [hdec] at h
  exact h

/-- What is accepted goes to one of the three units, for its destination. -/
theorem entry_of_accepts (ha : Execute.Accepts j instr) :
    fluUnit (Decoder.decodeInstr j).fu = true ∧
      late (ReadOperands.reName (Decoder.decoder j)) = false ∧
      destination (Decoder.decoder j) = instr.rd := by
  have hrd := setWidth_regAddr
  show _ ∧ ((Decoder.decodeInstr j).fu == .CSR ||
      isAmo (Decoder.decodeInstr j).op) = false ∧
    (if isRdFpr (Decoder.decodeInstr j).op then 0#5
      else (Decoder.decodeInstr j).rd.setWidth 5) = _
  rw [ha.decoded]
  cases instr with
  | op o rd rs1 rs2 => cases o <;> exact ⟨rfl, rfl, hrd rd⟩
  | opImm o rd rs1 imm => cases o <;> exact ⟨rfl, rfl, hrd rd⟩
  | mul o rd rs1 rs2 => cases o <;> exact ⟨rfl, rfl, hrd rd⟩
  | div o rd rs1 rs2 =>
    obtain ⟨_ | _, _ | _, _ | _⟩ := o <;> exact ⟨rfl, rfl, hrd rd⟩
  | branch c rs1 rs2 half => cases c <;> exact ⟨rfl, rfl, rfl⟩
  | lui rd imm | auipc rd imm | jal rd half | jalr rd rs1 imm =>
    exact ⟨rfl, rfl, hrd rd⟩

end Entries

end ArianeSoc.Backend
