import ArianeSoc.ExStage.Execute
import ArianeSoc.ExStage.Flu

/-!
# From the issue of an instruction to its commit

The issue stage, the fixed latency units, the commit stage and the
controller, wired as in `ariane.sv`.  The load-store unit and the
floating-point unit answer from outside, each on its own write-back ports;
so do the CSR file and the caches.

Beside the registers, `State` keeps what was fetched for each instruction
that was issued.

* `Served` is what the units outside keep to.
* `Answers` is what follows for the write-back ports: each names an
  instruction in flight that has no result, and no two name the same one.
-/

namespace ArianeSoc.Backend

open Scoreboard (Rec WbPort)
open IssueStage (Tracked)
open ReadOperands (FuData)
open Frontend (Cf)

/-- The registers.  The last five are those of the operand read that only
the fixed latency units look at, and the list of the instructions. -/
structure State where
  stage : Tracked 3
  flu : Flu.State
  pc : BitVec 64
  isCompressedInstr : Bool
  cf : Cf
  predictAddress : BitVec 64
  fetched : List Decoder.In

def reset : State where
  stage := Tracked.reset 3
  flu := Flu.reset
  pc := 0#64
  isCompressedInstr := false
  cf := .NoCF
  predictAddress := 0#64
  fetched := []

/-- The inputs of one cycle.  The write-back ports in `stage` are those of
the other units. -/
structure Env where
  stage : IssueStage.Env 3
  /-- The predicted kind of the instruction in the decoder. -/
  cf : Cf

/-! ## The wires -/

variable (wtDcache : Bool) (q : State) (e : Env)

/-- What the fixed latency units work on. -/
def op : Flu.Op where
  fuData := q.stage.st.iro.fuData
  aluValid := q.stage.st.iro.aluValid
  branchValid := q.stage.st.iro.branchValid
  csrValid := q.stage.st.iro.csrValid
  multValid := q.stage.st.iro.multValid
  pc := q.pc
  isCompressedInstr := q.isCompressedInstr

/-- The inputs of the fixed latency units for a flush and the commit of a
CSR instruction. -/
def fluInWith (flush csrCommit : Bool) : Flu.In where
  op := op q
  flush := flush
  csrCommit := csrCommit
  cf := q.cf
  predictAddress := q.predictAddress

/-- `resolved_branch`; it depends on neither. -/
def resolvedBranch : BranchUnit.BpResolve :=
  BranchUnit.resolvedBranchO (Flu.branchIn (fluInWith q false false))

/-- The inputs of the issue stage but for what the fixed latency units put
out beside the branch. -/
def branchEnv : IssueStage.Env 3 :=
  { e.stage with
    targetAddress := (resolvedBranch q).targetAddress
    ctrl := { e.stage.ctrl with
      isMispredict := (resolvedBranch q).isMispredict } }

def fluIn : Flu.In :=
  fluInWith q
    (IssueStage.controllerOut wtDcache q.stage.st (branchEnv q e)).flushEx
    (CommitStage.commitCsrO (IssueStage.commitIn q.stage.st (branchEnv q e)))

/-- The write-back port of the fixed latency units. -/
def fluPort : WbPort 3 where
  valid := Flu.fluValidO q.flu (fluIn wtDcache q e)
  transId := Flu.fluTransIdO q.flu (fluIn wtDcache q e)
  wbdata := Flu.fluResultO q.flu (fluIn wtDcache q e)
  ex := Flu.fluExceptionO (fluIn wtDcache q e)

/-- The inputs of the issue stage. -/
def env : IssueStage.Env 3 :=
  { branchEnv q e with
    fluReady := Flu.fluReadyO q.flu (fluIn wtDcache q e)
    wb := e.stage.wb ++ [fluPort wtDcache q e] }

/-- The inputs of the scoreboard. -/
abbrev sbIn : Scoreboard.In 3 :=
  IssueStage.scoreboardIn wtDcache q.stage.st (env wtDcache q e)

/-- The inputs of the operand read. -/
abbrev readIn : ReadOperands.In :=
  IssueStage.readIn wtDcache q.stage.st (env wtDcache q e)

/-- The inputs of the commit stage. -/
abbrev commitIn : CommitStage.In :=
  IssueStage.commitIn q.stage.st (env wtDcache q e)

/-- One cycle. -/
def step : State where
  stage := IssueStage.track wtDcache q.stage (env wtDcache q e)
  flu := Flu.step q.flu (fluIn wtDcache q e)
  pc := (readIn wtDcache q e).issueInstr.pc
  isCompressedInstr := (readIn wtDcache q e).issueInstr.isCompressed
  cf := e.cf
  predictAddress := (readIn wtDcache q e).issueInstr.predictAddress
  fetched := q.fetched ++
    if Scoreboard.issueEn q.stage.st.sb (sbIn wtDcache q e) then [e.stage.dec]
    else []

/-! ## The units outside -/

/-- The units that share the port of the fixed latency units. -/
def fluUnit : FuT → Bool
  | .ALU | .CTRL_FLOW | .CSR | .MULT => true
  | _ => false

/-- Instruction `r` has no result yet. -/
def Unanswered (r : Rec 3) : Prop := (Scoreboard.offered r).valid = false

instance (r : Rec 3) : Decidable (Unanswered r) :=
  inferInstanceAs (Decidable (_ = _))

/-- The other units answer an instruction of theirs, once; an atomic gets
its response when it asks for one, and nothing commits beside it; and the
program has no SFENCE.VMA with a destination. -/
structure Served (q : State) (e : Env) : Prop where
  answers : ∀ p ∈ e.stage.wb, p.valid = true →
    ∃ r ∈ q.stage.inflight, r.name = p.transId ∧
      fluUnit r.entry.fu = false ∧ Unanswered r
  once : ((e.stage.wb.filter WbPort.valid).map WbPort.transId).Nodup
  amo : e.stage.commit.amoRespAck = true →
    CommitStage.amoValidCommitO (commitIn wtDcache q e) = true
  alone : CommitStage.flushCommitO (commitIn wtDcache q e) = true →
    CommitStage.commitAck1 (commitIn wtDcache q e) = false
  sfence : (Decoder.decodeInstr e.stage.dec).op = .SFENCE_VMA →
    (Decoder.decodeInstr e.stage.dec).rd = 0#6

/-! ## What an instruction in flight receives -/

section Answers

variable {l : List (Rec 3)} {i : Scoreboard.In 3} {r : Rec 3} {p : WbPort 3}

/-- Each port that is valid names an instruction without a result, and no
two name the same one. -/
structure Answers (l : List (Rec 3)) (wb : List (WbPort 3)) : Prop where
  named : ∀ p ∈ wb, p.valid = true →
    ∃ r ∈ l, r.name = p.transId ∧ Unanswered r
  once : ((wb.filter WbPort.valid).map WbPort.transId).Nodup
  names : (l.map RetireQueue.Rec.name).Nodup

theorem filter_key {α β : Type*} [DecidableEq β] {f : α → β} {l : List α}
    {a : α} (hl : (l.map f).Nodup) (ha : a ∈ l) :
    (l.filter fun b => f b == f a) = [a] := by
  induction l with
  | nil => cases ha
  | cons b l ih =>
    obtain ⟨hb, hl⟩ := List.nodup_cons.mp hl
    rcases List.mem_cons.mp ha with rfl | ha
    · rw [List.filter_cons_of_pos (by simp), List.filter_eq_nil_iff.mpr]
      intro c hc heq
      exact hb (beq_iff_eq.mp heq ▸ List.mem_map_of_mem hc)
    · rw [List.filter_cons_of_neg, ih hl ha]
      rw [beq_iff_eq]
      exact fun heq => hb (heq ▸ List.mem_map_of_mem ha)

/-- The port of an answer is the only one under its id. -/
theorem Answers.portsOf (h : Answers l i.wb) (hp : p ∈ i.wb)
    (hv : p.valid = true) : Scoreboard.portsOf i p.transId = [p] := by
  have hfilter : Scoreboard.portsOf i p.transId =
      (i.wb.filter WbPort.valid).filter fun p' => p'.transId == p.transId := by
    rw [List.filter_filter]
    exact List.filter_congr fun p' _ => Bool.and_comm _ _
  rw [hfilter]
  exact filter_key h.once (List.mem_filter.mpr ⟨hp, hv⟩)

theorem portsOf_nil {k : BitVec 3}
    (h : ∀ p ∈ i.wb, p.valid = true → p.transId ≠ k) :
    Scoreboard.portsOf i k = [] := by
  refine List.filter_eq_nil_iff.mpr fun p hp hq => ?_
  rw [Bool.and_eq_true, beq_iff_eq] at hq
  exact h p hp hq.1 hq.2

/-- Instructions in flight of one name are the same. -/
theorem Answers.same (h : Answers l i.wb) {r' : Rec 3} (hr : r ∈ l)
    (hr' : r' ∈ l) (hname : r'.name = r.name) : r' = r :=
  List.inj_on_of_nodup_map h.names hr' hr hname

/-- An instruction that has its result gets no answer. -/
theorem Answers.portsOf_answered (h : Answers l i.wb) (hr : r ∈ l)
    (hv : (Scoreboard.offered r).valid = true) :
    Scoreboard.portsOf i r.name = [] := by
  refine portsOf_nil fun p hp hpv hname => ?_
  obtain ⟨r', hr', hname', hun⟩ := h.named p hp hpv
  rw [h.same hr hr' (hname'.trans hname), Unanswered, hv] at hun
  cases hun

/-- A result stays as it is. -/
theorem Answers.result_receive (h : Answers l i.wb) (hr : r ∈ l)
    (hv : (Scoreboard.offered r).valid = true) :
    (Scoreboard.offered (r.receive (Scoreboard.effectsOf i))).valid = true ∧
      (Scoreboard.offered (r.receive (Scoreboard.effectsOf i))).result =
        (Scoreboard.offered r).result := by
  rw [Scoreboard.offered_receive, Scoreboard.entryAfter,
    h.portsOf_answered hr hv, List.foldl_nil]
  split_ifs
  · exact ⟨rfl, rfl⟩
  · exact ⟨hv, rfl⟩

/-- An instruction without an answer stays without a result. -/
theorem offered_silent (hp : Scoreboard.portsOf i r.name = [])
    (hfu : r.entry.fu ≠ .NONE) :
    Scoreboard.offered (r.receive (Scoreboard.effectsOf i)) =
      Scoreboard.offered r := by
  rw [Scoreboard.offered_receive, Scoreboard.entryAfter, hp, if_neg hfu,
    List.foldl_nil]

/-- An answer is the result. -/
theorem offered_answer (hp : Scoreboard.portsOf i r.name = [p])
    (hfu : r.entry.fu ≠ .NONE) :
    Scoreboard.offered (r.receive (Scoreboard.effectsOf i)) =
      Scoreboard.written i.targetAddress r.entry.fu p
        (Scoreboard.offered r) := by
  rw [Scoreboard.offered_receive, Scoreboard.entryAfter, hp, if_neg hfu,
    List.foldl_cons, List.foldl_nil]

/-- An exception stays. -/
theorem ex_of_receive
    (h : (Scoreboard.offered
      (r.receive (Scoreboard.effectsOf i))).ex.valid = false) :
    (Scoreboard.offered r).ex.valid = false := by
  refine Bool.eq_false_iff.mpr fun hex => ?_
  have hkeep : ∀ ps : List (WbPort 3), ∀ e : ScoreboardEntry,
      e.ex.valid = true →
        (ps.foldl (fun e p => Scoreboard.written i.targetAddress r.entry.fu
          p e) e).ex.valid = true := by
    intro ps
    induction ps with
    | nil => exact fun e he => he
    | cons p ps ih =>
      refine fun e he => ih _ ?_
      unfold Scoreboard.written
      dsimp only
      split_ifs <;> assumption
  rw [Scoreboard.offered_receive, Scoreboard.entryAfter, hkeep] at h
  · cases h
  · split_ifs <;> exact hex

end Answers

end ArianeSoc.Backend
