import ArianeSoc.Core.AmoInv
import ArianeSoc.Csr.Atomic

/-!
# A CSR instruction takes effect with its commit

The commit stage drives the operation of a CSR instruction to `csr_regfile`
before it knows whether the instruction is acknowledged, and the
acknowledge is then overridden by the flush of the data cache.  The
controller keeps the core halted while it flushes (`Fenced`), so that the
two agree in every cycle.

* `performs_iff`: `csr_regfile` performs an operation exactly if port 0
  acknowledges it and raises no exception.
* `csr_commit_atomic`: the operations that are performed over a run are the
  CSR instructions that commit, in order and each once.

The fences go to the CSR unit as well, but `csr_regfile` does not act on
them.
-/

namespace ArianeSoc.CommitStage

variable {i : In}

/-- An instruction with an operation that `csr_regfile` acts on: an access,
a return or a WFI. -/
def csrOperation (x : ScoreboardEntry) : Bool :=
  x.fu = .CSR && Csr.isCsrOperation x.op

theorem csrOperation_iff {x : ScoreboardEntry} :
    csrOperation x = true ↔
      x.fu = .CSR ∧ Csr.isCsrOperation x.op = true := by
  simp [csrOperation]

/-- Such an operation is none of the fences and no atomic. -/
theorem not_fence_of_operation {op : FuOp}
    (h : Csr.isCsrOperation op = true) :
    op ≠ .SFENCE_VMA ∧ op ≠ .FENCE_I ∧ op ≠ .FENCE ∧ isAmo op = false := by
  refine ⟨?_, ?_, ?_, ?_⟩
  · rintro rfl
    exact absurd h (by decide)
  · rintro rfl
    exact absurd h (by decide)
  · rintro rfl
    exact absurd h (by decide)
  · cases op <;> first | rfl | exact absurd h (by decide)

/-- Port 0 acknowledges a CSR operation unless it raises an exception. -/
theorem commitAck0_of_operation (hc : commits0 i = true)
    (hx : csrOperation i.commitInstr0 = true)
    (hd : i.flushDcache = false) :
    commitAck0 i = !i.csrException.valid := by
  obtain ⟨hfu, hop⟩ := csrOperation_iff.mp hx
  obtain ⟨hs, hfi, hf, ha⟩ := not_fence_of_operation hop
  simp [commitAck0, hc, hfu, hs, hfi, hf, ha, hd]

/-- The exception of the CSR file is the one that is taken. -/
theorem exceptionO_of_operation (hc : commits0 i = true)
    (hx : csrOperation i.commitInstr0 = true) :
    (exceptionO i).valid = i.csrException.valid := by
  obtain ⟨-, hop⟩ := csrOperation_iff.mp hx
  obtain ⟨-, -, -, ha⟩ := not_fence_of_operation hop
  obtain ⟨hv, hex, hh⟩ := commits0_iff.mp hc
  cases hcsr : i.csrException.valid <;>
    simp [exceptionO, amoValidCommitO, hv, hex, hh, ha, hcsr,
      ExceptionT.none]

end ArianeSoc.CommitStage

namespace ArianeSoc.AmoPath

open CommitStage (csrOperation)
open Scoreboard (retired)

variable {s c : ℕ} {cfg : Csr.Cfg} {wtDcache : Bool} {t : State s c} {e : Env}

/-! ## The flush of the data cache -/

/-- The data cache is flushed only while the core is halted. -/
def Fenced (t : State s c) : Prop :=
  t.flushDcache = true → t.fenceActive = true

variable (cfg e) in
theorem commits0_of_fenceActive (h : t.fenceActive = true) :
    CommitStage.commits0 (commitStageIn cfg t e) = false := by
  refine Bool.eq_false_iff.mpr fun hc => ?_
  obtain ⟨-, -, hhalt⟩ := CommitStage.commits0_iff.mp hc
  have hhalt' : (t.csr.wfi || t.fenceActive) = false := hhalt
  rw [h, Bool.or_true] at hhalt'
  exact absurd hhalt'.symm Bool.false_ne_true

theorem fenced_step : Fenced (step cfg wtDcache t e) := by
  refine Controller.flushCtrl_fenced fun hact => ?_
  have hc := commits0_of_fenceActive cfg e hact
  constructor
  · show CommitStage.fenceO (commitStageIn cfg t e) = false
    simp [CommitStage.fenceO, hc]
  · show CommitStage.fenceIO (commitStageIn cfg t e) = false
    simp [CommitStage.fenceIO, hc]

theorem flushDcache_of_commits0 (h : Fenced t)
    (hc : CommitStage.commits0 (commitStageIn cfg t e) = true) :
    (commitStageIn cfg t e).flushDcache = false := by
  refine Bool.eq_false_iff.mpr fun hd => ?_
  rw [commits0_of_fenceActive cfg e (h hd)] at hc
  exact absurd hc Bool.false_ne_true

/-! ## One cycle -/

variable (cfg t e) in
/-- `csr_regfile` performs the operation that it is given. -/
def performs : Bool :=
  Csr.isCsrOperation (csrIn cfg t e).csrOp && !(csrException cfg t e).valid

/-- The exception of the CSR file is that of its final inputs. -/
theorem csrException_eq :
    csrException cfg t e = Csr.csrExceptionO cfg t.csr (csrIn cfg t e) :=
  Csr.csrExceptionO_congr rfl rfl

theorem csrOp_cases :
    Csr.isCsrOperation (csrIn cfg t e).csrOp = true ↔
      CommitStage.commits0 (commitStageIn cfg t e) = true ∧
        csrOperation (commitStageIn cfg t e).commitInstr0 = true := by
  rw [CommitStage.csrOperation_iff]
  constructor
  · intro h
    have hne : CommitStage.csrOpO (commitStageIn cfg t e) ≠ .ADD := by
      intro hadd
      have hadd' : (csrIn cfg t e).csrOp = .ADD := hadd
      rw [hadd'] at h
      exact absurd h (by decide)
    obtain ⟨hc, hfu, hop⟩ := CommitStage.csrOpO_ne_add hne
    have hop' : (csrIn cfg t e).csrOp =
      (commitStageIn cfg t e).commitInstr0.op := hop
    exact ⟨hc, hfu, hop' ▸ h⟩
  · rintro ⟨hc, hfu, hop⟩
    have hop' : (csrIn cfg t e).csrOp =
      (commitStageIn cfg t e).commitInstr0.op := if_pos ⟨hc, hfu⟩
    rw [hop']
    exact hop

/-- What is performed is what port 0 acknowledges. -/
theorem performs_iff (h : Fenced t) :
    performs cfg t e = true ↔
      csrOperation (commitStageIn cfg t e).commitInstr0 = true ∧
        CommitStage.commitAck0 (commitStageIn cfg t e) = true ∧
        (CommitStage.exceptionO (commitStageIn cfg t e)).valid = false := by
  unfold performs
  rw [Bool.and_eq_true, csrOp_cases, Bool.not_eq_true']
  constructor
  · rintro ⟨⟨hc, hx⟩, hex⟩
    have hex' : (commitStageIn cfg t e).csrException.valid = false := hex
    refine ⟨hx, ?_, ?_⟩
    · rw [CommitStage.commitAck0_of_operation hc hx
        (flushDcache_of_commits0 h hc), hex']
      rfl
    · rw [CommitStage.exceptionO_of_operation hc hx, hex']
  · rintro ⟨hx, hack, hex⟩
    have hc : CommitStage.commits0 (commitStageIn cfg t e) = true := by
      simp only [CommitStage.commitAck0, Bool.and_eq_true] at hack
      exact hack.1
    rw [CommitStage.exceptionO_of_operation hc hx] at hex
    exact ⟨⟨hc, hx⟩, hex⟩

/-- Any other cycle is one without an operation. -/
theorem csr_step_of_not_performs (h : performs cfg t e = false) :
    Csr.step cfg t.csr (csrIn cfg t e) =
      Csr.step cfg t.csr { csrIn cfg t e with csrOp := .ADD } := by
  rcases Bool.and_eq_false_iff.mp h with hop | hex
  · exact Csr.step_of_not_operation hop
  · rw [Bool.not_eq_false', csrException_eq] at hex
    exact Csr.step_of_denied hex

/-- An instruction whose access raises an exception is not acknowledged, nor
is the one behind it. -/
theorem not_acked_of_csrException (h : Fenced t)
    (hex : (csrException cfg t e).valid = true) :
    CommitStage.commitAck0 (commitStageIn cfg t e) = false ∧
      CommitStage.commitAck1 (commitStageIn cfg t e) = false ∧
      (CommitStage.exceptionO (commitStageIn cfg t e)).valid = true := by
  have hacc : Csr.isCsrAccess (csrIn cfg t e).csrOp = true :=
    Csr.isCsrAccess_of_denied (csrException_eq ▸ hex)
  have hop : Csr.isCsrOperation (csrIn cfg t e).csrOp = true := by
    simp [Csr.isCsrOperation, hacc]
  obtain ⟨hc, hx⟩ := csrOp_cases.mp hop
  have hex' : (commitStageIn cfg t e).csrException.valid = true := hex
  have hack : CommitStage.commitAck0 (commitStageIn cfg t e) = false := by
    rw [CommitStage.commitAck0_of_operation hc hx
      (flushDcache_of_commits0 h hc), hex']
    rfl
  refine ⟨hack, ?_, ?_⟩
  · simp [CommitStage.commitAck1, hack]
  · rw [CommitStage.exceptionO_of_operation hc hx, hex']

/-! ## A run -/

variable (cfg) in
/-- The instruction that `csr_regfile` performs in a cycle. -/
def performed (t : State s c) (e : Env) : List ScoreboardEntry :=
  if performs cfg t e then [Scoreboard.commitInstr0 t.sb] else []

/-- What commits in a cycle has its operation performed. -/
theorem filter_committing (h : Fenced t) :
    (Scoreboard.committing t.sb (scoreboardIn cfg wtDcache t e)).filter
        csrOperation = performed cfg t e := by
  have hport1 : CommitStage.commitAck1 (commitStageIn cfg t e) = true →
      csrOperation (Scoreboard.commitInstr1 t.sb) = false := by
    intro hack
    simp only [CommitStage.commitAck1, Bool.and_eq_true] at hack
    have hunit : CommitStage.port1Unit (Scoreboard.commitInstr1 t.sb).fu =
        true := hack.2
    refine Bool.eq_false_iff.mpr fun hx => ?_
    rw [(CommitStage.csrOperation_iff.mp hx).1] at hunit
    exact absurd hunit (by decide)
  have hsecond : (if CommitStage.commitAck1 (commitStageIn cfg t e) then
      [Scoreboard.commitInstr1 t.sb] else []).filter csrOperation = [] := by
    split_ifs with hack
    · rw [List.filter_singleton, hport1 hack]
      rfl
    · rfl
  have hfirst : (if CommitStage.commitAck0 (commitStageIn cfg t e) then
      [Scoreboard.commitInstr0 t.sb] else []).filter csrOperation =
        performed cfg t e := by
    unfold performed
    cases hp : performs cfg t e with
    | true =>
      obtain ⟨hx, hack, -⟩ := (performs_iff h).mp hp
      have hx' : csrOperation (Scoreboard.commitInstr0 t.sb) = true := hx
      rw [if_pos hack, List.filter_singleton, hx']
      rfl
    | false =>
      rw [if_neg Bool.false_ne_true]
      split_ifs with hack
      · have hno : csrOperation (Scoreboard.commitInstr0 t.sb) = false := by
          refine Bool.eq_false_iff.mpr fun hx => ?_
          have hc : CommitStage.commits0 (commitStageIn cfg t e) = true := by
            simp only [CommitStage.commitAck0, Bool.and_eq_true] at hack
            exact hack.1
          have hx' : csrOperation (commitStageIn cfg t e).commitInstr0 =
              true := hx
          have hack' := hack
          rw [CommitStage.commitAck0_of_operation hc hx'
            (flushDcache_of_commits0 h hc), Bool.not_eq_true'] at hack'
          have hex := CommitStage.exceptionO_of_operation hc hx'
          have hyes := (performs_iff h).mpr ⟨hx', hack, hex.trans hack'⟩
          exact absurd (hyes.symm.trans hp) (by decide)
        rw [List.filter_singleton, hno]
        rfl
      · rfl
  show (_ ++ _ : List ScoreboardEntry).filter csrOperation = _
  rw [List.filter_append]
  exact (congrArg₂ _ hfirst hsecond).trans (List.append_nil _)

/-- The CSR instructions that have committed grow by what is performed. -/
theorem filter_committed_step (hinv : Inv t) (h : Fenced t) :
    ((step cfg wtDcache t e).queue.q.committed.map retired).filter
        csrOperation =
      (t.queue.q.committed.map retired).filter csrOperation ++
        performed cfg t e := by
  have hack : Scoreboard.AckOk t.sb (scoreboardIn cfg wtDcache t e) :=
    ackOk_scoreboardIn
  have hcommit := Scoreboard.committed_step hack hinv.flight.refines
  show ((t.queue.step (scoreboardIn cfg wtDcache t e)).q.committed.map
    retired).filter csrOperation = _
  rw [hcommit, List.filter_append, filter_committing h]

/-- In every cycle of every run, `csr_regfile` performs an operation if and
only if port 0 acknowledges it and it raises no exception, and otherwise
does what it does without an operation; an access that raises an exception
is not acknowledged.  Over the run, the operations that are performed are
those of the CSR instructions that commit, each once. -/
theorem csr_commit_atomic (s c : ℕ) (cfg : Csr.Cfg) (wtDcache : Bool)
    (es : List Env) (e : Env) :
    let t := Sync.run (step cfg wtDcache) (reset s c) es
    let x := commitStageIn cfg t e
    (performs cfg t e = true ↔
      csrOperation x.commitInstr0 = true ∧
        CommitStage.commitAck0 x = true ∧
        (CommitStage.exceptionO x).valid = false) ∧
    (performs cfg t e = false →
      Csr.step cfg t.csr (csrIn cfg t e) =
        Csr.step cfg t.csr { csrIn cfg t e with csrOp := .ADD }) ∧
    ((csrException cfg t e).valid = true →
      CommitStage.commitAck0 x = false ∧ CommitStage.commitAck1 x = false ∧
        (CommitStage.exceptionO x).valid = true) ∧
    Sync.outputs (step cfg wtDcache) (performed cfg) (reset s c) es =
      (t.queue.q.committed.map retired).filter csrOperation ∧
    RetireQueue.Lawful t.queue.q := by
  intro t x
  have hkeep : ∀ (u : State s c) (i : Env), Inv u ∧ Fenced u →
      Inv (step cfg wtDcache u i) ∧ Fenced (step cfg wtDcache u i) :=
    fun _ _ h => ⟨inv_step h.1, fenced_step⟩
  have hstart : Inv (reset s c) ∧ Fenced (reset s c) :=
    ⟨inv_reset s c, fun h => by cases h⟩
  have hend : Inv t ∧ Fenced t := Sync.run_invariant hkeep hstart es
  have hlog : (t.queue.q.committed.map retired).filter csrOperation =
      [] ++ Sync.outputs (step cfg wtDcache) (performed cfg) (reset s c) es :=
    (Sync.along_of_invariant hkeep hstart es).log_eq (S := fun u v => u = v)
      (f := fun t => (t.queue.q.committed.map retired).filter csrOperation)
      (fun _ _ _ _ huv => by rw [huv])
      (fun _ _ _ hu huv => huv ▸ filter_committed_step hu.1 hu.2) rfl
  exact ⟨performs_iff hend.2, csr_step_of_not_performs,
    not_acked_of_csrException hend.2, hlog.symm, hend.1.log.lawful⟩

end ArianeSoc.AmoPath
