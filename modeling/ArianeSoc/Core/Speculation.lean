import ArianeSoc.Core.Refinement

/-!
# The program that commits

The pipeline issues along predictions.  A branch or jump is resolved in the
cycle after its issue, and a wrong prediction keeps anything from being
issued in that cycle and redirects the front end.

`Flow` adds to the pipeline the address where the front end goes on, and a
log of what has committed and where a flush redirected the fetch.  `Fetches`
is what the front end has to keep to: it delivers the instruction at this
address, with a prediction that the branch unit can check.  Then the log is
a run of the program: each committed instruction is the one that follows the
last one, in the registers and in the address.
-/

namespace ArianeSoc.Backend

open Scoreboard (Rec WbPort)
open RegWindow Rv64Int
open Frontend (Cf)

/-! ## A run of the program -/

/-- What the pipeline does to the program. -/
inductive Event
  | commit (j : Decoder.In)
  | redirect (a : BitVec 64)

/-- The address of the instruction that follows `j`. -/
def nextOf (j : Decoder.In) (x : RegFile) : BitVec 64 :=
  match decode j.instruction with
  | some instr => instr.next x j.pc (Execute.len j)
  | none => j.pc + Execute.len j

/-- The events lead from the address `pc` and the registers `x` to `pc'` and
`x'`. -/
def Leads : BitVec 64 → RegFile → List Event → BitVec 64 → RegFile → Prop
  | pc, x, [], pc', x' => pc' = pc ∧ x' = x
  | pc, x, .commit j :: l, pc', x' =>
    j.pc = pc ∧ ∃ y, Runs j x y ∧ Leads (nextOf j x) y l pc' x'
  | _, x, .redirect a :: l, pc', x' => Leads a x l pc' x'

theorem Leads.append {l l' : List Event} {pc pc' pc'' : BitVec 64}
    {x x' x'' : RegFile} (h : Leads pc x l pc' x')
    (h' : Leads pc' x' l' pc'' x'') : Leads pc x (l ++ l') pc'' x'' := by
  induction l generalizing pc x with
  | nil =>
    obtain ⟨rfl, rfl⟩ := h
    exact h'
  | cons ev l ih =>
    cases ev with
    | commit j =>
      obtain ⟨hpc, y, hrun, hrest⟩ := h
      exact ⟨hpc, y, hrun, ih hrest⟩
    | redirect a =>
      have hrest : Leads a x l pc' x' := h
      exact ih hrest

/-! ## The front end -/

/-- The pipeline with the address where the front end goes on. -/
structure Flow where
  core : State
  pcNext : BitVec 64
  log : List Event

def Flow.reset (bootAddr : BitVec 64) : Flow := ⟨Backend.reset, bootAddr, []⟩

/-- The inputs of one cycle. -/
structure FlowEnv where
  core : Env
  epc : BitVec 64
  trapVectorBase : BitVec 64
  debugAddr : BitVec 64

variable (wtDcache : Bool) (f : Flow) (e : FlowEnv)

/-- `npc_select` for a change of the control flow. -/
def redirect : BitVec 64 :=
  let c := IssueStage.controllerIn f.core.stage.st (env wtDcache f.core e.core)
  if c.setDebugPc then e.debugAddr
  else if (Controller.flushCtrl wtDcache c).setPcCommit then
    (Scoreboard.commitInstr0 f.core.stage.st.sb).pc + 4#64
  else if c.exValid then e.trapVectorBase
  else if c.eret then e.epc
  else (resolvedBranch f.core).targetAddress

/-- Where the front end expects the program to go on behind `j`. -/
def predicted (cf : Cf) (j : Decoder.In) : BitVec 64 :=
  if cf = .NoCF then j.pc + Execute.len j else j.predictAddress

/-- An instruction is issued in this cycle. -/
abbrev issues (wtDcache : Bool) (q : State) (e : Env) : Bool :=
  Scoreboard.issueEn q.stage.st.sb (sbIn wtDcache q e)

def pcNextD : BitVec 64 :=
  if flushes wtDcache f.core e.core || (resolvedBranch f.core).isMispredict
    then redirect wtDcache f e
  else if issues wtDcache f.core e.core then
    predicted e.core.cf e.core.stage.dec
  else f.pcNext

/-- One cycle. -/
def Flow.step : Flow where
  core := Backend.step wtDcache f.core e.core
  pcNext := pcNextD wtDcache f e
  log := f.log ++
    ((wordsOf f.core (leaving wtDcache f.core e.core)).map .commit ++
      if flushes wtDcache f.core e.core then [.redirect (redirect wtDcache f e)]
      else [])

/-- The prediction is one that the branch unit can check. -/
def Checkable (cf : Cf) (j : Decoder.In) : Prop :=
  match decode j.instruction with
  | some instr =>
    BranchUnit.Foreseen cf j.predictAddress j.pc instr ∧
      (instr.jumps = false → cf = .NoCF)
  | none => cf = .NoCF

/-- The front end delivers the instruction at the address where it goes
on. -/
structure Fetches (f : Flow) (e : FlowEnv) : Prop where
  pc : issues wtDcache f.core e.core = true → e.core.stage.dec.pc = f.pcNext
  checkable : issues wtDcache f.core e.core = true →
    (Decoder.decoder e.core.stage.dec).ex.valid = false →
      Checkable e.core.cf e.core.stage.dec

/-! ## The addresses in flight -/

/-- The address of the instruction `n`, or where the front end goes on. -/
def Flow.pcAt (n : ℕ) : BitVec 64 :=
  (f.core.fetched[n]?).elim f.pcNext Decoder.In.pc

/-- The address of the first instruction that has not committed. -/
def Flow.pc : BitVec 64 :=
  f.pcAt (f.core.fetched.length - f.core.stage.inflight.length)

/-- The branch unit works on instruction `r`. -/
def Resolving (q : State) (r : Rec 3) : Prop :=
  (op q).branchValid = true ∧ (op q).fuData.transId = r.name

/-- The inputs of the branch unit. -/
abbrev branchIn (q : State) : BranchUnit.In :=
  Flu.branchIn (fluInWith q false false)

/-- With the registers `v`, the instruction behind `r` is the right one, or
the branch unit is going to tell. -/
def Flows (f : Flow) (v : Known) (r : Rec 3) : Prop :=
  ∀ j, f.core.fetched[r.serial]? = some j → r.entry.ex.valid = false →
    match decode j.instruction with
    | some instr => ∃ x : RegFile, (∀ s ∈ instr.sources, v s = some (x s)) ∧
      (¬ Resolving f.core r →
        f.pcAt (r.serial + 1) = instr.next x j.pc (Execute.len j)) ∧
      (Resolving f.core r →
        BranchUnit.Resolves (branchIn f.core) x instr ∧
          (branchIn f.core).pc = j.pc ∧
          (branchIn f.core).len = Execute.len j ∧
          BranchUnit.Foreseen (branchIn f.core).cf
            (branchIn f.core).predictAddress j.pc instr ∧
          f.pcAt (r.serial + 1) = (branchIn f.core).predicted)
    | none => ¬ Resolving f.core r ∧
      f.pcAt (r.serial + 1) = j.pc + Execute.len j

/-- The invariant of the flow. -/
structure Flow.Inv (f : Flow) : Prop where
  core : Backend.Inv f.core
  serials : RetireQueue.serials f.core.stage.inflight =
    List.range' (f.core.fetched.length - f.core.stage.inflight.length)
      f.core.stage.inflight.length
  length : f.core.stage.inflight.length ≤ f.core.fetched.length
  branch : (op f.core).branchValid = true →
    ∃ r ∈ f.core.stage.inflight,
      r.name = (op f.core).fuData.transId ∧ Unanswered r ∧
        r.serial + 1 = f.core.fetched.length
  flows : Explained seen Steady (Flows f) (start (gpr f.core))
    f.core.stage.inflight

variable {wtDcache} {f} {e} {r : Rec 3} {j : Decoder.In} {instr : Instr}

/-! ## The issue and the redirection -/

theorem not_issues_of_flushUnissued {q : State} {e : Env}
    (h : (readIn wtDcache q e).flush = true) :
    issues wtDcache q e = false := by
  have h' : (sbIn wtDcache q e).flushUnissuedInstr = true := h
  rw [issues, Scoreboard.issueEn, h', Bool.not_true, Bool.and_false]

theorem not_issues_of_mispredict {q : State} {e : Env}
    (h : (resolvedBranch q).isMispredict = true) :
    issues wtDcache q e = false :=
  not_issues_of_flushUnissued (Controller.flushUnissued_of_mispredict
    (i := IssueStage.controllerIn q.stage.st (env wtDcache q e)) h)

theorem branchValid_of_mispredict {q : State}
    (h : (resolvedBranch q).isMispredict = true) :
    (op q).branchValid = true := by
  have h' : ((op q).branchValid && (BranchUnit.wrongOutcome (branchIn q) ||
    BranchUnit.wrongTarget (branchIn q))) = true := h
  rw [Bool.and_eq_true] at h'
  exact h'.1

/-- A wrong prediction alone sends the front end to the target. -/
theorem redirect_of_mispredict
    (hf : flushes wtDcache f.core e.core = false) :
    redirect wtDcache f e = (resolvedBranch f.core).targetAddress := by
  have hall : flushes wtDcache f.core e.core = true ↔ _ :=
    Controller.flushEx_iff
  have hno := (not_congr hall).mp (Bool.eq_false_iff.mp hf)
  simp only [not_or] at hno
  obtain ⟨-, -, -, -, -, hex, heret, hdebug⟩ := hno
  have hpc : (Controller.flushCtrl wtDcache (IssueStage.controllerIn
      f.core.stage.st (env wtDcache f.core e.core))).setPcCommit = false := by
    refine Bool.eq_false_iff.mpr fun h => ?_
    have hflush := Controller.flushEx_of_setPcCommit h
    exact Bool.eq_false_iff.mp hf hflush
  unfold redirect
  dsimp only
  rw [if_neg hdebug, hpc, if_neg Bool.false_ne_true, if_neg hex, if_neg heret]

/-! ## The addresses after a cycle -/

theorem fetched_step_eq (q : State) (e : Env) :
    (step wtDcache q e).fetched =
      q.fetched ++ if issues wtDcache q e then [e.stage.dec] else [] := rfl

/-- An address that was known stays, if no wrong prediction is resolved. -/
theorem pcAt_step (hfetch : Fetches wtDcache f e)
    (hf : flushes wtDcache f.core e.core = false) {m : ℕ}
    (hm : m ≤ f.core.fetched.length)
    (hmis : m = f.core.fetched.length →
      (resolvedBranch f.core).isMispredict = false) :
    (f.step wtDcache e).pcAt m = f.pcAt m := by
  show (((step wtDcache f.core e.core).fetched)[m]?).elim
    (pcNextD wtDcache f e) Decoder.In.pc = _
  rw [fetched_step_eq, Flow.pcAt]
  rcases Nat.lt_or_eq_of_le hm with hlt | heq
  · rw [List.getElem?_append_left hlt, List.getElem?_eq_getElem hlt]
    rfl
  · subst heq
    have hnone : f.core.fetched[f.core.fetched.length]? = none :=
      List.getElem?_eq_none (Nat.le_refl _)
    rw [hnone]
    cases hi : issues wtDcache f.core e.core with
    | true =>
      rw [if_pos rfl, List.getElem?_concat_length]
      exact hfetch.pc hi
    | false =>
      rw [if_neg Bool.false_ne_true, List.append_nil, hnone, pcNextD, hf,
        hmis rfl, hi]
      rfl

variable (wtDcache e) in
/-- The serial numbers of the instructions that retire and that stay. -/
theorem serials_split (h : f.Inv) :
    let k := f.core.fetched.length - f.core.stage.inflight.length
    let n := (leaving wtDcache f.core e.core).length
    RetireQueue.serials (leaving wtDcache f.core e.core) =
        List.range' k n ∧
      RetireQueue.serials (remaining wtDcache f.core e.core) =
        List.range' (k + n) (remaining wtDcache f.core e.core).length ∧
      k + n + (remaining wtDcache f.core e.core).length =
        f.core.fetched.length := by
  intro k n
  have hsplit := leaving_append_remaining wtDcache f.core e.core
  have hlen := congrArg List.length hsplit
  rw [List.length_append] at hlen
  have hserials := h.serials
  rw [← hlen, ← List.range'_append_1, ← hsplit,
    RetireQueue.serials_append] at hserials
  have hboth := List.append_inj hserials (by
    rw [List.length_range', RetireQueue.serials, List.length_map])
  have hle := h.length
  refine ⟨?_, ?_, by omega⟩
  · rw [hboth.1, hlen]
  · rw [hboth.2, hlen]

theorem serials_step (h : f.Inv) :
    RetireQueue.serials (f.step wtDcache e).core.stage.inflight =
        List.range' ((f.step wtDcache e).core.fetched.length -
          (f.step wtDcache e).core.stage.inflight.length)
          (f.step wtDcache e).core.stage.inflight.length ∧
      (f.step wtDcache e).core.stage.inflight.length ≤
        (f.step wtDcache e).core.fetched.length := by
  obtain ⟨-, hrem, hlen⟩ := serials_split wtDcache e h
  have hcore : (f.step wtDcache e).core = step wtDcache f.core e.core := rfl
  rw [hcore]
  cases hf : flushes wtDcache f.core e.core with
  | true =>
    rw [inflight_of_flushes hf]
    exact ⟨rfl, Nat.zero_le _⟩
  | false =>
    have hsame : RetireQueue.serials ((remaining wtDcache f.core e.core).map
        (received wtDcache f.core e.core)) =
          RetireQueue.serials (remaining wtDcache f.core e.core) := by
      rw [RetireQueue.serials, List.map_map]
      rfl
    rw [inflight_step h.core hf, fetched_step_eq, RetireQueue.serials_append,
      hsame, hrem]
    cases hi : issues wtDcache f.core e.core with
    | false =>
      have hi' : Scoreboard.issueEn f.core.stage.st.sb
          (sbIn wtDcache f.core e.core) = false := hi
      rw [hi', if_neg Bool.false_ne_true, if_neg Bool.false_ne_true]
      simp only [List.append_nil, List.length_map, RetireQueue.serials,
        List.map_nil]
      exact ⟨by congr 1; omega, by omega⟩
    | true =>
      have hi' : Scoreboard.issueEn f.core.stage.st.sb
          (sbIn wtDcache f.core e.core) = true := hi
      have hserial := (fetched_entering h.core hi').1
      have hfirst : f.core.fetched.length + 1 -
          ((remaining wtDcache f.core e.core).length + 1) =
            f.core.fetched.length - f.core.stage.inflight.length +
              (leaving wtDcache f.core e.core).length := by omega
      have hlast : RetireQueue.serials [entering wtDcache f.core e.core] =
          List.range' (f.core.fetched.length - f.core.stage.inflight.length +
            (leaving wtDcache f.core e.core).length +
            (remaining wtDcache f.core e.core).length) 1 := by
        rw [hlen, ← hserial]
        rfl
      rw [hi', if_pos rfl, if_pos rfl, hlast, List.range'_append_1]
      simp only [List.length_append, List.length_map, List.length_singleton]
      exact ⟨by rw [hfirst], by omega⟩

/-! ## The branch unit -/

/-- The instruction in the branch unit was issued last. -/
theorem Resolving.last (h : f.Inv) (hr : r ∈ f.core.stage.inflight)
    (hres : Resolving f.core r) :
    Unanswered r ∧ r.serial + 1 = f.core.fetched.length := by
  obtain ⟨r', hr', hname, hun, hlast⟩ := h.branch hres.1
  have hsame := List.inj_on_of_nodup_map (names_nodup h.core) hr' hr
    (hname.trans hres.2)
  rw [← hsame]
  exact ⟨hun, hlast⟩

/-- The last instruction in flight is the one whose prediction is wrong. -/
theorem resolving_of_mispredict (h : f.Inv)
    (hr : r ∈ f.core.stage.inflight)
    (hlast : r.serial + 1 = f.core.fetched.length)
    (hmis : (resolvedBranch f.core).isMispredict = true) :
    Resolving f.core r := by
  have hv := branchValid_of_mispredict hmis
  obtain ⟨r', hr', hname, -, hlast'⟩ := h.branch hv
  have hnodup : (f.core.stage.inflight.map
      RetireQueue.Rec.serial).Nodup := by
    have hserials := h.serials
    rw [RetireQueue.serials] at hserials
    rw [hserials]
    exact List.nodup_range'
  have hsame := List.inj_on_of_nodup_map hnodup hr' hr (by omega)
  exact ⟨hv, hname.symm.trans (congrArg RetireQueue.Rec.name hsame)⟩

theorem branch_step (h : f.Inv)
    (hv : (op (f.step wtDcache e).core).branchValid = true) :
    ∃ r ∈ (f.step wtDcache e).core.stage.inflight,
      r.name = (op (f.step wtDcache e).core).fuData.transId ∧
        Unanswered r ∧
          r.serial + 1 = (f.step wtDcache e).core.fetched.length := by
  have hv' : (ReadOperands.handed f.core.stage.st.iro
      (readIn wtDcache f.core e.core) && decide
        ((readIn wtDcache f.core e.core).issueInstr.fu = .CTRL_FLOW)) =
      true := hv
  rw [Bool.and_eq_true] at hv'
  obtain ⟨hen, hex, hf⟩ := issueEn_of_handed hv'.1
  obtain ⟨hserial, hfetched⟩ := fetched_entering h.core hen
  refine ⟨entering wtDcache f.core e.core, ?_, ?_,
    unanswered_entering hex, ?_⟩
  · show _ ∈ (step wtDcache f.core e.core).stage.inflight
    rw [inflight_step h.core hf, if_pos hen]
    exact List.mem_append_right _ (List.mem_singleton.mpr rfl)
  · show _ = (op (step wtDcache f.core e.core)).fuData.transId
    rw [transId_op_step, h.core.stage.refines.next]
  · show _ = (step wtDcache f.core e.core).fetched.length
    rw [hserial, hfetched, List.length_append, List.length_singleton]

/-! ## The instructions that stay -/

/-- Where the program goes on behind the instruction in the branch unit. -/
theorem pcAt_resolved (h : f.Inv) (hfetch : Fetches wtDcache f e)
    (hf : flushes wtDcache f.core e.core = false)
    (hr : r ∈ f.core.stage.inflight) (hres : Resolving f.core r)
    {x : RegFile} (hx : BranchUnit.Resolves (branchIn f.core) x instr)
    (hpc : (branchIn f.core).pc = j.pc)
    (hlen : (branchIn f.core).len = Execute.len j)
    (hseen : BranchUnit.Foreseen (branchIn f.core).cf
      (branchIn f.core).predictAddress j.pc instr)
    (hnext : f.pcAt (r.serial + 1) = (branchIn f.core).predicted) :
    (f.step wtDcache e).pcAt (r.serial + 1) =
      instr.next x j.pc (Execute.len j) := by
  obtain ⟨-, hlast⟩ := hres.last h hr
  cases hmis : (resolvedBranch f.core).isMispredict with
  | true =>
    -- nothing was issued, and the front end goes to the target
    have hi : issues wtDcache f.core e.core = false :=
      not_issues_of_mispredict hmis
    have htarget := hx.target
    rw [hpc, hlen] at htarget
    show (((step wtDcache f.core e.core).fetched)[r.serial + 1]?).elim
      (pcNextD wtDcache f e) Decoder.In.pc = _
    rw [fetched_step_eq, hi, if_neg Bool.false_ne_true, List.append_nil,
      List.getElem?_eq_none (by omega), Option.elim_none, pcNextD, hmis,
      Bool.or_true, if_pos rfl, redirect_of_mispredict hf]
    exact htarget
  | false =>
    rw [pcAt_step hfetch hf (by omega) fun _ => hmis, hnext,
      hx.predicted (by rw [hpc]; exact hseen) hmis, hpc, hlen]

theorem flows_received (h : f.Inv) (hfetch : Fetches wtDcache f e)
    (hf : flushes wtDcache f.core e.core = false)
    (hr : r ∈ f.core.stage.inflight) {v : Known} (hx : Flows f v r) :
    Flows (f.step wtDcache e) v (received wtDcache f.core e.core r) := by
  intro j hj hex
  obtain ⟨j', hj', -⟩ := h.core.fetched_of (mem_all_of_inflight hr)
  have hlt := (List.getElem?_eq_some_iff.mp hj').1
  have hsame : (step wtDcache f.core e.core).fetched[r.serial]? =
      some j' := by
    rw [fetched_step_eq, List.getElem?_append_left hlt]
    exact hj'
  obtain rfl := Option.some.inj (hsame.symm.trans hj)
  have hold := hx j' hj' hex
  -- an address that is not about to be corrected stays
  have hkeep : ¬ Resolving f.core r →
      (f.step wtDcache e).pcAt (r.serial + 1) = f.pcAt (r.serial + 1) := by
    intro hres
    refine pcAt_step hfetch hf hlt fun hlast => ?_
    by_contra hmis
    exact hres (resolving_of_mispredict h hr hlast
      (Bool.eq_true_of_not_eq_false hmis))
  have hno : ¬ Resolving (f.step wtDcache e).core
      (received wtDcache f.core e.core r) := by
    rintro ⟨-, hid⟩
    have hid' : (op (step wtDcache f.core e.core)).fuData.transId =
        r.name := hid
    rw [transId_op_step] at hid'
    exact name_ne_issuePointer h.core hr hid'.symm
  have hserial : (received wtDcache f.core e.core r).serial = r.serial := rfl
  rw [hserial]
  cases hdec : decode j'.instruction with
  | none =>
    rw [hdec] at hold
    exact ⟨hno, (hkeep hold.1).trans hold.2⟩
  | some instr =>
    rw [hdec] at hold
    obtain ⟨x, hsrc, hdone, hbranch⟩ := hold
    refine ⟨x, hsrc, fun _ => ?_, fun hyes => absurd hyes hno⟩
    by_cases hres : Resolving f.core r
    · obtain ⟨hrx, hpc, hlen, hseen, hnext⟩ := hbranch hres
      exact pcAt_resolved h hfetch hf hr hres hrx hpc hlen hseen hnext
    · rw [hkeep hres]
      exact hdone hres

theorem monotone_flows (f : Flow) : Monotone (Flows f) := by
  intro v v' r hv h j hj hex
  have hold := h j hj hex
  cases hdec : decode j.instruction with
  | none =>
    rw [hdec] at hold
    exact hold
  | some instr =>
    rw [hdec] at hold
    obtain ⟨x, hsrc, hrest⟩ := hold
    exact ⟨x, fun s hs => hv s _ (hsrc s hs), hrest⟩

/-! ## The instruction that enters -/

/-- The branch unit gets the instruction that enters if it is a branch or a
jump. -/
theorem resolving_entering (h : f.Inv)
    (hen : issues wtDcache f.core e.core = true)
    (hex : (entering wtDcache f.core e.core).entry.ex.valid = false) :
    Resolving (step wtDcache f.core e.core)
        (entering wtDcache f.core e.core) ↔
      (Decoder.decodeInstr e.core.stage.dec).fu = .CTRL_FLOW := by
  have hh := handed_of_issueEn hen hex
  have hv : (op (step wtDcache f.core e.core)).branchValid =
      decide ((Decoder.decodeInstr e.core.stage.dec).fu = .CTRL_FLOW) := by
    show (ReadOperands.handed f.core.stage.st.iro
      (readIn wtDcache f.core e.core) && decide
        ((readIn wtDcache f.core e.core).issueInstr.fu = .CTRL_FLOW)) = _
    rw [hh, Bool.true_and]
    rfl
  have hname : (op (step wtDcache f.core e.core)).fuData.transId =
      (entering wtDcache f.core e.core).name := by
    rw [transId_op_step, h.core.stage.refines.next]
  rw [Resolving, hv, decide_eq_true_eq]
  exact ⟨And.left, fun hfu => ⟨hfu, hname⟩⟩

/-- The inputs of the branch unit in the next cycle. -/
theorem branchIn_step
    (hv : (op (step wtDcache f.core e.core)).branchValid = true) :
    branchIn (step wtDcache f.core e.core) =
      Execute.branchIn e.core.stage.dec
        (op (step wtDcache f.core e.core)).fuData e.core.cf := by
  have hdata : (op (step wtDcache f.core e.core)).aluData =
      (op (step wtDcache f.core e.core)).fuData := by
    rw [Flu.Op.aluData, hv, Bool.or_true, if_pos rfl]
  show (⟨(op (step wtDcache f.core e.core)).fuData, e.core.stage.dec.pc,
    e.core.stage.dec.isCompressed,
    (op (step wtDcache f.core e.core)).branchValid,
    Alu.aluBranchResO (op (step wtDcache f.core e.core)).aluData,
    e.core.cf, e.core.stage.dec.predictAddress⟩ : BranchUnit.In) = _
  rw [hv, hdata]
  rfl

/-- The address behind the instruction that enters is the predicted one. -/
theorem pcAt_entering (h : f.Inv)
    (hf : flushes wtDcache f.core e.core = false)
    (hen : issues wtDcache f.core e.core = true) :
    (f.step wtDcache e).pcAt
        ((entering wtDcache f.core e.core).serial + 1) =
      predicted e.core.cf e.core.stage.dec := by
  obtain ⟨hserial, hfetched⟩ := fetched_entering h.core hen
  have hmis : (resolvedBranch f.core).isMispredict = false := by
    refine Bool.eq_false_iff.mpr fun hmis => ?_
    rw [not_issues_of_mispredict hmis] at hen
    cases hen
  show (((step wtDcache f.core e.core).fetched)[_]?).elim
    (pcNextD wtDcache f e) Decoder.In.pc = _
  rw [hserial, hfetched, List.getElem?_eq_none (by simp), Option.elim_none,
    pcNextD, hf, hmis, hen]
  rfl

theorem flows_entering (h : f.Inv) (hs : Served wtDcache f.core e.core)
    (hfetch : Fetches wtDcache f e)
    (hf : flushes wtDcache f.core e.core = false)
    (hen : issues wtDcache f.core e.core = true)
    (hsteady : ∀ r ∈ remaining wtDcache f.core e.core,
      Steady (received wtDcache f.core e.core r)) :
    Flows (f.step wtDcache e)
      (view seen (start (gpr (step wtDcache f.core e.core)))
        ((remaining wtDcache f.core e.core).map
          (received wtDcache f.core e.core)))
      (entering wtDcache f.core e.core) := by
  intro j hj hex
  obtain ⟨hserial, hfetched⟩ := fetched_entering h.core hen
  have hj' : (step wtDcache f.core e.core).fetched[
      (entering wtDcache f.core e.core).serial]? = some j := hj
  rw [hserial, hfetched, List.getElem?_concat_length] at hj'
  obtain rfl := Option.some.inj hj'
  have hcheck := hfetch.checkable hen hex
  have hpc := pcAt_entering h hf hen
  have hiff := resolving_entering (e := e) h hen hex
  obtain ⟨hsound, hlegal⟩ := legal_of_ex (j := e.core.stage.dec) hex
  have hagrees := Execute.agrees hsound
  rw [Checkable] at hcheck
  cases hdec : decode e.core.stage.dec.instruction with
  | none =>
    rw [hdec] at hcheck hagrees
    dsimp only at hcheck ⊢
    refine ⟨fun hres => ?_, ?_⟩
    · rcases hagrees with hill | hother
      · rw [hlegal] at hill
        cases hill
      · rw [hiff.mp hres] at hother
        cases hother
    · rw [hpc, predicted, if_pos hcheck]
  | some instr =>
    rw [hdec] at hcheck
    obtain ⟨hseen, hplain⟩ := hcheck
    obtain ⟨-, x, hsrc, hexec⟩ :=
      executes_entering h.core hs hf hen hsteady hex hdec
    have ha : Execute.Accepts e.core.stage.dec instr :=
      accepts_of_ex hex hdec
    refine ⟨x, hsrc, fun hno => ?_, fun hres => ?_⟩
    · have hjumps : instr.jumps = false := by
        have hfu := mt hiff.mpr hno
        rw [ha.decoded] at hfu
        cases instr <;> first | rfl | exact absurd rfl hfu
      rw [hpc, predicted, if_pos (hplain hjumps),
        Instr.next_of_not_jumps x _ _ hjumps]
    · have hfu : (op (step wtDcache f.core e.core)).fuData.fu =
          .CTRL_FLOW := hiff.mp hres
      have hin := branchIn_step (e := e) (f := f) hres.1
      show BranchUnit.Resolves (branchIn (step wtDcache f.core e.core)) x
          instr ∧ (branchIn (step wtDcache f.core e.core)).pc = _ ∧
        (branchIn (step wtDcache f.core e.core)).len = _ ∧
        BranchUnit.Foreseen (branchIn (step wtDcache f.core e.core)).cf
          (branchIn (step wtDcache f.core e.core)).predictAddress _ instr ∧
        _ = (branchIn (step wtDcache f.core e.core)).predicted
      rw [hin, hpc]
      exact ⟨hexec.branch hfu e.core.cf, rfl, rfl, hseen, rfl⟩

theorem flows_step (h : f.Inv) (hs : Served wtDcache f.core e.core)
    (hfetch : Fetches wtDcache f e) :
    Explained seen Steady (Flows (f.step wtDcache e))
      (start (gpr (step wtDcache f.core e.core)))
      (step wtDcache f.core e.core).stage.inflight :=
  explained_of_step h.core hs (monotone_flows f)
    (monotone_flows (f.step wtDcache e)) h.flows
    (fun hf _ _ hr hx => flows_received h hfetch hf hr hx)
    (flows_entering h hs hfetch)

/-! ## Runs -/

theorem Flow.inv_reset (bootAddr : BitVec 64) :
    (Flow.reset bootAddr).Inv where
  core := Backend.inv_reset
  serials := rfl
  length := Nat.le_refl 0
  branch hv := by cases hv
  flows := trivial

theorem Flow.inv_step (h : f.Inv) (hs : Served wtDcache f.core e.core)
    (hfetch : Fetches wtDcache f e) : (f.step wtDcache e).Inv where
  core := Backend.inv_step h.core hs
  serials := (serials_step h).1
  length := (serials_step h).2
  branch := branch_step h
  flows := flows_step h hs hfetch

/-- An instruction that retires leads to the next one. -/
theorem leads_of_retires (h : f.Inv) (hr : r ∈ f.core.stage.inflight)
    {x y : RegFile} (hret : Retires r x y)
    (hx : Explains f.core (start x) r) (hflow : Flows f (start x) r) :
    ∃ j, f.core.fetched[r.serial]? = some j ∧ Runs j x y ∧
      nextOf j x = f.pcAt (r.serial + 1) := by
  obtain ⟨j, hj, hrun⟩ := hret.runs h.core hr hx
  refine ⟨j, hj, hrun, ?_⟩
  -- it has its result, so the branch unit is done with it
  have hno : ¬ Resolving f.core r := by
    intro hres
    have hun := (hres.last h hr).1
    rw [Unanswered, hret.valid] at hun
    cases hun
  have hknown := hflow j hj hret.sound
  unfold nextOf
  cases hdec : decode j.instruction with
  | none =>
    rw [hdec] at hknown
    exact hknown.2.symm
  | some instr =>
    rw [hdec] at hknown
    obtain ⟨z, hsrc, hnext, -⟩ := hknown
    dsimp only
    rw [hnext hno]
    exact Instr.next_congr fun s hs => Option.some.inj (hsrc s hs)

/-- The instructions that retire are a run of the program. -/
theorem leads_of_steps (h : f.Inv) {l : List (Rec 3)} {n : ℕ}
    {x y : RegFile} (hl : ∀ r ∈ l, r ∈ f.core.stage.inflight)
    (hserials : RetireQueue.serials l = List.range' n l.length)
    (hsteps : Steps (fun r x y => Retires r x y ∧
      (Explains f.core (start x) r ∧ Flows f (start x) r)) l x y) :
    Leads (f.pcAt n) x ((wordsOf f.core l).map .commit)
      (f.pcAt (n + l.length)) y := by
  induction l generalizing n x with
  | nil => exact ⟨rfl, hsteps⟩
  | cons r l ih =>
    obtain ⟨z, ⟨hret, hx, hflow⟩, hrest⟩ := hsteps
    obtain ⟨j, hj, hrun, hnext⟩ :=
      leads_of_retires h (hl r List.mem_cons_self) hret hx hflow
    rw [List.length_cons, List.range'_succ] at hserials
    obtain ⟨hn, hserials⟩ := List.cons_eq_cons.mp hserials
    have hr : r.serial = n := hn
    rw [hr] at hj hnext
    rw [wordsOf_cons (hr ▸ hj), List.map_cons]
    refine ⟨?_, z, hrun, ?_⟩
    · rw [Flow.pcAt, hj, Option.elim_some]
    · rw [hnext, List.length_cons, ← Nat.add_assoc, Nat.add_right_comm]
      exact ih (fun w hw => hl w (List.mem_cons_of_mem _ hw)) hserials hrest

/-- The first instruction that stays, after a cycle without a flush. -/
theorem pc_step (h : f.Inv) (hfetch : Fetches wtDcache f e)
    (hf : flushes wtDcache f.core e.core = false) :
    (f.step wtDcache e).pc =
      f.pcAt (f.core.fetched.length - f.core.stage.inflight.length +
        (leaving wtDcache f.core e.core).length) := by
  obtain ⟨-, -, hlen⟩ := serials_split wtDcache e h
  have hplace : (step wtDcache f.core e.core).fetched.length -
      (step wtDcache f.core e.core).stage.inflight.length =
        f.core.fetched.length - f.core.stage.inflight.length +
          (leaving wtDcache f.core e.core).length := by
    rw [inflight_step h.core hf, fetched_step_eq, List.length_append,
      List.length_append, List.length_map]
    split_ifs <;> simp only [List.length_singleton, List.length_nil] <;> omega
  show (f.step wtDcache e).pcAt
    ((step wtDcache f.core e.core).fetched.length -
      (step wtDcache f.core e.core).stage.inflight.length) = _
  rw [hplace]
  refine pcAt_step hfetch hf (by omega) fun hlast => ?_
  -- the instruction in the branch unit has not retired
  refine Bool.eq_false_iff.mpr fun hmis => ?_
  obtain ⟨r, hr, -, hun, -⟩ := h.branch (branchValid_of_mispredict hmis)
  have hstay : r ∈ remaining wtDcache f.core e.core :=
    mem_remaining_of_unanswered h.core hr hun
  have hnil : remaining wtDcache f.core e.core = [] :=
    List.length_eq_zero_iff.mp (by omega)
  rw [hnil] at hstay
  cases hstay

theorem pc_of_flushes (hf : flushes wtDcache f.core e.core = true) :
    (f.step wtDcache e).pc = redirect wtDcache f e := by
  show (f.step wtDcache e).pcAt
    ((step wtDcache f.core e.core).fetched.length -
      (step wtDcache f.core e.core).stage.inflight.length) = _
  rw [inflight_of_flushes hf]
  show (((step wtDcache f.core e.core).fetched)[_]?).elim
    (pcNextD wtDcache f e) Decoder.In.pc = _
  rw [List.length_nil, Nat.sub_zero, List.getElem?_eq_none (Nat.le_refl _),
    Option.elim_none, pcNextD, hf, Bool.true_or, if_pos rfl]

/-- What one cycle does to the program. -/
theorem leads_step (h : f.Inv) (hs : Served wtDcache f.core e.core)
    (hfetch : Fetches wtDcache f e) :
    Leads f.pc (gpr f.core)
      ((wordsOf f.core (leaving wtDcache f.core e.core)).map .commit ++
        if flushes wtDcache f.core e.core then
          [.redirect (redirect wtDcache f e)] else [])
      (f.step wtDcache e).pc (gpr (step wtDcache f.core e.core)) := by
  have hboth : Monotone fun v r => Explains f.core v r ∧ Flows f v r :=
    fun v v' r hv hr => ⟨monotone_explains f.core v v' r hv hr.1,
      monotone_flows f v v' r hv hr.2⟩
  have hretire := leads_of_steps h
    (fun r hr => List.mem_of_mem_take hr)
    (serials_split wtDcache e h).1
    (retires_with h.core hs hboth (h.core.explained.and h.flows)).1
  refine hretire.append ?_
  cases hf : flushes wtDcache f.core e.core with
  | true => exact ⟨pc_of_flushes hf, rfl⟩
  | false => exact ⟨pc_step h hfetch hf, rfl⟩

/-- What the units outside and the front end keep to. -/
def Fed (wtDcache : Bool) (f : Flow) (e : FlowEnv) : Prop :=
  Served wtDcache f.core e.core ∧ Fetches wtDcache f e

/-- What has committed is a run of the program from the boot address, in the
registers and in the addresses, and the pipeline stands at its end. -/
theorem program_followed (wtDcache : Bool) (bootAddr : BitVec 64)
    (es : List FlowEnv)
    (h : Sync.Along (Flow.step wtDcache) (Fed wtDcache)
      (Flow.reset bootAddr) es) :
    let f := Sync.run (Flow.step wtDcache) (Flow.reset bootAddr) es
    Leads bootAddr (fun _ => 0#64) f.log f.pc (gpr f.core) := by
  intro f
  have hall : f.Inv ∧
      Leads bootAddr (fun _ => 0#64) f.log f.pc (gpr f.core) := by
    refine h.run_invariant (P := fun f => f.Inv ∧
      Leads bootAddr (fun _ => 0#64) f.log f.pc (gpr f.core)) ?_
      ⟨Flow.inv_reset bootAddr, ?_⟩
    · rintro f e ⟨hs, hfetch⟩ ⟨hf, hleads⟩
      exact ⟨Flow.inv_step hf hs hfetch,
        hleads.append (leads_step hf hs hfetch)⟩
    · show bootAddr = bootAddr ∧ _ = _
      exact ⟨rfl, rfl⟩
  exact hall.2

instance (cf : Cf) (a pc : BitVec 64) (instr : Instr) :
    Decidable (BranchUnit.Foreseen cf a pc instr) :=
  match instr with
  | .branch .. => inferInstanceAs (Decidable (_ ∨ _ ∧ _))
  | .jal .. => inferInstanceAs (Decidable (_ ≠ _ ∧ _))
  | .op .. | .opImm .. | .lui .. | .auipc .. | .jalr .. | .mul ..
  | .div .. => inferInstanceAs (Decidable True)

instance (cf : Cf) (j : Decoder.In) : Decidable (Checkable cf j) :=
  match h : decode j.instruction with
  | some instr => decidable_of_iff
      (BranchUnit.Foreseen cf j.predictAddress j.pc instr ∧
        (instr.jumps = false → cf = .NoCF)) (by rw [Checkable, h])
  | none => decidable_of_iff (cf = .NoCF) (by rw [Checkable, h])

instance (wtDcache : Bool) (f : Flow) (e : FlowEnv) :
    Decidable (Fetches wtDcache f e) :=
  decidable_of_iff
    ((issues wtDcache f.core e.core = true →
        e.core.stage.dec.pc = f.pcNext) ∧
      (issues wtDcache f.core e.core = true →
        (Decoder.decoder e.core.stage.dec).ex.valid = false →
          Checkable e.core.cf e.core.stage.dec))
    ⟨fun h => ⟨h.1, h.2⟩, fun h => ⟨h.pc, h.checkable⟩⟩

/-- The front end offers the instruction `w` at `pc` and expects no branch,
or it offers nothing. -/
def FlowEnv.fetched (pc : BitVec 64) (w : Decoder.Instr) : FlowEnv :=
  let e := IssueStage.Env.fetched w
  ⟨⟨{ e with dec := { e.dec with pc := pc } }, .NoCF⟩, 0#64, 0#64, 0#64⟩

def FlowEnv.idle : FlowEnv := ⟨Env.idle, 0#64, 0#64, 0#64⟩

/-- `addi x5, x0, 6`, `beq x5, x5, 8` and, behind the branch that was not
foreseen, `addi x6, x0, 1` in its shadow and `addi x6, x0, 7` at its
target. -/
def detour : List FlowEnv :=
  [.fetched 0x80000000#64 0x00600293#32, .fetched 0x80000004#64 0x00528463#32,
    .fetched 0x80000008#64 0x00100313#32,
    .fetched 0x8000000c#64 0x00700313#32, .idle, .idle]

/-- The taken branch redirects the fetch, and its shadow does not run. -/
theorem program_followed_detour :
    let f := Sync.run (Flow.step false) (Flow.reset 0x80000000#64) detour
    f.log.length = 3 ∧ f.pc = 0x80000010#64 ∧ gpr f.core 6#5 = 7#64 ∧
      Leads 0x80000000#64 (fun _ => 0#64) f.log f.pc (gpr f.core) := by
  have halong : Sync.Along (Flow.step false)
      (fun f e => e.core.Silent ∧ Fetches false f e)
      (Flow.reset 0x80000000#64) detour := by decide +kernel
  exact ⟨by decide +kernel, by decide +kernel, by decide +kernel,
    program_followed false 0x80000000#64 detour
      (halong.mono fun _ _ he => ⟨he.1.served, he.2⟩)⟩

end ArianeSoc.Backend
