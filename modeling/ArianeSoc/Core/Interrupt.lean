import ArianeSoc.Core.Escalation

/-!
# The choice of an interrupt

`csr_regfile` hands the decoder the interrupt registers and one global
enable.  The decoder picks the highest of the pending and enabled
interrupts and asks afterwards whether this one may be taken at the current
level, while `chosen` is the highest of those that may be taken.

The first section is about lists: to find and then to check is to find what
passes the check unless the first find hides it (`find?_filter_iff`).
-/

/-! ## Finding before checking -/

namespace List

variable {α : Type*} {l : List α} {p r : α → Bool}

theorem find?_and_of_find? {x : α} (h : l.find? p = some x)
    (hr : r x = true) : l.find? (fun y => p y && r y) = some x := by
  induction l with
  | nil => exact absurd h (by simp)
  | cons a l ih =>
    rw [find?_cons] at h ⊢
    cases hp : p a with
    | true =>
      rw [hp] at h
      obtain rfl : a = x := Option.some.inj h
      rw [hr]
      rfl
    | false =>
      rw [hp] at h
      exact ih h

/-- What is found and checked is what is found among those that pass the
check, unless the first one fails it and another one passes. -/
theorem find?_filter_iff :
    (l.find? p).filter r = l.find? (fun y => p y && r y) ↔
      ¬ ∃ x, l.find? p = some x ∧ r x = false ∧
        (l.find? fun y => p y && r y).isSome := by
  cases h : l.find? p with
  | none =>
    have hnone : l.find? (fun y => p y && r y) = none := by
      rw [find?_eq_none] at h ⊢
      intro y hy
      simp [h y hy]
    simp [hnone]
  | some x =>
    cases hr : r x with
    | true => simp [Option.filter, hr, find?_and_of_find? h hr]
    | false =>
      cases hboth : l.find? (fun y => p y && r y) <;>
        simp [Option.filter, hr]

/-- A search as a chain of conditions. -/
theorem getD_find?_cons {β : Type*} (f : α → β) (z : β) (x : α)
    (l : List α) (p : α → Bool) :
    (((x :: l).find? p).map f).getD z =
      if p x then f x else ((l.find? p).map f).getD z := by
  rw [find?_cons]
  cases p x <;> rfl

end List

namespace ArianeSoc.Csr

/-- `irq_ctrl_o`. -/
def irqCtrlO (q : State) : IrqCtrl where
  mie := q.mie
  mip := q.mip
  mideleg := q.mideleg
  sie := Mstatus.sie.get q.mstatus = 1#1
  globalEnable :=
    q.debugMode = false ∧
      (Dcsr.step.get q.dcsr = 0#1 ∨ Dcsr.stepie.get q.dcsr = 1#1) ∧
      (Mstatus.mie.get q.mstatus = 1#1 ∧ privLvlO q = PRIV_LVL_M ∨
        privLvlO q ≠ PRIV_LVL_M)

end ArianeSoc.Csr

namespace ArianeSoc.Core

open Csr
open Decoder (exception instrException selectInterrupt takenInterrupt)

/-! ## The interrupt that should be taken -/

/-- The interrupts, by descending priority. -/
def byPriority : List ℕ :=
  [IRQ_M_EXT, IRQ_M_SOFT, IRQ_M_TIMER, IRQ_S_EXT, IRQ_S_SOFT, IRQ_S_TIMER]

/-- The interrupt is pending and enabled.  The line of the supervisor
external interrupt counts beside its bit in `mip`. -/
def pending (q : State) (irq : BitVec 2) (n : ℕ) : Bool :=
  q.mie.getLsbD n &&
    (q.mip.getLsbD n || (decide (n = IRQ_S_EXT) && irq.getLsbD 1))

/-- The interrupt may be taken at the current level: a delegated one below
S, or at S with `sie`; any other below M, or at M with `mie`.  None is taken
in debug mode, and in a single step only with `stepie`. -/
def deliverable (q : State) (n : ℕ) : Bool :=
  q.debugMode = false ∧
    (Dcsr.step.get q.dcsr = 0#1 ∨ Dcsr.stepie.get q.dcsr = 1#1) ∧
    if q.mideleg.getLsbD n then
      privLvlO q = PRIV_LVL_U ∨
        privLvlO q = PRIV_LVL_S ∧ Mstatus.sie.get q.mstatus = 1#1
    else privLvlO q = PRIV_LVL_M → Mstatus.mie.get q.mstatus = 1#1

/-- The highest interrupt that is pending, enabled and deliverable. -/
def chosen (q : State) (irq : BitVec 2) : Option ℕ :=
  byPriority.find? fun n => pending q irq n && deliverable q n

/-- The highest pending and enabled interrupt is not deliverable, while
another one is. -/
def Hides (q : State) (irq : BitVec 2) : Prop :=
  ∃ n, byPriority.find? (pending q irq) = some n ∧
    deliverable q n = false ∧ (chosen q irq).isSome

/-- The decoder, with the interrupt registers of the current cycle. -/
def liveIn (q : State) (i : In) : Decoder.In :=
  { decoderIn q i with irqCtrl := irqCtrlO q }

variable {q : State} {i : In}

/-! ## What the decoder does -/

theorem mem_byPriority {n : ℕ} (h : n ∈ byPriority) :
    (interruptCause n).getLsbD 63 = true ∧
      ((interruptCause n).extractLsb' 0 6).toNat = n ∧
      interruptCause n ≠ ILLEGAL_INSTR := by
  revert n
  decide

/-- The chain of assignments is a search in the order of priority. -/
theorem selectInterrupt_eq (q : State) (irq : BitVec 2) :
    selectInterrupt (irqCtrlO q) irq =
      ((byPriority.find? (pending q irq)).map interruptCause).getD 0#64 := by
  have hother : ∀ n, n ≠ IRQ_S_EXT →
      pending q irq n = (q.mie.getLsbD n && q.mip.getLsbD n) := by
    intro n hn
    simp [pending, hn]
  have hext : pending q irq IRQ_S_EXT = (q.mie.getLsbD IRQ_S_EXT &&
      (q.mip.getLsbD IRQ_S_EXT || irq.getLsbD 1)) := by
    simp [pending]
  unfold byPriority
  rw [List.getD_find?_cons, List.getD_find?_cons, List.getD_find?_cons,
    List.getD_find?_cons, List.getD_find?_cons, List.getD_find?_cons, hext,
    hother IRQ_M_EXT (by decide), hother IRQ_M_SOFT (by decide),
    hother IRQ_M_TIMER (by decide), hother IRQ_S_SOFT (by decide),
    hother IRQ_S_TIMER (by decide)]
  rfl

/-- With one of the interrupts selected, the rest of the test is
`deliverable`. -/
theorem globalEnable_iff (q : State) (n : ℕ) :
    deliverable q n = true ↔ (irqCtrlO q).globalEnable = true ∧
      (q.mideleg.getLsbD n = true → (irqCtrlO q).sie = true ∧
          privLvlO q = PRIV_LVL_S ∨ privLvlO q = PRIV_LVL_U) := by
  unfold deliverable irqCtrlO
  simp only [decide_eq_true_iff]
  have hlvl : ∀ p : PrivLvl, p = PRIV_LVL_U ∨ p = PRIV_LVL_S →
      p ≠ PRIV_LVL_M := by decide
  cases q.mideleg.getLsbD n with
  | true =>
    have hne := hlvl (privLvlO q)
    simp only [if_true, true_implies]
    tauto
  | false =>
    simp only [Bool.false_eq_true, if_false, false_implies, and_true]
    tauto

/-- The decoder selects before it checks. -/
theorem takenInterrupt_eq (q : State) (i : In) :
    takenInterrupt (liveIn q i) =
      ((byPriority.find? (pending q i.decIrq)).filter (deliverable q)).map
        interruptCause := by
  have hsel := selectInterrupt_eq q i.decIrq
  have hirq : (liveIn q i).irq = i.decIrq := rfl
  have hctrl : (liveIn q i).irqCtrl = irqCtrlO q := rfl
  have hlvl : (liveIn q i).privLvl = privLvlO q := rfl
  have hdel : (irqCtrlO q).mideleg = q.mideleg := rfl
  unfold takenInterrupt
  dsimp only
  rw [hirq, hctrl, hlvl, hdel, hsel]
  cases h : byPriority.find? (pending q i.decIrq) with
  | none => simp
  | some n =>
    obtain ⟨h63, hcode, -⟩ := mem_byPriority (List.mem_of_find?_eq_some h)
    have hiff := globalEnable_iff q n
    simp only [Option.map_some, Option.getD_some, h63, hcode, true_and]
    cases hd : deliverable q n with
    | true =>
      obtain ⟨hglobal, hdeleg⟩ := hiff.mp hd
      rw [if_pos hglobal]
      simp only [Option.filter, hd, if_true, Option.map_some]
      split_ifs with h1 h2
      · rfl
      · exact absurd (hdeleg h1) h2
      · rfl
    | false =>
      simp only [Option.filter, hd, Bool.false_eq_true, if_false,
        Option.map_none]
      rw [hd] at hiff
      split_ifs with h0 h1 h2
      · exact absurd (hiff.mpr ⟨h0, fun _ => h2⟩) Bool.false_ne_true
      · rfl
      · exact absurd (hiff.mpr ⟨h0, fun h => absurd h h1⟩)
          Bool.false_ne_true
      · rfl

/-! ## The result -/

/-- What the decoder does with the interrupt `n?`. -/
def attach (e : ExceptionT) (n? : Option ℕ) : ExceptionT :=
  n?.elim e fun n => { e with cause := interruptCause n, valid := true }

theorem exception_liveIn (d : Decoder.Decoded)
    (hfetch : i.fetchEx.valid = false)
    (hdbg : ¬ (i.decDebugReq = true ∧ q.debugMode = false)) :
    exception (liveIn q i) d =
      attach (instrException (liveIn q i) d)
        ((byPriority.find? (pending q i.decIrq)).filter
          (deliverable q)) := by
  have hex : (liveIn q i).ex.valid = false := hfetch
  have hreq : ¬ ((liveIn q i).debugReq = true ∧
      (liveIn q i).debugMode = false) := hdbg
  unfold exception
  rw [if_neg hreq, if_neg (by rw [hex]; exact Bool.false_ne_true),
    takenInterrupt_eq]
  cases (byPriority.find? (pending q i.decIrq)).filter (deliverable q)
    <;> rfl

/-- An illegal instruction shows which interrupt it carries. -/
theorem attach_injective {e : ExceptionT} (he : e.cause = ILLEGAL_INSTR)
    {m n : Option ℕ} (hm : ∀ k ∈ m, k ∈ byPriority)
    (hn : ∀ k ∈ n, k ∈ byPriority) (h : attach e m = attach e n) : m = n := by
  have hcause := congrArg ExceptionT.cause h
  cases m with
  | none =>
    cases n with
    | none => rfl
    | some n =>
      have heq : e.cause = interruptCause n := hcause
      rw [he] at heq
      exact absurd heq.symm (mem_byPriority (hn n rfl)).2.2
  | some m =>
    cases n with
    | none =>
      have heq : interruptCause m = e.cause := hcause
      rw [he] at heq
      exact absurd heq (mem_byPriority (hm m rfl)).2.2
    | some n =>
      have heq : interruptCause m = interruptCause n := hcause
      have hm' := (mem_byPriority (hm m rfl)).2.1
      rw [heq, (mem_byPriority (hn n rfl)).2.1] at hm'
      rw [hm']

/-- An instruction that brings no exception along and meets no debug request
carries the highest deliverable interrupt, and none if there is none, if and
only if no interrupt hides another. -/
theorem interrupt_iff (q : State) (i : In)
    (hfetch : i.fetchEx.valid = false)
    (hdbg : ¬ (i.decDebugReq = true ∧ q.debugMode = false)) :
    (∀ d, exception (liveIn q i) d =
      attach (instrException (liveIn q i) d) (chosen q i.decIrq)) ↔
      ¬ Hides q i.decIrq := by
  unfold Hides chosen
  rw [← List.find?_filter_iff]
  constructor
  · intro h
    have hill := h { illegalInstr := true }
    rw [exception_liveIn _ hfetch hdbg] at hill
    refine attach_injective rfl (fun k hk => ?_) (fun k hk => ?_) hill
    · exact List.mem_of_find?_eq_some (Option.mem_filter_iff.mp hk).1
    · exact List.mem_of_find?_eq_some hk
  · intro h d
    rw [exception_liveIn d hfetch hdbg, h]

/-- From a reset: the supervisor external interrupt is delegated, it and the
supervisor software interrupt are enabled, the given ones are pending, and
the hart returns to S mode. -/
def toSupervisor (pendingBits : BitVec 64) : State :=
  let write (a : BitVec 12) (w : BitVec 64) : Csr.In :=
    { Csr.In.idle with csrOp := .CSR_WRITE, csrAddr := a, csrWdata := w }
  Sync.run (Csr.step Cfg.ariane) reset
    [Csr.In.idle, write 0x303#12 MIP_SEIP,
      write 0x304#12 (MIP_SEIP ||| MIP_SSIP), write 0x344#12 pendingBits,
      write 0x300#12 0x800#64, { Csr.In.idle with csrOp := .MRET }]

/-- With the software interrupt alone pending nothing is hidden. -/
theorem interrupt_iff_software :
    (∀ d, exception (liveIn (toSupervisor MIP_SSIP) (commits 0x13#32)) d =
      attach (instrException
          (liveIn (toSupervisor MIP_SSIP) (commits 0x13#32)) d)
        (chosen (toSupervisor MIP_SSIP) (commits 0x13#32).decIrq)) ↔
      ¬ Hides (toSupervisor MIP_SSIP) (commits 0x13#32).decIrq :=
  interrupt_iff (toSupervisor MIP_SSIP) (commits 0x13#32) rfl (by decide)

/-- The delegated external interrupt, masked in S mode by `sie`, hides the
software interrupt, which is for M mode. -/
theorem interrupt_hidden :
    chosen (toSupervisor (MIP_SEIP ||| MIP_SSIP)) 0#2 = some IRQ_S_SOFT ∧
      (Decoder.decoder (liveIn (toSupervisor (MIP_SEIP ||| MIP_SSIP))
        (commits 0x13#32))).ex.valid = false := by
  decide +kernel

end ArianeSoc.Core
