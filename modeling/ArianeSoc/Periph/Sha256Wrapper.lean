import ArianeSoc.Periph.Sha256

/-!
# The SHA-256 wrapper

`sha256_wrapper.sv` starts the core by the rising edges of two bits of its
control register, which software may write in any order and at any time.

* `Core.work_step`: a busy core comes one cycle nearer to its digest in
  every cycle, whatever `init` and `next` are.
* `Lives`: the core gets back to its ready state and hashes the next block.
* `always_lives_iff`: the core lives in every state of a run exactly when no
  cycle of it raises both bits at an idle core.  Such a cycle sets
  `ignore_input_reg`, which nothing clears, so that the core stays in
  `CTRL_IGNORE` until a reset (`stuck_step`).
-/

namespace ArianeSoc.Periph

/-! ## The registers -/

inductive Sha256Reg
  | startHash | newMessage
  | data (k : Fin 16)
  deriving DecidableEq

abbrev sha256Width : Sha256Reg → ℕ
  | .startHash | .newMessage => 1
  | .data _ => 32

abbrev sha256 : RegTable Sha256Reg where
  width := sha256Width
  addrBits := 5
  word
    | .startHash | .newMessage => 0
    | .data k => 1 + k
  lo
    | .newMessage => 1
    | _ => 0
  lockBit
    | .startHash | .newMessage => 1
    | .data _ => 3
  cleared _ := true
  locked s r := s r

namespace Hmac.Sha256

open Sync

section Work

variable {s : Core} {i : ShaIn}

theorem ready_iff : core.ready s = true ↔ s.ctrl = .CTRL_IDLE :=
  beq_iff_eq

/-- A core with a job is not ready. -/
theorem Core.left_pos {h : BitVec 256} (hinv : s.Inv)
    (hjob : s.job = some h) : 0 < s.left ∧ core.ready s = false := by
  cases hc : s.ctrl with
  | CTRL_IDLE =>
    rw [job_of_idle hc] at hjob
    exact absurd hjob (by simp)
  | CTRL_ROUNDS =>
    have hlt := s.tCtr.isLt
    refine ⟨?_, by simp [core, hc]⟩
    simp only [Core.left, hc]
    omega
  | CTRL_DONE => exact ⟨by simp [Core.left, hc], by simp [core, hc]⟩
  | CTRL_IGNORE => simp [Core.Inv, hc] at hinv

/-- A busy core comes one cycle nearer to its digest, and gets there. -/
theorem Core.work_step {h : BitVec 256} (hinv : s.Inv) (hjob : s.job = some h)
    (hclear : i.clear = false) (hb : i.hBlock = none) :
    (s.step i).Inv ∧ s.left = (s.step i).left + 1 ∧
      ((s.step i).job = some h ∨
        (s.step i).ctrl = .CTRL_IDLE ∧ (s.step i).left = 0 ∧
          (s.step i).digestValid = true ∧ (s.step i).hash.concat = h) := by
  cases hc : s.ctrl with
  | CTRL_IDLE =>
    rw [job_of_idle hc] at hjob
    exact absurd hjob (by simp)
  | CTRL_ROUNDS =>
    obtain ⟨h1, h2, -, h4⟩ := round_work hinv hc hclear hb
    exact ⟨h1, h4, Or.inl (h2.trans hjob)⟩
  | CTRL_DONE =>
    have hstep := step_done hinv hc hclear hb
    have hdone : s.job = some (s.hash.add s.v).concat := by
      simp [Core.job, hc]
    simp only [Core.Inv, hc] at hinv
    rw [hstep]
    refine ⟨hinv, ?_, Or.inr ⟨rfl, rfl, rfl, ?_⟩⟩
    · simp [Core.left, hc]
    · exact Option.some.inj (hdone.symm.trans hjob)
  | CTRL_IGNORE =>
    simp [Core.Inv, hc] at hinv

theorem Core.left_le (s : Core) : s.left ≤ 65 := by
  unfold Core.left
  split <;> omega

/-- The core waits in `CTRL_IGNORE` for a flag that nothing clears. -/
structure Core.Stuck (s : Core) : Prop where
  ctrl : s.ctrl = .CTRL_IGNORE
  ignoreInput : s.ignoreInput = true

theorem Core.Stuck.step (h : s.Stuck) (hclear : i.clear = false) :
    (s.step i).Stuck := by
  have hcontrol : s.control i = s := by
    rw [Core.control, h.ctrl, h.ignoreInput]
    rfl
  rw [Core.step, if_neg (by simp [hclear]), hcontrol]
  exact ⟨h.ctrl, h.ignoreInput⟩

/-- Both starts at once at an idle core. -/
theorem Core.stuck_step (hc : s.ctrl = .CTRL_IDLE)
    (hclear : i.clear = false) (hi : i.init = true) (hn : i.next = true) :
    (s.step i).Stuck := by
  have hcontrol : s.control i =
      { s with ignoreInput := true, ctrl := .CTRL_IGNORE } := by
    rw [Core.control, hc, hi, hn]
    rfl
  rw [Core.step, if_neg (by simp [hclear]), hcontrol]
  exact ⟨rfl, rfl⟩

/-- Any other cycle keeps the counters in step. -/
theorem Core.inv_step (hinv : s.Inv) (hclear : i.clear = false)
    (hb : i.hBlock = none)
    (hone : s.ctrl = .CTRL_IDLE → ¬ (i.init = true ∧ i.next = true)) :
    (s.step i).Inv := by
  cases hjob : s.job with
  | some h => exact (Core.work_step hinv hjob hclear hb).1
  | none =>
    have hc := idle_of_job hjob
    by_cases hstart : i.init = !i.next
    · exact (step_start hinv hc hclear hstart hb).1
    · have hnone : i.init = false ∧ i.next = false := by
        have hboth := hone hc
        revert hstart hboth
        cases i.init <;> cases i.next <;> simp
      rw [step_rest hinv hc hclear hnone.1 hnone.2, hb]
      exact (inv_idle hc).mpr ((inv_idle hc).mp hinv)

end Work

end Hmac.Sha256

namespace Sha256Wrapper

open Sync Hmac

/-! ## The wrapper -/

structure State where
  regs : sha256.Regs
  startHashR : Bool
  newMessageR : Bool
  core : Sha256.Core

variable (s : State) (i : RegIn)

def bigData : BitVec 512 := concat 16 fun k => s.regs (.data k.rev)

def init : Bool := (s.regs .startHash).getLsbD 0 && !s.startHashR

def next : Bool := (s.regs .newMessage).getLsbD 0 && !s.newMessageR

/-- The inputs of the core. -/
def coreIn : ShaIn where
  clear := i.clear
  init := init s
  next := next s
  block := bigData s
  hBlock := none

/-- One cycle. -/
def step : State where
  regs := sha256.step s.regs i
  startHashR := !i.clear && (s.regs .startHash).getLsbD 0
  newMessageR := !i.clear && (s.regs .newMessage).getLsbD 0
  core := s.core.step (coreIn s i)

/-- The state after reset. -/
def State.reset : State where
  regs := fun r => 0#(sha256.width r)
  startHashR := false
  newMessageR := false
  core := s.core.reset

theorem step_clear (h : i.clear = true) : step s i = s.reset := by
  have hcore : s.core.step (coreIn s i) = s.core.reset := if_pos h
  have hregs : sha256.step s.regs i = fun r => 0#(sha256.width r) := by
    funext r
    simp [RegTable.step, h]
  simp [step, State.reset, hcore, hregs, h]

/-- The core may start a block. -/
def ready : Bool := Sha256.core.ready s.core

/-! ## What the core owes its user -/

/-- The core is ready and shows the digest `h`. -/
structure Done (h : BitVec 256) : Prop where
  ready : ready s = true
  digestValid : Sha256.core.digestValid s.core = true
  digest : Sha256.core.digest s.core = h

/-- The digest of a block that is started now. -/
def target : BitVec 256 :=
  Sha256.compress (if init s then Sha256.iv else s.core.hash).concat
    (bigData s)

/-- Without a reset the core gets back to its ready state, and from there
to the digest of the next block, whatever is written meanwhile. -/
structure Lives : Prop where
  returns : ∀ js : List RegIn, (∀ j ∈ js, j.clear = false) →
    65 ≤ js.length → ∃ k ≤ 65, ready (run step s (js.take k)) = true
  hashes : ready s = true → (init s = !next s) → ∀ j js,
    (∀ i ∈ j :: js, i.clear = false) →
    (js.length < 65 → ready (run step s (j :: js)) = false) ∧
    (js.length = 65 → Done (run step s (j :: js)) (target s))

/-- Both edges come at once at a ready core. -/
def Collides : Prop :=
  i.clear = false ∧ ready s = true ∧ init s = true ∧ next s = true

instance : Decidable (Collides s i) :=
  inferInstanceAs (Decidable (_ ∧ _))

/-- The core is in order, or stuck. -/
def Sane : Prop := s.core.Inv ∨ s.core.Stuck

section Proofs

variable {s : State} {i : RegIn} {js : List RegIn}

/-- What a busy core is after each of the next cycles. -/
theorem busy_run {h : BitVec 256} (hinv : s.core.Inv)
    (hjob : s.core.job = some h) (hjs : ∀ j ∈ js, j.clear = false) :
    (js.length < s.core.left → ready (run step s js) = false) ∧
      (js.length = s.core.left → Done (run step s js) h) := by
  induction js generalizing s with
  | nil =>
    obtain ⟨hpos, hbusy⟩ := Sha256.Core.left_pos hinv hjob
    exact ⟨fun _ => hbusy, fun hzero => absurd hzero.symm (by
      rw [List.length_nil]
      exact Nat.pos_iff_ne_zero.mp hpos)⟩
  | cons j js ih =>
    have hj := hjs j List.mem_cons_self
    have hrest : ∀ k ∈ js, k.clear = false :=
      fun k hk => hjs k (List.mem_cons_of_mem j hk)
    obtain ⟨hinv', hleft, hjob' | ⟨hidle, hzero, hvalid, hdigest⟩⟩ :=
      Sha256.Core.work_step (i := coreIn s j) hinv hjob hj rfl
    · have hnext := ih (s := step s j) hinv' hjob' hrest
      have hcount : s.core.left = (step s j).core.left + 1 := hleft
      rw [List.length_cons, hcount, run_cons]
      exact ⟨fun hlt => hnext.1 (Nat.lt_of_succ_lt_succ hlt),
        fun heq => hnext.2 (Nat.succ.inj heq)⟩
    · rw [List.length_cons, hleft, hzero]
      refine ⟨fun hlt => by omega, fun heq => ?_⟩
      have hnil : js = [] := List.length_eq_zero_iff.mp (by omega)
      subst hnil
      exact ⟨Sha256.ready_iff.mpr hidle, hvalid, hdigest⟩

theorem lives_of_inv (hinv : s.core.Inv) : Lives s where
  returns js hjs hlen := by
    cases hjob : s.core.job with
    | none =>
      exact ⟨0, Nat.zero_le 65,
        Sha256.ready_iff.mpr (Sha256.idle_of_job hjob)⟩
    | some h =>
      have hle := s.core.left_le
      have htake : (js.take s.core.left).length = s.core.left := by
        rw [List.length_take]
        omega
      refine ⟨s.core.left, hle, ?_⟩
      exact ((busy_run hinv hjob fun j hj =>
        hjs j (List.mem_of_mem_take hj)).2 htake).ready
  hashes hready hone j js hjs := by
    have hj := hjs j List.mem_cons_self
    obtain ⟨hinv', -, hleft, hjob'⟩ := Sha256.step_start (i := coreIn s j)
      hinv (Sha256.ready_iff.mp hready) hj hone rfl
    have hcount : (step s j).core.left = 65 := hleft
    have hrun := busy_run (s := step s j) hinv' hjob'
      fun k hk => hjs k (List.mem_cons_of_mem j hk)
    rwa [hcount] at hrun

theorem stuck_run (h : s.core.Stuck) (hjs : ∀ j ∈ js, j.clear = false) :
    (run step s js).core.Stuck :=
  (along_of_forall_mem hjs).run_invariant (P := fun t : State => t.core.Stuck)
    (fun _ _ hj ht => ht.step hj) h

/-- A core that is in order lives, a stuck one does not. -/
theorem lives_iff (h : Sane s) : Lives s ↔ s.core.Inv := by
  refine ⟨fun hlives => ?_, lives_of_inv⟩
  rcases h with hinv | hstuck
  · exact hinv
  · have hjs : ∀ j ∈ List.replicate 65 (regRead 0#8 0#64),
        j.clear = false := fun j hj => by
      rw [List.eq_of_mem_replicate hj]
      rfl
    obtain ⟨k, -, hk⟩ := hlives.returns _ hjs
      (by rw [List.length_replicate])
    have hignore := (stuck_run hstuck fun j hj =>
      hjs j (List.mem_of_mem_take (i := k) hj)).ctrl
    rw [ready, Sha256.ready_iff, hignore] at hk
    exact absurd hk (by decide)

theorem inv_reset (s : State) : s.reset.core.Inv := ⟨rfl, rfl⟩

/-- Exactly a collision gets a core that is in order out of it. -/
theorem inv_step (hinv : s.core.Inv) :
    Sane (step s i) ∧ ((step s i).core.Inv ↔ ¬ Collides s i) := by
  have hkeep : (step s i).core.Inv → ¬ Collides s i →
      Sane (step s i) ∧ ((step s i).core.Inv ↔ ¬ Collides s i) :=
    fun h hno => ⟨Or.inl h, iff_of_true h hno⟩
  cases hclear : i.clear with
  | true =>
    refine hkeep ?_ fun hcol => absurd (hcol.1.symm.trans hclear) (by decide)
    rw [step_clear s i hclear]
    exact inv_reset s
  | false =>
    by_cases hcol : Collides s i
    · have hstuck : (step s i).core.Stuck :=
        Sha256.Core.stuck_step (i := coreIn s i)
          (Sha256.ready_iff.mp hcol.2.1) hclear hcol.2.2.1 hcol.2.2.2
      refine ⟨Or.inr hstuck, iff_of_false (fun h => ?_) (not_not.mpr hcol)⟩
      rw [Sha256.Core.Inv, hstuck.ctrl] at h
      exact h
    · refine hkeep ?_ hcol
      exact Sha256.Core.inv_step (i := coreIn s i) hinv hclear rfl
        fun hc hboth =>
          hcol ⟨hclear, Sha256.ready_iff.mpr hc, hboth.1, hboth.2⟩

theorem sane_step (s : State) (i : RegIn) (h : Sane s) : Sane (step s i) := by
  rcases h with hinv | hstuck
  · exact (inv_step hinv).1
  · cases hclear : i.clear with
    | true =>
      rw [step_clear s i hclear]
      exact Or.inl (inv_reset s)
    | false => exact Or.inr (hstuck.step (i := coreIn s i) hclear)

end Proofs

/-- After a reset the core lives in every state of a run if and only if the
two edges never come at once while it is ready. -/
theorem always_lives_iff (s : State) (is : List RegIn) :
    Always step Lives s.reset is ↔
      Along step (fun t i => ¬ Collides t i) s.reset is := by
  have hsane : Sane s.reset := Or.inl (inv_reset s)
  refine (along_of_invariant sane_step hsane is).always_iff
    (fun t i ht hlives => ?_) (lives_of_inv (inv_reset s))
  rw [lives_iff (sane_step t i ht)]
  exact (inv_step ((lives_iff ht).mp hlives)).2

/-- Software writes both bits of the control register in one access. -/
theorem lives_not_both :
    let powerOn : State :=
      ⟨fun _ => 0, false, false,
        ⟨.zero, .zero, 0#6, false, false, .CTRL_IDLE,
          ⟨fun _ => 0#32, 0#6, false⟩⟩⟩
    ¬ Always step Lives powerOn.reset
      [regWrite 0#8 0#64 3#64, regRead 0#8 0#64] := by
  intro powerOn h
  have hlives : Lives _ := h 2
  have hstuck : (run step powerOn.reset
      [regWrite 0#8 0#64 3#64, regRead 0#8 0#64]).core.Stuck :=
    ⟨by decide, by decide⟩
  have hinv := (lives_iff (Or.inr hstuck)).mp hlives
  rw [Sha256.Core.Inv, hstuck.ctrl] at hinv
  exact hinv

end Sha256Wrapper

end ArianeSoc.Periph
