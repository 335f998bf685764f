import ArianeSoc.Dma.Grant

/-!
# After a failed load check

`Tracked` adds one bit to the controller that it does not have: whether the
load check of the current transfer has failed, that is, whether the PMP
unit denied a source word when the check asked about it.  Here the command,
the PMP configuration and `we_flag` change freely from cycle to cycle.

A failed load check is followed by the store check, with the counter still
at its end value and the registers of the last load check, and so by one
more look at the answer of the PMP unit.

* `failed_load_refused`: after the failure the state output holds neither
  `VALID_LOAD` nor `VALID_STORE`, and the controller reaches `DONE` or
  `IDLE`, in every run in which no bypass decides and the last look does
  not find the denial withdrawn.
-/

namespace ArianeSoc.Dma

open Pmp Sync

/-! ## The failure -/

/-- The load check asks about a source word and the PMP unit denies it. -/
def FailsNow (s : State) (i : In) : Prop :=
  s.ctrl = .CHECK_LOAD ∧ s.pmpAccessType = ACCESS_READ ∧
    remaining s ≤ s.lengthD.toNat ∧
    s.pmpAddr = wordAddr (sourceBase s) (remaining s) ∧
    pmpDataAllow s i = false

instance (s : State) (i : In) : Decidable (FailsNow s i) :=
  inferInstanceAs (Decidable (_ ∧ _ ∧ _ ∧ _ ∧ _))

/-- The controller and whether the current load check has failed. -/
structure Tracked where
  dma : State
  failed : Bool

/-- The failure is forgotten with the transfer: in a reset and at the end
of the first cycle in `IDLE`. -/
def track (t : Tracked) (i : In) : Tracked where
  dma := step t.dma i
  failed := i.rstNi &&
    (t.failed && t.dma.ctrl != .IDLE || decide (FailsNow t.dma i))

def trackReset : Tracked := ⟨reset, false⟩

variable {s : State} {t : Tracked} {i : In}

/-- The added bit does not change the controller. -/
theorem dma_run_track (t : Tracked) (is : List In) :
    (run track t is).dma = run step t.dma is :=
  run_view (f := Tracked.dma) (fun _ _ => rfl) t is

/-- The store check that follows a failed load check finds the allow
register set, so that only the last word was denied, and the denial
withdrawn. -/
def Reopens (t : Tracked) (i : In) : Prop :=
  t.failed = true ∧ t.dma.ctrl = .CHECK_STORE ∧ t.dma.pmpAllow = true ∧
    pmpDataAllow t.dma i = true

instance (t : Tracked) (i : In) : Decidable (Reopens t i) :=
  inferInstanceAs (Decidable (_ ∧ _ ∧ _ ∧ _))

/-- The denials of a cycle are kept. -/
def KeepsDenials (t : Tracked) (i : In) : Prop :=
  ¬ BypassDecides t.dma i ∧ ¬ Reopens t i

instance (t : Tracked) (i : In) : Decidable (KeepsDenials t i) :=
  inferInstanceAs (Decidable (_ ∧ _))

/-! ## What holds after the failure -/

/-- The registers after a failure: the load check holds the denial, and the
store check that follows it has nothing left to ask. -/
structure FailInv (s : State) : Prop where
  no_load : s.ctrl ≠ .LOAD
  no_store : s.ctrl ≠ .STORE
  output : s.valid = VALID_IDLE ∨ s.valid = VALID_DONE
  denied : s.ctrl = .CHECK_LOAD → s.pmpAllow = false
  ended : s.ctrl = .CHECK_STORE → s.pmpCheckCtr = CTR_END

/-- During a load check the state output is clear, and a failed transfer
keeps `FailInv`. -/
structure TrackInv (t : Tracked) : Prop where
  clear : t.dma.ctrl = .CHECK_LOAD → t.dma.valid = VALID_IDLE
  refused : t.failed = true → FailInv t.dma

/-- The load check of the current transfer has failed or fails now. -/
def Failing (t : Tracked) (i : In) : Prop :=
  t.failed = true ∧ t.dma.ctrl ≠ .IDLE ∨ FailsNow t.dma i

theorem failing_of_track (h : (track t i).failed = true) : Failing t i := by
  simp only [track, Bool.and_eq_true, Bool.or_eq_true, bne_iff_ne,
    decide_eq_true_eq] at h
  exact h.2

/-- A cycle in which the check has failed or fails transfers nothing. -/
theorem TrackInv.no_transfer (h : TrackInv t) (hf : Failing t i) :
    t.dma.ctrl ≠ .LOAD ∧ t.dma.ctrl ≠ .STORE ∧
      (t.dma.valid = VALID_IDLE ∨ t.dma.valid = VALID_DONE) := by
  rcases hf with hf | hf
  · have hinv := h.refused hf.1
    exact ⟨hinv.no_load, hinv.no_store, hinv.output⟩
  · rw [hf.1]
    exact ⟨by decide, by decide, Or.inl (h.clear hf.1)⟩

/-- The state output stays without the flags of the transfers. -/
theorem output_step (hl : s.ctrl ≠ .LOAD) (hs : s.ctrl ≠ .STORE)
    (h : s.valid = VALID_IDLE ∨ s.valid = VALID_DONE) :
    (step s i).valid = VALID_IDLE ∨ (step s i).valid = VALID_DONE := by
  rcases @valid_step s i with hv | hv
  · exact Or.inl hv
  · rw [hv]
    cases hc : s.ctrl
    case LOAD => exact absurd hc hl
    case STORE => exact absurd hc hs
    all_goals rcases h with h | h <;> rw [h] <;> decide

/-- The end of the load check finds the denial in the allow register or in
the answer. -/
theorem no_load_step (h : TrackInv t) (hf : Failing t i) :
    (step t.dma i).ctrl ≠ .LOAD := by
  intro hc
  obtain ⟨hck, -, hallow, hdata, -⟩ := step_load hc
  rcases hf with hf | hf
  · rw [(h.refused hf.1).denied hck] at hallow
    exact Bool.noConfusion hallow
  · rw [hf.2.2.2.2] at hdata
    exact Bool.noConfusion hdata

theorem no_store_step (hk : KeepsDenials t i) (hf : Failing t i) :
    (step t.dma i).ctrl ≠ .STORE := by
  intro hc
  obtain ⟨hck, -, hallow, hdata, -⟩ := step_store hc
  rcases hf with hf | hf
  · exact hk.2 ⟨hf.1, hck, hallow, hdata⟩
  · rw [hf.1] at hck
    exact Ctrl.noConfusion hck

/-- A turn of the load check keeps a denial, the one it sees included. -/
theorem denied_step (h : TrackInv t) (hk : KeepsDenials t i)
    (hf : Failing t i) (hc : (step t.dma i).ctrl = .CHECK_LOAD) :
    (step t.dma i).pmpAllow = false := by
  rcases step_checkLoad hc with ⟨hidle, -⟩ | ⟨hck, hne, heq⟩
  · rcases hf with hf | hf
    · exact absurd hidle hf.2
    · rw [hf.1] at hidle
      exact Ctrl.noConfusion hidle
  · rw [heq]
    by_contra hset
    rw [Bool.not_eq_false] at hset
    obtain ⟨hprev, hdata⟩ := allow_of_not_bypass hk.1 hck hne hset
    rcases hf with hf | ⟨-, -, hle, -, hno⟩
    · rw [(h.refused hf.1).denied hck] at hprev
      exact Bool.noConfusion hprev
    · have hval := remaining_of_ne hne
      rw [hno] at hdata
      rw [hdata.resolve_left Bool.false_ne_true] at hval
      omega

/-- The store check after a failure has nothing left to ask. -/
theorem ended_step (h : TrackInv t) (hf : Failing t i)
    (hc : (step t.dma i).ctrl = .CHECK_STORE) :
    (step t.dma i).pmpCheckCtr = CTR_END := by
  rcases step_checkStore hc with
    ⟨hld, -⟩ | ⟨-, hend, -, heq⟩ | ⟨hck, hne, -⟩
  · exact absurd hld (h.no_transfer hf).1
  · rw [heq]
    exact hend
  · rcases hf with hf | hf
    · exact absurd ((h.refused hf.1).ended hck) hne
    · rw [hf.1] at hck
      exact Ctrl.noConfusion hck

theorem failInv_step (h : TrackInv t) (hk : KeepsDenials t i)
    (hf : Failing t i) : FailInv (step t.dma i) := by
  obtain ⟨hload, hstore, hout⟩ := h.no_transfer hf
  exact
    { no_load := no_load_step h hf
      no_store := no_store_step hk hf
      output := output_step hload hstore hout
      denied := denied_step h hk hf
      ended := ended_step h hf }

theorem trackInv_step (h : TrackInv t) (hk : KeepsDenials t i) :
    TrackInv (track t i) := by
  refine ⟨fun hc => ?_, fun hf => failInv_step h hk (failing_of_track hf)⟩
  show (step t.dma i).valid = VALID_IDLE
  rcases step_checkLoad hc with ⟨-, -, -, hv⟩ | ⟨hck, hne, heq⟩
  · exact hv
  · rw [heq, control_checkLoad hck hne]
    exact h.clear hck

theorem trackInv_reset : TrackInv trackReset := by
  refine ⟨fun hc => ?_, fun hf => ?_⟩
  · exact Ctrl.noConfusion hc
  · exact Bool.noConfusion hf

/-! ## The end of the transfer -/

/-- The transfer is over. -/
def Settled (t : Tracked) : Prop :=
  t.dma.ctrl = .DONE ∨ t.dma.ctrl = .IDLE

instance (t : Tracked) : Decidable (Settled t) :=
  inferInstanceAs (Decidable (_ ∨ _))

/-- The cycles that a failed transfer still takes. -/
def turnsLeft (s : State) : Nat :=
  match s.ctrl with
  | .CHECK_LOAD => remaining s + 2
  | .CHECK_STORE | .START_LOAD | .START_STORE => 1
  | _ => 0

/-- A failed transfer that nobody aborts. -/
structure Failed (t : Tracked) : Prop where
  inv : TrackInv t
  failed : t.failed = true
  no_abort : t.dma.ctrl ≠ .ABORT

theorem Failed.settled (h : Failed t) (h0 : turnsLeft t.dma = 0) :
    Settled t := by
  have hinv := h.inv.refused h.failed
  unfold turnsLeft at h0
  cases hc : t.dma.ctrl
  case IDLE => exact Or.inr hc
  case DONE => exact Or.inl hc
  case LOAD => exact absurd hc hinv.no_load
  case STORE => exact absurd hc hinv.no_store
  case ABORT => exact absurd hc h.no_abort
  all_goals
    rw [hc] at h0
    simp at h0

/-- A turn of a failed load check. -/
theorem turnsLeft_checkLoad (h : FailInv s) (hc : s.ctrl = .CHECK_LOAD) :
    (control s i).ctrl ≠ .ABORT ∧ turnsLeft (control s i) < turnsLeft s := by
  by_cases hend : s.pmpCheckCtr = CTR_END
  · have hnext : control s i = { s with ctrl := .CHECK_STORE } := by
      simp [control, hc, hend, h.denied hc]
    rw [hnext]
    refine ⟨by simp, ?_⟩
    simp only [turnsLeft, hc]
    omega
  · have hctr : (control s i).pmpCheckCtr = s.pmpCheckCtr - 1#32 := by
      rw [control_checkLoad hc hend]
    have hsame : (control s i).ctrl = .CHECK_LOAD := by
      rw [control_checkLoad hc hend]
      exact hc
    have hrem := remaining_next hend hctr
    simp only [turnsLeft, hsame, hc]
    exact ⟨by simp, by omega⟩

/-- A turn of a failed transfer. -/
theorem turnsLeft_control (h : FailInv s) (hab : s.ctrl ≠ .ABORT)
    (hno : ¬ (s.ctrl = .CHECK_STORE ∧ s.pmpAllow = true ∧
      pmpDataAllow s i = true))
    (hd : s.ctrl ≠ .DONE) (hi : s.ctrl ≠ .IDLE) :
    ((control s i).ctrl = .DONE ∨ (control s i).ctrl = .IDLE) ∨
      (control s i).ctrl ≠ .ABORT ∧
        turnsLeft (control s i) < turnsLeft s := by
  cases hc : s.ctrl
  case IDLE => exact absurd hc hi
  case DONE => exact absurd hc hd
  case LOAD => exact absurd hc h.no_load
  case STORE => exact absurd hc h.no_store
  case ABORT => exact absurd hc hab
  case START_LOAD | START_STORE =>
    left
    right
    simp [control, hc]
  case CHECK_STORE =>
    left
    left
    have hanswer : (s.pmpAllow && pmpDataAllow s i) = false := by
      by_contra hyes
      rw [Bool.not_eq_false, Bool.and_eq_true] at hyes
      exact hno ⟨hc, hyes⟩
    simp [control, hc, h.ended hc, hanswer]
  case CHECK_LOAD => exact Or.inr (turnsLeft_checkLoad h hc)

theorem Failed.next (h : Failed t) (hns : ¬ Settled t)
    (hk : KeepsDenials t i) (ha : i.abort = false) :
    Settled (track t i) ∨
      Failed (track t i) ∧ turnsLeft (track t i).dma < turnsLeft t.dma := by
  have hd : t.dma.ctrl ≠ .DONE := fun hx => hns (Or.inl hx)
  have hi : t.dma.ctrl ≠ .IDLE := fun hx => hns (Or.inr hx)
  by_cases hr : i.rstNi = true
  · have hstep : (track t i).dma = control t.dma i :=
      step_of_busy hr ha hi hd
    have hno : ¬ (t.dma.ctrl = .CHECK_STORE ∧ t.dma.pmpAllow = true ∧
        pmpDataAllow t.dma i = true) := fun hx => hk.2 ⟨h.failed, hx⟩
    have hturn := turnsLeft_control (h.inv.refused h.failed) h.no_abort hno
      hd hi
    rw [← hstep] at hturn
    rcases hturn with hover | ⟨hab, hlt⟩
    · exact Or.inl hover
    · refine Or.inr ⟨⟨trackInv_step h.inv hk, ?_, hab⟩, hlt⟩
      simp [track, hr, h.failed, hi]
  · refine Or.inl (Or.inr ?_)
    show (step t.dma i).ctrl = .IDLE
    rw [step, if_neg hr]
    rfl

/-- In a run that keeps the denials, from the reset on, a transfer whose
load check has failed transfers nothing and shows so in the state output:
neither of its flags is set and `DONE` adds `VALID_DONE` alone.  Unless it
is aborted, it is over within `turnsLeft` cycles. -/
theorem failed_load_refused (is : List In)
    (hok : Along track KeepsDenials trackReset is) :
    let t := run track trackReset is
    t.failed = true →
      (t.dma.ctrl ≠ .LOAD ∧ t.dma.ctrl ≠ .STORE) ∧
        (t.dma.valid = VALID_IDLE ∨ t.dma.valid = VALID_DONE) ∧
        (t.dma.ctrl = .DONE → ∀ i, i.rstNi = true →
          (step t.dma i).valid = VALID_DONE) ∧
        (t.dma.ctrl ≠ .ABORT → ∀ js : List In,
          turnsLeft t.dma ≤ js.length →
          Along track (fun t i => KeepsDenials t i ∧ i.abort = false) t js →
          ∃ n, n ≤ js.length ∧ Settled (run track t (js.take n))) := by
  intro t hf
  have htrack : TrackInv t :=
    hok.run_invariant (fun _ _ hk h => trackInv_step h hk) trackInv_reset
  have hinv := htrack.refused hf
  refine ⟨⟨hinv.no_load, hinv.no_store⟩, hinv.output, fun hd i hr => ?_,
    fun hab js hlen hjs => ?_⟩
  · have hv : (step t.dma i).valid = t.dma.valid ||| VALID_DONE := by
      have hdone : (control t.dma i).valid = t.dma.valid ||| VALID_DONE := by
        simp [control, hd]
      simp only [step, hr, if_true, saveInputs, hd, or_true]
      split_ifs <;> exact hdone
    rw [hv]
    rcases hinv.output with h | h <;> rw [h] <;> decide
  · by_cases hns : Settled t
    · exact ⟨0, Nat.zero_le _, hns⟩
    · refine hjs.reaches (P := fun t => Failed t ∧ ¬ Settled t)
        (fun t h h0 => absurd (h.1.settled h0) h.2) (fun t i hR h => ?_)
        ⟨⟨htrack, hf, hab⟩, hns⟩ hlen
      by_cases hnext : Settled (track t i)
      · exact Or.inl hnext
      · obtain ⟨hfailed, hlt⟩ :=
          (h.1.next h.2 hR.1 hR.2).resolve_left hnext
        exact Or.inr ⟨⟨hfailed, hnext⟩, hlt⟩

/-- Nothing may be accessed. -/
def closedMemory : PmpConf where
  cfg _ := 0#8
  addr _ := 0#54

theorem failed_load_refused_closedMemory :
    let i := during (transfer 0#32) closedMemory false
    let t := run track trackReset (List.replicate 4 i)
    t.failed = true ∧ t.dma.ctrl ≠ .STORE ∧
      ∃ n, n ≤ 1 ∧ Settled (run track t ([i].take n)) := by
  intro i t
  have hf : t.failed = true := by decide +kernel
  obtain ⟨hctrl, -, -, hend⟩ :=
    failed_load_refused (List.replicate 4 i) (by decide +kernel) hf
  refine ⟨hf, hctrl.2, ?_⟩
  exact hend (by decide +kernel) [i] (by decide +kernel) (by decide +kernel)

/-- The only word of a transfer is denied in the load check and allowed in
the cycle after it, and the store is granted. -/
theorem failed_load_stores :
    let c := transfer 0#32
    let t := run track trackReset
      (List.replicate 4 (during c closedMemory false))
    t.failed = true ∧
      (track t (during c openMemory false)).failed = true ∧
      (track t (during c openMemory false)).dma.ctrl = .STORE ∧
      Raises 2 (track t (during c openMemory false)).dma
        (during c closedMemory false) := by
  refine ⟨by decide +kernel, by decide +kernel, by decide +kernel, ?_⟩
  unfold Raises
  decide +kernel

end ArianeSoc.Dma
