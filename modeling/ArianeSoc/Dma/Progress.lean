import ArianeSoc.Dma.Fsm

/-!
# The DMA controller goes on

A transfer that starts counts two check loops down and ends in `DONE`;
`remainingCycles` is the number of cycles that this still takes at most.
The controller leaves `ABORT` by a reset only: the case of this state sets
the next state to `DONE` and leaves its enable low.

* `progress_step`: a cycle without an abort ends the transfer or lowers the
  measure.
* `abort_stays`: nothing but a reset leads out of `ABORT`.
* `progresses_iff`: a run goes on, in every respect, if and only if no cycle
  of it has an abort.
-/

namespace ArianeSoc.Dma

open Sync

/-! ## What is asked of a run -/

/-- The most cycles that a transfer takes from its start: the load check
counts the length that is latched at the start, the store check the one that
the start latches. -/
def transferBound (s : State) (i : In) : ℕ :=
  s.lengthD.toNat + i.command.length.toNat + 6

/-- The run goes on: started transfers end, `DONE` is left when it is
acknowledged, starts are accepted, and no state is left by a reset only. -/
structure Progresses (is : List In) : Prop where
  finishes : ∀ pre i js, is = pre ++ i :: js →
    (run step reset pre).ctrl = .IDLE →
    (run step reset pre).startD ≠ 0#32 →
    (∀ j ∈ i :: js, j.rstNi = true) →
    transferBound (run step reset pre) i ≤ js.length →
    ∃ n ≤ transferBound (run step reset pre) i,
      (run step (run step reset (pre ++ [i])) (js.take n)).ctrl = .DONE
  acknowledged : ∀ pre i js, is = pre ++ i :: js → i.rstNi = true →
    (run step reset pre).ctrl = .DONE → i.command.done ≠ 0#32 →
    (run step reset (pre ++ [i])).ctrl = .IDLE
  accepts : ∀ pre i js, is = pre ++ i :: js → i.rstNi = true →
    (run step reset pre).ctrl = .IDLE →
    (run step reset (pre ++ [i])).startD = i.command.start ∧
      (run step reset (pre ++ [i])).ctrl =
        if (run step reset pre).startD = 0#32 then .IDLE else .CHECK_LOAD
  unstuck : ∀ n, ∃ js, (∀ j ∈ js, j.rstNi = true) ∧
    (run step (run step reset (is.take n)) js).ctrl = .IDLE

/-! ## The states of a run without an abort -/

/-- The controller is on its way to `DONE`. -/
def Busy (s : State) : Prop :=
  s.ctrl = .CHECK_LOAD ∨ s.ctrl = .LOAD ∨ s.ctrl = .CHECK_STORE ∨
    s.ctrl = .STORE

/-- The controller is in one of the states of a transfer. -/
def Sane (s : State) : Prop :=
  s.ctrl = .IDLE ∨ Busy s ∨ s.ctrl = .DONE

/-- The turns that a check loop still makes. -/
def turns (ctr : BitVec 32) : ℕ := (ctr + 1#32).toNat

/-- The most cycles until `DONE`. -/
def remainingCycles (s : State) : ℕ :=
  match s.ctrl with
  | .CHECK_LOAD => turns s.pmpCheckCtr + turns s.lengthD + 4
  | .LOAD => turns s.lengthD + 3
  | .CHECK_STORE => turns s.pmpCheckCtr + 2
  | .STORE => 1
  | _ => 0

variable {s : State} {i : In}

theorem turns_le (ctr : BitVec 32) : turns ctr ≤ ctr.toNat + 1 := by
  unfold turns
  bv_omega

theorem turns_sub_one {ctr : BitVec 32} (h : ctr ≠ CTR_END) :
    turns (ctr - 1#32) + 1 = turns ctr := by
  unfold turns
  bv_omega

theorem turns_end : turns CTR_END = 0 := rfl

theorem Busy.not_idle (h : Busy s) : s.ctrl ≠ .IDLE ∧ s.ctrl ≠ .DONE := by
  rcases h with h | h | h | h <;> rw [h] <;> decide

/-- A cycle of a transfer without an abort ends it or brings it nearer to
its end. -/
theorem progress_step (h : Busy s) (hr : i.rstNi = true)
    (ha : i.abort = false) :
    (step s i).ctrl = .DONE ∨
      Busy (step s i) ∧ remainingCycles (step s i) < remainingCycles s := by
  obtain ⟨hidle, hdone⟩ := h.not_idle
  rw [step_of_busy hr ha hidle hdone]
  rcases h with hc | hc | hc | hc
  · right
    by_cases hend : s.pmpCheckCtr = CTR_END
    · simp only [control, hc, hend, if_true]
      split_ifs
      · refine ⟨.inr (.inl rfl), ?_⟩
        simp only [remainingCycles, hc]
        omega
      · refine ⟨.inr (.inr (.inl rfl)), ?_⟩
        simp only [remainingCycles, hc, hend, turns_end]
        omega
    · rw [control_checkLoad hc hend]
      have hturn := turns_sub_one hend
      refine ⟨.inl hc, ?_⟩
      simp only [remainingCycles, hc]
      omega
  · right
    simp only [control, hc]
    exact ⟨.inr (.inr (.inl rfl)), by simp [remainingCycles, hc]⟩
  · by_cases hend : s.pmpCheckCtr = CTR_END
    · simp only [control, hc, hend, if_true]
      split_ifs
      · refine .inr ⟨.inr (.inr (.inr rfl)), ?_⟩
        simp [remainingCycles, hc]
      · exact .inl rfl
    · right
      rw [control_checkStore hc hend]
      have hturn := turns_sub_one hend
      refine ⟨.inr (.inr (.inl hc)), ?_⟩
      simp only [remainingCycles, hc]
      omega
  · left
    simp only [control, hc]

theorem sane_step (h : Sane s) (ha : i.rstNi = true → i.abort = false) :
    Sane (step s i) := by
  by_cases hr : i.rstNi = true
  · rcases h with hc | hbusy | hc
    · rw [Sane, Busy, (ctrl_step hr (ha hr)).1]
      simp only [control, hc]
      split_ifs
      · exact .inr (.inl (.inl rfl))
      · exact .inl rfl
    · rcases progress_step hbusy hr (ha hr) with hdone | ⟨hbusy', -⟩
      · exact .inr (.inr hdone)
      · exact .inr (.inl hbusy')
    · rw [Sane, (ctrl_step hr (ha hr)).1]
      simp only [control, hc]
      split_ifs
      · exact .inl rfl
      · exact .inr (.inr rfl)
  · left
    simp [step, hr, reset]

/-- Every state of a run without an abort. -/
theorem sane_run {is : List In}
    (ha : ∀ i ∈ is, i.rstNi = true → i.abort = false) :
    Sane (run step reset is) :=
  (along_of_forall_mem ha).run_invariant
    (fun _ _ hi hs => sane_step hs hi) (.inl rfl)

/-- A transfer ends within the cycles that the measure gives it. -/
theorem reaches_done (h : Busy s) {is : List In}
    (hgo : ∀ i ∈ is, i.rstNi = true ∧ i.abort = false)
    (hlen : remainingCycles s ≤ is.length) :
    ∃ n ≤ remainingCycles s, (run step s (is.take n)).ctrl = .DONE := by
  have hlong : (is.take (remainingCycles s)).length = remainingCycles s :=
    List.length_take_of_le hlen
  have hgo' : ∀ i ∈ is.take (remainingCycles s),
      i.rstNi = true ∧ i.abort = false :=
    fun i hi => hgo i (List.mem_of_mem_take hi)
  have halong : Along step (fun _ i => i.rstNi = true ∧ i.abort = false) s
      (is.take (remainingCycles s)) := along_of_forall_mem hgo'
  obtain ⟨n, hn, hdone⟩ := halong.reaches (P := Busy)
    (Q := fun t => t.ctrl = .DONE) (m := remainingCycles)
    (fun t ht hz => by
      rcases ht with hc | hc | hc | hc <;> simp [remainingCycles, hc] at hz)
    (fun t j hj ht => progress_step ht hj.1 hj.2) h (Nat.le_of_eq hlong.symm)
  rw [hlong] at hn
  rw [List.take_take, Nat.min_eq_left hn] at hdone
  exact ⟨n, hn, hdone⟩

/-- A start begins the load check. -/
theorem step_start (hc : s.ctrl = .IDLE) (hr : i.rstNi = true)
    (ha : i.abort = false) :
    (step s i).startD = i.command.start ∧
      (step s i).lengthD = i.command.length ∧
      (step s i).ctrl = (if s.startD = 0#32 then .IDLE else .CHECK_LOAD) ∧
      (s.startD ≠ 0#32 → (step s i).pmpCheckCtr = s.lengthD) := by
  by_cases hs : s.startD = 0#32 <;>
    simp [step, saveInputs, control, hr, ha, hc, hs]

/-- `DONE` is left when it is acknowledged. -/
theorem step_acknowledge (hc : s.ctrl = .DONE) (hr : i.rstNi = true)
    (ha : i.abort = false) (hd : i.command.done ≠ 0#32) :
    (step s i).ctrl = .IDLE := by
  rw [(ctrl_step hr ha).1]
  simp [control, hc, hd]

/-! ## Back to `IDLE` -/

/-- A cycle that acknowledges and does nothing else. -/
def acknowledge : In where
  rstNi := true
  command := ⟨0#32, 0#32, 0#32, 0#32, 0#32, 0#32, 1#32⟩
  pmpConf := ⟨fun _ => 0#8, fun _ => 0#54⟩
  weFlag := false
  abort := false

/-- Every state of a transfer leads back to `IDLE` without a reset. -/
theorem Sane.returns (h : Sane s) :
    ∃ js, (∀ j ∈ js, j.rstNi = true) ∧ (run step s js).ctrl = .IDLE := by
  have hack : ∀ t : State, t.ctrl = .DONE →
      (step t acknowledge).ctrl = .IDLE :=
    fun t ht => step_acknowledge ht rfl rfl (by decide)
  rcases h with hc | hbusy | hc
  · exact ⟨[], by simp, hc⟩
  · have hgo : ∀ j ∈ List.replicate (remainingCycles s) acknowledge,
        j.rstNi = true ∧ j.abort = false := by
      intro j hj
      rw [List.eq_of_mem_replicate hj]
      exact ⟨rfl, rfl⟩
    obtain ⟨n, -, hdone⟩ :=
      reaches_done hbusy hgo (Nat.le_of_eq List.length_replicate.symm)
    refine ⟨(List.replicate (remainingCycles s) acknowledge).take n ++
      [acknowledge], fun j hj => ?_, ?_⟩
    · rcases List.mem_append.mp hj with hj | hj
      · exact (hgo j (List.mem_of_mem_take hj)).1
      · rw [List.mem_singleton.mp hj]
        rfl
    · rw [run_append]
      exact hack _ hdone
  · exact ⟨[acknowledge], by simp [acknowledge], hack s hc⟩

/-! ## After an abort -/

/-- An abort leads to `ABORT` from everywhere. -/
theorem step_abort (hr : i.rstNi = true) (ha : i.abort = true) :
    (step s i).ctrl = .ABORT := by
  simp only [step, hr, ha, if_true, saveInputs]
  split_ifs <;> rfl

/-- Nothing but a reset leads out of `ABORT`. -/
theorem abort_stays (hc : s.ctrl = .ABORT) {js : List In}
    (hr : ∀ j ∈ js, j.rstNi = true) : (run step s js).ctrl = .ABORT := by
  have halong : Along step (fun _ j => j.rstNi = true) s js :=
    along_of_forall_mem hr
  refine halong.run_invariant (P := fun t => t.ctrl = .ABORT)
    (fun t j hj ht => ?_) hc
  cases ha : j.abort with
  | true => exact step_abort hj ha
  | false => rw [(ctrl_step hj ha).1, control, ht, ht]

/-- A run goes on if and only if no cycle of it has an abort. -/
theorem progresses_iff (is : List In) :
    Progresses is ↔ ∀ i ∈ is, i.rstNi = true → i.abort = false := by
  constructor
  · intro h i hi hr
    obtain ⟨pre, post, rfl⟩ := List.append_of_mem hi
    by_contra ha
    have hab : (run step reset (pre ++ [i])).ctrl = .ABORT := by
      rw [run_append]
      exact step_abort hr (Bool.not_eq_false _ ▸ ha)
    obtain ⟨js, hjs, hidle⟩ := h.unstuck (pre.length + 1)
    have htake : (pre ++ i :: post).take (pre.length + 1) = pre ++ [i] := by
      rw [List.take_append, List.take_of_length_le (Nat.le_succ _),
        Nat.add_sub_cancel_left, List.take_one]
      rfl
    rw [htake, abort_stays hab hjs] at hidle
    exact absurd hidle (by decide)
  · intro h
    refine ⟨?_, ?_, ?_, fun n => ?_⟩
    · rintro pre i js rfl hidle hstart hrst hlen
      have hgo : ∀ j ∈ i :: js, j.rstNi = true ∧ j.abort = false :=
        fun j hj => ⟨hrst j hj,
          h j (List.mem_append_right _ hj) (hrst j hj)⟩
      obtain ⟨hr, ha⟩ := hgo i List.mem_cons_self
      obtain ⟨-, hlength, hctrl, hctr⟩ := step_start hidle hr ha
      rw [if_neg hstart] at hctrl
      have hbound : remainingCycles (step (run step reset pre) i) ≤
          transferBound (run step reset pre) i := by
        have hload := turns_le (run step reset pre).lengthD
        have hstore := turns_le i.command.length
        simp only [remainingCycles, hctrl, hctr hstart, hlength,
          transferBound]
        omega
      have hbusy : Busy (step (run step reset pre) i) := .inl hctrl
      obtain ⟨n, hn, hdone⟩ := reaches_done hbusy
        (fun j hj => hgo j (List.mem_cons_of_mem i hj))
        (Nat.le_trans hbound hlen)
      refine ⟨n, Nat.le_trans hn hbound, ?_⟩
      rw [run_append]
      exact hdone
    · rintro pre i js rfl hr hdone hack
      rw [run_append]
      exact step_acknowledge hdone hr (h i (by simp) hr) hack
    · rintro pre i js rfl hr hidle
      rw [run_append]
      have hstart := step_start hidle hr (h i (by simp) hr)
      exact ⟨hstart.1, hstart.2.2.1⟩
    · exact Sane.returns (sane_run fun i hi => h i (List.mem_of_mem_take hi))

/-- A transfer of two words that is aborted in the load check: it does not
end, and `DONE` is not reached when the abort is acknowledged. -/
theorem progresses_aborted :
    ¬ Progresses [{ acknowledge with
        command := ⟨1#32, 1#32, 0#32, 0#32, 0#32, 0#32, 0#32⟩ },
      acknowledge, { acknowledge with abort := true }] := by
  intro h
  obtain ⟨js, hjs, hidle⟩ := h.unstuck 3
  have hab := abort_stays (s := run step reset [{ acknowledge with
      command := ⟨1#32, 1#32, 0#32, 0#32, 0#32, 0#32, 0#32⟩ },
    acknowledge, { acknowledge with abort := true }]) rfl hjs
  exact absurd (hab.symm.trans hidle) (by decide)

end ArianeSoc.Dma
