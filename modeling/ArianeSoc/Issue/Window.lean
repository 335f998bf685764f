import ArianeSoc.Issue.Scoreboard
import ArianeSoc.Ring

/-!
# The window of issued entries

The issued entries of the scoreboard are the `issueCnt` cells from commit
pointer 0 on.  `Windowed` is the invariant and `windowed_step` its step,
in which an issue, up to two commits, any write-backs and both flushes may
meet.  What the scoreboard expects of the commit stage is `AckOk`.
-/

namespace ArianeSoc.Scoreboard

open Ring

variable {b : ℕ} {s : State b} {i : In b} {k : BitVec b}

/-- Port 1 is acknowledged with port 0 only, and an acknowledged entry was
offered valid. -/
structure AckOk (s : State b) (i : In b) : Prop where
  first : i.commitAck1 = true → i.commitAck0 = true
  valid0 : i.commitAck0 = true → (commitInstr0 s).valid = true
  valid1 : i.commitAck1 = true → (commitInstr1 s).valid = true

instance (s : State b) (i : In b) : Decidable (AckOk s i) :=
  decidable_of_iff ((i.commitAck1 = true → i.commitAck0 = true) ∧
      (i.commitAck0 = true → (commitInstr0 s).valid = true) ∧
      (i.commitAck1 = true → (commitInstr1 s).valid = true))
    ⟨fun h => ⟨h.1, h.2.1, h.2.2⟩, fun h => ⟨h.1, h.2, h.3⟩⟩

/-- The invariant. -/
structure Windowed (s : State b) : Prop where
  issued : ∀ k, (s.mem k).issued = true ↔
    k ∈ window s.commitPointer0 s.issueCnt.toNat
  pointer : s.issuePointer = slot s.commitPointer0 s.issueCnt.toNat
  valid : ∀ k, (s.mem k).sbe.valid = true → (s.mem k).issued = true
  /-- Commit pointer 1 lags behind in the cycle after a flush only. -/
  second : s.commitPointer1 = s.commitPointer0 + 1#b ∨ s.issueCnt = 0#b

/-! ## Counting -/

/-- The acknowledged cells are the first `numCommit` cells of the
window. -/
theorem acked_iff (hw : Windowed s) (hi : AckOk s i) :
    numCommit i ≤ s.issueCnt.toNat ∧
      ∀ k, acked s i k ↔ k ∈ window s.commitPointer0 (numCommit i) := by
  have hsize := s.issueCnt.isLt
  by_cases h0 : i.commitAck0 = true
  · have hin0 : s.commitPointer0 ∈
        window s.commitPointer0 s.issueCnt.toNat :=
      (hw.issued _).1 (hw.valid _ (hi.valid0 h0))
    have hpos : 0 < s.issueCnt.toNat := by
      simpa [mem_window] using hin0
    by_cases h1 : i.commitAck1 = true
    · have hcnt : s.issueCnt ≠ 0#b := by
        intro h
        rw [h] at hpos
        simp at hpos
      have hp1 : s.commitPointer1 = slot s.commitPointer0 1 :=
        hw.second.resolve_right hcnt
      have hin1 : slot s.commitPointer0 1 ∈
          window s.commitPointer0 s.issueCnt.toNat := by
        rw [← hp1]
        exact (hw.issued _).1 (hw.valid _ (hi.valid1 h1))
      have hn : numCommit i = 2 := by simp [numCommit, h0, h1]
      have hb : 1 < 2 ^ b := by omega
      rw [slot_mem_window hb] at hin1
      refine ⟨by omega, fun k => ?_⟩
      rw [hn, mem_window_succ hb, mem_window_succ (by omega), slot_zero]
      simp [acked, h0, h1, hp1]
    · have hn : numCommit i = 1 := by simp [numCommit, h0, h1]
      refine ⟨by omega, fun k => ?_⟩
      rw [hn, mem_window_succ (by omega), slot_zero]
      simp [acked, h0, h1]
  · have h1 : ¬ i.commitAck1 = true := fun h => h0 (hi.first h)
    have hn : numCommit i = 0 := by simp [numCommit, h0, h1]
    refine ⟨by omega, fun k => ?_⟩
    rw [hn]
    simp [acked, h0, h1]

/-- There is room for an instruction that is issued. -/
theorem issueCnt_of_issueEn (h : issueEn s i = true) :
    s.issueCnt.toNat + 1 < 2 ^ b := by
  have hfull : s.issueCnt ≠ BitVec.allOnes b := by
    intro hf
    simp [issueEn, decodedInstrAckO, issueFull, hf] at h
  have hne : s.issueCnt.toNat ≠ 2 ^ b - 1 := by
    intro hn
    apply hfull
    apply BitVec.eq_of_toNat_eq
    rw [hn, BitVec.toNat_allOnes]
  have hlt := s.issueCnt.isLt
  omega

/-- What the cycle adds to the counter fits. -/
theorem issueCnt_add_lt :
    s.issueCnt.toNat + (issueEn s i).toNat < 2 ^ b := by
  cases hen : issueEn s i with
  | false => simpa using s.issueCnt.isLt
  | true => exact issueCnt_of_issueEn hen

/-- The counter after a cycle without a flush. -/
theorem issueCntN_toNat (hf : i.flush = false)
    (hn : numCommit i ≤ s.issueCnt.toNat) :
    (issueCntN s i).toNat =
      s.issueCnt.toNat + (issueEn s i).toNat - numCommit i := by
  have hlt := issueCnt_add_lt (s := s) (i := i)
  have hcnt := s.issueCnt.isLt
  have hnum : (BitVec.ofNat b (numCommit i)).toNat = numCommit i :=
    Nat.mod_eq_of_lt (by omega)
  have hen : (BitVec.ofNat b (issueEn s i).toNat).toNat =
      (issueEn s i).toNat := Nat.mod_eq_of_lt (by omega)
  have hle : BitVec.ofNat b (numCommit i) ≤ s.issueCnt := by
    rw [BitVec.le_def, hnum]
    exact hn
  unfold issueCntN
  rw [if_neg (by simp [hf]), BitVec.toNat_add, BitVec.toNat_sub_of_le hle,
    hnum, hen, Nat.mod_eq_of_lt (by omega)]
  omega

/-! ## The invariant -/

theorem windowed_reset : Windowed (reset b) where
  issued k := by simp [reset]
  pointer := by simp [reset]
  valid k h := by simp [reset, zeroEntry] at h
  second := Or.inr rfl

theorem windowed_flush (hf : i.flush = true) (hw : Windowed s) :
    Windowed (step s i) where
  issued k := by
    show (issueFifo s i k).issued = true ↔
      k ∈ window _ (issueCntN s i).toNat
    rw [issueFifo_issued]
    simp [hf, issueCntN]
  pointer := by
    show issuePointerN s i = slot (commitPointerN0 s i) (issueCntN s i).toNat
    simp [issuePointerN, commitPointerN0, issueCntN, hf]
  valid k := issueFifo_valid (hw.valid k)
  second := Or.inr (by simp [step, issueCntN, hf])

theorem windowed_step (hi : AckOk s i) (hw : Windowed s) :
    Windowed (step s i) := by
  cases hf : i.flush with
  | true => exact windowed_flush hf hw
  | false =>
    obtain ⟨hn, hacked⟩ := acked_iff hw hi
    have hcnt := issueCntN_toNat hf hn
    have hlt := issueCnt_add_lt (s := s) (i := i)
    have hcp : commitPointerN0 s i = slot s.commitPointer0 (numCommit i) :=
      if_neg (by simp [hf])
    -- what was issued before or is issued now is the longer window
    have hlong : ∀ k, (issueEn s i = true ∧ k = s.issuePointer ∨
        (s.mem k).issued = true) ↔ k ∈ window s.commitPointer0
          (s.issueCnt.toNat + (issueEn s i).toNat) := by
      intro k
      rw [hw.issued, hw.pointer]
      cases hen : issueEn s i with
      | false => simp
      | true =>
        rw [Bool.toNat_true, mem_window_succ s.issueCnt.isLt, or_comm]
        simp
    refine ⟨fun k => ?_, ?_, fun k => issueFifo_valid (hw.valid k), ?_⟩
    · show (issueFifo s i k).issued = true ↔
        k ∈ window (commitPointerN0 s i) (issueCntN s i).toNat
      rw [issueFifo_issued, hcp, hcnt, mem_window_drop (by omega),
        Nat.add_sub_cancel' (by omega), hacked, hlong]
      simp [hf, and_comm]
    · show issuePointerN s i =
        slot (commitPointerN0 s i) (issueCntN s i).toNat
      rw [hcp, hcnt, slot_add, Nat.add_sub_cancel' (by omega), ← slot_add,
        ← hw.pointer]
      exact if_neg (by simp [hf])
    · exact Or.inl (if_neg (by simp [hf]))

theorem windowed_run {is : List (In b)}
    (h : Sync.Along step AckOk (reset b) is) :
    Windowed (Sync.run step (reset b) is) :=
  h.run_invariant (fun _ _ => windowed_step) windowed_reset

/-- The issued entries are the circular window of length `issueCnt` from
commit pointer 0 on, the counter stays below the number of entries, the
issue pointer is at the end of the window, and commit pointer 1 is behind
commit pointer 0 whenever it offers an instruction. -/
theorem issued_window {is : List (In b)}
    (h : Sync.Along step AckOk (reset b) is) :
    let s := Sync.run step (reset b) is
    (∀ k, (s.mem k).issued = true ↔
        (k - s.commitPointer0).toNat < s.issueCnt.toNat) ∧
      s.issueCnt.toNat < 2 ^ b ∧
      s.issuePointer = s.commitPointer0 + s.issueCnt ∧
      ((commitInstr1 s).valid = true →
        s.commitPointer1 = s.commitPointer0 + 1#b) := by
  intro s
  have hw : Windowed s := windowed_run h
  refine ⟨hw.issued, s.issueCnt.isLt, ?_, fun hv => ?_⟩
  · rw [hw.pointer, slot, BitVec.ofNat_toNat, BitVec.setWidth_eq]
  · refine hw.second.resolve_right fun hcnt => ?_
    have hiss := (hw.issued _).1 (hw.valid _ hv)
    rw [hcnt] at hiss
    simp at hiss

/-- A cycle without an event. -/
def In.idle : In b where
  flushUnissuedInstr := false
  flush := false
  unresolvedBranch := false
  decodedInstr := zeroEntry
  decodedInstrValid := false
  issueAck := false
  wb := []
  targetAddress := 0#64
  commitAck0 := false
  commitAck1 := false

/-- The cycle with an instruction for the unit `fu`. -/
def In.issuing (i : In b) (fu : FuT) : In b :=
  { i with
    decodedInstr := { zeroEntry with fu := fu }
    decodedInstrValid := true
    issueAck := true }

/-- The cycle with a write-back to each of the entries `ids`. -/
def In.writing (i : In b) (ids : List (BitVec b)) : In b :=
  { i with wb := ids.map fun t => ⟨true, t, 0#64, ExceptionT.none⟩ }

/-- Two instructions are written back out of order and commit together,
while a third one is issued. -/
def twoCommits : List (In 3) :=
  [In.idle.issuing .LOAD, In.idle.issuing .ALU, In.idle.writing [1#3],
    In.idle.writing [0#3],
    { In.idle.issuing .ALU with commitAck0 := true, commitAck1 := true }]

theorem issued_window_twoCommits :
    let s := Sync.run step (reset 3) twoCommits
    s.issueCnt = 1#3 ∧
      ∀ k, (s.mem k).issued = true ↔
        (k - s.commitPointer0).toNat < s.issueCnt.toNat :=
  have h : Sync.Along step AckOk (reset 3) twoCommits := by decide +kernel
  ⟨by decide +kernel, (issued_window h).1⟩

end ArianeSoc.Scoreboard
