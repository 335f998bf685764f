import ArianeSoc.Csr.Frame
import ArianeSoc.Pmp.Entry

/-!
# The lock of a PMP entry

`EntryKept s s' k` says that entry `k` is the same entry in two states: its
configuration, its address and, for a TOR entry, the address below.  The
match of the entry is then the same too (`EntryKept.entryMatch_eq`).

A cycle keeps every entry that is locked before it (`entryKept_step`), so a
run does (`entryKept_run`); `pmp_lock_permanent` is the result about the
reachable states.
-/

namespace ArianeSoc.Csr

open Sync Pmp

/-! ## Entries that do not change -/

/-- Entry `k` is the same in `s` and `s'`. -/
structure EntryKept (s s' : State) (k : Fin 16) : Prop where
  conf : s'.pmpcfg k = s.pmpcfg k
  addr : s'.pmpaddr k = s.pmpaddr k
  addrBelow : (s.pmpcfg k).addrMode = .TOR →
    ∀ j : Fin 16, j.val + 1 = k.val → s'.pmpaddr j = s.pmpaddr j

variable {cfg : Cfg} {q s s' s'' : State} {i : In} {k : Fin 16}

theorem EntryKept.refl (s : State) (k : Fin 16) : EntryKept s s k :=
  ⟨rfl, rfl, fun _ _ _ => rfl⟩

theorem EntryKept.trans (h : EntryKept s s' k) (h' : EntryKept s' s'' k) :
    EntryKept s s'' k := by
  refine ⟨h'.conf.trans h.conf, h'.addr.trans h.addr, ?_⟩
  intro hm j hj
  have hm' : (s'.pmpcfg k).addrMode = .TOR := by rw [h.conf, hm]
  rw [h'.addrBelow hm' j hj, h.addrBelow hm j hj]

theorem EntryKept.prevAddr_eq (h : EntryKept s s' k)
    (hm : (s.pmpcfg k).addrMode = .TOR) :
    prevAddr s'.pmpaddr k = prevAddr s.pmpaddr k := by
  unfold prevAddr
  split_ifs with h0
  · rfl
  · exact h.addrBelow hm _ (by simp only; omega)

/-- An entry that is kept matches the same addresses. -/
theorem EntryKept.entryMatch_eq (h : EntryKept s s' k) (addr : BitVec 64) :
    entryMatch s'.pmpaddr s'.pmpcfg addr k =
      entryMatch s.pmpaddr s.pmpcfg addr k := by
  unfold entryMatch
  rw [h.conf, h.addr]
  exact pmpEntry_congr_prev h.prevAddr_eq

/-! ## One cycle -/

theorem writePmpcfg_locked {b : Fin 2} {w : BitVec 64}
    (h : (q.pmpcfg k).locked = true) :
    writePmpcfg q b w k = q.pmpcfg k := by
  unfold writePmpcfg
  rw [if_neg (by simp [h])]

theorem writePmpaddr_locked {j : Fin 16} {w : BitVec 64}
    (h : (q.pmpcfg k).locked = true) :
    writePmpaddr q j w k = q.pmpaddr k := by
  unfold writePmpaddr
  refine if_neg ?_
  rintro ⟨rfl, hl, -⟩
  rw [h] at hl
  exact Bool.noConfusion hl

theorem nextLockedTor_of {j : Fin 16} (hj : j.val + 1 = k.val)
    (hl : (q.pmpcfg k).locked = true)
    (hm : (q.pmpcfg k).addrMode = .TOR) : nextLockedTor q j = true := by
  have hlt : j.val + 1 < 16 := by omega
  have hk : (⟨j.val + 1, hlt⟩ : Fin 16) = k := Fin.ext hj
  unfold nextLockedTor
  rw [dif_pos hlt, hk]
  simp [hl, hm]

theorem writePmpaddr_below {j l : Fin 16} {w : BitVec 64}
    (hj : j.val + 1 = k.val) (hl : (q.pmpcfg k).locked = true)
    (hm : (q.pmpcfg k).addrMode = .TOR) :
    writePmpaddr q l w j = q.pmpaddr j := by
  unfold writePmpaddr
  refine if_neg ?_
  rintro ⟨rfl, -, hn⟩
  rw [nextLockedTor_of hj hl hm] at hn
  exact Bool.noConfusion hn

/-- The configuration registers after the write case: unchanged, or one of
the two CSRs is written. -/
theorem csrWrite_pmpcfg (cfg : Cfg) (q : State) (i : In) :
    (csrWrite cfg q i).d.pmpcfg = q.pmpcfg ∨
      ∃ b w, (csrWrite cfg q i).d.pmpcfg = writePmpcfg q b w := by
  rcases csrWrite_cases cfg q i with heq | ⟨r, w, u, -, -, -, hu, heq⟩
  · rw [heq]
    exact Or.inl rfl
  · rw [heq]
    by_cases h0 : r = .PMPCFG0
    · exact Or.inr ⟨0, w, by rw [h0]; rfl⟩
    · by_cases h2 : r = .PMPCFG2
      · exact Or.inr ⟨1, w, by rw [h2]; rfl⟩
      · rw [writeReg_pmpcfg h0 h2, hu]
        exact Or.inl rfl

/-- The address registers after the write case. -/
theorem csrWrite_pmpaddr (cfg : Cfg) (q : State) (i : In) :
    (csrWrite cfg q i).d.pmpaddr = q.pmpaddr ∨
      ∃ j w, (csrWrite cfg q i).d.pmpaddr = writePmpaddr q j w := by
  rcases csrWrite_cases cfg q i with heq | ⟨r, w, u, -, -, -, hu, heq⟩
  · rw [heq]
    exact Or.inl rfl
  · rw [heq]
    by_cases hr : ∃ j, r = .PMPADDR j
    · obtain ⟨j, rfl⟩ := hr
      exact Or.inr ⟨j, w, rfl⟩
    · rw [writeReg_pmpaddr (fun j hj => hr ⟨j, hj⟩), hu]
      exact Or.inl rfl

/-- The combinational part keeps a locked entry. -/
theorem entryKept_nextValues (cfg : Cfg) (i : In)
    (hl : (q.pmpcfg k).locked = true) :
    EntryKept q (nextValues cfg q i) k := by
  have hsoft := softRegs_nextValues cfg q i
  have hconf : (nextValues cfg q i).pmpcfg = (csrWrite cfg q i).d.pmpcfg :=
    congrArg SoftRegs.pmpcfg hsoft
  have haddr : (nextValues cfg q i).pmpaddr = (csrWrite cfg q i).d.pmpaddr :=
    congrArg SoftRegs.pmpaddr hsoft
  refine ⟨?_, ?_, ?_⟩
  · rw [hconf]
    rcases csrWrite_pmpcfg cfg q i with h | ⟨b, w, h⟩
    · rw [h]
    · rw [h, writePmpcfg_locked hl]
  · rw [haddr]
    rcases csrWrite_pmpaddr cfg q i with h | ⟨j, w, h⟩
    · rw [h]
    · rw [h, writePmpaddr_locked hl]
  · intro hm j hj
    rw [haddr]
    rcases csrWrite_pmpaddr cfg q i with h | ⟨l, w, h⟩
    · rw [h]
    · rw [h, writePmpaddr_below hj hl hm]

/-- A cycle keeps every locked entry. -/
theorem entryKept_step (hq : Settled cfg q)
    (hl : (q.pmpcfg k).locked = true) : EntryKept q (step cfg q i) k := by
  have hnr : cfg.nrPMPEntries ≠ 0 := by
    intro h0
    rw [(hq.no_pmp h0).1] at hl
    simp [PmpCfg.locked] at hl
  have hnext := entryKept_nextValues cfg i hl
  refine ⟨?_, ?_, ?_⟩
  · simp only [step, latch, if_neg hnr, hnext.conf, ite_self]
  · simp only [step, latch, if_neg hnr, hnext.addr, ite_self]
  · intro hm j hj
    simp only [step, latch, if_neg hnr, hnext.addrBelow hm j hj, ite_self]

/-! ## Every run -/

theorem entryKept_run (hs : Settled cfg s)
    (hl : (s.pmpcfg k).locked = true) (is : List In) :
    EntryKept s (run (step cfg) s is) k := by
  have hrun : Settled cfg (run (step cfg) s is) ∧
      EntryKept s (run (step cfg) s is) k := by
    refine run_invariant (P := fun s' => Settled cfg s' ∧ EntryKept s s' k)
      ?_ ⟨hs, EntryKept.refl s k⟩ is
    rintro s' i ⟨hs', hkept⟩
    have hl' : (s'.pmpcfg k).locked = true := by rw [hkept.conf, hl]
    exact ⟨settled_step cfg s' i, hkept.trans (entryKept_step hs' hl')⟩
  exact hrun.2

/-- Once an entry is locked, its configuration, its address and the address
below a TOR entry stay as they are for ever, and with them the addresses
that the entry matches and the accesses that it permits. -/
theorem pmp_lock_permanent (cfg : Cfg) (s : State) (is : List In)
    (k : Fin 16) (hs : Reachable (step cfg) reset s)
    (hl : (s.pmpcfg k).locked = true) :
    let s' := run (step cfg) s is
    s'.pmpcfg k = s.pmpcfg k ∧ s'.pmpaddr k = s.pmpaddr k ∧
      ((s.pmpcfg k).addrMode = .TOR →
        ∀ j : Fin 16, j.val + 1 = k.val → s'.pmpaddr j = s.pmpaddr j) ∧
      (∀ addr, entryMatch s'.pmpaddr s'.pmpcfg addr k =
        entryMatch s.pmpaddr s.pmpcfg addr k) ∧
      ∀ access, permits (s'.pmpcfg k) access =
        permits (s.pmpcfg k) access := by
  have hkept := entryKept_run (settled_of_reachable hs) hl is
  refine ⟨hkept.conf, hkept.addr, hkept.addrBelow, hkept.entryMatch_eq, ?_⟩
  intro access
  rw [hkept.conf]

/-- Entry 1 is locked as a TOR region, then all three registers are
written. -/
theorem pmp_lock_permanent_tor :
    let w (a : BitVec 12) (v : BitVec 64) : In :=
      { In.idle with csrOp := .CSR_WRITE, csrAddr := a, csrWdata := v }
    let s := run (step Cfg.ariane) reset
      [w 0x3B0#12 0x100#64, w 0x3B1#12 0x200#64, w 0x3A0#12 0x8900#64]
    let s' := run (step Cfg.ariane) s
      [w 0x3A0#12 0#64, w 0x3B0#12 0#64, w 0x3B1#12 0x300#64]
    (s.pmpcfg 1).locked = true ∧ (s.pmpcfg 1).addrMode = .TOR ∧
      s'.pmpcfg 1 = s.pmpcfg 1 ∧ s'.pmpaddr 1 = s.pmpaddr 1 ∧
      s'.pmpaddr 0 = s.pmpaddr 0 := by
  intro w s s'
  have hl : (s.pmpcfg 1).locked = true := by decide +kernel
  have hm : (s.pmpcfg 1).addrMode = .TOR := by decide +kernel
  have h := pmp_lock_permanent Cfg.ariane s
    [w 0x3A0#12 0#64, w 0x3B0#12 0#64, w 0x3B1#12 0x300#64] 1
    ⟨_, rfl⟩ hl
  exact ⟨hl, hm, h.1, h.2.1, h.2.2.1 hm 0 rfl⟩

end ArianeSoc.Csr
