import ArianeSoc.Periph.Aes

/-!
# Keys on the bus

Two states of a wrapper are alike if they differ in the keys only.  The
reads of AES2 are the same in alike states.  So are those of AES0, except
that before the cipher text is valid a read of word 5 returns a word of the
first key: the words without an arm fall through to `key0`, and word 5 is
the one that the array has.
-/

namespace ArianeSoc.Periph

/-- The words below 5 have an arm, that of `start` or of a `p_c`. -/
theorem RegTable.index_of_not_shown {R : Type} (T : RegTable R) {start : R}
    {pC : Fin 4 → R} {i : RegIn} (hstart : T.word start = 0)
    (hpC : ∀ k, T.word (pC k) = 4 - k)
    (h : T.shown (start :: (List.finRange 4).map pC) i = none) :
    5 ≤ i.axi.index T.addrBits := by
  refine le_index_of_not_shown (fun k hk => ?_) h
  cases k with
  | zero => exact ⟨start, List.mem_cons_self, hstart⟩
  | succ k =>
    have hlt : 3 - k < 4 := by omega
    refine ⟨pC ⟨3 - k, hlt⟩, List.mem_cons_of_mem _
      (List.mem_map_of_mem (List.mem_finRange _)), ?_⟩
    rw [hpC]
    show 4 - (3 - k) = k + 1
    omega

/-! ## `aes0_wrapper` -/

namespace Aes0

variable {P : Type} {ρ : Rounds P} {s s' : State P} {i : RegIn}
  {x : ℕ → BitVec 32}

/-- The states differ in the keys only. -/
structure Alike (s s' : State P) : Prop where
  engine : s.engine = s'.engine
  regs : aes0.Agree Aes0Reg.isKey s.regs s'.regs

/-- The request reads word 5 before the cipher text is valid. -/
def ReadsKey (s : State P) (i : RegIn) : Prop :=
  i.axi.en = true ∧ i.acct = true ∧ i.axi.index 6 = 5 ∧
    s.engine.outValid = false

instance (s : State P) (i : RegIn) : Decidable (ReadsKey s i) :=
  inferInstanceAs (Decidable (_ ∧ _ ∧ _ ∧ _))

theorem isKey_of_readable {r : Aes0Reg} (h : r ∈ readable) :
    r.isKey = false := by
  simp only [readable, List.mem_cons, List.mem_map] at h
  rcases h with rfl | ⟨k, -, rfl⟩ <;> rfl

theorem Alike.readRegs (h : Alike s s') :
    aes0.readRegs readable readLock s.regs i =
      aes0.readRegs readable readLock s'.regs i :=
  h.regs.readRegs_public fun _ => isKey_of_readable

theorem index_of_not_shown (h : aes0.shown readable i = none) :
    5 ≤ i.axi.index 6 :=
  aes0.index_of_not_shown rfl (fun _ => rfl) h

theorem Alike.ct (h : Alike s s') : ct ρ s = ct ρ s' := by
  simp only [Aes0.ct, pCBig, h.engine, h.regs (.pC _) rfl]

/-- Beyond word 5 there is no word of the key. -/
theorem Alike.rdata (h : Alike s s') (hno : ¬ ReadsKey s i) :
    rdata ρ s i x = rdata ρ s' i x := by
  unfold Aes0.rdata
  dsimp only
  by_cases hen : (i.axi.en && i.acct) = true
  · rw [if_pos hen, if_pos hen, ← h.readRegs, ← h.ct, ← h.engine]
    cases hr : aes0.readRegs readable readLock s.regs i with
    | some v => rfl
    | none =>
      have hk := index_of_not_shown (Option.map_eq_none_iff.mp hr)
      cases hv : s.engine.outValid with
      | true => rfl
      | false =>
        have hne : i.axi.index 6 ≠ 5 := by
          intro h5
          simp only [Bool.and_eq_true] at hen
          exact hno ⟨hen.1, hen.2, h5, hv⟩
        have hword : keyWord s.regs x (i.axi.index 6) =
            keyWord s'.regs x (i.axi.index 6) := by
          unfold keyWord
          rw [dif_neg (by omega), dif_neg (by omega)]
        rw [hword]
  · rw [if_neg hen, if_neg hen]

/-- The state with `v` in the last word of the first key. -/
def State.withKey (s : State P) (v : BitVec 32) : State P :=
  { s with regs := Function.update s.regs (.key0 (Fin.last 5)) v }

theorem alike_withKey (s : State P) (v : BitVec 32) :
    Alike s (s.withKey v) := by
  refine ⟨rfl, fun r hr => ?_⟩
  refine (Function.update_of_ne ?_ _ _).symm
  rintro rfl
  exact absurd hr (by decide)

/-- Before the cipher text is valid, word 5 is the last word of the first
key. -/
theorem rdata_word5 (h : ReadsKey s i) :
    Aes0.rdata ρ s i x = (s.regs (.key0 5)).setWidth 64 := by
  obtain ⟨hen, hacct, h5, hv⟩ := h
  have hshown : aes0.shown readable i = none := by
    refine List.find?_eq_none.mpr fun r hr => ?_
    have hidx : i.axi.index aes0.addrBits = 5 := h5
    rw [hidx]
    simp only [readable, List.mem_cons, List.mem_map] at hr
    rcases hr with rfl | ⟨k, -, rfl⟩
    · decide
    · revert k
      decide
  have hnone : aes0.readRegs readable readLock s.regs i = none := by
    rw [RegTable.readRegs, hshown]
    rfl
  unfold Aes0.rdata
  dsimp only
  rw [if_pos (by rw [hen, hacct]; rfl), hnone, h5]
  simp [hv, keyWord]

end Aes0

/-! ## `aes2_wrapper` -/

namespace Aes2

variable {E : Type} {μ : Engine E} {s s' : State E} {i : RegIn}
  {x : ℕ → BitVec 32}

/-- The states differ in the keys only. -/
structure Alike (s s' : State E) : Prop where
  engine : s.engine = s'.engine
  regs : aes2.Agree Aes2Reg.isKey s.regs s'.regs

theorem isKey_of_readable {r : Aes2Reg} (h : r ∈ readable) :
    r.isKey = false := by
  simp only [readable, List.mem_cons, List.mem_map] at h
  rcases h with rfl | ⟨k, -, rfl⟩ <;> rfl

theorem Alike.readRegs (h : Alike s s') :
    aes2.readRegs readable readLock s.regs i =
      aes2.readRegs readable readLock s'.regs i :=
  h.regs.readRegs_public fun _ => isKey_of_readable

theorem index_of_not_shown (h : aes2.shown readable i = none) :
    5 ≤ i.axi.index 6 :=
  aes2.index_of_not_shown rfl (fun _ => rfl) h

/-- The words of the key array have an arm of their own. -/
theorem Alike.rdata (h : Alike s s') : rdata μ s i x = rdata μ s' i x := by
  unfold Aes2.rdata
  dsimp only
  by_cases hen : (i.axi.en && i.acct) = true
  · rw [if_pos hen, if_pos hen, ← h.readRegs, ← h.engine]
    cases hr : aes2.readRegs readable readLock s.regs i with
    | some v => rfl
    | none =>
      have hk := index_of_not_shown (Option.map_eq_none_iff.mp hr)
      have hword : keyWord s.regs x (i.axi.index 6) =
          keyWord s'.regs x (i.axi.index 6) := by
        unfold keyWord
        rw [dif_neg (by omega), dif_neg (by omega)]
      rw [hword]
  · rw [if_neg hen, if_neg hen]

end Aes2

/-- A read of AES0 returns the same in all states that are alike if and
only if it does not read word 5 before the cipher text is valid; a read of
AES2 always does. -/
theorem keys_read_iff {P E : Type} (ρ : Aes0.Rounds P) (μ : Aes2.Engine E)
    (x : ℕ → BitVec 32) (i : RegIn) :
    (∀ s : Aes0.State P,
      (∀ s', Aes0.Alike s s' → Aes0.rdata ρ s i x = Aes0.rdata ρ s' i x) ↔
        ¬ Aes0.ReadsKey s i) ∧
      ∀ s s' : Aes2.State E, Aes2.Alike s s' →
        Aes2.rdata μ s i x = Aes2.rdata μ s' i x := by
  refine ⟨fun s => ⟨fun h hread => ?_, fun hno s' hs => hs.rdata hno⟩,
    fun s s' hs => hs.rdata⟩
  have hval : ∀ v : BitVec 32, Aes0.rdata ρ s i x = v.setWidth 64 := by
    intro v
    have hread' : Aes0.ReadsKey (s.withKey v) i := hread
    have hkey : (s.withKey v).regs (.key0 5) = v := rfl
    rw [h _ (Aes0.alike_withKey s v), Aes0.rdata_word5 hread', hkey]
  have hne := (hval 0#32).symm.trans (hval 1#32)
  exact absurd hne (by decide)

/-! ## A run -/

/-- The wrapper at power-up, with the second key selected. -/
def Aes0.powerUp (v : BitVec 32) : Aes0.State Unit where
  regs
    | .keySel => 1#2
    | .key0 _ => v
    | _ => 0
  engine := ⟨false, 0#5, 0#128, 0#192, ()⟩

/-- Rounds whose output is not looked at. -/
def Aes0.noRounds : Aes0.Rounds Unit := ⟨fun _ _ _ => (), fun _ => 0#128⟩

/-- While an encryption with the second key runs, a read of word 5 returns
a word of the first key, whatever the lock register says. -/
theorem key_word_read :
    let run v := Sync.run (Aes0.step Aes0.noRounds) (Aes0.powerUp v)
      [regWrite 0x00#8 0#64 1#64, regRead 0xff#8 0#64]
    let i := regRead 0xff#8 5#64
    Aes0.Alike (run 0#32) (run 7#32) ∧
      Aes0.rdata Aes0.noRounds (run 0#32) i (fun _ => 0) = 0#64 ∧
      Aes0.rdata Aes0.noRounds (run 7#32) i (fun _ => 0) = 7#64 := by
  refine ⟨⟨rfl, fun r hr => ?_⟩, by decide +kernel, by decide +kernel⟩
  cases r with
  | key0 k => exact absurd hr.symm Bool.false_ne_true
  | _ => rfl

end ArianeSoc.Periph
