import ArianeSoc.Dma.Fsm

/-!
# What a granted transfer has checked

The words of a transfer are `wordAddr base k` for `k` up to its length.
Both check loops count down from the length and look at the word above the
counter.  `Checked` is their common invariant: the PMP unit is asked about
the word above the counter, and a set allow register stands for all the
words above that one.

* `load_grant`: the load is granted only if every source word may be read,
  in every run that keeps the command and the PMP configuration, starts no
  counter at its end value and takes no bypass.
* `store_grant`: the store is granted only if every destination word may be
  written, in every run that keeps the PMP configuration, starts no counter
  at its end value and overwrites no recorded denial.
-/

namespace ArianeSoc.Dma

open Pmp Sync

/-! ## The words of a transfer -/

/-- The address of word `k` of a range. -/
def wordAddr (base : BitVec 64) (k : Nat) : BitVec 64 :=
  base + BitVec.ofNat 64 (4 * k)

/-- The PMP configuration allows the access to word `k`. -/
def allowed (p : PmpConf) (base : BitVec 64) (type : PmpAccess) (k : Nat) :
    Bool :=
  pmp p.addr p.cfg (wordAddr base k) type PRIV_LVL_U

/-- The source range of the latched command. -/
def sourceBase (s : State) : BitVec 64 :=
  alignedAddr s.sourceAddrMsbD s.sourceAddrLsbD

/-- The destination range of the latched command. -/
def destBase (s : State) : BitVec 64 :=
  alignedAddr s.destAddrMsbD s.destAddrLsbD

theorem checkAddr_eq (base : BitVec 64) (ctr : BitVec 32) :
    checkAddr base ctr = wordAddr base ctr.toNat := by
  have hmul : ctr.setWidth 64 * 4#64 = BitVec.ofNat 64 (4 * ctr.toNat) := by
    have hlt := ctr.isLt
    apply BitVec.eq_of_toNat_eq
    simp only [BitVec.toNat_mul, BitVec.toNat_setWidth, BitVec.toNat_ofNat]
    omega
  rw [checkAddr, wordAddr, hmul]

/-! ## The invariant of a check loop -/

variable {c : Command} {p : PmpConf} {len : BitVec 32} {base : BitVec 64}
  {type : PmpAccess} {s s' : State} {i : In} {is : List In}

/-- The number of words that the loop has not been asked about yet: the
counter plus one, zero after the counter has run below zero. -/
def remaining (s : State) : Nat := (s.pmpCheckCtr + 1#32).toNat

theorem remaining_end (h : s.pmpCheckCtr = CTR_END) : remaining s = 0 := by
  rw [remaining, h]
  rfl

theorem remaining_of_ne (h : s.pmpCheckCtr ≠ CTR_END) :
    remaining s = s.pmpCheckCtr.toNat + 1 := by
  unfold remaining
  bv_omega

theorem remaining_next (h : s.pmpCheckCtr ≠ CTR_END)
    (h' : s'.pmpCheckCtr = s.pmpCheckCtr - 1#32) :
    remaining s' + 1 = remaining s := by
  have hne : s.pmpCheckCtr.toNat ≠ 4294967295 := by
    intro heq
    exact h (BitVec.eq_of_toNat_eq heq)
  unfold remaining
  rw [h']
  bv_omega

/-- The PMP unit is asked about the word above the counter, and the allow
register stands for the words above that one. -/
structure Checked (p : PmpConf) (len : BitVec 32) (base : BitVec 64)
    (type : PmpAccess) (s : State) : Prop where
  bound : remaining s ≤ len.toNat + 1
  asked : remaining s ≤ len.toNat →
    s.pmpAddr = wordAddr base (remaining s) ∧ s.pmpAccessType = type
  above : s.pmpAllow = true → ∀ k, remaining s < k → k ≤ len.toNat →
    allowed p base type k = true

/-- The answer of the PMP unit is about the word above the counter. -/
theorem Checked.answer (h : Checked p len base type s) (hi : i.pmpConf = p)
    (hle : remaining s ≤ len.toNat) :
    pmpDataAllow s i = allowed p base type (remaining s) := by
  obtain ⟨haddr, htype⟩ := h.asked hle
  rw [pmpDataAllow, hi, haddr, htype]
  rfl

theorem Checked.start (hctr : s.pmpCheckCtr = len) (hlen : len ≠ CTR_END) :
    Checked p len base type s := by
  have hrem : remaining s = len.toNat + 1 := by
    rw [← hctr] at hlen ⊢
    exact remaining_of_ne hlen
  refine ⟨by omega, fun hle => ?_, fun _ k hk hle => ?_⟩ <;> omega

/-- A turn of the loop. -/
theorem Checked.next (h : Checked p len base type s) (hi : i.pmpConf = p)
    (hctr : s.pmpCheckCtr ≠ CTR_END)
    (hctr' : s'.pmpCheckCtr = s.pmpCheckCtr - 1#32)
    (haddr : s'.pmpAddr = checkAddr base s.pmpCheckCtr)
    (htype : s'.pmpAccessType = type)
    (hallow : s'.pmpAllow = true → remaining s ≤ len.toNat →
      pmpDataAllow s i = true ∧
        (remaining s < len.toNat → s.pmpAllow = true)) :
    Checked p len base type s' := by
  have hrem := remaining_next hctr hctr'
  have hval := remaining_of_ne hctr
  have hbound := h.bound
  refine ⟨by omega, fun _ => ⟨?_, htype⟩, fun hset k hk hle => ?_⟩
  · have hk : remaining s' = s.pmpCheckCtr.toNat := by omega
    rw [haddr, checkAddr_eq, hk]
  · obtain ⟨hdata, hprev⟩ := hallow hset (by omega)
    by_cases heq : k = remaining s
    · rw [heq, ← h.answer hi (by omega), hdata]
    · exact h.above (hprev (by omega)) k (by omega) hle

/-- The end of the loop. -/
theorem Checked.done (h : Checked p len base type s) (hi : i.pmpConf = p)
    (hctr : s.pmpCheckCtr = CTR_END) (hallow : s.pmpAllow = true)
    (hdata : pmpDataAllow s i = true) {k : Nat} (hk : k ≤ len.toNat) :
    allowed p base type k = true := by
  have hrem := remaining_end hctr
  rcases Nat.eq_zero_or_pos k with h0 | hpos
  · rw [h0, ← hrem, ← h.answer hi (by omega), hdata]
  · exact h.above hallow k (by omega) hk

/-! ## The latched command -/

/-- The latched command is `c`. -/
structure Latched (c : Command) (s : State) : Prop where
  start : s.startD = c.start
  length : s.lengthD = c.length
  sourceAddrLsb : s.sourceAddrLsbD = c.sourceAddrLsb
  sourceAddrMsb : s.sourceAddrMsbD = c.sourceAddrMsb
  destAddrLsb : s.destAddrLsbD = c.destAddrLsb
  destAddrMsb : s.destAddrMsbD = c.destAddrMsb

def Command.sourceBase (c : Command) : BitVec 64 :=
  alignedAddr c.sourceAddrMsb c.sourceAddrLsb

/-- A transfer that is under way, or about to start, has latched `c`. -/
def Held (c : Command) (s : State) : Prop :=
  Latched c s ∨ s.ctrl = .DONE ∨ s.ctrl = .IDLE ∧ s.startD = 0#32

theorem Held.latched (h : Held c s) (hd : s.ctrl ≠ .DONE)
    (hi : s.ctrl = .IDLE → s.startD ≠ 0#32) : Latched c s := by
  rcases h with h | h | ⟨h, h0⟩
  · exact h
  · exact absurd h hd
  · exact absurd h0 (hi h)

/-- The command after a cycle: latched anew in `IDLE` and `DONE`, kept
elsewhere. -/
theorem latched_step (hr : i.rstNi = true) (hi : i.command = c)
    (h : s.ctrl = .IDLE ∨ s.ctrl = .DONE ∨ Latched c s) :
    Latched c (step s i) := by
  have hcontrol : ∀ d : State, (d = control s i ∨
      d = { control s i with ctrl := .ABORT }) → Latched c s →
        Latched c d := by
    have hkeep : Latched c s → Latched c (control s i) := by
      intro hs
      unfold control
      split
      all_goals try split_ifs
      all_goals exact ⟨hs.1, hs.2, hs.3, hs.4, hs.5, hs.6⟩
    intro d hd hs
    rcases hd with rfl | rfl
    · exact hkeep hs
    · have hs' := hkeep hs
      exact ⟨hs'.1, hs'.2, hs'.3, hs'.4, hs'.5, hs'.6⟩
  subst hi
  rw [step, if_pos hr, saveInputs]
  split_ifs with hidle hab
  · exact ⟨rfl, rfl, rfl, rfl, rfl, rfl⟩
  · exact ⟨rfl, rfl, rfl, rfl, rfl, rfl⟩
  all_goals
    have hs : Latched i.command s := by
      rcases h with h | h | h
      · exact absurd (Or.inl h) hidle
      · exact absurd (Or.inr h) hidle
      · exact h
  · exact hcontrol _ (Or.inr rfl) hs
  · exact hcontrol _ (Or.inl rfl) hs

theorem held_step (h : Held c s) (hi : i.command = c) :
    Held c (step s i) := by
  by_cases hr : i.rstNi = true
  · refine Or.inl (latched_step hr hi ?_)
    rcases h with h | h | h
    · exact Or.inr (Or.inr h)
    · exact Or.inr (Or.inl h)
    · exact Or.inl h.1
  · rw [step, if_neg hr]
    exact Or.inr (Or.inr ⟨rfl, rfl⟩)

/-! ## The load -/

/-- A transfer starts whose counter starts at its end value. -/
def WrapsAtStart (s : State) (_ : In) : Prop :=
  s.ctrl = .IDLE ∧ s.startD ≠ 0#32 ∧ s.lengthD = CTR_END

/-- In the load check, `we_flag` sets the allow register for a transfer of
length three where the check itself would clear it. -/
def BypassDecides (s : State) (i : In) : Prop :=
  s.ctrl = .CHECK_LOAD ∧ s.pmpCheckCtr ≠ CTR_END ∧ i.weFlag = true ∧
    s.lengthD = 3#32 ∧
    (s.pmpAllow && (pmpDataAllow s i || s.pmpCheckCtr == s.lengthD)) = false

instance (s : State) (i : In) : Decidable (WrapsAtStart s i) :=
  inferInstanceAs (Decidable (_ ∧ _ ∧ _))

instance (s : State) (i : In) : Decidable (BypassDecides s i) :=
  inferInstanceAs (Decidable (_ ∧ _ ∧ _ ∧ _ ∧ _))

/-- A turn of the load check in which no bypass decides. -/
theorem allow_of_not_bypass (hb : ¬ BypassDecides s i)
    (hck : s.ctrl = .CHECK_LOAD) (hne : s.pmpCheckCtr ≠ CTR_END)
    (hset : (control s i).pmpAllow = true) :
    s.pmpAllow = true ∧
      (pmpDataAllow s i = true ∨ s.pmpCheckCtr = s.lengthD) := by
  rw [control_checkLoad hck hne] at hset
  simp only at hset
  have hkeep : (s.pmpAllow && (pmpDataAllow s i ||
      s.pmpCheckCtr == s.lengthD)) = true := by
    by_contra hno
    rw [Bool.not_eq_true] at hno
    rw [hno, Bool.false_or, Bool.and_eq_true, beq_iff_eq] at hset
    exact hb ⟨hck, hne, hset.1, hset.2, hno⟩
  rw [Bool.and_eq_true, Bool.or_eq_true, beq_iff_eq] at hkeep
  exact hkeep

/-- What the controller knows in the load phase. -/
structure LoadInv (c : Command) (p : PmpConf) (s : State) : Prop where
  held : Held c s
  check : s.ctrl = .CHECK_LOAD →
    Checked p c.length c.sourceBase ACCESS_READ s
  load : s.ctrl = .LOAD → ∀ k, k ≤ c.length.toNat →
    allowed p c.sourceBase ACCESS_READ k = true

/-- A turn of the load check. -/
theorem loadCheck_next (h : LoadInv c p s) (hp : i.pmpConf = p)
    (hb : ¬ BypassDecides s i) (hck : s.ctrl = .CHECK_LOAD)
    (hne : s.pmpCheckCtr ≠ CTR_END) (heq : step s i = control s i) :
    Checked p c.length c.sourceBase ACCESS_READ (step s i) := by
  have hl : Latched c s := by
    refine h.held.latched ?_ fun hx => ?_
    · rw [hck]
      decide
    · rw [hck] at hx
      exact Ctrl.noConfusion hx
  have hval := remaining_of_ne hne
  refine (h.check hck).next hp hne ?_ ?_ ?_ fun hset hle => ?_
  · rw [heq, control_checkLoad hck hne]
  · rw [heq, control_checkLoad hck hne]
    simp only [hl.sourceAddrMsb, hl.sourceAddrLsb]
    rfl
  · rw [heq, control_checkLoad hck hne]
  · rw [heq] at hset
    obtain ⟨hprev, hdata⟩ := allow_of_not_bypass hb hck hne hset
    have hctr : s.pmpCheckCtr ≠ s.lengthD := by
      intro hfirst
      rw [hfirst, hl.length] at hval
      omega
    exact ⟨hdata.resolve_right hctr, fun _ => hprev⟩

theorem loadInv_step (h : LoadInv c p s)
    (hi : i.command = c ∧ i.pmpConf = p) (hw : ¬ WrapsAtStart s i)
    (hb : ¬ BypassDecides s i) : LoadInv c p (step s i) := by
  refine ⟨held_step h.held hi.1, fun hc => ?_, fun hc => ?_⟩
  · rcases step_checkLoad hc with ⟨hidle, hs, hctr, -⟩ | ⟨hck, hne, heq⟩
    · have hl := h.held.latched (by rw [hidle]; decide) fun _ => hs
      refine Checked.start (hctr.trans hl.length) ?_
      rw [← hl.length]
      exact fun hlen => hw ⟨hidle, hs, hlen⟩
    · exact loadCheck_next h hi.2 hb hck hne heq
  · obtain ⟨hck, hend, hallow, hdata, -⟩ := step_load hc
    intro k hk
    exact (h.check hck).done hi.2 hend hallow hdata hk

/-- No transfer of another command is under way or about to start. -/
structure Ready (c : Command) (s : State) : Prop where
  idle : s.ctrl = .IDLE
  command : s.startD = 0#32 ∨ Latched c s

theorem ready_reset (c : Command) : Ready c reset := ⟨rfl, Or.inl rfl⟩

theorem Ready.loadInv (h : Ready c s) : LoadInv c p s := by
  have hi := h.idle
  have hheld : Held c s := by
    rcases h.command with h0 | hl
    · exact Or.inr (Or.inr ⟨hi, h0⟩)
    · exact Or.inl hl
  refine ⟨hheld, fun hc => ?_, fun hc => ?_⟩
  all_goals
    rw [hi] at hc
    exact Ctrl.noConfusion hc

/-- In a run with a constant command and a constant PMP configuration in
which no counter starts at its end value and no bypass decides, the load is
granted, and its flag raised, only if every source word may be read. -/
theorem load_grant (c : Command) (p : PmpConf) (s : State) (is : List In)
    (hs : Ready c s) (hc : ∀ i ∈ is, i.command = c ∧ i.pmpConf = p)
    (hok : Along step (fun s i => ¬ WrapsAtStart s i ∧ ¬ BypassDecides s i)
      s is) :
    let s' := run step s is
    s'.ctrl = .LOAD ∨ (∃ i, Raises 1 s' i) →
      ∀ k, k ≤ c.length.toNat →
        allowed p c.sourceBase ACCESS_READ k = true := by
  have hconst : Along step (fun _ i => i.command = c ∧ i.pmpConf = p) s is :=
    along_of_forall_mem hc
  have hinv : LoadInv c p (run step s is) :=
    (hok.and hconst).run_invariant
      (fun _ _ hR h => loadInv_step h hR.2 hR.1.1 hR.1.2) hs.loadInv
  intro s' h
  rcases h with h | ⟨i, hi⟩
  · exact hinv.load h
  · exact hinv.load (raises_load hi)

/-- A transfer from `0x1000` to `0x2000`. -/
def transfer (length : BitVec 32) : Command where
  start := 1#32
  length := length
  sourceAddrLsb := 0x1000#32
  sourceAddrMsb := 0#32
  destAddrLsb := 0x2000#32
  destAddrMsb := 0#32
  done := 0#32

/-- A cycle without a reset and an abort. -/
def during (c : Command) (p : PmpConf) (weFlag : Bool) : In :=
  ⟨true, c, p, weFlag, false⟩

theorem mem_replicate_during {n : Nat} {weFlag : Bool} :
    ∀ i ∈ List.replicate n (during c p weFlag),
      i.command = c ∧ i.pmpConf = p := by
  intro i hi
  rw [List.eq_of_mem_replicate hi]
  exact ⟨rfl, rfl⟩

/-- Entry 0 opens all memory below `2 ^ 57` for reading and writing. -/
def openMemory : PmpConf where
  cfg k := if k = 0 then 0x1F#8 else 0#8
  addr _ := BitVec.allOnes 54

theorem load_grant_openMemory :
    let c := transfer 1#32
    (run step reset (List.replicate 5 (during c openMemory false))).ctrl =
        .LOAD ∧
      ∀ k, k ≤ 1 → allowed openMemory c.sourceBase ACCESS_READ k = true := by
  intro c
  have hload : (run step reset
      (List.replicate 5 (during c openMemory false))).ctrl = .LOAD := by
    decide +kernel
  refine ⟨hload, ?_⟩
  exact load_grant c openMemory reset
    (List.replicate 5 (during c openMemory false)) (ready_reset c)
    mem_replicate_during (by decide +kernel) (Or.inl hload)

/-- Entry 0 opens one word at `addr` for reading. -/
def openWord (addr : BitVec 54) : PmpConf where
  cfg k := if k = 0 then 0x11#8 else 0#8
  addr _ := addr

/-- With `we_flag` a load of length three is granted although only its
first word may be read.  A load of the greatest length is granted although
no word of it may be read. -/
theorem load_granted_unread :
    let c := transfer 3#32
    let p := openWord 0x400#54
    let d := transfer CTR_END
    let q := openWord 0#54
    ((run step reset (List.replicate 7 (during c p true))).ctrl = .LOAD ∧
        allowed p c.sourceBase ACCESS_READ 1 = false) ∧
      (run step reset (List.replicate 3 (during d q false))).ctrl = .LOAD ∧
        allowed q d.sourceBase ACCESS_READ 0 = false := by
  decide +kernel

/-! ## The store -/

/-- The store check starts with its counter at the end value. -/
def StoreWraps (s : State) (_ : In) : Prop :=
  s.ctrl = .LOAD ∧ s.lengthD = CTR_END

/-- In the store check, the answer for a word replaces a denial that the
allow register holds for the word above it. -/
def LosesDenial (s : State) (i : In) : Prop :=
  s.ctrl = .CHECK_STORE ∧ s.pmpCheckCtr ≠ CTR_END ∧
    s.pmpCheckCtr.toNat + 2 ≤ s.lengthD.toNat ∧
    s.pmpAllow = false ∧ pmpDataAllow s i = true

instance (s : State) (i : In) : Decidable (StoreWraps s i) :=
  inferInstanceAs (Decidable (_ ∧ _))

instance (s : State) (i : In) : Decidable (LosesDenial s i) :=
  inferInstanceAs (Decidable (_ ∧ _ ∧ _ ∧ _ ∧ _))

/-- The store check was entered from a refused load check, whose counter
and verdict it still holds. -/
structure Refused (p : PmpConf) (s : State) : Prop where
  ctr : s.pmpCheckCtr = CTR_END
  denied : (s.pmpAllow && pmp p.addr p.cfg s.pmpAddr s.pmpAccessType
    PRIV_LVL_U) = false

/-- What the controller knows in the store phase. -/
structure StoreInv (p : PmpConf) (s : State) : Prop where
  check : s.ctrl = .CHECK_STORE →
    Checked p s.lengthD (destBase s) ACCESS_WRITE s ∨ Refused p s
  store : s.ctrl = .STORE → ∀ k, k ≤ s.lengthD.toNat →
    allowed p (destBase s) ACCESS_WRITE k = true

/-- A turn of the store check that loses no denial. -/
theorem storeCheck_next (h : StoreInv p s) (hp : i.pmpConf = p)
    (hl : ¬ LosesDenial s i) (hck : s.ctrl = .CHECK_STORE)
    (hne : s.pmpCheckCtr ≠ CTR_END) :
    Checked p s.lengthD (destBase s) ACCESS_WRITE (control s i) := by
  have hval := remaining_of_ne hne
  rcases h.check hck with hch | href
  · rw [control_checkStore hck hne]
    refine hch.next hp hne rfl rfl rfl fun hset hle => ⟨hset, fun hlt => ?_⟩
    by_contra hno
    rw [Bool.not_eq_true] at hno
    exact hl ⟨hck, hne, by omega, hno, hset⟩
  · exact absurd href.ctr hne

theorem storeInv_step (h : StoreInv p s) (hp : i.pmpConf = p)
    (hw : ¬ StoreWraps s i) (hl : ¬ LosesDenial s i) :
    StoreInv p (step s i) := by
  refine ⟨fun hc => ?_, fun hc => ?_⟩
  · rcases step_checkStore hc with
      ⟨hld, heq⟩ | ⟨hck, hend, hno, heq⟩ | ⟨hck, hne, heq⟩
    · left
      rw [heq]
      simp only [control, hld]
      exact Checked.start rfl fun hlen => hw ⟨hld, hlen⟩
    · right
      rw [heq]
      refine ⟨hend, ?_⟩
      rw [← hp]
      exact hno
    · left
      have hnext := storeCheck_next h hp hl hck hne
      rw [heq]
      rw [control_checkStore hck hne] at hnext ⊢
      exact hnext
  · obtain ⟨hck, hend, hallow, hdata, heq⟩ := step_store hc
    rw [heq]
    intro k hk
    rcases h.check hck with hch | href
    · exact hch.done hp hend hallow hdata hk
    · have hdenied := href.denied
      rw [← hp] at hdenied
      change (s.pmpAllow && pmpDataAllow s i) = false at hdenied
      rw [hallow, hdata] at hdenied
      exact Bool.noConfusion hdenied

theorem storeInv_idle (h : s.ctrl = .IDLE) : StoreInv p s := by
  refine ⟨fun hc => ?_, fun hc => ?_⟩
  all_goals
    rw [h] at hc
    exact Ctrl.noConfusion hc

/-- In a run with a constant PMP configuration, and any command, in which
no store check starts with its counter at the end value or loses a denial,
the store is granted, and its flag raised, only if every destination word
of the latched command may be written. -/
theorem store_grant (p : PmpConf) (s : State) (is : List In)
    (hs : s.ctrl = .IDLE) (hp : ∀ i ∈ is, i.pmpConf = p)
    (hok : Along step (fun s i => ¬ StoreWraps s i ∧ ¬ LosesDenial s i)
      s is) :
    let s' := run step s is
    s'.ctrl = .STORE ∨ (∃ i, Raises 2 s' i) →
      ∀ k, k ≤ s'.lengthD.toNat →
        allowed p (destBase s') ACCESS_WRITE k = true := by
  have hconst : Along step (fun _ i => i.pmpConf = p) s is :=
    along_of_forall_mem hp
  have hinv : StoreInv p (run step s is) :=
    (hok.and hconst).run_invariant
      (fun _ _ hR h => storeInv_step h hR.2 hR.1.1 hR.1.2) (storeInv_idle hs)
  intro s' h
  rcases h with h | ⟨i, hi⟩
  · exact hinv.store h
  · exact hinv.store (raises_store hi)

theorem store_grant_openMemory :
    let is := List.replicate 11 (during (transfer 2#32) openMemory false)
    let s' := run step reset is
    s'.ctrl = .STORE ∧
      ∀ k, k ≤ s'.lengthD.toNat →
        allowed openMemory (destBase s') ACCESS_WRITE k = true := by
  intro is s'
  have hstore : s'.ctrl = .STORE := by decide +kernel
  refine ⟨hstore, ?_⟩
  exact store_grant openMemory reset is rfl
    (fun i hi => (mem_replicate_during i hi).2) (by decide +kernel)
    (Or.inl hstore)

/-- Entry 0 opens the first two destination words for writing and entry 1
the source for reading. -/
def openPair : PmpConf where
  cfg k := if k = 0 then 0x1A#8 else if k = 1 then 0x19#8 else 0#8
  addr k := if k = 0 then 0x800#54 else 0x401#54

/-- A store of length two is granted although its last word may not be
written.  A store of the greatest length is granted although no word of it
may be written. -/
theorem store_granted_unwritable :
    let s := run step reset
      (List.replicate 11 (during (transfer 2#32) openPair false))
    let q := openWord 0#54
    let t := run step reset
      (List.replicate 5 (during (transfer CTR_END) q false))
    (s.ctrl = .STORE ∧ s.lengthD = 2#32 ∧
        allowed openPair (destBase s) ACCESS_WRITE 2 = false) ∧
      t.ctrl = .STORE ∧ allowed q (destBase t) ACCESS_WRITE 0 = false := by
  decide +kernel

end ArianeSoc.Dma
