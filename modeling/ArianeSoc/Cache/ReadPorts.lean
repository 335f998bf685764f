import ArianeSoc.Cache.Missunit

/-!
# The read ports of the data cache

The controllers of the read ports with the miss unit, as `wt_dcache.sv`
connects them.  What the cache memory and the write buffer say is an input
of each cycle.

`Inv` relates the states of the controllers to the MSHR: a controller awaits
a response if and only if the MSHR is its own, and a locked request is still
asked for.
-/

namespace ArianeSoc.Cache

open CommonCells

/-! ## The composition -/

structure ReadPorts (cfg : DcacheConfig) where
  ctrl : ℕ → Ctrl cfg
  miss : Missunit cfg

def ReadPorts.reset (cfg : DcacheConfig) : ReadPorts cfg where
  ctrl := fun _ => Ctrl.reset cfg
  miss := Missunit.reset cfg

/-- The inputs of a cycle: the requests of the core, the answers of the
cache memory, the port of the write buffer and the rest of what comes to the
miss unit. -/
structure PortsIn (cfg : DcacheConfig) where
  core : ℕ → CoreReq cfg
  mem : ℕ → Lookup cfg
  wr : MissPort cfg
  enable : Bool
  flush : Bool
  wbufferEmpty : Bool
  amoReq : AmoReq cfg
  backoffOver : Bool
  txPaddr : ℕ → Paddr cfg
  txVld : ℕ → Bool
  memRtrn : Option (MemRtrn cfg)
  memDataAck : Bool

namespace ReadPorts

variable {cfg : DcacheConfig} (s : ReadPorts cfg) (i : PortsIn cfg)

/-- The last port is the one of the write buffer and writes. -/
def missIn : MissIn cfg where
  enable := i.enable
  flush := i.flush
  wbufferEmpty := i.wbufferEmpty
  amoReq := i.amoReq
  backoffOver := i.backoffOver
  port := fun p =>
    if p < cfg.numPorts - 1 then (s.ctrl p).missPort s.miss.enable
    else { i.wr with we := true }
  txPaddr := i.txPaddr
  txVld := i.txVld
  memRtrn := i.memRtrn
  memDataAck := i.memDataAck

def ctrlIn (p : ℕ) : CtrlIn cfg where
  cacheEn := s.miss.enable
  core := i.core p
  missAck := s.miss.missAck (s.missIn i) p
  missReplay := s.miss.missReplay (s.missIn i) p
  missRtrnVld := s.miss.missRtrnVld (s.missIn i) p
  wrClVld := s.miss.wrClVld (s.missIn i)
  mem := i.mem p

/-- What the controller of a port decides. -/
def out (p : ℕ) : Ctrl.Out := (s.ctrl p).fsm (s.ctrlIn i p)

def step : ReadPorts cfg where
  ctrl := fun p => (s.ctrl p).step (s.ctrlIn i p)
  miss := s.miss.step (s.missIn i)

/-! ## The controllers and the MSHR -/

/-- What every cycle keeps. -/
structure Inv : Prop where
  waits : ∀ p, p < cfg.numPorts - 1 → (Ctrl.Waits (s.ctrl p).state ↔
    s.miss.mshrVld = true ∧ s.miss.mshr.missPortIdx = p)
  reader : s.miss.mshrVld = true → s.miss.mshr.missPortIdx < cfg.numPorts - 1
  /-- a locked read is still asked for -/
  load : s.miss.state = .LOAD_WAIT → s.miss.mshrVld = false ∧
    lzc cfg.numPorts s.miss.missReqMasked < cfg.numPorts - 1 ∧
    (s.ctrl (lzc cfg.numPorts s.miss.missReqMasked)).missReqO = true
  store : s.miss.state = .STORE_WAIT →
    lzc cfg.numPorts s.miss.missReqMasked = cfg.numPorts - 1

theorem inv_reset (cfg : DcacheConfig) : (reset cfg).Inv where
  waits p _ := by simp [reset, Ctrl.reset, Missunit.reset, Ctrl.Waits]
  reader h := absurd h Bool.false_ne_true
  load h := absurd h nofun
  store h := absurd h nofun

variable {s i}

/-- The read ports only read. -/
theorem missIn_reader {p : ℕ} (hp : p < cfg.numPorts - 1) :
    (s.missIn i).port p = (s.ctrl p).missPort s.miss.enable := if_pos hp

theorem missIn_writer {p : ℕ} (hp : ¬p < cfg.numPorts - 1) :
    ((s.missIn i).port p).we = true := by
  show (if p < cfg.numPorts - 1 then (s.ctrl p).missPort s.miss.enable
    else { i.wr with we := true }).we = true
  rw [if_neg hp]

/-- A port that is served and does not write is a read port that asks. -/
theorem sel_reader (hany : s.miss.anyMissReq (s.missIn i) = true)
    (hlock : s.miss.lockReqs = false)
    (hwe : (s.miss.sel (s.missIn i)).we = false) :
    s.miss.missPortIdx (s.missIn i) < cfg.numPorts - 1 ∧
      (s.ctrl (s.miss.missPortIdx (s.missIn i))).missReqO = true ∧
      s.miss.mshrVld = false := by
  have hp : s.miss.missPortIdx (s.missIn i) < cfg.numPorts - 1 := by
    by_contra hp
    rw [Missunit.sel, missIn_writer hp] at hwe
    exact absurd hwe (by decide)
  obtain ⟨-, hreq⟩ := Missunit.missPortIdx_spec hany
  rw [Missunit.missReqMaskedD, hlock, if_neg Bool.false_ne_true] at hreq
  rw [Missunit.sel] at hwe
  split_ifs at hreq with hmask
  · rw [hwe, Bool.false_and] at hreq
    exact absurd hreq Bool.false_ne_true
  · refine ⟨hp, ?_, ?_⟩
    · rw [missIn_reader hp] at hreq
      exact hreq
    · rw [Missunit.maskReads, Bool.or_eq_true, not_or] at hmask
      simpa using hmask.1

/-- A port that is served and writes is the last one. -/
theorem sel_writer (hany : s.miss.anyMissReq (s.missIn i) = true)
    (hwe : (s.miss.sel (s.missIn i)).we = true) :
    s.miss.missPortIdx (s.missIn i) = cfg.numPorts - 1 := by
  obtain ⟨hlt, -⟩ := Missunit.missPortIdx_spec hany
  have hp : ¬s.miss.missPortIdx (s.missIn i) < cfg.numPorts - 1 := by
    intro hp
    rw [Missunit.sel, missIn_reader hp] at hwe
    exact absurd hwe Bool.false_ne_true
  omega

/-- A locked arbitration stays. -/
theorem missPortIdx_locked (hlock : s.miss.lockReqs = true) :
    s.miss.missPortIdx (s.missIn i) =
      lzc cfg.numPorts s.miss.missReqMasked := by
  rw [Missunit.missPortIdx]
  congr 1
  funext p
  rw [Missunit.missReqMaskedD, if_pos hlock]

/-- A request is not acknowledged and replayed in one cycle. -/
theorem not_both (p : ℕ) : ¬((s.ctrlIn i p).missAck = true ∧
    (s.ctrlIn i p).missReplay = true) := by
  rintro ⟨hack, hreplay⟩
  have hreq : (s.miss.fsm (s.missIn i)).memDataReq = true := by
    have := hack
    simp only [ctrlIn, Missunit.missAck, Bool.and_eq_true] at this
    exact this.2
  have hrep : (s.miss.fsm (s.missIn i)).missReplay = true := by
    have := hreplay
    simp only [ctrlIn, Missunit.missReplay, Bool.and_eq_true] at this
    exact this.2
  have hamo : s.miss.amoSel = false := by
    have := hack
    simp only [ctrlIn, Missunit.missAck, Bool.and_eq_true,
      Bool.not_eq_true'] at this
    exact this.1.1.1
  rcases Missunit.fsm_cases (s := s.miss) (i := s.missIn i) with
    hq | ⟨-, hr⟩ | ⟨-, hw, -⟩ | ⟨hst, -⟩
  · rw [hq.req] at hreq
    exact Bool.false_ne_true hreq
  · rw [hr.replay] at hrep
    exact Bool.false_ne_true hrep
  · rw [hw.replay] at hrep
    exact Bool.false_ne_true hrep
  · simp [Missunit.amoSel, hst] at hamo

/-- The response to a read is for the port that has the MSHR. -/
theorem missRtrnVld_reader {p : ℕ} (hp : p < cfg.numPorts - 1) :
    (s.ctrlIn i p).missRtrnVld = true ↔
      s.miss.loadAck (s.missIn i) = true ∧ s.miss.mshr.missPortIdx = p := by
  have hne : p ≠ cfg.numPorts - 1 := by omega
  show s.miss.missRtrnVld (s.missIn i) p = true ↔ _
  rw [Missunit.missRtrnVld, beq_false_of_ne hne, Bool.and_false,
    Bool.or_false, Bool.and_eq_true, beq_iff_eq]
  exact and_congr Iff.rfl eq_comm

section Cycle

variable (h : s.Inv)
include h

/-- A read that is sent is one that a controller asks for, while the MSHR
is free. -/
theorem Inv.reads (hr : s.miss.state = .LOAD_WAIT ∨
      Missunit.ReadFree s.miss (s.missIn i)) :
    s.miss.missPortIdx (s.missIn i) < cfg.numPorts - 1 ∧
      (s.ctrl (s.miss.missPortIdx (s.missIn i))).missReqO = true ∧
      s.miss.mshrVld = false := by
  rcases hr with hst | hfree
  · have hlock : s.miss.lockReqs = true := by simp [Missunit.lockReqs, hst]
    obtain ⟨hvld, hlt, hreq⟩ := h.load hst
    rw [missPortIdx_locked hlock]
    exact ⟨hlt, hreq, hvld⟩
  · exact sel_reader hfree.req (by simp [Missunit.lockReqs, hfree.idle])
      hfree.read

/-- So is one that gets the MSHR. -/
theorem Inv.reads_of_alloc
    (halloc : (s.miss.fsm (s.missIn i)).mshrAllocate = true) :
    s.miss.missPortIdx (s.missIn i) < cfg.numPorts - 1 ∧
      (s.ctrl (s.miss.missPortIdx (s.missIn i))).missReqO = true ∧
      s.miss.mshrVld = false := by
  rcases Missunit.fsm_cases (s := s.miss) (i := s.missIn i) with
    hq | ⟨hfrom, -⟩ | ⟨-, hw, -⟩ | ⟨-, -, hno, -⟩
  · exact absurd halloc (by simp [hq.alloc])
  · exact h.reads hfrom
  · exact absurd halloc (by simp [hw.alloc])
  · exact absurd halloc (by simp [hno])

/-- A write that is sent is that of the last port. -/
theorem Inv.writes (hw : s.miss.state = .STORE_WAIT ∨
      Missunit.WriteFree s.miss (s.missIn i)) :
    s.miss.missPortIdx (s.missIn i) = cfg.numPorts - 1 := by
  rcases hw with hst | ⟨hany, -, hst | ⟨-, hwe⟩⟩
  · have hlock : s.miss.lockReqs = true := by simp [Missunit.lockReqs, hst]
    rw [missPortIdx_locked hlock, h.store hst]
  · obtain ⟨hlt, hreq⟩ := Missunit.missPortIdx_spec hany
    rw [Missunit.missReqMaskedD] at hreq
    simp only [Missunit.lockReqs, Missunit.maskReads, hst] at hreq
    refine sel_writer hany ?_
    simpa [Missunit.sel] using (by simpa using hreq :
      ((s.missIn i).port (s.miss.missPortIdx (s.missIn i))).we = true ∧
        ((s.missIn i).port (s.miss.missPortIdx (s.missIn i))).req = true).1
  · exact sel_writer hany hwe

/-- A read port is acknowledged when it gets the MSHR. -/
theorem Inv.missAck_iff {p : ℕ} (hp : p < cfg.numPorts - 1) :
    s.miss.missAck (s.missIn i) p = true ↔
      (s.miss.fsm (s.missIn i)).mshrAllocate = true ∧
        p = s.miss.missPortIdx (s.missIn i) := by
  rw [Missunit.missAck]
  rcases Missunit.fsm_cases (s := s.miss) (i := s.missIn i) with
    hq | ⟨hfrom, hr⟩ | ⟨hfrom, hw, -⟩ | ⟨hamo, -, halloc, -⟩
  · simp [hq.req, hq.alloc]
  · have hsel : s.miss.amoSel = false := by
      rcases hfrom with hst | hfree
      · simp [Missunit.amoSel, hst]
      · simp [Missunit.amoSel, hfree.idle]
    simp only [hsel, hr.req, hr.alloc]
    simp [and_comm]
  · have hidx := h.writes hfrom
    have hne : p ≠ s.miss.missPortIdx (s.missIn i) := by omega
    simp [hw.alloc, hne]
  · simp [Missunit.amoSel, hamo, halloc]

theorem Inv.waits_step {p : ℕ} (hp : p < cfg.numPorts - 1) :
    Ctrl.Waits ((s.step i).ctrl p).state ↔
      (s.step i).miss.mshrVld = true ∧
        (s.step i).miss.mshr.missPortIdx = p := by
  show Ctrl.Waits ((s.ctrl p).fsm (s.ctrlIn i p)).stateD ↔
    (if (s.miss.fsm (s.missIn i)).mshrAllocate then true
      else if s.miss.loadAck (s.missIn i) then false
      else s.miss.mshrVld) = true ∧
    (s.miss.mshrD (s.missIn i)).missPortIdx = p
  have hack : (s.ctrlIn i p).missAck = true ↔ _ := h.missAck_iff hp
  rw [Ctrl.waits_step (not_both p), hack, Missunit.mshrD, h.waits p hp]
  cases halloc : (s.miss.fsm (s.missIn i)).mshrAllocate with
  | true =>
    obtain ⟨-, hreq, hfree⟩ := h.reads_of_alloc halloc
    constructor
    · rintro (⟨-, -, hidx⟩ | ⟨⟨hvld, -⟩, -⟩)
      · exact ⟨rfl, hidx.symm⟩
      · rw [hfree] at hvld
        exact absurd hvld Bool.false_ne_true
    · rintro ⟨-, hidx⟩
      have hidx' : s.miss.missPortIdx (s.missIn i) = p := hidx
      exact Or.inl ⟨by rw [← hidx']; exact hreq, rfl, hidx'.symm⟩
  | false =>
    rw [← Bool.not_eq_true, missRtrnVld_reader hp]
    cases hload : s.miss.loadAck (s.missIn i) with
    | true => simp +contextual
    | false => simp

theorem Inv.load_step (hst : (s.step i).miss.state = .LOAD_WAIT) :
    (s.step i).miss.mshrVld = false ∧
      s.miss.missPortIdx (s.missIn i) < cfg.numPorts - 1 ∧
      ((s.step i).ctrl (s.miss.missPortIdx (s.missIn i))).missReqO =
        true := by
  have hst' : (s.miss.fsm (s.missIn i)).stateD = .LOAD_WAIT := hst
  rcases Missunit.fsm_cases (s := s.miss) (i := s.missIn i) with
    hq | ⟨hfrom, hr⟩ | ⟨-, hw, -⟩ | ⟨-, -, -, hno, -⟩
  · exact absurd hst' hq.load
  · have hack : i.memDataAck = false := by
      have hnext := hr.next
      rw [hst'] at hnext
      by_contra htrue
      rw [Bool.not_eq_false] at htrue
      rw [show (s.missIn i).memDataAck = true from htrue] at hnext
      exact absurd hnext nofun
    obtain ⟨hp, hreq, hfree⟩ := h.reads hfrom
    refine ⟨?_, hp, Ctrl.missReqO_step hreq ?_ ?_⟩
    · show (if (s.miss.fsm (s.missIn i)).mshrAllocate then true
        else if s.miss.loadAck (s.missIn i) then false
        else s.miss.mshrVld) = false
      rw [hr.alloc, show (s.missIn i).memDataAck = false from hack, hfree]
      simp
    · show s.miss.missAck (s.missIn i) _ = false
      rw [Missunit.missAck, show (s.missIn i).memDataAck = false from hack]
      simp
    · show s.miss.missReplay (s.missIn i) _ = false
      rw [Missunit.missReplay, hr.replay, Bool.and_false]
  · exact absurd hst' hw.next
  · exact absurd hst' hno

/-- Every cycle keeps the invariant. -/
theorem Inv.step : (s.step i).Inv where
  waits _ hp := h.waits_step hp
  reader hvld := by
    show (s.miss.mshrD (s.missIn i)).missPortIdx < cfg.numPorts - 1
    rw [Missunit.mshrD]
    split_ifs with halloc
    · exact (h.reads_of_alloc halloc).1
    · have hvld' : (if (s.miss.fsm (s.missIn i)).mshrAllocate then true
        else if s.miss.loadAck (s.missIn i) then false
        else s.miss.mshrVld) = true := hvld
      rw [if_neg halloc] at hvld'
      split_ifs at hvld'
      exact h.reader hvld'
  load hst := h.load_step hst
  store hst := by
    have hst' : (s.miss.fsm (s.missIn i)).stateD = .STORE_WAIT := hst
    show s.miss.missPortIdx (s.missIn i) = cfg.numPorts - 1
    rcases Missunit.fsm_cases (s := s.miss) (i := s.missIn i) with
      hq | ⟨-, hr⟩ | ⟨hfrom, -⟩ | ⟨-, -, -, -, hno⟩
    · exact absurd hst' hq.store
    · rw [hr.next] at hst'
      split_ifs at hst'
    · exact h.writes hfrom
    · exact absurd hst' hno

end Cycle

end ReadPorts

end ArianeSoc.Cache
