import ArianeSoc.Periph.CryptoRegs

/-!
# The fuse memory behind the PKT wrapper

`pkt_wrapper.sv` with its instance of `pkt.sv`, connected to `fuse_mem.sv`
as in `riscv_peripherals.sv`.  Software writes an address and a request; the
fuse memory latches the address and returns the word.

The register lock keeps software from reading the returned word at word 4.
The words without an arm of their own return it too, unless the address is
at most 110.
-/

namespace ArianeSoc.Periph.Pkt

/-- As `riscv_peripherals.sv` sets it. -/
abbrev FUSE_MEM_SIZE : ℕ := 150

abbrev FuseMem : Type := Fin FUSE_MEM_SIZE → BitVec 32

/-- The registers of the wrapper, of `pkt` and of `fuse_mem`. -/
structure State where
  fuseReq : Bool
  fuseAddr : BitVec 32
  fuseIndxQ : BitVec 8
  addrQ : BitVec 8
  deriving DecidableEq, Repr

/-- The word of `fuse_mem` at the latched address. -/
def fuseRdata (mem : FuseMem) (s : State) : BitVec 32 :=
  if h : s.addrQ.toNat < FUSE_MEM_SIZE then mem ⟨s.addrQ.toNat, h⟩ else 0#32

/-- `pkey_loc_o`: where the key of a fuse word goes; `fuseIndxMem` is the
table of `pkt`. -/
def pkeyLoc (fuseIndxMem : Fin FUSE_MEM_SIZE → BitVec 64) (s : State) :
    BitVec 64 :=
  if h : s.fuseIndxQ.toNat < FUSE_MEM_SIZE then
    fuseIndxMem ⟨s.fuseIndxQ.toNat, h⟩
  else 0xffffffff#64

/-- The read process. -/
def rdata (fuseIndxMem : Fin FUSE_MEM_SIZE → BitVec 64) (mem : FuseMem)
    (s : State) (i : RegIn) : BitVec 64 :=
  if i.axi.en && i.acct then
    match i.axi.index 5 with
    | 0 => (BitVec.ofBool s.fuseReq).setWidth 64
    | 1 => s.fuseAddr.setWidth 64
    | 2 => i.gated 4 ((pkeyLoc fuseIndxMem s).extractLsb' 32 32)
    | 3 => i.gated 5 ((pkeyLoc fuseIndxMem s).extractLsb' 0 32)
    | 4 => i.gated 6 (fuseRdata mem s)
    | _ =>
      if s.fuseAddr ≤ 110#32 then 0#64 else (fuseRdata mem s).setWidth 64
  else 0#64

/-- One cycle.  `pkt` latches the address in every cycle, the fuse memory
while there is a request. -/
def step (s : State) (i : RegIn) : State where
  fuseReq :=
    if i.clear then false
    else if i.axi.en && i.acct && i.axi.we && i.axi.index 5 == 0 then
      i.axi.wdata.getLsbD 0
    else s.fuseReq
  fuseAddr :=
    if i.clear then 0#32
    else if i.axi.en && i.acct && i.axi.we && i.axi.index 5 == 1 then
      i.axi.wdata.setWidth 32
    else s.fuseAddr
  fuseIndxQ := s.fuseAddr.setWidth 8
  addrQ := if s.fuseReq then s.fuseAddr.setWidth 8 else s.addrQ

/-- What the reads of a run return. -/
def reads (fuseIndxMem : Fin FUSE_MEM_SIZE → BitVec 64) (mem : FuseMem) :
    State → List RegIn → List (BitVec 64) :=
  Sync.outputs step fun s i =>
    if i.reading then [rdata fuseIndxMem mem s i] else []

/-! ## The word that leaks -/

/-- A read of a word without an arm returns a word of the fuse memory. -/
def Leaks (s : State) (i : RegIn) : Prop :=
  i.reading = true ∧ i.acct = true ∧ 5 ≤ i.axi.index 5 ∧
    110#32 < s.fuseAddr ∧ s.addrQ.toNat < FUSE_MEM_SIZE

instance (s : State) (i : RegIn) : Decidable (Leaks s i) :=
  inferInstanceAs (Decidable (_ ∧ _ ∧ _ ∧ _ ∧ _))

variable {fuseIndxMem : Fin FUSE_MEM_SIZE → BitVec 64} {s : State} {i : RegIn}

/-- Behind the read lock only the words without an arm return a fuse. -/
theorem rdata_locked (mem : FuseMem) (hl : i.lock.getLsbD 6 = true)
    (hw : i.axi.index 5 < 5 ∨ s.fuseAddr ≤ 110#32) (mem' : FuseMem) :
    rdata fuseIndxMem mem s i = rdata fuseIndxMem mem' s i := by
  unfold rdata
  by_cases hen : (i.axi.en && i.acct) = true
  · rw [if_pos hen, if_pos hen]
    split
    case h_5 => rw [RegIn.gated, RegIn.gated, if_pos hl, if_pos hl]
    case h_6 h0 h1 h2 h3 h4 =>
      have hne : i.axi.index 5 ≠ 0 ∧ i.axi.index 5 ≠ 1 ∧
          i.axi.index 5 ≠ 2 ∧ i.axi.index 5 ≠ 3 ∧ i.axi.index 5 ≠ 4 :=
        ⟨h0, h1, h2, h3, h4⟩
      have ha : s.fuseAddr ≤ 110#32 := hw.resolve_left (by omega)
      rw [if_pos ha, if_pos ha]
    all_goals rfl
  · rw [if_neg hen, if_neg hen]

/-- A leaking read returns the word at the latched address. -/
theorem rdata_of_leaks (h : Leaks s i) (mem : FuseMem) :
    rdata fuseIndxMem mem s i =
      (mem ⟨s.addrQ.toNat, h.2.2.2.2⟩).setWidth 64 := by
  obtain ⟨hread, hacct, hword, haddr, hq⟩ := h
  rw [RegIn.reading, Bool.and_eq_true] at hread
  have ha : ¬ s.fuseAddr ≤ 110#32 := by
    rw [BitVec.not_le]
    exact haddr
  unfold rdata
  rw [if_pos (by rw [hread.1, hacct]; rfl)]
  split
  case h_6 => rw [if_neg ha, fuseRdata, dif_pos hq]
  all_goals omega

/-- A cycle returns the same for all fuse memories if and only if it does
not leak. -/
theorem read_agree_iff (hl : i.lock.getLsbD 6 = true) :
    (∀ mem mem' : FuseMem,
      (if i.reading then [rdata fuseIndxMem mem s i] else []) =
        if i.reading then [rdata fuseIndxMem mem' s i] else []) ↔
      ¬ Leaks s i := by
  constructor
  · intro h hleak
    have heq := h (fun _ => 0#32) (fun _ => 1#32)
    rw [if_pos hleak.1, if_pos hleak.1, List.singleton_inj,
      rdata_of_leaks hleak, rdata_of_leaks hleak] at heq
    exact absurd heq (by decide)
  · intro hno mem mem'
    by_cases hread : i.reading = true
    · rw [if_pos hread, if_pos hread, List.singleton_inj]
      by_cases hacct : i.acct = true
      · by_cases hw : i.axi.index 5 < 5 ∨ s.fuseAddr ≤ 110#32
        · exact rdata_locked mem hl hw mem'
        · rw [not_or, Nat.not_lt, BitVec.not_le] at hw
          have hq : ¬ s.addrQ.toNat < FUSE_MEM_SIZE := fun hq =>
            hno ⟨hread, hacct, hw.1, hw.2, hq⟩
          unfold rdata fuseRdata
          rw [dif_neg hq, dif_neg hq]
      · unfold rdata
        rw [if_neg (by simp [hacct]), if_neg (by simp [hacct])]
    · rw [if_neg hread, if_neg hread]

/-- While the read lock of the fuse data is set, the reads of a run are the
same for all fuse memories if and only if none of them leaks. -/
theorem fuse_secret_iff (fuseIndxMem : Fin FUSE_MEM_SIZE → BitVec 64)
    (s : State) (is : List RegIn)
    (h : ∀ i ∈ is, i.lock.getLsbD 6 = true) :
    (∀ mem mem' : FuseMem,
      reads fuseIndxMem mem s is = reads fuseIndxMem mem' s is) ↔
        Sync.Along step (fun s i => ¬ Leaks s i) s is := by
  have hlock : Sync.Along step (fun _ i => i.lock.getLsbD 6 = true) s is :=
    Sync.along_of_forall_mem (Q := fun i : RegIn => i.lock.getLsbD 6 = true) h
  rw [← hlock.congr_of fun s i hi => read_agree_iff hi]
  refine Sync.outputs_agree_iff (fun mem mem' s i => ?_) s is
  split_ifs <;> rfl

/-! ## Runs -/

/-- After a reset, with power-up values in the latches. -/
def reset : State := ⟨false, 0#32, 0#8, 0#8⟩

/-- Software asks for fuse word `a` and reads word `k`, with the read locks
set. -/
def ask (a k : BitVec 64) : List RegIn :=
  [regWrite 0x70#8 1#64 a, regWrite 0x70#8 0#64 1#64,
    regWrite 0x70#8 0#64 1#64, regRead 0x70#8 k]

theorem fuse_secret_iff_low :
    reads (fun _ => 0#64) (fun _ => 0#32) reset (ask 100#64 5#64) =
      reads (fun _ => 0#64) (fun _ => 7#32) reset (ask 100#64 5#64) :=
  (fuse_secret_iff (fun _ => 0#64) reset (ask 100#64 5#64)
    (by decide +kernel)).mpr (by decide +kernel) _ _

/-- With all read locks set, the word above returns fuse word 120. -/
theorem fuse_word_leaks :
    (∀ i ∈ ask 120#64 5#64, i.lock.getLsbD 4 = true ∧
      i.lock.getLsbD 5 = true ∧ i.lock.getLsbD 6 = true) ∧
    reads (fun _ => 0#64) (fun _ => 0#32) reset (ask 120#64 5#64) = [0#64] ∧
    reads (fun _ => 0#64) (fun _ => 7#32) reset (ask 120#64 5#64) =
      [7#64] := by
  decide +kernel

end ArianeSoc.Periph.Pkt
