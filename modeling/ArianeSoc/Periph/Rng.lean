import ArianeSoc.Lfsr
import ArianeSoc.Periph.CryptoRegs

/-!
# The random number generator

`rng_wrapper.sv` keeps the polynomials of the four shift registers of
`rng_top.v`, which software may write, and loads a seed in the cycle after a
reset and then every 4096 cycles.

* `always_alive_iff`: in a run without a reset whose seeds are not zero, a
  register never becomes zero exactly when it is never shifted from `1` with
  a polynomial that leaves out bit 0.
* `loads_of_not_debug`: outside debug mode the seeds of the three wider
  registers are not zero.
* `distinct_run`: with bit 0 in the polynomial, generators that differ in a
  register stay different.

The combination of the registers to a random number (`rng_cs.v`) and the read
process are left out.
-/

namespace ArianeSoc.Periph

/-! ## The registers of the wrapper -/

inductive RngReg
  | poly128 (k : Fin 4) | poly64 (k : Fin 2) | poly32Big | poly16Big
  deriving DecidableEq

abbrev rngWidth : RngReg → ℕ
  | .poly16Big => 16
  | _ => 32

abbrev rng : RegTable RngReg where
  width := rngWidth
  addrBits := 6
  word
    | .poly128 k => 7 - k
    | .poly64 k => 9 - k
    | .poly32Big => 10
    | .poly16Big => 11
  lo _ := 0
  lockBit _ := 5
  cleared _ := false
  locked s r := s r

namespace Rng

open Sync

/-! ## The shift registers -/

/-- The instances of `rng_top`. -/
inductive Source
  | RNG128 | RNG64 | RNG32 | RNG16
  deriving DecidableEq

/-- The highest bit of a register. -/
abbrev Source.msb : Source → ℕ
  | .RNG128 => 127
  | .RNG64 => 63
  | .RNG32 => 31
  | .RNG16 => 15

/-- The registers of `rng_128`, `rng_64`, `rng_32` and `rng_16`. -/
structure Entropy (n : ℕ) where
  entropy : BitVec (n + 1)
  valid : Bool

def Entropy.step {n : ℕ} (r : Entropy n) (rstN load : Bool)
    (seed poly : BitVec (n + 1)) : Entropy n :=
  if !rstN then ⟨0#(n + 1), false⟩
  else if load then ⟨seed, false⟩
  else ⟨Lfsr.shift poly r.entropy, true⟩

/-- The registers of `rng_wrapper` and `rng_top`; `seed` is a latch. -/
structure State where
  load : Bool
  loadCnt : BitVec 12
  seed : BitVec 128
  regs : rng.Regs
  seedCt : BitVec 2
  source : (k : Source) → Entropy k.msb

/-- The part of the seed for a register. -/
def seedOf (seed : BitVec 128) (seedCt : BitVec 2) :
    (k : Source) → BitVec (k.msb + 1)
  | .RNG128 => seed
  | .RNG64 => seed.extractLsb' (64 - 16 * seedCt.toNat) 64
  | .RNG32 => seed.extractLsb' (96 - 16 * seedCt.toNat) 32
  | .RNG16 => seed.extractLsb' (112 - 16 * seedCt.toNat) 16

/-- The polynomial of a register. -/
def polyOf (regs : rng.Regs) : (k : Source) → BitVec (k.msb + 1)
  | .RNG128 => concat 4 fun k => regs (.poly128 k)
  | .RNG64 => concat 2 fun k => regs (.poly64 k)
  | .RNG32 => regs .poly32Big
  | .RNG16 => regs .poly16Big

/-- The seed that is generated with a load. -/
def newSeed : BitVec 128 := 2#32 ++ 3#32 ++ 3#32 ++ 2#32

variable (s : State) (i : RegIn)

/-- `seed_big`. -/
def seedBig : BitVec 128 :=
  if s.load && !i.debugMode then newSeed else s.seed

/-- The write process takes no notice of the lock in debug mode. -/
def writeIn : RegIn :=
  { i with lock := if i.debugMode then 0#8 else i.lock }

/-- One cycle. -/
def step : State where
  load := i.clear || s.loadCnt == BitVec.allOnes 12
  loadCnt := if i.clear then 0#12 else s.loadCnt + 1#12
  seed := seedBig s i
  regs := rng.step s.regs (writeIn i)
  seedCt := if i.clear then 0#2 else s.seedCt + 1#2
  source k := (s.source k).step (!i.clear) s.load
    (seedOf (seedBig s i) s.seedCt k) (polyOf s.regs k)

/-! ## A register that is not zero -/

section Alive

variable (k : Source) (s : State) (i : RegIn)

/-- The register is not zero. -/
def Alive : Prop := (s.source k).entropy ≠ 0#(k.msb + 1)

instance : Decidable (Alive k s) := inferInstanceAs (Decidable (_ ≠ _))

/-- No reset, and no seed that is zero. -/
def Loads : Prop :=
  i.clear = false ∧
    (s.load = true → seedOf (seedBig s i) s.seedCt k ≠ 0#(k.msb + 1))

instance : Decidable (Loads k s i) := inferInstanceAs (Decidable (_ ∧ _))

/-- A shift from `1` without a tap at bit 0. -/
def Dies : Prop :=
  s.load = false ∧ (s.source k).entropy = 1#(k.msb + 1) ∧
    (polyOf s.regs k).getLsbD 0 = false

instance : Decidable (Dies k s) := inferInstanceAs (Decidable (_ ∧ _))

variable {k s i}

theorem entropy_step (hclear : i.clear = false) :
    ((step s i).source k).entropy =
      if s.load then seedOf (seedBig s i) s.seedCt k
      else Lfsr.shift (polyOf s.regs k) (s.source k).entropy := by
  show ((s.source k).step (!i.clear) s.load _ _).entropy = _
  rw [hclear, Entropy.step]
  cases s.load <;> rfl

/-- Exactly a shift that drops the only bit makes a register zero. -/
theorem alive_step (hl : Loads k s i) (h : Alive k s) :
    Alive k (step s i) ↔ ¬ Dies k s := by
  rw [Alive, entropy_step hl.1]
  cases hload : s.load with
  | true => simp [hl.2 hload, Dies, hload]
  | false =>
    have hzero := Lfsr.shift_eq_zero_iff (p := polyOf s.regs k)
      (x := (s.source k).entropy)
    rw [if_neg Bool.false_ne_true, Ne, hzero]
    refine not_congr ⟨fun hlost => ?_, fun hdies => Or.inr hdies.2⟩
    exact ⟨hload, hlost.resolve_left h⟩

end Alive

/-- From a value other than zero, and with such seeds only, a register stays
other than zero if and only if no shift drops its only bit. -/
theorem always_alive_iff (k : Source) (s : State) (is : List RegIn)
    (h : Alive k s) (hl : Along step (Loads k) s is) :
    Always step (Alive k) s is ↔
      Along step (fun t _ => ¬ Dies k t) s is :=
  hl.always_iff (fun _ _ ht halive => alive_step ht halive) h

/-- The generator in the cycle after a reset, with polynomials that are all
zero. -/
def afterReset : State :=
  ⟨true, 0#12, newSeed, fun _ => 0, 0#2, fun _ => ⟨0, false⟩⟩

/-- Two shifts after a load. -/
theorem always_alive_iff_seeded :
    let s := step afterReset (regWrite 0#8 10#64 0x80000001#64)
    let is := [regRead 0#8 0#64, regRead 0#8 0#64]
    Always step (Alive .RNG32) s is ↔
      Along step (fun t _ => ¬ Dies .RNG32 t) s is :=
  always_alive_iff .RNG32 _ _ (by decide +kernel) (by decide +kernel)

/-- With the polynomial of the fuse memory the 32-bit register is zero two
shifts after a load. -/
theorem not_alive_fuse :
    let s := step afterReset (regWrite 0#8 10#64 0#64)
    let is := [regRead 0#8 0#64, regRead 0#8 0#64]
    Alive .RNG32 s ∧ Along step (Loads .RNG32) s is ∧
      ¬ Always step (Alive .RNG32) s is := by
  refine ⟨by decide +kernel, by decide +kernel, fun h => ?_⟩
  exact absurd (h 2) (by decide +kernel)

/-! ## Polynomials with bit 0 -/

section Taps

variable {k : Source} {s t : State} {i : RegIn} {is : List RegIn}

/-- A register whose polynomial has bit 0 whenever it is shifted. -/
def Tapped (k : Source) (s : State) : Prop :=
  s.load = false → (polyOf s.regs k).getLsbD 0 = true

theorem not_dies_of_tapped (h : Tapped k s) : ¬ Dies k s :=
  fun hd => absurd ((h hd.1).symm.trans hd.2.2) (by decide)

/-- Outside debug mode no seed is zero, but for the 16-bit register, whose
part of the seed is the upper half of a small word. -/
theorem loads_of_not_debug (hk : k ≠ .RNG16) (hclear : i.clear = false)
    (hdebug : i.debugMode = false) : Loads k s i := by
  refine ⟨hclear, fun hload => ?_⟩
  have hseed : seedBig s i = newSeed := by
    rw [seedBig, hload, hdebug]
    rfl
  rw [hseed]
  generalize s.seedCt = ct
  revert ct
  cases k with
  | RNG128 => decide
  | RNG64 => decide
  | RNG32 => decide
  | RNG16 => exact absurd rfl hk

/-- Outside debug mode, a register whose polynomial has bit 0 stays other
than zero. -/
theorem alive_run (hk : k ≠ .RNG16) (h : Alive k s)
    (his : ∀ i ∈ is, i.clear = false ∧ i.debugMode = false)
    (htap : Along step (fun t _ => Tapped k t) s is) :
    Always step (Alive k) s is := by
  have hl : Along step (Loads k) s is :=
    (along_of_forall_mem his).mono fun _ _ hi =>
      loads_of_not_debug hk hi.1 hi.2
  exact (hl.and htap).always (fun _ _ ht halive =>
    (alive_step ht.1 halive).mpr (not_dies_of_tapped ht.2)) h

/-- Generators that differ in one register. -/
structure Distinct (k : Source) (s t : State) : Prop where
  load : s.load = t.load
  loadCnt : s.loadCnt = t.loadCnt
  regs : s.regs = t.regs
  ne : (s.source k).entropy ≠ (t.source k).entropy

theorem Distinct.step (h : Distinct k s t) (hclear : i.clear = false)
    (hload : s.load = false) (htap : Tapped k s) :
    Distinct k (Rng.step s i) (Rng.step t i) where
  load := by
    show (i.clear || s.loadCnt == _) = (i.clear || t.loadCnt == _)
    rw [h.loadCnt]
  loadCnt := by
    show (if i.clear then _ else s.loadCnt + 1#12) =
      if i.clear then _ else t.loadCnt + 1#12
    rw [h.loadCnt]
  regs := by
    show rng.step s.regs _ = rng.step t.regs _
    rw [h.regs]
  ne := by
    have hload' : t.load = false := h.load.symm.trans hload
    rw [entropy_step hclear, entropy_step hclear, hload, hload', ← h.regs]
    intro heq
    exact h.ne (Lfsr.shift_injective_iff.mpr (htap hload) heq)

/-- Shifts with bit 0 tapped lose nothing of the seed. -/
theorem distinct_run (h : Distinct k s t)
    (hrun : Along step (fun u i => i.clear = false ∧ u.load = false ∧
      Tapped k u) s is) :
    Distinct k (run step s is) (run step t is) := by
  have hstep : ∀ (u v : State) (i : RegIn),
      i.clear = false ∧ u.load = false ∧ Tapped k u →
        Distinct k u v → Distinct k (step u i) (step v i) :=
    fun _ _ _ hi hd => Distinct.step hd hi.1 hi.2.1 hi.2.2
  exact hrun.run_relates hstep h

end Taps

end Rng

end ArianeSoc.Periph
