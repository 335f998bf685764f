import ArianeSoc.GrayCode
import ArianeSoc.Sync
import Mathlib.Logic.Function.Basic

/-!
# The asynchronous FIFO

`async_fifo.v` with `ASIZE = n + 3` and `MEMSIZE = 2 ^ (n + 2)`.  A step is
an edge of the read clock, of the write clock or of both; a synchronizer
that samples a pointer in the step in which it changes sees each bit old or
new, as a mask of the inputs says.

`Exact` says what a reader and a writer may rely on: what has been read is
what has been written, in order, and the rest lies in the memory.
-/

namespace ArianeSoc.Common

/-- The registers and the memory. -/
structure AsyncFifo (n : ℕ) (α : Type) where
  gWptr : BitVec (n + 3)
  gRptr : BitVec (n + 3)
  gRsync1 : BitVec (n + 3)
  gRsync2 : BitVec (n + 3)
  gWsync1 : BitVec (n + 3)
  gWsync2 : BitVec (n + 3)
  fifo : BitVec (n + 2) → α

namespace AsyncFifo

variable {n : ℕ} {α : Type}

/-- The inputs of a step, with the clocks that have an edge and the bits
that the synchronizers see old. -/
structure In (n : ℕ) (α : Type) where
  wclk : Bool
  rclk : Bool
  wreset : Bool
  rreset : Bool
  wval : Bool
  wdata : α
  ren : Bool
  wmask : BitVec (n + 3)
  rmask : BitVec (n + 3)

variable (q : AsyncFifo n α) (i : In n α)

def bWptr : BitVec (n + 3) := Gray.decode q.gWptr

def bRptr : BitVec (n + 3) := Gray.decode q.gRptr

def gWptrNext : BitVec (n + 3) := Gray.encode (q.bWptr + 1#(n + 3))

def gRptrNext : BitVec (n + 3) := Gray.encode (q.bRptr + 1#(n + 3))

/-- The pointers differ in their two highest bits only. -/
def wfull : Bool :=
  (q.gWptr.getLsbD (n + 2) != q.gRsync2.getLsbD (n + 2) &&
      q.gWptr.getLsbD (n + 1) != q.gRsync2.getLsbD (n + 1) &&
      q.gWptr.setWidth (n + 1) = q.gRsync2.setWidth (n + 1)) ||
    (i.wreset || i.rreset)

def rempty : Bool := q.gWsync2 = q.gRptr || (i.wreset || i.rreset)

/-- The address of a pointer in the memory. -/
def addr (b : BitVec (n + 3)) : BitVec (n + 2) := b.setWidth (n + 2)

def rdata : α := q.fifo (addr q.bRptr)

/-- A word is written in this step. -/
def writes : Bool := i.wclk && !i.wreset && (i.wval && !q.wfull i)

/-- A word is read in this step. -/
def reads : Bool := i.rclk && !i.rreset && (i.ren && !q.rempty i)

def gWptrStep : BitVec (n + 3) :=
  if i.wclk && i.wreset then 0
  else if q.writes i then q.gWptrNext
  else q.gWptr

def gRptrStep : BitVec (n + 3) :=
  if i.rclk && i.rreset then 0
  else if q.reads i then q.gRptrNext
  else q.gRptr

def step : AsyncFifo n α where
  gWptr := q.gWptrStep i
  gRptr := q.gRptrStep i
  gRsync1 :=
    if i.wclk then Gray.mix i.rmask q.gRptr (q.gRptrStep i) else q.gRsync1
  gRsync2 := if i.wclk then q.gRsync1 else q.gRsync2
  gWsync1 :=
    if i.rclk then Gray.mix i.wmask q.gWptr (q.gWptrStep i) else q.gWsync1
  gWsync2 := if i.rclk then q.gWsync1 else q.gWsync2
  fifo :=
    if q.writes i then Function.update q.fifo (addr q.bWptr) i.wdata
    else q.fifo

/-! ## Reset -/

/-- Both sides are reset. -/
def In.InReset (i : In n α) : Prop := i.wreset = true ∧ i.rreset = true

/-- Both clocks have an edge in these steps. -/
def Clocked (is : List (In n α)) : Prop :=
  (∃ i ∈ is, i.wclk = true) ∧ ∃ i ∈ is, i.rclk = true

/-- Both sides are reset for enough clocks: three times a clock each, for
the pointers and for the two stages of the synchronizers. -/
def Resets (is : List (In n α)) : Prop :=
  (∀ i ∈ is, i.InReset) ∧
    ∃ is₁ is₂ is₃, is = is₁ ++ is₂ ++ is₃ ∧ Clocked is₁ ∧ Clocked is₂ ∧
      Clocked is₃

/-- All pointers and copies are 0. -/
structure Clear (q : AsyncFifo n α) : Prop where
  gWptr : q.gWptr = 0
  gRptr : q.gRptr = 0
  gRsync1 : q.gRsync1 = 0
  gRsync2 : q.gRsync2 = 0
  gWsync1 : q.gWsync1 = 0
  gWsync2 : q.gWsync2 = 0

variable {q : AsyncFifo n α} {i : In n α}

/-- While a side is reset, both are told to wait. -/
theorem idle_of_reset (h : (i.wreset || i.rreset) = true) :
    q.writes i = false ∧ q.reads i = false := by
  unfold writes reads wfull rempty
  rw [h]
  simp

theorem gWptr_reset (h : (i.wreset || i.rreset) = true) :
    (q.step i).gWptr = if i.wclk && i.wreset then 0 else q.gWptr := by
  show q.gWptrStep i = _
  unfold gWptrStep
  rw [(idle_of_reset h).1]
  rfl

theorem gRptr_reset (h : (i.wreset || i.rreset) = true) :
    (q.step i).gRptr = if i.rclk && i.rreset then 0 else q.gRptr := by
  show q.gRptrStep i = _
  unfold gRptrStep
  rw [(idle_of_reset h).2]
  rfl

/-- While a side is reset, a cleared FIFO stays as it is. -/
theorem Clear.step (hq : Clear q) (h : (i.wreset || i.rreset) = true) :
    Clear (q.step i) := by
  have hw : q.gWptrStep i = 0 := by
    rw [show q.gWptrStep i = _ from gWptr_reset h, hq.gWptr, ite_self]
  have hr : q.gRptrStep i = 0 := by
    rw [show q.gRptrStep i = _ from gRptr_reset h, hq.gRptr, ite_self]
  refine ⟨hw, hr, ?_, ?_, ?_, ?_⟩
  · show (if i.wclk then Gray.mix i.rmask q.gRptr (q.gRptrStep i)
      else q.gRsync1) = 0
    rw [hq.gRptr, hr, Gray.mix_self, hq.gRsync1, ite_self]
  · show (if i.wclk then q.gRsync1 else q.gRsync2) = 0
    rw [hq.gRsync1, hq.gRsync2, ite_self]
  · show (if i.rclk then Gray.mix i.wmask q.gWptr (q.gWptrStep i)
      else q.gWsync1) = 0
    rw [hq.gWptr, hw, Gray.mix_self, hq.gWsync1, ite_self]
  · show (if i.rclk then q.gWsync1 else q.gWsync2) = 0
    rw [hq.gWsync1, hq.gWsync2, ite_self]

/-- The pointers are 0, and with them what is sampled of them. -/
def PointersClear (q : AsyncFifo n α) : Prop := q.gWptr = 0 ∧ q.gRptr = 0

/-- The first stages of the synchronizers are 0, too. -/
def FirstClear (q : AsyncFifo n α) : Prop :=
  PointersClear q ∧ q.gWsync1 = 0 ∧ q.gRsync1 = 0

theorem In.InReset.either (h : i.InReset) :
    (i.wreset || i.rreset) = true := by
  rw [h.1]
  rfl

theorem PointersClear.step (h : PointersClear q) (hi : i.InReset) :
    PointersClear (q.step i) := by
  refine ⟨?_, ?_⟩
  · rw [gWptr_reset hi.either, h.1, ite_self]
  · rw [gRptr_reset hi.either, h.2, ite_self]

/-- What is sampled of a pointer that is 0 and stays 0. -/
theorem PointersClear.sync1 (h : PointersClear q) (hi : i.InReset) :
    (q.step i).gWsync1 = (if i.rclk then 0 else q.gWsync1) ∧
      (q.step i).gRsync1 = (if i.wclk then 0 else q.gRsync1) := by
  have hnext := h.step hi
  constructor
  · show (if i.rclk then Gray.mix i.wmask q.gWptr (q.gWptrStep i)
      else q.gWsync1) = _
    rw [h.1, show q.gWptrStep i = 0 from hnext.1, Gray.mix_self]
  · show (if i.wclk then Gray.mix i.rmask q.gRptr (q.gRptrStep i)
      else q.gRsync1) = _
    rw [h.2, show q.gRptrStep i = 0 from hnext.2, Gray.mix_self]

theorem FirstClear.step (h : FirstClear q) (hi : i.InReset) :
    FirstClear (q.step i) := by
  obtain ⟨hw, hr⟩ := h.1.sync1 hi
  refine ⟨h.1.step hi, ?_, ?_⟩
  · rw [hw, h.2.1, ite_self]
  · rw [hr, h.2.2, ite_self]

theorem pointersClear_run {is : List (In n α)} (hc : Clocked is)
    (hi : ∀ i ∈ is, i.InReset) (q : AsyncFifo n α) :
    PointersClear (Sync.run step q is) := by
  obtain ⟨⟨iw, hiw, hw⟩, ir, hir, hr⟩ := hc
  constructor
  · refine Sync.run_established (P := fun q : AsyncFifo n α => q.gWptr = 0)
      (Q := fun _ => True) (fun _ _ _ _ => trivial) (fun s j hj _ hs => ?_)
      ⟨iw, hiw, fun s _ => ?_⟩ trivial
    · rw [gWptr_reset (hi j hj).either, hs, ite_self]
    · rw [gWptr_reset (hi iw hiw).either, hw, (hi iw hiw).1]
      rfl
  · refine Sync.run_established (P := fun q : AsyncFifo n α => q.gRptr = 0)
      (Q := fun _ => True) (fun _ _ _ _ => trivial) (fun s j hj _ hs => ?_)
      ⟨ir, hir, fun s _ => ?_⟩ trivial
    · rw [gRptr_reset (hi j hj).either, hs, ite_self]
    · rw [gRptr_reset (hi ir hir).either, hr, (hi ir hir).2]
      rfl

theorem firstClear_run {is : List (In n α)} (hc : Clocked is)
    (hi : ∀ i ∈ is, i.InReset) (hq : PointersClear q) :
    FirstClear (Sync.run step q is) := by
  obtain ⟨⟨iw, hiw, hw⟩, ir, hir, hr⟩ := hc
  have hkeep : ∀ s, ∀ j ∈ is, PointersClear s →
      PointersClear (AsyncFifo.step s j) := fun s j hj hs => hs.step (hi j hj)
  refine ⟨?_, ?_, ?_⟩
  · exact Sync.run_established (P := PointersClear) (Q := PointersClear)
      hkeep (fun s j hj _ hs => hs.step (hi j hj))
      ⟨iw, hiw, fun s hs => hs.step (hi iw hiw)⟩ hq
  · refine Sync.run_established (P := fun q : AsyncFifo n α => q.gWsync1 = 0) hkeep
      (fun s j hj hc hs => ?_) ⟨ir, hir, fun s hc => ?_⟩ hq
    · rw [(hc.sync1 (hi j hj)).1, hs, ite_self]
    · rw [(hc.sync1 (hi ir hir)).1, if_pos hr]
  · refine Sync.run_established (P := fun q : AsyncFifo n α => q.gRsync1 = 0) hkeep
      (fun s j hj hc hs => ?_) ⟨iw, hiw, fun s hc => ?_⟩ hq
    · rw [(hc.sync1 (hi j hj)).2, hs, ite_self]
    · rw [(hc.sync1 (hi iw hiw)).2, if_pos hw]

theorem clear_run {is : List (In n α)} (hc : Clocked is)
    (hi : ∀ i ∈ is, i.InReset) (hq : FirstClear q) :
    Clear (Sync.run step q is) := by
  obtain ⟨⟨iw, hiw, hw⟩, ir, hir, hr⟩ := hc
  have hkeep : ∀ s, ∀ j ∈ is, FirstClear s →
      FirstClear (AsyncFifo.step s j) := fun s j hj hs => hs.step (hi j hj)
  have hfirst : FirstClear (Sync.run step q is) :=
    Sync.run_established (P := FirstClear) (Q := FirstClear) hkeep
      (fun s j hj _ hs => hs.step (hi j hj))
      ⟨iw, hiw, fun s hs => hs.step (hi iw hiw)⟩ hq
  refine ⟨hfirst.1.1, hfirst.1.2, hfirst.2.2, ?_, hfirst.2.1, ?_⟩
  · refine Sync.run_established (P := fun q : AsyncFifo n α => q.gRsync2 = 0) hkeep
      (fun s j hj hc hs => ?_) ⟨iw, hiw, fun s hc => ?_⟩ hq
    · show (if j.wclk then s.gRsync1 else s.gRsync2) = 0
      rw [hc.2.2, hs, ite_self]
    · show (if iw.wclk then s.gRsync1 else s.gRsync2) = 0
      rw [if_pos hw, hc.2.2]
  · refine Sync.run_established (P := fun q : AsyncFifo n α => q.gWsync2 = 0) hkeep
      (fun s j hj hc hs => ?_) ⟨ir, hir, fun s hc => ?_⟩ hq
    · show (if j.rclk then s.gWsync1 else s.gWsync2) = 0
      rw [hc.2.1, hs, ite_self]
    · show (if ir.rclk then s.gWsync1 else s.gWsync2) = 0
      rw [if_pos hr, hc.2.1]

/-- A reset for enough clocks clears the FIFO, whatever it was before. -/
theorem clear_of_resets {is : List (In n α)} (h : Resets is)
    (q : AsyncFifo n α) : Clear (Sync.run step q is) := by
  obtain ⟨hi, is₁, is₂, is₃, rfl, hc₁, hc₂, hc₃⟩ := h
  have hi₁ : ∀ i ∈ is₁, i.InReset := fun i him =>
    hi i (List.mem_append_left _ (List.mem_append_left _ him))
  have hi₂ : ∀ i ∈ is₂, i.InReset := fun i him =>
    hi i (List.mem_append_left _ (List.mem_append_right _ him))
  have hi₃ : ∀ i ∈ is₃, i.InReset := fun i him =>
    hi i (List.mem_append_right _ him)
  rw [Sync.run_append, Sync.run_append]
  exact clear_run hc₃ hi₃
    (firstClear_run hc₂ hi₂ (pointersClear_run hc₁ hi₁ q))

/-! ## Words -/

/-- The FIFO with what has been written and read so far. -/
structure Track (n : ℕ) (α : Type) where
  fifo : AsyncFifo n α
  written : List α
  read : List α

def Track.start (q : AsyncFifo n α) : Track n α := ⟨q, [], []⟩

def Track.step (t : Track n α) (i : In n α) : Track n α where
  fifo := t.fifo.step i
  written := t.written ++ if t.fifo.writes i then [i.wdata] else []
  read := t.read ++ if t.fifo.reads i then [t.fifo.rdata] else []

/-- No side is reset. -/
def In.Works (i : In n α) : Prop := i.wreset = false ∧ i.rreset = false

/-- What has been read is what was written first, what has not been read
lies in the memory, and after two steps of one clock alone its side sees
all that the other side has done. -/
structure Exact (t : Track n α) : Prop where
  unread : ∃ words, t.written = t.read ++ words ∧
    words.length ≤ 2 ^ (n + 2) ∧
      ∀ j x, words[j]? = some x →
        t.fifo.fifo (addr (t.fifo.bRptr + BitVec.ofNat (n + 3) j)) = x
  rempty : ∀ i₁ i₂ i : In n α, i₁.Works → i₂.Works → i.Works →
    i₁.rclk = true → i₁.wclk = false → i₂.rclk = true → i₂.wclk = false →
      let t' := (t.step i₁).step i₂
      t'.fifo.rempty i = true ↔ t'.read.length = t'.written.length
  wfull : ∀ i₁ i₂ i : In n α, i₁.Works → i₂.Works → i.Works →
    i₁.wclk = true → i₁.rclk = false → i₂.wclk = true → i₂.rclk = false →
      let t' := (t.step i₁).step i₂
      t'.fifo.wfull i = true ↔
        t'.written.length = t'.read.length + 2 ^ (n + 2)

/-- The code of a number of words. -/
def code (n k : ℕ) : BitVec (n + 3) := Gray.encode (BitVec.ofNat (n + 3) k)

/-- The pointers are the numbers of words written and read; `w₁` and `w₂`,
and `r₁` and `r₂`, are what the other side has been told of them. -/
structure Inv (t : Track n α) (w₁ w₂ r₁ r₂ : ℕ) : Prop where
  gWptr : t.fifo.gWptr = code n t.written.length
  gRptr : t.fifo.gRptr = code n t.read.length
  gWsync1 : t.fifo.gWsync1 = code n w₁
  gWsync2 : t.fifo.gWsync2 = code n w₂
  gRsync1 : t.fifo.gRsync1 = code n r₁
  gRsync2 : t.fifo.gRsync2 = code n r₂
  le_w₂ : t.read.length ≤ w₂
  w₂_le : w₂ ≤ w₁
  w₁_le : w₁ ≤ t.written.length
  r₂_le : r₂ ≤ r₁
  r₁_le : r₁ ≤ t.read.length
  room : t.written.length ≤ r₂ + 2 ^ (n + 2)
  order : t.read = t.written.take t.read.length
  words : ∀ k x, t.read.length ≤ k → t.written[k]? = some x →
    t.fifo.fifo (BitVec.ofNat (n + 2) k) = x

variable {t : Track n α} {w₁ w₂ r₁ r₂ : ℕ}

/-- Counters are equal modulo a power of two that they do not differ by if
and only if they are equal. -/
theorem ofNat_eq_iff {w a b : ℕ} (h : b ≤ a) (hw : a - b < 2 ^ w) :
    BitVec.ofNat w a = BitVec.ofNat w b ↔ a = b := by
  refine ⟨fun he => ?_, fun he => by rw [he]⟩
  rw [← BitVec.toNat_inj, BitVec.toNat_ofNat, BitVec.toNat_ofNat] at he
  have hmod := Nat.sub_mod_eq_zero_of_mod_eq he
  rw [Nat.mod_eq_of_lt hw] at hmod
  omega

theorem pow_succ_two (n : ℕ) : 2 ^ (n + 3) = 2 * 2 ^ (n + 2) := by
  rw [Nat.pow_succ, Nat.mul_comm]

theorem pow_two_pos (n : ℕ) : 0 < 2 ^ (n + 2) := Nat.two_pow_pos _

theorem code_succ (k : ℕ) :
    code n (k + 1) = Gray.encode (BitVec.ofNat (n + 3) k + 1#(n + 3)) := by
  unfold code
  rw [BitVec.ofNat_add]

theorem addr_ofNat (k : ℕ) :
    addr (BitVec.ofNat (n + 3) k) = BitVec.ofNat (n + 2) k :=
  BitVec.setWidth_ofNat_of_le (by omega) k

theorem written_step : (t.step i).written.length =
    t.written.length + (t.fifo.writes i).toNat := by
  show (t.written ++ _).length = _
  rw [List.length_append]
  cases t.fifo.writes i <;> rfl

theorem read_step : (t.step i).read.length =
    t.read.length + (t.fifo.reads i).toNat := by
  show (t.read ++ _).length = _
  rw [List.length_append]
  cases t.fifo.reads i <;> rfl

namespace Inv

variable (h : Inv t w₁ w₂ r₁ r₂)
include h

theorem bWptr : t.fifo.bWptr = BitVec.ofNat (n + 3) t.written.length := by
  unfold AsyncFifo.bWptr
  rw [h.gWptr, code, Gray.decode_encode]

theorem bRptr : t.fifo.bRptr = BitVec.ofNat (n + 3) t.read.length := by
  unfold AsyncFifo.bRptr
  rw [h.gRptr, code, Gray.decode_encode]

theorem rempty_iff (hi : i.Works) :
    t.fifo.rempty i = true ↔ w₂ = t.read.length := by
  have hw := h.le_w₂
  have hroom := h.room
  have hr := h.r₂_le
  have hr' := h.r₁_le
  have hw' := h.w₂_le
  have hw'' := h.w₁_le
  have hpow := pow_succ_two n
  have hpos := pow_two_pos n
  unfold rempty
  rw [hi.1, hi.2, Bool.or_self, Bool.or_false, decide_eq_true_iff,
    h.gWsync2, h.gRptr, code, code, Gray.encode_inj,
    ofNat_eq_iff hw (by omega)]

theorem wfull_iff (hi : i.Works) :
    t.fifo.wfull i = true ↔ t.written.length = r₂ + 2 ^ (n + 2) := by
  have hw := h.le_w₂
  have hroom := h.room
  have hr := h.r₂_le
  have hr' := h.r₁_le
  have hw' := h.w₂_le
  have hw'' := h.w₁_le
  have hpow := pow_succ_two n
  have hpos := pow_two_pos n
  have hhalf : BitVec.twoPow (n + 3) (n + 2) =
      BitVec.ofNat (n + 3) (2 ^ (n + 2)) := by
    refine BitVec.eq_of_toNat_eq ?_
    rw [BitVec.toNat_twoPow_of_lt (by omega), BitVec.toNat_ofNat,
      Nat.mod_eq_of_lt (by omega)]
  have hlow : t.fifo.gWptr.setWidth (n + 1) =
      t.fifo.gRsync2.setWidth (n + 1) ↔ ∀ k < n + 1,
        t.fifo.gWptr.getLsbD k = t.fifo.gRsync2.getLsbD k := by
    constructor
    · intro he k hk
      have hbit := congrArg (fun v => v.getLsbD k) he
      simpa [BitVec.getLsbD_setWidth, hk] using hbit
    · intro hall
      refine BitVec.eq_of_getLsbD_eq fun k hk => ?_
      rw [BitVec.getLsbD_setWidth, BitVec.getLsbD_setWidth, hall k hk]
  have hapart := Gray.eq_add_half_iff
    (x := BitVec.ofNat (n + 3) t.written.length)
    (y := BitVec.ofNat (n + 3) r₂)
  unfold wfull
  rw [hi.1, hi.2, Bool.or_self, Bool.or_false, Bool.and_eq_true,
    Bool.and_eq_true, decide_eq_true_iff, hlow, bne_iff_ne, bne_iff_ne,
    and_assoc, h.gWptr, h.gRsync2, code, code]
  refine hapart.symm.trans ?_
  rw [hhalf, ← BitVec.ofNat_add, eq_comm, ofNat_eq_iff hroom (by omega)]
  exact eq_comm

theorem gWptr_step (hi : i.Works) :
    t.fifo.gWptrStep i = code n (t.step i).written.length := by
  unfold gWptrStep
  rw [hi.1, Bool.and_false, if_neg Bool.false_ne_true, written_step]
  cases t.fifo.writes i with
  | false => exact h.gWptr
  | true =>
    rw [if_pos rfl, gWptrNext, h.bWptr, Bool.toNat_true, code_succ]

theorem gRptr_step (hi : i.Works) :
    t.fifo.gRptrStep i = code n (t.step i).read.length := by
  unfold gRptrStep
  rw [hi.2, Bool.and_false, if_neg Bool.false_ne_true, read_step]
  cases t.fifo.reads i with
  | false => exact h.gRptr
  | true =>
    rw [if_pos rfl, gRptrNext, h.bRptr, Bool.toNat_true, code_succ]

/-- There is room for a word that is written. -/
theorem room_of_writes (hi : i.Works) (hw : t.fifo.writes i = true) :
    t.written.length < r₂ + 2 ^ (n + 2) := by
  unfold writes at hw
  simp only [Bool.and_eq_true, Bool.not_eq_true'] at hw
  have hfull : ¬ t.fifo.wfull i = true := by
    rw [hw.2.2]
    exact Bool.false_ne_true
  rw [h.wfull_iff hi] at hfull
  have hroom := h.room
  omega

/-- A word that is read has been written. -/
theorem lt_of_reads (hi : i.Works) (hr : t.fifo.reads i = true) :
    t.read.length < w₂ := by
  unfold reads at hr
  simp only [Bool.and_eq_true, Bool.not_eq_true'] at hr
  have hempty : ¬ t.fifo.rempty i = true := by
    rw [hr.2.2]
    exact Bool.false_ne_true
  rw [h.rempty_iff hi] at hempty
  have hle := h.le_w₂
  omega

/-- The word that is read is the oldest that has not been. -/
theorem rdata_eq (hlt : t.read.length < t.written.length) :
    t.written[t.read.length]? = some t.fifo.rdata := by
  rw [List.getElem?_eq_getElem hlt]
  refine congrArg some ?_
  have hword := h.words _ _ (Nat.le_refl _) (List.getElem?_eq_getElem hlt)
  rw [← hword, AsyncFifo.rdata, h.bRptr, addr_ofNat]

theorem order_step (hi : i.Works) :
    (t.step i).read = (t.step i).written.take (t.step i).read.length := by
  have hle := h.le_w₂
  have hle₁ := h.w₂_le
  have hle₂ := h.w₁_le
  rw [read_step]
  show t.read ++ _ = (t.written ++ _).take _
  cases hr : t.fifo.reads i with
  | false =>
    rw [if_neg Bool.false_ne_true, List.append_nil, Bool.toNat_false,
      Nat.add_zero, List.take_append_of_le_length (by omega)]
    exact h.order
  | true =>
    have hlt := h.lt_of_reads hi hr
    have hdata := h.rdata_eq (by omega)
    rw [if_pos rfl, Bool.toNat_true,
      List.take_append_of_le_length (by omega), List.take_add_one, hdata,
      ← h.order]
    rfl

theorem words_step (hi : i.Works) (k : ℕ) (x : α)
    (hk : (t.step i).read.length ≤ k)
    (hx : (t.step i).written[k]? = some x) :
    (t.step i).fifo.fifo (BitVec.ofNat (n + 2) k) = x := by
  have hread : t.read.length ≤ k := by
    rw [read_step] at hk
    omega
  change (t.written ++ _)[k]? = some x at hx
  show (if t.fifo.writes i then
    Function.update t.fifo.fifo (addr t.fifo.bWptr) i.wdata
      else t.fifo.fifo) _ = x
  cases hw : t.fifo.writes i with
  | false =>
    rw [hw, if_neg Bool.false_ne_true, List.append_nil] at hx
    exact h.words k x hread hx
  | true =>
    rw [hw, if_pos rfl] at hx
    rw [if_pos rfl, h.bWptr, addr_ofNat]
    have hroom := h.room_of_writes hi hw
    have hr := h.r₂_le
    have hr' := h.r₁_le
    have hlt : k < t.written.length + 1 := by
      have hlen := (List.getElem?_eq_some_iff.mp hx).1
      rw [List.length_append, List.length_singleton] at hlen
      exact hlen
    by_cases hlast : k = t.written.length
    · subst hlast
      rw [List.getElem?_append_right (Nat.le_refl _), Nat.sub_self] at hx
      rw [Function.update_self]
      exact Option.some.inj hx
    · -- the memory has room for all words that have not been read
      have hne : BitVec.ofNat (n + 2) k ≠
          BitVec.ofNat (n + 2) t.written.length := by
        rw [Ne, eq_comm, ofNat_eq_iff (by omega) (by omega)]
        exact fun he => hlast he.symm
      rw [Function.update_of_ne hne]
      rw [List.getElem?_append_left (by omega)] at hx
      exact h.words k x hread hx

omit h in
/-- What is sampled of a counter is its old or its new value. -/
theorem sample_cases (mask : BitVec (n + 3)) (k : ℕ) (b : Bool) :
    ∃ k', Gray.mix mask (code n k) (code n (k + b.toNat)) = code n k' ∧
      k ≤ k' ∧ k' ≤ k + b.toNat := by
  cases b with
  | false => exact ⟨k, Gray.mix_self, Nat.le_refl _, Nat.le_refl _⟩
  | true =>
    simp only [Bool.toNat_true, code_succ]
    rcases Gray.mix_succ mask (BitVec.ofNat (n + 3) k) with hold | hnew
    · exact ⟨k, hold, Nat.le_refl _, Nat.le_succ _⟩
    · exact ⟨k + 1, hnew.trans (code_succ k).symm, Nat.le_succ _,
        Nat.le_refl _⟩

/-- A step moves what is known of the other side one stage on. -/
theorem step (hi : i.Works) :
    ∃ w₁' r₁', Inv (t.step i) w₁' (if i.rclk then w₁ else w₂) r₁'
        (if i.wclk then r₁ else r₂) ∧
      (i.rclk = true → i.wclk = false → w₁' = t.written.length) ∧
      (i.wclk = true → i.rclk = false → r₁' = t.read.length) := by
  have hw := h.gWptr_step hi
  have hr := h.gRptr_step hi
  have hwritten := written_step (t := t) (i := i)
  have hread := read_step (t := t) (i := i)
  obtain ⟨w, hmixw, hwle, hwle'⟩ :=
    sample_cases i.wmask t.written.length (t.fifo.writes i)
  obtain ⟨r, hmixr, hrle, hrle'⟩ :=
    sample_cases i.rmask t.read.length (t.fifo.reads i)
  rw [← hwritten] at hmixw hwle'
  rw [← hread] at hmixr hrle'
  have hle₀ := h.le_w₂
  have hle₁ := h.w₂_le
  have hle₂ := h.w₁_le
  have hle₃ := h.r₂_le
  have hle₄ := h.r₁_le
  have hle₅ := h.room
  have hroom : t.fifo.writes i = true →
      t.written.length < r₂ + 2 ^ (n + 2) := h.room_of_writes hi
  have hlt : t.fifo.reads i = true → t.read.length < w₂ := h.lt_of_reads hi
  have hclockw : t.fifo.writes i = true → i.wclk = true := by
    intro hwr
    unfold writes at hwr
    rw [Bool.and_eq_true, Bool.and_eq_true] at hwr
    exact hwr.1.1
  have hclockr : t.fifo.reads i = true → i.rclk = true := by
    intro hrd
    unfold reads at hrd
    rw [Bool.and_eq_true, Bool.and_eq_true] at hrd
    exact hrd.1.1
  refine ⟨if i.rclk then w else w₁, if i.wclk then r else r₁,
    ⟨hw, hr, ?_, ?_, ?_, ?_, ?_, ?_, ?_, ?_, ?_, ?_, h.order_step hi,
      h.words_step hi⟩, ?_, ?_⟩
  · show (if i.rclk then Gray.mix i.wmask t.fifo.gWptr (t.fifo.gWptrStep i)
      else t.fifo.gWsync1) = _
    rw [hw, h.gWptr, hmixw, h.gWsync1]
    split_ifs <;> rfl
  · show (if i.rclk then t.fifo.gWsync1 else t.fifo.gWsync2) = _
    rw [h.gWsync1, h.gWsync2]
    split_ifs <;> rfl
  · show (if i.wclk then Gray.mix i.rmask t.fifo.gRptr (t.fifo.gRptrStep i)
      else t.fifo.gRsync1) = _
    rw [hr, h.gRptr, hmixr, h.gRsync1]
    split_ifs <;> rfl
  · show (if i.wclk then t.fifo.gRsync1 else t.fifo.gRsync2) = _
    rw [h.gRsync1, h.gRsync2]
    split_ifs <;> rfl
  · cases hrd : t.fifo.reads i with
    | false =>
      rw [hrd, Bool.toNat_false] at hread
      split_ifs <;> omega
    | true =>
      have hlt' := hlt hrd
      rw [hrd, Bool.toNat_true] at hread
      split_ifs <;> omega
  · split_ifs <;> omega
  · split_ifs <;> omega
  · split_ifs <;> omega
  · split_ifs <;> omega
  · cases hwr : t.fifo.writes i with
    | false =>
      rw [hwr, Bool.toNat_false] at hwritten
      split_ifs <;> omega
    | true =>
      have hroom' := hroom hwr
      rw [hwr, Bool.toNat_true] at hwritten
      split_ifs <;> omega
  · intro hrc hwc
    rw [if_pos hrc]
    have hno : t.fifo.writes i = false := by
      rw [← Bool.not_eq_true]
      intro hwr
      rw [hclockw hwr] at hwc
      exact Bool.false_ne_true hwc.symm
    rw [hno, Bool.toNat_false] at hwritten
    omega
  · intro hwc hrc
    rw [if_pos hwc]
    have hno : t.fifo.reads i = false := by
      rw [← Bool.not_eq_true]
      intro hrd
      rw [hclockr hrd] at hrc
      exact Bool.false_ne_true hrc.symm
    rw [hno, Bool.toNat_false] at hread
    omega

theorem unread : ∃ words, t.written = t.read ++ words ∧
    words.length ≤ 2 ^ (n + 2) ∧
      ∀ j x, words[j]? = some x →
        t.fifo.fifo (addr (t.fifo.bRptr + BitVec.ofNat (n + 3) j)) = x := by
  have hroom := h.room
  have hr := h.r₂_le
  have hr' := h.r₁_le
  have hpos := pow_two_pos n
  refine ⟨t.written.drop t.read.length, ?_, ?_, fun j x hx => ?_⟩
  · calc t.written
        = t.written.take t.read.length ++ t.written.drop t.read.length :=
          (List.take_append_drop _ _).symm
      _ = t.read ++ t.written.drop t.read.length := by rw [← h.order]
  · rw [List.length_drop]
    omega
  · rw [List.getElem?_drop] at hx
    rw [h.bRptr, ← BitVec.ofNat_add, addr_ofNat]
    exact h.words _ _ (Nat.le_add_right _ _) hx

omit h in
theorem written_of_idle (hi : i.wclk = false) :
    (t.step i).written.length = t.written.length := by
  rw [written_step]
  unfold writes
  rw [hi]
  rfl

omit h in
theorem read_of_idle (hi : i.rclk = false) :
    (t.step i).read.length = t.read.length := by
  rw [read_step]
  unfold reads
  rw [hi]
  rfl

theorem exact : Exact t := by
  refine ⟨h.unread, fun i₁ i₂ i h₁ h₂ hi hr₁ hw₁ hr₂ hw₂ => ?_,
    fun i₁ i₂ i h₁ h₂ hi hw₁ hr₁ hw₂ hr₂ => ?_⟩
  · obtain ⟨w, r, hfirst, hw, -⟩ := h.step h₁
    obtain ⟨w', r', hsecond, -, -⟩ := hfirst.step h₂
    have hempty := hsecond.rempty_iff hi
    rw [if_pos hr₂, hw hr₁ hw₁] at hempty
    refine hempty.trans ?_
    rw [written_of_idle hw₂, written_of_idle hw₁]
    exact eq_comm
  · obtain ⟨w, r, hfirst, -, hr⟩ := h.step h₁
    obtain ⟨w', r', hsecond, -, -⟩ := hfirst.step h₂
    have hfull := hsecond.wfull_iff hi
    rw [if_pos hw₂, hr hw₁ hr₁] at hfull
    refine hfull.trans ?_
    rw [read_of_idle hr₂, read_of_idle hr₁]

end Inv

theorem Clear.inv (h : Clear q) : Inv (Track.start q) 0 0 0 0 := by
  have hzero : (0 : BitVec (n + 3)) = code n 0 := by
    unfold code Gray.encode
    simp
  refine ⟨?_, ?_, ?_, ?_, ?_, ?_, Nat.le_refl _, Nat.le_refl _,
    Nat.le_refl _, Nat.le_refl _, Nat.le_refl _, Nat.zero_le _, rfl,
    fun k x _ hx => ?_⟩
  · exact h.gWptr.trans hzero
  · exact h.gRptr.trans hzero
  · exact h.gWsync1.trans hzero
  · exact h.gWsync2.trans hzero
  · exact h.gRsync1.trans hzero
  · exact h.gRsync2.trans hzero
  · exact absurd hx (by simp [Track.start])

/-- After a reset of both sides for enough clocks, and however they come out
of it, every step keeps the FIFO exact. -/
theorem words_exact (q : AsyncFifo n α) (resets release is : List (In n α))
    (hresets : Resets resets)
    (hrelease : ∀ i ∈ release, (i.wreset || i.rreset) = true)
    (his : ∀ i ∈ is, i.Works) :
    Sync.Always Track.step Exact
      (Track.start (Sync.run step q (resets ++ release))) is := by
  have hclear : Clear (Sync.run step q (resets ++ release)) := by
    rw [Sync.run_append]
    have hcleared := clear_of_resets hresets q
    have halong : Sync.Along step (fun _ i => (i.wreset || i.rreset) = true)
        (Sync.run step q resets) release :=
      Sync.along_of_forall_mem hrelease
    exact halong.run_invariant (P := Clear) (fun s i hi hs => hs.step hi)
      hcleared
  have halong : Sync.Along Track.step (fun _ i => i.Works)
      (Track.start (Sync.run step q (resets ++ release))) is :=
    Sync.along_of_forall_mem his
  have hrun := halong.always
      (P := fun t => ∃ w₁ w₂ r₁ r₂, Inv t w₁ w₂ r₁ r₂)
      (fun t i hi ht => by
        obtain ⟨w₁, w₂, r₁, r₂, ht⟩ := ht
        obtain ⟨w₁', r₁', hnext, -⟩ := ht.step hi
        exact ⟨_, _, _, _, hnext⟩) ⟨_, _, _, _, hclear.inv⟩
  exact hrun.mono fun t ht => by
    obtain ⟨w₁, w₂, r₁, r₂, ht⟩ := ht
    exact ht.exact

/-- A step of both clocks, of which the synchronizers see all bits old. -/
def bothClocks (reset wval : Bool) (wdata : ℕ) (ren : Bool) : In 0 ℕ where
  wclk := true
  rclk := true
  wreset := reset
  rreset := reset
  wval := wval
  wdata := wdata
  ren := ren
  wmask := 7
  rmask := 7

/-- Two words with `ASIZE = 3`, from registers that hold anything. -/
theorem words_exact_two :
    Sync.Always Track.step Exact
      (Track.start (Sync.run step
        (⟨1, 2, 3, 4, 5, 6, fun _ => 0⟩ : AsyncFifo 0 ℕ)
        (List.replicate 3 (bothClocks true false 0 false) ++ [])))
      [bothClocks false true 7 true, bothClocks false true 8 true,
        bothClocks false false 0 true, bothClocks false false 0 true] := by
  refine words_exact _ _ [] _ ⟨fun i hi => ?_, [bothClocks true false 0 false],
    [bothClocks true false 0 false], [bothClocks true false 0 false], rfl,
    ?_⟩ (fun i hi => absurd hi List.not_mem_nil) fun i hi => ?_
  · rw [List.eq_of_mem_replicate hi]
    exact ⟨rfl, rfl⟩
  · have hclocked : Clocked [bothClocks true false 0 false] :=
      ⟨⟨_, List.mem_singleton_self _, rfl⟩,
        ⟨_, List.mem_singleton_self _, rfl⟩⟩
    exact ⟨hclocked, hclocked, hclocked⟩
  · simp only [List.mem_cons, List.not_mem_nil, or_false] at hi
    rcases hi with rfl | rfl | rfl | rfl <;> exact ⟨rfl, rfl⟩

end AsyncFifo

end ArianeSoc.Common
