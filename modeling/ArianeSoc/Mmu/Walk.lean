import ArianeSoc.Mmu.Ptw
import ArianeSoc.PageWalk
import ArianeSoc.RiscvPkg
import Mathlib.Algebra.Group.Nat.Defs

/-!
# Translation, and the walk of the page table walker

The walk of Sv39 for a page table in the memory `mem` whose root is the page
`root`: three indices of nine bits, entries of eight bytes, a leaf at any
level.  A superpage that is not aligned, an invalid entry and a pointer at
the last level are faults.

`translate` is the physical address of an access, if the access is allowed
at its privilege.  That the upper bits of the virtual address are equal is
not part of the walk.

The walker reads one entry of the page tables after the other.  `OnWalk`
says that the entry it waits for is the next one of the walk that the page
tables define.

* `walking_cases`: how a walk starts and goes on.
* `onWalk_step`: a walk that reads the page tables stays on its way.
* `leafOf_of_fills`: an update of a TLB carries the leaf of the walk.
-/

namespace ArianeSoc.Sv39

open PageWalk

/-- The kinds of access.  An atomic is a store. -/
inductive Access
  | fetch | load | store
  deriving DecidableEq

/-- What decides on the permissions besides the entry. -/
structure Mode where
  user : Bool
  sum : Bool
  mxr : Bool

variable (mem : BitVec 56 → BitVec 64) (root : BitVec 44)

/-- The entry of an index in the table at page `ppn`. -/
def pteAt (ppn : BitVec 44) (vpn : BitVec 9) : Pte := mem (ppn ++ vpn ++ 0#3)

/-- What an entry is when `level` indices are left. -/
def pteKind (p : Pte) (level : Nat) : Kind (BitVec 44) :=
  if !p.v || !p.r && p.w then .fault
  else if p.r || p.x then
    if p.ppn.toNat % 2 ^ (9 * level) = 0 then .leaf else .fault
  else .pointer p.ppn

/-- The indices of an address, the upper one first. -/
def vpns (vaddr : BitVec 64) : List (BitVec 9) :=
  [vaddr.extractLsb' 30 9, vaddr.extractLsb' 21 9, vaddr.extractLsb' 12 9]

/-- The leaf for an address and the indices below it. -/
def leafOf (vaddr : BitVec 64) : Option (Pte × List (BitVec 9)) :=
  walk (pteAt mem) pteKind root (vpns vaddr)

/-- The page may be used from the privilege. -/
def userOk (p : Pte) (m : Mode) : Access → Bool
  | .fetch => p.u == m.user
  | _ => if m.user then p.u else !p.u || m.sum

/-- The entry allows the access. -/
def permits (p : Pte) (m : Mode) (a : Access) : Bool :=
  p.a && userOk p m a &&
    match a with
    | .fetch => p.x
    | .load => p.r || p.x && m.mxr
    | .store => p.w && p.d

/-- The page of an address: a superpage takes the lower bits from the
indices below the leaf. -/
def pageOf (p : Pte) : List (BitVec 9) → BitVec 44
  | [] => p.ppn
  | [vpn0] => p.ppn.extractLsb' 9 35 ++ vpn0
  | vpn1 :: vpn0 :: _ => p.ppn.extractLsb' 18 26 ++ vpn1 ++ vpn0

/-- The physical address of an access, or none for a page fault. -/
def translate (vaddr : BitVec 64) (m : Mode) (a : Access) :
    Option (BitVec 56) :=
  (leafOf mem root vaddr).bind fun (p, rest) =>
    if permits p m a then some (pageOf p rest ++ vaddr.extractLsb' 0 12)
    else none

end ArianeSoc.Sv39

namespace ArianeSoc.Ptw

open PageWalk Sv39

variable {n : Nat} {q : State n} {i : In n}

/-! ## The levels -/

/-- The index of a level. -/
def Lvl.index : Lvl → BitVec 64 → BitVec 9
  | .LVL1, a => vpn2 a
  | .LVL2, a => vpn1 a
  | .LVL3, a => vpn0 a

/-- The indices below a level. -/
def Lvl.below : Lvl → BitVec 64 → List (BitVec 9)
  | .LVL1, a => [vpn1 a, vpn0 a]
  | .LVL2, a => [vpn0 a]
  | .LVL3, _ => []

def Lvl.next : Lvl → Option Lvl
  | .LVL1 => some .LVL2
  | .LVL2 => some .LVL3
  | .LVL3 => none

theorem Lvl.below_of_next {l l' : Lvl} (h : l.next = some l')
    (a : BitVec 64) : l.below a = l'.index a :: l'.below a := by
  cases l with
  | LVL1 => obtain rfl := Option.some.inj h; rfl
  | LVL2 => obtain rfl := Option.some.inj h; rfl
  | LVL3 => exact absurd h.symm (Option.some_ne_none l')

/-! ## How a walk goes on -/

/-- The walker waits for an entry. -/
def Walking (q : State n) : Prop :=
  q.state = .WAIT_GRANT ∨ q.state = .PTE_LOOKUP

/-- The registers of a walk that has just started. -/
structure Started (root : BitVec 44) (asid : BitVec n) (a : BitVec 64)
    (instr : Bool) (q : State n) : Prop where
  lvl : q.lvl = .LVL1
  isInstrPtw : q.isInstrPtw = instr
  tlbUpdateAsid : q.tlbUpdateAsid = asid
  vaddr : q.vaddr = a
  ptwPptr : q.ptwPptr = entryAddr root (vpn2 a)

/-- The walk is still for the same access. -/
structure SameWalk (q q' : State n) : Prop where
  isInstrPtw : q'.isInstrPtw = q.isInstrPtw
  tlbUpdateAsid : q'.tlbUpdateAsid = q.tlbUpdateAsid
  vaddr : q'.vaddr = q.vaddr

/-- The walk waits for the same entry. -/
structure Waits (q q' : State n) : Prop extends SameWalk q q' where
  lvl : q'.lvl = q.lvl
  ptwPptr : q'.ptwPptr = q.ptwPptr

/-- The walk follows the pointer in the response. -/
structure Follows (q q' : State n) : Prop extends SameWalk q q' where
  valid : invalid q = false
  pointer : isLeaf q = false
  next : q.lvl.next = some q'.lvl
  ptwPptr : q'.ptwPptr = entryAddr (pte q).ppn (q'.lvl.index q.vaddr)

theorem state_step (q : State n) (i : In n) :
    (step q i).state = stateNext q i := rfl

/-- A flush ends the walk. -/
theorem flush_of_walking (h : Walking (step q i)) : i.flush = false := by
  unfold Walking at h
  rw [state_step, stateNext] at h
  cases hf : i.flush with
  | false => rfl
  | true =>
    rw [hf, if_pos rfl] at h
    split_ifs at h <;> simp at h

theorem walking_of_idle (hq : q.state = .IDLE) (h : Walking (step q i)) :
    itlbMiss i = true ∧
        Started i.satpPpn i.asid i.itlbVaddr true (step q i) ∨
      dtlbMiss i = true ∧
        Started i.satpPpn i.asid i.dtlbVaddr false (step q i) := by
  have hflush := flush_of_walking h
  unfold Walking at h
  simp only [state_step, stateNext, fsmNext, idleNext, hq, hflush] at h
  simp only [step, fsmNext, idleNext, hq]
  cases hi : itlbMiss i with
  | true => exact Or.inl ⟨rfl, rfl, rfl, rfl, rfl, rfl⟩
  | false =>
    cases hd : dtlbMiss i with
    | true => exact Or.inr ⟨rfl, rfl, rfl, rfl, rfl, rfl⟩
    | false => simp [hi, hd] at h

theorem follows_of_lookupNext {d : State n} (hv : d.dataRvalid = true)
    (h : (lookupNext d i).state = .WAIT_GRANT ∨
      (lookupNext d i).state = .PTE_LOOKUP) :
    Follows d (lookupNext d i) := by
  unfold lookupNext at h ⊢
  rw [if_pos hv] at h ⊢
  cases hinv : invalid d with
  | true => simp [hinv] at h
  | false =>
    cases hleaf : isLeaf d with
    | true =>
      simp only [hinv, hleaf, Bool.false_eq_true, if_true, if_false] at h
      split_ifs at h <;> simp at h
    | false =>
      simp only [hinv, hleaf, Bool.false_eq_true, if_false] at h ⊢
      unfold pointerNext at h ⊢
      cases hl : d.lvl with
      | LVL1 => exact ⟨⟨rfl, rfl, rfl⟩, hinv, hleaf, by rw [hl]; rfl, rfl⟩
      | LVL2 => exact ⟨⟨rfl, rfl, rfl⟩, hinv, hleaf, by rw [hl]; rfl, rfl⟩
      | LVL3 => simp [hl] at h

theorem waits_of_waitGrant (i : In n) (hq : q.state = .WAIT_GRANT) :
    Waits q (step q i) := by
  have hw : Waits q (fsmNext q i) := by
    simp only [fsmNext, hq, waitGrantNext]
    split_ifs <;> exact ⟨⟨rfl, rfl, rfl⟩, rfl, rfl⟩
  exact ⟨⟨hw.isInstrPtw, hw.tlbUpdateAsid, hw.vaddr⟩, hw.lvl, hw.ptwPptr⟩

theorem waits_of_lookup (i : In n) (hq : q.state = .PTE_LOOKUP)
    (hv : q.dataRvalid = false) : Waits q (step q i) := by
  have hw : Waits q (fsmNext q i) := by
    simp only [fsmNext, hq, lookupNext, hv]
    exact ⟨⟨rfl, rfl, rfl⟩, rfl, rfl⟩
  exact ⟨⟨hw.isInstrPtw, hw.tlbUpdateAsid, hw.vaddr⟩, hw.lvl, hw.ptwPptr⟩

theorem state_of_walking (h : Walking (step q i)) :
    (fsmNext q i).state = .WAIT_GRANT ∨ (fsmNext q i).state = .PTE_LOOKUP := by
  have hst : (step q i).state = (fsmNext q i).state := by
    rw [state_step, stateNext, flush_of_walking h, if_neg Bool.false_ne_true]
  unfold Walking at h
  rwa [hst] at h

theorem follows_of_lookup (hq : q.state = .PTE_LOOKUP)
    (hv : q.dataRvalid = true) (h : Walking (step q i)) :
    Follows q (step q i) := by
  have hf : fsmNext q i = lookupNext { q with tagValid := false } i := by
    simp only [fsmNext, hq]
  have hstate := state_of_walking h
  rw [hf] at hstate
  have hw := follows_of_lookupNext (d := { q with tagValid := false }) hv hstate
  rw [← hf] at hw
  exact ⟨⟨hw.isInstrPtw, hw.tlbUpdateAsid, hw.vaddr⟩, hw.valid,
    hw.pointer, hw.next, hw.ptwPptr⟩

/-- A walk starts, waits or follows a pointer. -/
theorem walking_cases (h : Walking (step q i)) :
    (q.state = .IDLE ∧ itlbMiss i = true ∧
        Started i.satpPpn i.asid i.itlbVaddr true (step q i)) ∨
      (q.state = .IDLE ∧ dtlbMiss i = true ∧
        Started i.satpPpn i.asid i.dtlbVaddr false (step q i)) ∨
      (Walking q ∧ lookingUp q = false ∧ Waits q (step q i)) ∨
      (Walking q ∧ lookingUp q = true ∧ Follows q (step q i)) := by
  have hstate := state_of_walking h
  cases hq : q.state with
  | IDLE =>
    rcases walking_of_idle hq h with h' | h'
    · exact Or.inl ⟨rfl, h'⟩
    · exact Or.inr (Or.inl ⟨rfl, h'⟩)
  | WAIT_GRANT =>
    exact Or.inr (Or.inr (Or.inl ⟨Or.inl hq, by simp [lookingUp, hq],
      waits_of_waitGrant i hq⟩))
  | PTE_LOOKUP =>
    cases hv : q.dataRvalid with
    | false =>
      exact Or.inr (Or.inr (Or.inl ⟨Or.inr hq, by simp [lookingUp, hv],
        waits_of_lookup i hq hv⟩))
    | true =>
      exact Or.inr (Or.inr (Or.inr ⟨Or.inr hq, by simp [lookingUp, hq, hv],
        follows_of_lookup hq hv h⟩))
  | WAIT_RVALID =>
    simp only [fsmNext, waitRvalidNext, hq] at hstate
    split_ifs at hstate <;> simp at hstate
  | PROPAGATE_ERROR => simp [fsmNext, hq] at hstate

/-! ## The entries -/

theorem pteKind_of_pointer (hv : invalid q = false) (hp : isLeaf q = false)
    (level : Nat) : pteKind (pte q) level = .pointer (pte q).ppn := by
  unfold invalid at hv
  unfold isLeaf at hp
  rw [pteKind, hv, hp, if_neg Bool.false_ne_true, if_neg Bool.false_ne_true]

theorem extractLsb'_eq_zero_iff {x : BitVec 44} {k : Nat} :
    x.extractLsb' 0 k = 0#k ↔ x.toNat % 2 ^ k = 0 := by
  rw [← BitVec.toNat_inj, BitVec.extractLsb'_toNat, Nat.shiftRight_zero]
  simp

theorem pteKind_of_leaf (hv : invalid q = false) (hl : isLeaf q = true)
    (hm : misaligned q = false) (a : BitVec 64) :
    pteKind (pte q) (q.lvl.below a).length = .leaf := by
  have halign : (pte q).ppn.toNat % 2 ^ (9 * (q.lvl.below a).length) = 0 := by
    rw [← extractLsb'_eq_zero_iff]
    simp only [misaligned, decide_eq_false_iff_not, not_or, not_and,
      not_not] at hm
    cases hq : q.lvl with
    | LVL1 => exact hm.1 hq
    | LVL2 => exact hm.2 hq
    | LVL3 => exact BitVec.eq_of_toNat_eq (by simp [Lvl.below])
  unfold invalid at hv
  unfold isLeaf at hl
  rw [pteKind, hv, hl, if_neg Bool.false_ne_true, if_pos rfl, if_pos halign]

/-! ## The walk of the page tables -/

variable (mem : BitVec 56 → BitVec 64) (root : BitVec 44)

/-- The entry that the walker waits for is the next one of the walk. -/
def OnWalk (q : State n) : Prop :=
  ∃ ppn, q.ptwPptr = entryAddr ppn (q.lvl.index q.vaddr) ∧
    leafOf mem root q.vaddr =
      walk (pteAt mem) pteKind ppn (q.lvl.index q.vaddr :: q.lvl.below q.vaddr)

/-- The response is the entry of the page tables. -/
def Reads (q : State n) : Prop :=
  lookingUp q = true → q.dataRdata = mem q.ptwPptr

variable {mem root}

theorem pte_of_reads {ppn : BitVec 44} {vpn : BitVec 9}
    (hlook : lookingUp q = true) (hread : Reads mem q)
    (hptr : q.ptwPptr = entryAddr ppn vpn) : pte q = pteAt mem ppn vpn := by
  show q.dataRdata = _
  rw [hread hlook, hptr]
  rfl

theorem onWalk_of_started {asid : BitVec n} {a : BitVec 64} {instr : Bool}
    (h : Started root asid a instr q) : OnWalk mem root q := by
  refine ⟨root, ?_, ?_⟩
  · rw [h.ptwPptr, h.lvl, h.vaddr]
    rfl
  · rw [h.lvl, h.vaddr]
    rfl

theorem onWalk_of_waits {q' : State n} (h : Waits q q')
    (hw : OnWalk mem root q) : OnWalk mem root q' := by
  unfold OnWalk
  rw [h.ptwPptr, h.lvl, h.vaddr]
  exact hw

/-- The pointer leads to the table that the walk goes on with. -/
theorem onWalk_of_follows {q' : State n} (h : Follows q q')
    (hlook : lookingUp q = true) (hread : Reads mem q)
    (hw : OnWalk mem root q) : OnWalk mem root q' := by
  obtain ⟨ppn, hptr, hwalk⟩ := hw
  have hentry := pte_of_reads hlook hread hptr
  refine ⟨(pte q).ppn, ?_, ?_⟩
  · rw [h.ptwPptr, h.vaddr]
  · rw [h.vaddr, hwalk, ← Lvl.below_of_next h.next]
    refine walk_pointer ?_
    rw [← hentry]
    exact pteKind_of_pointer h.valid h.pointer _

/-- A walk that starts at the root and reads the page tables stays on its
way. -/
theorem onWalk_step (h : Walking (step q i)) (hroot : i.satpPpn = root)
    (hread : Reads mem q) (hw : Walking q → OnWalk mem root q) :
    OnWalk mem root (step q i) := by
  rcases walking_cases h with
    ⟨-, -, h'⟩ | ⟨-, -, h'⟩ | ⟨hq, -, h'⟩ | ⟨hq, hl, h'⟩
  · exact onWalk_of_started (hroot ▸ h')
  · exact onWalk_of_started (hroot ▸ h')
  · exact onWalk_of_waits h' (hw hq)
  · exact onWalk_of_follows h' hl hread (hw hq)

theorem walking_of_lookingUp (h : lookingUp q = true) : Walking q := by
  simp only [lookingUp, decide_eq_true_eq] at h
  exact Or.inr h.1

/-- A walk that starts or goes on updates no TLB. -/
theorem not_fills_of_walking (h : Walking (step q i)) :
    fills q i = false := by
  rcases walking_cases h with ⟨hq, -⟩ | ⟨hq, -⟩ | ⟨-, hl, -⟩ | ⟨-, -, h'⟩
  · simp [fills, lookingUp, hq]
  · simp [fills, lookingUp, hq]
  · simp [fills, hl]
  · simp [fills, h'.pointer]

/-- An update of a TLB carries the leaf that the page tables have for the
address. -/
theorem leafOf_of_fills (h : fills q i = true) (hread : Reads mem q)
    (hw : OnWalk mem root q) :
    leafOf mem root q.vaddr = some (pte q, q.lvl.below q.vaddr) := by
  simp only [fills, Bool.and_eq_true, Bool.not_eq_true'] at h
  obtain ⟨⟨⟨⟨hlook, hv⟩, hl⟩, -⟩, hm⟩ := h
  obtain ⟨ppn, hptr, hwalk⟩ := hw
  have hentry := pte_of_reads hlook hread hptr
  rw [hwalk, hentry]
  refine walk_leaf ?_
  rw [← hentry]
  exact pteKind_of_leaf hv hl hm q.vaddr

end ArianeSoc.Ptw
