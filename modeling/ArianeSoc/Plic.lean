import ArianeSoc.Sync
import Mathlib.Data.List.FinRange

/-!
# The platform-level interrupt controller

`plic_top` for `N` sources, `T` targets and priorities of `w` bits: the
gateways keep a pending bit `ip` and an active bit `ia` of each source, a
target registers the number of the source it would claim, and the register
file turns one bus access of a cycle into a write of a configuration
register, a claim (a read of `cc`) or a completion (a write of `cc`).

Sources are numbered from `0` here and from `1` on the bus, where `0` is
no source at all.

* The target.  `target_claimable`: what a target registers was pending.
* The choice of a target.  `chooses_iff`: which source the loop and the
  matrix of `rv_plic_target` register.
* The history of a run.  `Claims`, `Completes` and `InService`.
* The invariant.  `Inv` and its step lemma `step_inv`; it needs the cycles
  to be `Orderly`.
* The claim protocol.
-/

namespace ArianeSoc.Plic

variable {N T w : ℕ}

/-- The register access of one cycle, as `plic_regs` decodes it. -/
inductive Access (N T w : ℕ) where
  | idle
  | prioWe (i : Fin N) (prioO : BitVec w)
  | ieWe (t : Fin T) (ieO : Fin N → Bool)
  | thresholdWe (t : Fin T) (thresholdO : BitVec w)
  | ccRe (t : Fin T)
  | ccWe (t : Fin T) (ccO : ℕ)

/-- The inputs of one cycle; `le` is `false` for level and `true` for edge. -/
structure Input (N T w : ℕ) where
  src : Fin N → Bool
  le : Fin N → Bool
  access : Access N T w

structure State (N T w : ℕ) where
  srcD : Fin N → Bool
  ip : Fin N → Bool
  ia : Fin N → Bool
  irq : Fin T → Bool
  irqId : Fin T → ℕ
  prioQ : Fin N → BitVec w
  ieQ : Fin T → Fin N → Bool
  thresholdQ : Fin T → BitVec w

def init : State N T w where
  srcD _ := false
  ip _ := false
  ia _ := false
  irq _ := false
  irqId _ := 0
  prioQ _ := 0
  ieQ _ _ := false
  thresholdQ _ := 0

/-! ## The target -/

/-- The variables of the loop of `gen_sequential`. -/
structure Pick (w : ℕ) where
  maxPrio : BitVec w
  irqIdNext : ℕ
  irqNext : Bool

/-- One turn of the loop. -/
def Pick.turn (ip ie : Fin N → Bool) (prio : Fin N → BitVec w) (i : Fin N)
    (p : Pick w) : Pick w :=
  if (ip i && ie i) = true ∧ p.maxPrio ≤ prio i then
    { maxPrio := prio i, irqIdNext := i + 1, irqNext := true }
  else p

/-- `rv_plic_target`: the loop runs from the last source down to the
first. -/
def target (ip ie : Fin N → Bool) (prio : Fin N → BitVec w)
    (threshold : BitVec w) : Pick w :=
  (List.finRange N).foldr (Pick.turn ip ie prio)
    { maxPrio := threshold + 1, irqIdNext := 0, irqNext := false }

/-- A target registers no source, or one that is pending and enabled. -/
theorem target_claimable (ip ie : Fin N → Bool) (prio : Fin N → BitVec w)
    (threshold : BitVec w) :
    (target ip ie prio threshold).irqIdNext = 0 ∨
      ∃ i : Fin N, (target ip ie prio threshold).irqIdNext = i + 1 ∧
        ip i = true ∧ ie i = true := by
  unfold target
  induction List.finRange N with
  | nil => exact Or.inl rfl
  | cons i is ih =>
    rw [List.foldr_cons]
    generalize List.foldr (Pick.turn ip ie prio) _ is = p at ih ⊢
    unfold Pick.turn
    split_ifs with h
    · rw [Bool.and_eq_true] at h
      exact Or.inr ⟨i, rfl, h.1⟩
    · exact ih

/-! ## The choice of a target

Two versions of the target choose among the sources: the loop above and a
matrix of comparisons.  Both register the first of the sources with the
greatest priority, but not among the same sources.  The loop begins with the
successor of the threshold, which wraps to zero for the greatest one. -/

/-- `i` is the first of the members of `S` with the greatest `f`. -/
structure FirstTop {ι β : Type*} [LT ι] [LE β] [LT β] (S : ι → Prop)
    (f : ι → β) (i : ι) : Prop where
  mem : S i
  top : ∀ j, S j → f j ≤ f i
  first : ∀ j, S j → j < i → f j < f i

/-- The registers `irq` and `irq_id`. -/
structure Choice where
  irq : Bool
  irqId : ℕ
  deriving DecidableEq

section Choices

variable (ip ie : Fin N → Bool) (prio : Fin N → BitVec w)
  (threshold : BitVec w)

/-- The registers of `gen_sequential` after a cycle. -/
def sequential : Choice :=
  ⟨(target ip ie prio threshold).irqNext,
    (target ip ie prio threshold).irqIdNext⟩

/-- `mat[i][j]`. -/
def mat (i j : Fin N) : Bool :=
  if prio i ≤ threshold then false
  else if (ip i && ie i) && (ip j && ie j) then decide (prio j ≤ prio i)
  else ip i && ie i

/-- `merged_row[i]`; the last row has nothing to be compared with. -/
def mergedRow (i : Fin N) : Bool :=
  if i + 1 = N then (ip i && ie i) && decide (threshold < prio i)
  else (List.finRange N).all fun j => !decide (i < j) || mat ip ie prio threshold i j

/-- `merged_row` as a word. -/
def mergedRows : BitVec N :=
  (BitVec.iunfoldr (fun i (_ : Unit) => ((), mergedRow ip ie prio threshold i)) ()).2

/-- `lod`. -/
def lod : BitVec N :=
  mergedRows ip ie prio threshold &&&
    (~~~mergedRows ip ie prio threshold + 1#N)

/-- The registers of `gen_mat` after a cycle; the loop runs from the last
source down to the first. -/
def matrix (c : Choice) : Choice :=
  if lod ip ie prio threshold ≠ 0#N then
    (List.finRange N).foldr
      (fun (i : Fin N) c =>
        if (lod ip ie prio threshold).getLsbD i then ⟨true, i + 1⟩ else c) c
  else ⟨false, 0⟩

/-- The choice among the members of `S`. -/
def Chooses (S : Fin N → Prop) (c : Choice) : Prop :=
  (c.irq = true ↔ ∃ i, S i) ∧
    (c.irq = true → ∃ i, FirstTop S prio i ∧ c.irqId = i + 1)

end Choices

section Choosing

variable {ip ie : Fin N → Bool} {prio : Fin N → BitVec w}
  {threshold floor : BitVec w} {i j : Fin N}

theorem FirstTop.unique {S : Fin N → Prop} (hi : FirstTop S prio i)
    (hj : FirstTop S prio j) : i = j := by
  rcases lt_trichotomy i j with hlt | heq | hgt
  · have hless := hj.first i hi.mem hlt
    exact absurd (hi.top j hj.mem) (BitVec.not_le.mpr hless)
  · exact heq
  · have hless := hi.first j hj.mem hgt
    exact absurd (hj.top i hi.mem) (BitVec.not_le.mpr hless)

/-- The source is pending, enabled and not below the priority `floor`. -/
def FromFloor (ip ie : Fin N → Bool) (prio : Fin N → BitVec w)
    (floor : BitVec w) (i : Fin N) : Prop :=
  (ip i && ie i) = true ∧ floor ≤ prio i

/-- The source is pending, enabled and above the threshold. -/
def Eligible (ip ie : Fin N → Bool) (prio : Fin N → BitVec w)
    (threshold : BitVec w) (i : Fin N) : Prop :=
  (ip i && ie i) = true ∧ threshold < prio i

/-- What the loop has picked behind the sources `is`. -/
def Picked (S : Fin N → Prop) (prio : Fin N → BitVec w) (floor : BitVec w)
    (p : Pick w) : Prop :=
  (p = ⟨floor, 0, false⟩ ∧ ∀ i, ¬ S i) ∨
    ∃ i, FirstTop S prio i ∧ p = ⟨prio i, i + 1, true⟩

/-- The turns for the sources of an ascending list pick among its members:
a source that comes later in the loop wins a tie. -/
theorem turns_picked {is : List (Fin N)} (h : is.Pairwise (· < ·)) :
    Picked (fun i => i ∈ is ∧ FromFloor ip ie prio floor i) prio floor
      (is.foldr (Pick.turn ip ie prio) ⟨floor, 0, false⟩) := by
  induction is with
  | nil => exact Or.inl ⟨rfl, fun i hi => List.not_mem_nil hi.1⟩
  | cons i is ih =>
    obtain ⟨hbelow, hrest⟩ := List.pairwise_cons.mp h
    rw [List.foldr_cons]
    generalize is.foldr (Pick.turn ip ie prio) ⟨floor, 0, false⟩ = p at ih ⊢
    unfold Pick.turn
    rcases ih hrest with ⟨rfl, hnone⟩ | ⟨k, hk, rfl⟩
    · split_ifs with hi
      · refine Or.inr ⟨i, ⟨⟨List.mem_cons_self, hi⟩, ?_, ?_⟩, rfl⟩
        · rintro j ⟨hj, hS⟩
          rcases List.mem_cons.mp hj with rfl | hj
          · exact BitVec.le_refl _
          · exact absurd ⟨hj, hS⟩ (hnone j)
        · rintro j ⟨hj, hS⟩ hlt
          rcases List.mem_cons.mp hj with rfl | hj
          · exact absurd hlt (lt_irrefl j)
          · exact absurd ⟨hj, hS⟩ (hnone j)
      · refine Or.inl ⟨rfl, ?_⟩
        rintro j ⟨hj, hS⟩
        rcases List.mem_cons.mp hj with rfl | hj
        · exact hi hS
        · exact hnone j ⟨hj, hS⟩
    · have hfloor : floor ≤ prio k := hk.mem.2.2
      split_ifs with hi
      · have hge : prio k ≤ prio i := hi.2
        have hmem : FromFloor ip ie prio floor i :=
          ⟨hi.1, BitVec.le_trans hfloor hge⟩
        refine Or.inr ⟨i, ⟨⟨List.mem_cons_self, hmem⟩, ?_, ?_⟩, rfl⟩
        · rintro j ⟨hj, hS⟩
          rcases List.mem_cons.mp hj with rfl | hj
          · exact BitVec.le_refl _
          · exact BitVec.le_trans (hk.top j ⟨hj, hS⟩) hge
        · rintro j ⟨hj, hS⟩ hlt
          rcases List.mem_cons.mp hj with rfl | hj
          · exact absurd hlt (lt_irrefl j)
          · exact absurd hlt (lt_asymm (hbelow j hj))
      · have hless : FromFloor ip ie prio floor i → prio i < prio k :=
          fun hS => BitVec.not_le.mp fun hge => hi ⟨hS.1, hge⟩
        refine Or.inr ⟨k, ⟨⟨List.mem_cons_of_mem i hk.mem.1, hk.mem.2⟩, ?_, ?_⟩, rfl⟩
        · rintro j ⟨hj, hS⟩
          rcases List.mem_cons.mp hj with rfl | hj
          · exact BitVec.le_of_lt (hless hS)
          · exact hk.top j ⟨hj, hS⟩
        · rintro j ⟨hj, hS⟩ hlt
          rcases List.mem_cons.mp hj with rfl | hj
          · exact hless hS
          · exact hk.first j ⟨hj, hS⟩ hlt

theorem target_picked (ip ie : Fin N → Bool) (prio : Fin N → BitVec w)
    (threshold : BitVec w) :
    Picked (FromFloor ip ie prio (threshold + 1)) prio (threshold + 1)
      (target ip ie prio threshold) := by
  have h : Picked (fun i => i ∈ List.finRange N ∧
      FromFloor ip ie prio (threshold + 1) i) prio (threshold + 1)
      (target ip ie prio threshold) :=
    turns_picked (List.pairwise_lt_finRange N)
  simp only [List.mem_finRange, true_and] at h
  exact h

/-- Above the threshold or not below its successor is the same, unless the
successor wraps. -/
theorem fromFloor_succ (h : threshold ≠ BitVec.allOnes w) :
    FromFloor ip ie prio (threshold + 1) i ↔ Eligible ip ie prio threshold i := by
  have hlt : threshold.toNat + 1 < 2 ^ w := by
    have hne := BitVec.toNat_ne.mp h
    have hpos := Nat.two_pow_pos w
    have hle := threshold.isLt
    rw [BitVec.toNat_allOnes] at hne
    omega
  have hone : (1 : BitVec w).toNat = 1 := by
    show (1#w).toNat = 1
    rw [BitVec.toNat_ofNat, Nat.mod_eq_of_lt (by omega)]
  refine and_congr Iff.rfl ?_
  rw [BitVec.le_def, BitVec.lt_def, BitVec.toNat_add, hone,
    Nat.mod_eq_of_lt hlt]
  exact Nat.succ_le_iff

theorem not_eligible_allOnes : ¬ Eligible ip ie prio (BitVec.allOnes w) i := by
  rintro ⟨-, hlt⟩
  have hle := (prio i).isLt
  rw [BitVec.lt_def, BitVec.toNat_allOnes] at hlt
  omega

theorem fromFloor_allOnes :
    FromFloor ip ie prio (BitVec.allOnes w + 1) i ↔ (ip i && ie i) = true := by
  have hzero : BitVec.allOnes w + 1 = 0#w := by
    rw [← BitVec.neg_one_eq_allOnes]
    exact BitVec.add_left_neg _
  rw [FromFloor, hzero]
  exact and_iff_left (Nat.zero_le _)

/-- Some eligible source is the first of those with the greatest priority. -/
theorem exists_firstTop (h : Eligible ip ie prio threshold i) :
    ∃ k, FirstTop (Eligible ip ie prio threshold) prio k := by
  have hne : threshold ≠ BitVec.allOnes w := by
    rintro rfl
    exact not_eligible_allOnes h
  have hfloor : FromFloor ip ie prio (threshold + 1) =
      Eligible ip ie prio threshold :=
    funext fun j => propext (fromFloor_succ hne)
  have hpicked := target_picked ip ie prio threshold
  rw [hfloor] at hpicked
  rcases hpicked with ⟨-, hnone⟩ | ⟨k, hk, -⟩
  · exact absurd h (hnone i)
  · exact ⟨k, hk⟩

/-! The matrix -/

theorem mat_iff :
    mat ip ie prio threshold i j = true ↔
      Eligible ip ie prio threshold i ∧
        (Eligible ip ie prio threshold j → prio j ≤ prio i) := by
  unfold mat Eligible
  split_ifs with hle hboth
  · have hnot : ¬ threshold < prio i := BitVec.not_lt.mpr hle
    simp [hnot]
  · rw [Bool.and_eq_true (ip i && ie i)] at hboth
    have hlt : threshold < prio i := BitVec.not_le.mp hle
    rw [decide_eq_true_eq, hboth.1, hboth.2]
    refine ⟨fun h => ⟨⟨rfl, hlt⟩, fun _ => h⟩, fun h => ?_⟩
    by_cases hj : threshold < prio j
    · exact h.2 ⟨rfl, hj⟩
    · exact BitVec.le_of_lt (Nat.lt_of_le_of_lt (BitVec.not_lt.mp hj) hlt)
  · have hlt : threshold < prio i := BitVec.not_le.mp hle
    refine ⟨fun h => ⟨⟨h, hlt⟩, fun hj => ?_⟩, fun h => h.1.1⟩
    exact absurd (Bool.and_eq_true _ _ ▸ ⟨h, hj.1⟩) hboth

/-- A row is set for an eligible source that no later one exceeds. -/
theorem mergedRow_iff :
    mergedRow ip ie prio threshold i = true ↔
      Eligible ip ie prio threshold i ∧
        ∀ j, i < j → Eligible ip ie prio threshold j → prio j ≤ prio i := by
  unfold mergedRow
  split_ifs with hlast
  · rw [Bool.and_eq_true, decide_eq_true_eq]
    refine ⟨fun h => ⟨h, fun j hj => ?_⟩, fun h => h.1⟩
    have hlt : (i : ℕ) < j := hj
    omega
  · have hrow : ((List.finRange N).all fun j =>
        !decide (i < j) || mat ip ie prio threshold i j) = true ↔
          ∀ j, i < j → mat ip ie prio threshold i j = true := by
      simp [List.all_eq_true, imp_iff_not_or]
    have hnext : i < ⟨i + 1, by omega⟩ := Nat.lt_succ_self i
    rw [hrow]
    refine ⟨fun h => ⟨(mat_iff.mp (h _ hnext)).1, fun j hj => ?_⟩,
      fun h j hj => mat_iff.mpr ⟨h.1, h.2 j hj⟩⟩
    exact (mat_iff.mp (h j hj)).2

theorem lod_iff :
    (lod ip ie prio threshold).getLsbD i = true ↔
      mergedRow ip ie prio threshold i = true ∧
        ∀ j, j < i → mergedRow ip ie prio threshold j = false := by
  have hrow : ∀ j : Fin N, (mergedRows ip ie prio threshold).getLsbD j =
      mergedRow ip ie prio threshold j := fun j =>
    BitVec.iunfoldr_getLsbD (fun _ => ()) j fun _ => rfl
  have hbelow : (∃ j < (i : ℕ),
      (mergedRows ip ie prio threshold).getLsbD j = true) ↔
        ∃ j : Fin N, j < i ∧ mergedRow ip ie prio threshold j = true := by
    constructor
    · rintro ⟨j, hj, hset⟩
      have hN : j < N := hj.trans i.isLt
      exact ⟨⟨j, hN⟩, hj, (hrow ⟨j, hN⟩).symm.trans hset⟩
    · rintro ⟨j, hj, hset⟩
      exact ⟨j, hj, (hrow j).trans hset⟩
  rw [lod, ← BitVec.neg_eq_not_add, BitVec.getLsbD_and, BitVec.getLsbD_neg,
    hrow, decide_eq_true i.isLt, Bool.true_and]
  cases mergedRow ip ie prio threshold i <;> simp [hbelow]

/-- The lowest row that is set is the choice. -/
theorem lod_iff_firstTop :
    (lod ip ie prio threshold).getLsbD i = true ↔
      FirstTop (Eligible ip ie prio threshold) prio i := by
  have hchoice : ∀ k, FirstTop (Eligible ip ie prio threshold) prio k →
      mergedRow ip ie prio threshold k = true ∧
        ∀ j, j < k → mergedRow ip ie prio threshold j = false := by
    intro k hk
    refine ⟨mergedRow_iff.mpr ⟨hk.mem, fun j _ hj => hk.top j hj⟩, fun j hj => ?_⟩
    rw [← Bool.not_eq_true, mergedRow_iff]
    rintro ⟨hmem, hexceeds⟩
    exact BitVec.not_le.mpr (hk.first j hmem hj) (hexceeds k hj hk.mem)
  rw [lod_iff]
  refine ⟨fun ⟨hset, hclear⟩ => ?_, hchoice i⟩
  -- the choice that exists has its row set, so it is not below `i`, nor above
  obtain ⟨k, hk⟩ := exists_firstTop (mergedRow_iff.mp hset).1
  obtain ⟨hkset, hkclear⟩ := hchoice k hk
  rcases lt_trichotomy i k with hlt | rfl | hgt
  · rw [hkclear i hlt] at hset
    cases hset
  · exact hk
  · rw [hclear k hgt] at hkset
    cases hkset

/-- The loop behind the matrix finds the one bit of `lod` that is set. -/
theorem foldr_lod {is : List (Fin N)} {c : Choice} (hi : i ∈ is)
    {x : BitVec N} (hset : ∀ j : Fin N, x.getLsbD j = true ↔ j = i) :
    is.foldr (fun (i : Fin N) (c : Choice) =>
        if x.getLsbD i then ⟨true, i + 1⟩ else c) c = ⟨true, i + 1⟩ := by
  induction is with
  | nil => exact absurd hi List.not_mem_nil
  | cons j is ih =>
    rw [List.foldr_cons]
    split_ifs with hj
    · rw [(hset j).mp hj]
    · rcases List.mem_cons.mp hi with rfl | hi
      · exact absurd ((hset i).mpr rfl) hj
      · exact ih hi

theorem matrix_of_firstTop {c : Choice}
    (h : FirstTop (Eligible ip ie prio threshold) prio i) :
    matrix ip ie prio threshold c = ⟨true, i + 1⟩ := by
  have hset := lod_iff_firstTop.mpr h
  have hne : lod ip ie prio threshold ≠ 0#N := by
    intro hzero
    rw [hzero, BitVec.getLsbD_zero] at hset
    cases hset
  rw [matrix, if_pos hne]
  refine foldr_lod (List.mem_finRange i) fun j => ?_
  rw [lod_iff_firstTop]
  exact ⟨fun hj => hj.unique h, fun hj => hj ▸ h⟩

theorem matrix_of_none {c : Choice}
    (h : ∀ i, ¬ Eligible ip ie prio threshold i) :
    matrix ip ie prio threshold c = ⟨false, 0⟩ := by
  have hzero : lod ip ie prio threshold = 0#N := by
    refine BitVec.eq_of_getLsbD_eq fun k hk => ?_
    rw [BitVec.getLsbD_zero, ← Bool.not_eq_true]
    intro hset
    exact h ⟨k, hk⟩ (lod_iff_firstTop.mp hset).mem
  rw [matrix, if_neg (not_not.mpr hzero)]

/-- The matrix chooses among the eligible sources. -/
theorem matrix_chooses (c : Choice) :
    Chooses prio (Eligible ip ie prio threshold)
      (matrix ip ie prio threshold c) := by
  by_cases h : ∃ i, Eligible ip ie prio threshold i
  · obtain ⟨k, hk⟩ := exists_firstTop h.choose_spec
    rw [matrix_of_firstTop hk]
    exact ⟨iff_of_true rfl h, fun _ => ⟨k, hk, rfl⟩⟩
  · rw [matrix_of_none fun i hi => h ⟨i, hi⟩]
    exact ⟨iff_of_false Bool.false_ne_true h, nofun⟩

/-! The two versions -/

theorem sequential_irq :
    (sequential ip ie prio threshold).irq = true ↔
      ∃ i, FromFloor ip ie prio (threshold + 1) i := by
  unfold sequential
  rcases target_picked ip ie prio threshold with ⟨h, hnone⟩ | ⟨k, hk, h⟩
  · rw [h]
    exact iff_of_false Bool.false_ne_true fun ⟨i, hi⟩ => hnone i hi
  · rw [h]
    exact iff_of_true rfl ⟨k, hk.mem⟩

/-- Below the greatest threshold the loop is the matrix. -/
theorem sequential_eq_matrix (h : threshold ≠ BitVec.allOnes w) (c : Choice) :
    sequential ip ie prio threshold = matrix ip ie prio threshold c := by
  have hfloor : FromFloor ip ie prio (threshold + 1) =
      Eligible ip ie prio threshold :=
    funext fun j => propext (fromFloor_succ h)
  have hpicked := target_picked ip ie prio threshold
  rw [hfloor] at hpicked
  unfold sequential
  rcases hpicked with ⟨hp, hnone⟩ | ⟨k, hk, hp⟩
  · rw [hp, matrix_of_none hnone]
  · rw [hp, matrix_of_firstTop hk]

/-- Both versions choose the first of the eligible sources with the greatest
priority, and the same, unless the threshold is the greatest one and some
source is pending and enabled. -/
theorem chooses_iff (ip ie : Fin N → Bool) (prio : Fin N → BitVec w)
    (threshold : BitVec w) (c : Choice) :
    Chooses prio (Eligible ip ie prio threshold)
        (sequential ip ie prio threshold) ∧
      Chooses prio (Eligible ip ie prio threshold)
        (matrix ip ie prio threshold c) ∧
      sequential ip ie prio threshold = matrix ip ie prio threshold c ↔
    (threshold = BitVec.allOnes w → ∀ i, (ip i && ie i) = false) := by
  constructor
  · rintro ⟨hseq, -, -⟩ rfl i
    rw [← Bool.not_eq_true]
    intro hi
    -- the loop raises the interrupt although no priority is above the threshold
    obtain ⟨j, hj⟩ := hseq.1.mp (sequential_irq.mpr ⟨i, fromFloor_allOnes.mpr hi⟩)
    exact not_eligible_allOnes hj
  · intro h
    have heq : sequential ip ie prio threshold = matrix ip ie prio threshold c := by
      by_cases hall : threshold = BitVec.allOnes w
      · have hnone := h hall
        subst hall
        rw [matrix_of_none fun i => not_eligible_allOnes, sequential]
        rcases target_picked ip ie prio (BitVec.allOnes w) with ⟨hp, -⟩ | ⟨k, hk, -⟩
        · rw [hp]
        · have hpending := fromFloor_allOnes.mp hk.mem
          rw [hnone k] at hpending
          cases hpending
      · exact sequential_eq_matrix hall c
    rw [heq]
    exact ⟨matrix_chooses c, matrix_chooses c, rfl⟩

/-- With the greatest threshold a source of priority `0` interrupts. -/
theorem chooses_greatest_threshold :
    ¬ Chooses (fun _ : Fin 1 => 0#3)
      (Eligible (fun _ => true) (fun _ => true) (fun _ => 0#3) 7#3)
      (sequential (fun _ : Fin 1 => true) (fun _ => true) (fun _ => 0#3) 7#3) := by
  rintro ⟨hirq, -⟩
  obtain ⟨i, hi⟩ := hirq.mp (by decide)
  exact not_eligible_allOnes hi

end Choosing

/-! ## The controller -/

def claimRe : Access N T w → Fin T → Bool
  | .ccRe t, t' => t = t'
  | _, _ => false

def completeWe : Access N T w → Fin T → Bool
  | .ccWe t _, t' => t = t'
  | _, _ => false

def completeId : Access N T w → Fin T → ℕ
  | .ccWe t ccO, t' => if t = t' then ccO else 0
  | _, _ => 0

/-- The bit of source `i` in `claim` or `complete`, of the strobes and the
numbers of all targets. -/
def select (strobe : Fin T → Bool) (id : Fin T → ℕ) (i : Fin N) : Bool :=
  (List.finRange T).any fun t => strobe t && decide (id t = i + 1)

def claim (s : State N T w) (a : Access N T w) : Fin N → Bool :=
  select (claimRe a) s.irqId

def complete (a : Access N T w) : Fin N → Bool :=
  select (completeWe a) (completeId a)

/-- What the gateway of source `i` sees of the source. -/
def set (s : State N T w) (x : Input N T w) (i : Fin N) : Bool :=
  if x.le i then x.src i && !s.srcD i else x.src i

/-- One clock cycle of `plic_top`. -/
def step (s : State N T w) (x : Input N T w) : State N T w where
  srcD := x.src
  ip i := (s.ip i || (set s x i && !s.ia i && !s.ip i)) &&
    !claim s x.access i
  ia i := (s.ia i || (set s x i && !s.ia i)) && !complete x.access i
  irq t := (target s.ip (s.ieQ t) s.prioQ (s.thresholdQ t)).irqNext
  irqId t := (target s.ip (s.ieQ t) s.prioQ (s.thresholdQ t)).irqIdNext
  prioQ i := match x.access with
    | .prioWe j prioO => if i = j then prioO else s.prioQ i
    | _ => s.prioQ i
  ieQ t := match x.access with
    | .ieWe t' ieO => if t = t' then ieO else s.ieQ t
    | _ => s.ieQ t
  thresholdQ t := match x.access with
    | .thresholdWe t' thresholdO =>
      if t = t' then thresholdO else s.thresholdQ t
    | _ => s.thresholdQ t

/-- The state in cycle `n` of the run of `xs` from reset. -/
def after (xs : ℕ → Input N T w) : ℕ → State N T w
  | 0 => init
  | n + 1 => step (after xs n) (xs n)

theorem select_iff {strobe : Fin T → Bool} {id : Fin T → ℕ} {i : Fin N} :
    select strobe id i = true ↔
      ∃ t, strobe t = true ∧ id t = (i : ℕ) + 1 := by
  unfold select
  simp [List.any_eq_true]

theorem claim_iff {s : State N T w} {a : Access N T w} {i : Fin N} :
    claim s a i = true ↔ ∃ t, a = .ccRe t ∧ s.irqId t = (i : ℕ) + 1 := by
  unfold claim
  rw [select_iff]
  cases a <;> simp [claimRe]

theorem complete_iff {a : Access N T w} {i : Fin N} :
    complete a i = true ↔ ∃ t, a = .ccWe t (i + 1) := by
  unfold complete
  rw [select_iff]
  cases a with
  | ccWe t ccO =>
    simp only [completeWe, completeId, decide_eq_true_eq,
      Access.ccWe.injEq]
    constructor
    · rintro ⟨t', rfl, hid⟩
      rw [if_pos rfl] at hid
      exact ⟨t, rfl, hid⟩
    · rintro ⟨t', rfl, hid⟩
      exact ⟨t, rfl, by rw [if_pos rfl, hid]⟩
  | _ => simp [completeWe]

/-! ## The history of a run -/

section History

variable (xs : ℕ → Input N T w)

/-- In cycle `n` target `t` reads the number of source `i`. -/
def ClaimsAs (t : Fin T) (n : ℕ) (i : Fin N) : Prop :=
  (xs n).access = .ccRe t ∧ (after xs n).irqId t = i + 1

/-- In cycle `n` target `t` writes the number of source `i`. -/
def CompletesAs (t : Fin T) (n : ℕ) (i : Fin N) : Prop :=
  (xs n).access = .ccWe t (i + 1)

def Claims (n : ℕ) (i : Fin N) : Prop := ∃ t, ClaimsAs xs t n i

def Completes (n : ℕ) (i : Fin N) : Prop := ∃ t, CompletesAs xs t n i

/-- Source `i` is claimed before cycle `n` and not completed since. -/
def InService (n : ℕ) (i : Fin N) : Prop :=
  ∃ m, m < n ∧ Claims xs m i ∧ ∀ k, m < k → k < n → ¬ Completes xs k i

/-- The interrupt of source `i` is neither pending nor arriving. -/
def Quiet (n : ℕ) (i : Fin N) : Prop :=
  (after xs n).ip i = false ∧ set (after xs n) (xs n) i = false

/-- The register accesses that software makes: a claim read does not get
the number that the claim read right before it got, and a completion is
written for a source that is claimed, or where it has nothing to
complete. -/
structure Orderly : Prop where
  claims : ∀ n i, Claims xs n i → ¬ Claims xs (n + 1) i
  completes : ∀ n i, Completes xs n i → InService xs n i ∨ Quiet xs n i

end History

variable {xs : ℕ → Input N T w} {n : ℕ} {i : Fin N}

theorem claims_iff :
    Claims xs n i ↔ claim (after xs n) (xs n).access i = true :=
  claim_iff.symm

theorem completes_iff :
    Completes xs n i ↔ complete (xs n).access i = true :=
  complete_iff.symm

theorem Claims.not_completes (h : Claims xs n i) : ¬ Completes xs n i := by
  obtain ⟨t, ht, -⟩ := h
  rintro ⟨t', ht'⟩
  rw [CompletesAs, ht] at ht'
  cases ht'

/-- One cycle of the history. -/
theorem inService_succ :
    InService xs (n + 1) i ↔
      Claims xs n i ∨ InService xs n i ∧ ¬ Completes xs n i := by
  constructor
  · rintro ⟨m, hm, hc, hk⟩
    rcases Nat.lt_succ_iff_lt_or_eq.mp hm with hlt | rfl
    · refine Or.inr ⟨⟨m, hlt, hc, fun k h1 h2 => hk k h1 (by omega)⟩, ?_⟩
      exact hk n hlt (by omega)
    · exact Or.inl hc
  · rintro (hc | ⟨⟨m, hm, hc, hk⟩, hn⟩)
    · exact ⟨n, by omega, hc, fun k h1 h2 => by omega⟩
    · refine ⟨m, by omega, hc, fun k h1 h2 => ?_⟩
      rcases Nat.lt_succ_iff_lt_or_eq.mp h2 with h2 | rfl
      · exact hk k h1 h2
      · exact hn

/-! ## The gateway, bit by bit -/

/-- A pending source was pending, or it was set while inactive; it is not
claimed. -/
theorem ip_succ :
    (after xs (n + 1)).ip i = true ↔
      ((after xs n).ip i = true ∨
          set (after xs n) (xs n) i = true ∧ (after xs n).ia i = false) ∧
        ¬ Claims xs n i := by
  rw [claims_iff]
  show (((after xs n).ip i || _) && !claim _ _ i) = true ↔ _
  cases (after xs n).ip i <;> simp

/-- An active source was active, or it is set; it is not completed. -/
theorem ia_succ :
    (after xs (n + 1)).ia i = true ↔
      ((after xs n).ia i = true ∨ set (after xs n) (xs n) i = true) ∧
        ¬ Completes xs n i := by
  rw [completes_iff]
  show (((after xs n).ia i || _) && !complete _ i) = true ↔ _
  cases (after xs n).ia i <;> simp

/-- A registered source was pending in the cycle before. -/
theorem irqId_succ {t : Fin T} (h : (after xs (n + 1)).irqId t = i + 1) :
    (after xs n).ip i = true := by
  have hid : (target (after xs n).ip ((after xs n).ieQ t)
      (after xs n).prioQ ((after xs n).thresholdQ t)).irqIdNext =
        (i : ℕ) + 1 := h
  rcases target_claimable (after xs n).ip ((after xs n).ieQ t)
    (after xs n).prioQ ((after xs n).thresholdQ t) with h0 | ⟨j, hj, hip, -⟩
  · omega
  · have hij : j = i := Fin.ext (by omega)
    rw [← hij]
    exact hip

/-! ## The invariant -/

/-- What holds in cycle `n` of source `i`. -/
structure Inv (xs : ℕ → Input N T w) (n : ℕ) (i : Fin N) : Prop where
  active : (after xs n).ip i = true → (after xs n).ia i = true
  apart : (after xs n).ip i = true → ¬ InService xs n i
  served : InService xs n i → (after xs n).ia i = true

theorem init_inv : Inv xs 0 i where
  active h := nomatch h
  apart h := nomatch h
  served h := by
    obtain ⟨m, hm, -⟩ := h
    omega

/-- A source that is claimed is pending. -/
theorem Orderly.ip_of_claims (ho : Orderly xs) (h : Claims xs n i) :
    (after xs n).ip i = true := by
  cases n with
  | zero =>
    obtain ⟨t, -, hid⟩ := h
    exact absurd (show 0 = (i : ℕ) + 1 from hid) (by omega)
  | succ n =>
    have hnot : ¬ Claims xs n i := fun hc => ho.claims n i hc h
    obtain ⟨t, -, hid⟩ := h
    exact ip_succ.mpr ⟨Or.inl (irqId_succ hid), hnot⟩

theorem step_inv (ho : Orderly xs) (h : Inv xs n i) :
    Inv xs (n + 1) i where
  active hip := by
    obtain ⟨hset, -⟩ := ip_succ.mp hip
    refine ia_succ.mpr ⟨?_, fun hc => ?_⟩
    · rcases hset with hp | ⟨hs, -⟩
      · exact Or.inl (h.active hp)
      · exact Or.inr hs
    · rcases ho.completes n i hc with hin | ⟨hp', hs'⟩
      · rcases hset with hp | ⟨-, hia⟩
        · exact h.apart hp hin
        · exact absurd (h.served hin) (by rw [hia]; nofun)
      · rcases hset with hp | ⟨hs, -⟩
        · rw [hp'] at hp
          cases hp
        · rw [hs'] at hs
          cases hs
  apart hip := by
    obtain ⟨hset, hnot⟩ := ip_succ.mp hip
    rw [inService_succ]
    rintro (hc | ⟨hin, -⟩)
    · exact hnot hc
    · rcases hset with hp | ⟨-, hia⟩
      · exact h.apart hp hin
      · exact absurd (h.served hin) (by rw [hia]; nofun)
  served hin := by
    rw [ia_succ]
    rcases inService_succ.mp hin with hc | ⟨hin, hnot⟩
    · exact ⟨Or.inl (h.active (ho.ip_of_claims hc)), hc.not_completes⟩
    · exact ⟨Or.inl (h.served hin), hnot⟩

theorem Orderly.inv (ho : Orderly xs) (n : ℕ) : Inv xs n i := by
  induction n with
  | zero => exact init_inv
  | succ n ih => exact step_inv ho ih

/-! ## The claim protocol -/

section Protocol

variable (xs : ℕ → Input N T w)

/-- No two claim reads return a source without a completion between
them. -/
def ClaimedOnce : Prop :=
  ∀ m n i, m < n → Claims xs m i → Claims xs n i →
    ∃ k, m < k ∧ k < n ∧ Completes xs k i

/-- A claimed source is not pending until the target that claimed it
completes it. -/
def NotPendingForOwner : Prop :=
  ∀ t m n i, m < n → ClaimsAs xs t m i →
    (∀ k, m < k → k < n → ¬ CompletesAs xs t k i) →
      (after xs n).ip i = false

/-- A claimed source is not pending until some target completes it. -/
def NotPendingInService : Prop :=
  ∀ m n i, m < n → Claims xs m i →
    (∀ k, m < k → k < n → ¬ Completes xs k i) → (after xs n).ip i = false

/-- A level source that is still asserted behind its completion is pending
again. -/
def Rearmed : Prop :=
  ∀ n i, Completes xs n i → (xs (n + 1)).le i = false →
    (xs (n + 1)).src i = true → (after xs (n + 2)).ip i = true

end Protocol

theorem Orderly.claimedOnce (ho : Orderly xs) : ClaimedOnce xs := by
  intro m n i hmn hm hn
  by_contra hno
  have hin : InService xs n i :=
    ⟨m, hmn, hm, fun k h1 h2 hc => hno ⟨k, h1, h2, hc⟩⟩
  exact (ho.inv n).apart (ho.ip_of_claims hn) hin

theorem Orderly.notPendingInService (ho : Orderly xs) :
    NotPendingInService xs := by
  intro m n i hmn hm hk
  rw [← Bool.not_eq_true]
  intro hip
  exact (ho.inv n).apart hip ⟨m, hmn, hm, hk⟩

/-- The completion leaves the source inactive and, by the invariant, not
pending; the next cycle sets it. -/
theorem Orderly.rearmed (ho : Orderly xs) : Rearmed xs := by
  intro n i hc hle hsrc
  have hia : ¬ (after xs (n + 1)).ia i = true :=
    fun h => (ia_succ.mp h).2 hc
  have hip : ¬ (after xs (n + 1)).ip i = true :=
    fun h => hia ((ho.inv (n + 1)).active h)
  have hset : set (after xs (n + 1)) (xs (n + 1)) i = true := by
    unfold set
    rw [hle]
    exact hsrc
  refine ip_succ.mpr ⟨Or.inr ⟨hset, ?_⟩, fun h => ?_⟩
  · rwa [Bool.not_eq_true] at hia
  · exact hip (ho.ip_of_claims h)

/-- With orderly accesses an interrupt is claimed once, is not pending
while it is in service, and comes back behind its completion if its level
is still there. -/
theorem claim_protocol (ho : Orderly xs) :
    ClaimedOnce xs ∧ NotPendingInService xs ∧ Rearmed xs :=
  ⟨ho.claimedOnce, ho.notPendingInService, ho.rearmed⟩

/-- Two targets enable one source. -/
def configure : List (Access 1 2 1) :=
  [.prioWe ⟨0, Nat.one_pos⟩ 1, .ieWe ⟨0, Nat.two_pos⟩ fun _ => true,
    .ieWe ⟨1, Nat.one_lt_two⟩ fun _ => true, .idle]

/-- One source whose level stays asserted; the accesses `as` follow the
configuration. -/
def asserted (as : List (Access 1 2 1)) (n : ℕ) : Input 1 2 1 where
  src _ := true
  le _ := false
  access := (configure ++ as).getD n .idle

theorem claim_protocol_asserted :
    ClaimedOnce (asserted [.ccRe 0, .idle, .ccWe 0 1]) ∧
      NotPendingInService (asserted [.ccRe 0, .idle, .ccWe 0 1]) ∧
      Rearmed (asserted [.ccRe 0, .idle, .ccWe 0 1]) := by
  have hread : ∀ n t,
      (asserted [.ccRe 0, .idle, .ccWe 0 1] n).access = .ccRe t → n = 4 := by
    intro n t h
    rcases n with _ | _ | _ | _ | _ | _ | _ | n
    all_goals first | rfl | cases h
  have hwrite : ∀ n t c,
      (asserted [.ccRe 0, .idle, .ccWe 0 1] n).access = .ccWe t c →
        n = 6 := by
    intro n t c h
    rcases n with _ | _ | _ | _ | _ | _ | _ | n
    all_goals first | rfl | cases h
  refine claim_protocol ⟨fun n i h h' => ?_, fun n i h => Or.inl ?_⟩
  · obtain ⟨t, ht, -⟩ := h
    obtain ⟨t', ht', -⟩ := h'
    have h1 := hread n t ht
    have h2 := hread (n + 1) t' ht'
    omega
  · obtain ⟨t, ht⟩ := h
    obtain rfl := hwrite n t _ ht
    obtain rfl := Subsingleton.elim 0 i
    refine ⟨4, by omega, ⟨0, rfl, by decide +kernel⟩, fun k h1 h2 => ?_⟩
    rintro ⟨t', ht'⟩
    have hk := hwrite k t' _ ht'
    omega

/-- Two targets that read in turn claim one interrupt both, and a
completion by the target that has not claimed it makes it pending again. -/
theorem claim_protocol_broken :
    ¬ ClaimedOnce (asserted [.ccRe 0, .ccRe 1]) ∧
      ¬ NotPendingForOwner (asserted [.ccRe 0, .ccWe 1 1]) := by
  constructor
  · intro h
    obtain ⟨k, h1, h2, -⟩ := h 4 5 0 (by omega)
      ⟨0, rfl, by decide +kernel⟩ ⟨1, rfl, by decide +kernel⟩
    omega
  · intro h
    have hip := h 0 4 7 0 (by omega) ⟨rfl, by decide +kernel⟩
      (fun k h1 h2 hc => by
        obtain rfl | rfl : k = 5 ∨ k = 6 := by omega
        · exact nomatch hc
        · exact nomatch hc)
    revert hip
    decide +kernel

end ArianeSoc.Plic
