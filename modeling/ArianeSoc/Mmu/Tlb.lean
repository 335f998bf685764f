import ArianeSoc.Mmu.Ptw
import ArianeSoc.PlruTree
import Mathlib.Algebra.Group.Nat.Defs
import Mathlib.Data.List.FinRange
import Mathlib.Data.Nat.Log
import Mathlib.Logic.Function.Basic

/-!
# A translation lookaside buffer

`tlb.sv` with `n` entries and an ASID of `w` bits.  The lookup goes through
the entries in order and a later hit overwrites the content of an earlier
one, while the flag of a giga page is only ever set.  The update goes to the
entry that the PLRU tree selects.

* `lookup_of_unique`: the lookup if at most one entry hits.
* `replaceEn_unique`: the tree selects at most one entry.
* `step_cases`: what a cycle does to an entry.
-/

namespace ArianeSoc.Tlb

open Ptw

/-- The tag of an entry. -/
structure Tag (w : Nat) where
  asid : BitVec w
  vpn2 : BitVec 9
  vpn1 : BitVec 9
  vpn0 : BitVec 9
  is2M : Bool
  is1G : Bool
  valid : Bool
  deriving DecidableEq

/-- The registers.  The nodes of the PLRU tree are numbered from the
root. -/
structure State (n w : Nat) where
  tags : Fin n → Tag w
  content : Fin n → Pte
  plruTree : Nat → Bool

/-- The registers after a reset. -/
def reset (n w : Nat) : State n w where
  tags := fun _ => ⟨0#w, 0#9, 0#9, 0#9, false, false, false⟩
  content := fun _ => 0#64
  plruTree := fun _ => false

/-- The inputs of one cycle. -/
structure In (w : Nat) where
  flush : Bool
  update : TlbUpdate w
  luAccess : Bool
  luAsid : BitVec w
  luVaddr : BitVec 64

variable {n w : Nat} (q : State n w) (i : In w)

/-! ## Lookup -/

/-- The tag matches the address. -/
def Tag.hits (t : Tag w) (asid : BitVec w) (vaddr : BitVec 64) : Bool :=
  t.valid && asid == t.asid && Ptw.vpn2 vaddr == t.vpn2 &&
    (t.is1G || Ptw.vpn1 vaddr == t.vpn1 &&
      (t.is2M || Ptw.vpn0 vaddr == t.vpn0))

/-- `lu_hit`. -/
def luHit (asid : BitVec w) (vaddr : BitVec 64) (k : Fin n) : Bool :=
  (q.tags k).hits asid vaddr

/-- The outputs of a lookup. -/
structure Lookup where
  content : Pte
  is2M : Bool
  is1G : Bool
  hit : Bool
  deriving DecidableEq

def Lookup.miss : Lookup := ⟨0#64, false, false, false⟩

/-- The outputs after the entry `k`. -/
def lookupStep (asid : BitVec w) (vaddr : BitVec 64) (o : Lookup)
    (k : Fin n) : Lookup :=
  if luHit q asid vaddr k then
    if (q.tags k).is1G then
      { o with content := q.content k, is1G := true, hit := true }
    else
      { o with content := q.content k, is2M := (q.tags k).is2M, hit := true }
  else o

/-- The process `translation`. -/
def lookup (asid : BitVec w) (vaddr : BitVec 64) : Lookup :=
  (List.finRange n).foldl (lookupStep q asid vaddr) Lookup.miss

/-! ## Replacement -/

/-- The node of the level `lvl` on the way to the entry `k`. -/
def plruNode (n lvl k : Nat) : Nat :=
  2 ^ lvl - 1 + k >>> (Nat.clog 2 n - lvl)

/-- The branch that leads to the entry `k` at the level `lvl`. -/
def plruBit (n lvl k : Nat) : Bool := k.testBit (Nat.clog 2 n - lvl - 1)

/-- `replace_en`: every node on the way points to the entry. -/
def replaceEn (k : Fin n) : Bool :=
  ∀ lvl < Nat.clog 2 n, q.plruTree (plruNode n lvl k) = plruBit n lvl k

/-- The nodes on the way to the entry `k` point away from it. -/
def plruTouch (tree : Nat → Bool) (k : Fin n) : Nat → Bool :=
  (List.range (Nat.clog 2 n)).foldl
    (fun t lvl => Function.update t (plruNode n lvl k) (!plruBit n lvl k)) tree

/-- The PLRU tree after a cycle. -/
def plruNext : Nat → Bool :=
  (List.finRange n).foldl
    (fun t k =>
      if luHit q i.luAsid i.luVaddr k && i.luAccess then plruTouch t k else t)
    q.plruTree

/-! ## One cycle -/

/-- The tag of an update. -/
def updateTag (u : TlbUpdate w) : Tag w where
  asid := u.asid
  vpn2 := u.vpn.extractLsb' 18 9
  vpn1 := u.vpn.extractLsb' 9 9
  vpn0 := u.vpn.extractLsb' 0 9
  is2M := u.is2M
  is1G := u.is1G
  valid := true

/-- An entry without its valid flag. -/
def Tag.drop (t : Tag w) : Tag w := { t with valid := false }

/-- The entry takes the update. -/
def takes (k : Fin n) : Bool :=
  !i.flush && i.update.valid && replaceEn q k

/-- A flush drops every entry if the ASID is zero, and else those of the
ASID. -/
def flushes (t : Tag w) : Bool :=
  i.flush && (i.luAsid = 0#w || i.luAsid = t.asid)

def step : State n w where
  tags := fun k =>
    if flushes i (q.tags k) then (q.tags k).drop
    else if takes q i k then updateTag i.update
    else q.tags k
  content := fun k => if takes q i k then i.update.content else q.content k
  plruTree := plruNext q i

/-! ## The selected entry -/

theorem lt_two_pow (k : Fin n) : k.val < 2 ^ Nat.clog 2 n :=
  Nat.lt_of_lt_of_le k.isLt (Nat.le_pow_clog (by decide) n)

theorem replaceEn_iff_points {k : Fin n} :
    replaceEn q k = true ↔ PlruTree.Points q.plruTree (Nat.clog 2 n) k :=
  decide_eq_true_iff

/-- The tree selects at most one entry. -/
theorem replaceEn_unique {k k' : Fin n} (h : replaceEn q k = true)
    (h' : replaceEn q k' = true) : k = k' :=
  Fin.ext (PlruTree.points_unique ((replaceEn_iff_points q).1 h)
    ((replaceEn_iff_points q).1 h') (lt_two_pow k) (lt_two_pow k'))

/-! ## The lookup with one hit -/

variable {q} {asid : BitVec w} {vaddr : BitVec 64}

theorem foldl_lookupStep_of_miss {l : List (Fin n)} {o : Lookup}
    (h : ∀ k ∈ l, luHit q asid vaddr k = false) :
    l.foldl (lookupStep q asid vaddr) o = o := by
  induction l generalizing o with
  | nil => rfl
  | cons k l ih =>
    rw [List.foldl_cons, lookupStep, h k List.mem_cons_self,
      if_neg Bool.false_ne_true]
    exact ih fun j hj => h j (List.mem_cons_of_mem k hj)

theorem foldl_lookupStep_of_unique {l : List (Fin n)} {o : Lookup}
    {k : Fin n} (hl : l.Nodup) (hk : k ∈ l)
    (h : ∀ j, luHit q asid vaddr j = true → j = k) :
    l.foldl (lookupStep q asid vaddr) o = lookupStep q asid vaddr o k := by
  induction l generalizing o with
  | nil => simp at hk
  | cons j l ih =>
    obtain ⟨hnot, hl⟩ := List.nodup_cons.mp hl
    rw [List.foldl_cons]
    by_cases hj : j = k
    · subst hj
      refine foldl_lookupStep_of_miss fun m hm => ?_
      refine Bool.eq_false_iff.mpr fun hit => hnot ?_
      exact h m hit ▸ hm
    · have hmiss : luHit q asid vaddr j = false :=
        Bool.eq_false_iff.mpr fun hit => hj (h j hit)
      rw [lookupStep, hmiss, if_neg Bool.false_ne_true]
      exact ih hl ((List.mem_cons.mp hk).resolve_left (Ne.symm hj))

/-- The lookup gives the one entry that hits. -/
theorem lookup_of_unique {k : Fin n} (hit : luHit q asid vaddr k = true)
    (h : ∀ j, luHit q asid vaddr j = true → j = k) :
    lookup q asid vaddr =
      ⟨q.content k, !(q.tags k).is1G && (q.tags k).is2M, (q.tags k).is1G,
        true⟩ := by
  unfold lookup
  rw [foldl_lookupStep_of_unique (List.nodup_finRange n)
    (List.mem_finRange k) h, lookupStep, if_pos hit]
  cases (q.tags k).is1G <;> rfl

/-- The lookup gives the content of an entry that hits. -/
theorem exists_of_lookup_content (h : (lookup q asid vaddr).hit = true) :
    ∃ k, luHit q asid vaddr k = true ∧
      (lookup q asid vaddr).content = q.content k := by
  have hfold : ∀ (l : List (Fin n)) (o : Lookup),
      l.foldl (lookupStep q asid vaddr) o = o ∨
        ∃ k, luHit q asid vaddr k = true ∧
          (l.foldl (lookupStep q asid vaddr) o).content = q.content k := by
    intro l
    induction l with
    | nil => exact fun o => Or.inl rfl
    | cons j l ih =>
      intro o
      rcases ih (lookupStep q asid vaddr o j) with hkeep | hlater
      · rw [List.foldl_cons, hkeep]
        unfold lookupStep
        split_ifs with hit
        · exact Or.inr ⟨j, hit, rfl⟩
        · exact Or.inr ⟨j, hit, rfl⟩
        · exact Or.inl rfl
      · exact Or.inr hlater
  rcases hfold (List.finRange n) Lookup.miss with hmiss | hfound
  · rw [lookup, hmiss] at h
    exact absurd h Bool.false_ne_true
  · exact hfound

/-- The lookup hits only if an entry does. -/
theorem exists_of_lookup_hit (h : (lookup q asid vaddr).hit = true) :
    ∃ k, luHit q asid vaddr k = true := by
  obtain ⟨k, hk, -⟩ := exists_of_lookup_content h
  exact ⟨k, hk⟩

/-- The lookup misses only if every entry does. -/
theorem not_luHit_of_lookup_miss (h : (lookup q asid vaddr).hit = false)
    (k : Fin n) : luHit q asid vaddr k = false := by
  have hkeep : ∀ (l : List (Fin n)) (o : Lookup), o.hit = true →
      (l.foldl (lookupStep q asid vaddr) o).hit = true := by
    intro l
    induction l with
    | nil => exact fun o ho => ho
    | cons j l ih =>
      intro o ho
      refine ih _ ?_
      unfold lookupStep
      split_ifs <;> first | rfl | exact ho
  refine Bool.eq_false_iff.mpr fun hit => ?_
  have hstep : ∀ o, (lookupStep q asid vaddr o k).hit = true := by
    intro o
    rw [lookupStep, if_pos hit]
    split_ifs <;> rfl
  obtain ⟨l, l', hl⟩ := List.append_of_mem (List.mem_finRange k)
  rw [lookup, hl, List.foldl_append, List.foldl_cons, hkeep _ _ (hstep _)]
    at h
  exact absurd h.symm Bool.false_ne_true

/-! ## What a cycle does to an entry -/

variable {i}

theorem takes_iff {k : Fin n} : takes q i k = true ↔
    i.flush = false ∧ i.update.valid = true ∧ replaceEn q k = true := by
  simp [takes, and_assoc]

/-- An entry is dropped, takes the update or stays. -/
theorem step_cases (q : State n w) (i : In w) (k : Fin n) :
    ((step q i).tags k).valid = false ∨
      (takes q i k = true ∧ (step q i).tags k = updateTag i.update ∧
        (step q i).content k = i.update.content) ∨
      (flushes i (q.tags k) = false ∧ takes q i k = false ∧
        (step q i).tags k = q.tags k ∧ (step q i).content k = q.content k) := by
  cases hf : flushes i (q.tags k) with
  | true => exact Or.inl (by simp [step, hf, Tag.drop])
  | false =>
    cases ht : takes q i k with
    | true => exact Or.inr (Or.inl ⟨rfl, by simp [step, hf, ht],
        by simp [step, ht]⟩)
    | false => exact Or.inr (Or.inr ⟨rfl, rfl, by simp [step, hf, ht],
        by simp [step, ht]⟩)

end ArianeSoc.Tlb
