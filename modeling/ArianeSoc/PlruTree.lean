import ArianeSoc.Loop
import Mathlib.Algebra.Group.Nat.Defs
import Mathlib.Data.Nat.Bitwise
import Mathlib.Data.Nat.Find

/-!
# Trees of bits that point to a leaf

A complete binary tree with `2 ^ d` leaves has a bit at each inner node,
which says in which of the two subtrees the leaf to be replaced is.  The
nodes are numbered from the root, level by level.  A use of a leaf turns the
bits on the way to it away (`touch`).

* `exists_points` and `points_unique`: the bits point to one leaf.
* `not_points_touch`: a leaf is not pointed to after its use.
* `exists_unreached`: where only some of the leaves are there, uses of these
  can make the bits point to one that is not.

Nothing here names a design.
-/

namespace PlruTree

variable {d l lvl lvl' j k e : ℕ} {t : ℕ → Bool}

/-- The node of a level on the way to a leaf. -/
def node (d lvl k : ℕ) : ℕ := 2 ^ lvl - 1 + k >>> (d - lvl)

/-- The bit that leads from there to the leaf. -/
def branch (d lvl k : ℕ) : Bool := k.testBit (d - lvl - 1)

/-- Every node on the way points to the leaf. -/
def Points (t : ℕ → Bool) (d k : ℕ) : Prop :=
  ∀ lvl < d, t (node d lvl k) = branch d lvl k

/-- Every node on the way points away from the leaf. -/
def touch (d : ℕ) (t : ℕ → Bool) (k : ℕ) : ℕ → Bool :=
  (List.range d).foldl
    (fun t lvl => Function.update t (node d lvl k) (!branch d lvl k)) t

/-! ## Ways -/

theorem way_zero (hk : k < 2 ^ d) : k >>> (d - 0) = 0 := by
  rw [Nat.sub_zero, Nat.shiftRight_eq_div_pow, Nat.div_eq_of_lt hk]

theorem way_lt (hk : k < 2 ^ d) (hl : lvl ≤ d) : k >>> (d - lvl) < 2 ^ lvl := by
  rw [Nat.shiftRight_eq_div_pow]
  apply Nat.div_lt_of_lt_mul
  rwa [← Nat.pow_add, Nat.sub_add_cancel hl]

/-- A way is that to the level above and the branch there. -/
theorem way_succ (hl : lvl < d) :
    k >>> (d - (lvl + 1)) =
      2 * k >>> (d - lvl) + (branch d lvl k).toNat := by
  obtain ⟨m, hm⟩ : ∃ m, d - lvl = m + 1 := ⟨d - lvl - 1, by omega⟩
  rw [branch, hm, Nat.add_sub_cancel, show d - (lvl + 1) = m by omega,
    Nat.shiftRight_succ, Nat.testBit_eq_decide_div_mod_eq,
    ← Nat.shiftRight_eq_div_pow]
  rcases Nat.mod_two_eq_zero_or_one (k >>> m) with h0 | h1
  · rw [h0]
    show k >>> m = 2 * (k >>> m / 2) + 0
    omega
  · rw [h1]
    show k >>> m = 2 * (k >>> m / 2) + 1
    omega

theorem way_succ_eq_iff (hl : lvl < d) :
    k >>> (d - (lvl + 1)) = j >>> (d - (lvl + 1)) ↔
      k >>> (d - lvl) = j >>> (d - lvl) ∧
        branch d lvl k = branch d lvl j := by
  rw [way_succ hl, way_succ hl]
  generalize k >>> (d - lvl) = x
  generalize j >>> (d - lvl) = y
  cases branch d lvl k <;> cases branch d lvl j <;> simp <;> omega

/-- Two ways that part stay apart. -/
theorem way_ne_of_le (h : k >>> (d - l) ≠ j >>> (d - l)) (hl : l ≤ lvl)
    (hlvl : lvl ≤ d) : k >>> (d - lvl) ≠ j >>> (d - lvl) := by
  intro heq
  apply h
  have hsplit : d - l = d - lvl + (lvl - l) := by omega
  rw [hsplit, Nat.shiftRight_add, Nat.shiftRight_add, heq]

/-- The numbers of the nodes of a level. -/
theorem node_bounds (hk : k < 2 ^ d) (hl : lvl ≤ d) :
    2 ^ lvl ≤ node d lvl k + 1 ∧ node d lvl k + 1 < 2 ^ (lvl + 1) := by
  have hlt := way_lt hk hl
  have hpos := Nat.two_pow_pos lvl
  rw [node, Nat.pow_succ]
  generalize k >>> (d - lvl) = x at hlt
  generalize 2 ^ lvl = p at hlt hpos
  omega

/-- Nodes of different levels differ. -/
theorem node_ne_of_lt (hk : k < 2 ^ d) (hj : j < 2 ^ d) (hll : lvl < lvl')
    (hl' : lvl' ≤ d) : node d lvl k ≠ node d lvl' j := by
  have hlow := (node_bounds hk (Nat.le_trans hll.le hl')).2
  have hhigh := (node_bounds hj hl').1
  have hpow : 2 ^ (lvl + 1) ≤ 2 ^ lvl' := Nat.pow_le_pow_right (by decide) hll
  omega

/-- A node is on the ways that agree down to it. -/
theorem node_eq_iff (hk : k < 2 ^ d) (hj : j < 2 ^ d) (hl : lvl ≤ d)
    (hl' : lvl' ≤ d) :
    node d lvl k = node d lvl' j ↔
      lvl = lvl' ∧ k >>> (d - lvl) = j >>> (d - lvl) := by
  constructor
  · intro h
    rcases Nat.lt_trichotomy lvl lvl' with hll | rfl | hll
    · exact absurd h (node_ne_of_lt hk hj hll hl')
    · exact ⟨rfl, Nat.add_left_cancel h⟩
    · exact absurd h.symm (node_ne_of_lt hj hk hll hl)
  · rintro ⟨rfl, h⟩
    rw [node, node, h]

/-! ## The leaf that the bits point to -/

/-- A leaf that is pointed to is on a way that the bits lead along. -/
theorem Points.way_eq (h : Points t d k) (hk : k < 2 ^ d) (he : e < 2 ^ d)
    (hl : l ≤ d) (hway : ∀ lvl < l, t (node d lvl e) = branch d lvl e) :
    k >>> (d - l) = e >>> (d - l) := by
  induction l with
  | zero => rw [way_zero hk, way_zero he]
  | succ l ih =>
    have hup := ih (by omega) fun lvl hlvl => hway lvl (by omega)
    rw [way_succ_eq_iff hl]
    refine ⟨hup, ?_⟩
    have hnode : node d l k = node d l e := by rw [node, node, hup]
    rw [← h l hl, ← hway l (by omega), hnode]

theorem points_unique (hk : Points t d k) (hj : Points t d j)
    (hkd : k < 2 ^ d) (hjd : j < 2 ^ d) : k = j := by
  have hway := hk.way_eq hkd hjd (Nat.le_refl d) hj
  rwa [Nat.sub_self] at hway

/-- The way that the bits lead along, level by level. -/
def way (t : ℕ → Bool) : ℕ → ℕ
  | 0 => 0
  | l + 1 => 2 * way t l + (t (2 ^ l - 1 + way t l)).toNat

theorem way_below (t : ℕ → Bool) (l m : ℕ) : way t (l + m) >>> m = way t l := by
  induction m with
  | zero => rfl
  | succ m ih =>
    have hbit := Bool.toNat_lt (t (2 ^ (l + m) - 1 + way t (l + m)))
    rw [Nat.add_comm m 1, Nat.shiftRight_add, Nat.add_comm 1 m]
    show (2 * way t (l + m) + _) >>> 1 >>> m = way t l
    rw [Nat.shiftRight_one, show ∀ x b : ℕ, b < 2 → (2 * x + b) / 2 = x by
      omega, ih]
    exact hbit

theorem exists_points (t : ℕ → Bool) (d : ℕ) : ∃ k < 2 ^ d, Points t d k := by
  have hlt : ∀ l, way t l < 2 ^ l := by
    intro l
    induction l with
    | zero => exact Nat.one_pos
    | succ l ih =>
      have hbit := Bool.toNat_lt (t (2 ^ l - 1 + way t l))
      rw [way, Nat.pow_succ]
      omega
  refine ⟨way t d, hlt d, fun lvl hlvl => ?_⟩
  have hup : way t d >>> (d - lvl) = way t lvl := by
    have h := way_below t lvl (d - lvl)
    rwa [Nat.add_sub_cancel' hlvl.le] at h
  have hnext : way t d >>> (d - (lvl + 1)) = way t (lvl + 1) := by
    have h := way_below t (lvl + 1) (d - (lvl + 1))
    rwa [Nat.add_sub_cancel' hlvl] at h
  rw [way_succ hlvl, hup, way] at hnext
  rw [node, hup]
  have hbits := Nat.add_left_cancel hnext
  revert hbits
  cases branch d lvl (way t d) <;> cases t (2 ^ lvl - 1 + way t lvl) <;> simp

/-! ## Uses -/

theorem touch_of_ne {m : ℕ} (hm : ∀ lvl < d, node d lvl k ≠ m) :
    touch d t k m = t m := by
  refine Loop.writes_of_notMem (fun hmem => ?_) t
  obtain ⟨lvl, hlvl, rfl⟩ := List.mem_map.1 hmem
  exact hm lvl (List.mem_range.1 hlvl) rfl

/-- The nodes on the way to a leaf that is used point away from it. -/
theorem touch_node (hk : k < 2 ^ d) (hl : lvl < d) :
    touch d t k (node d lvl k) = !branch d lvl k := by
  have hnodup : ((List.range d).map fun lvl => node d lvl k).Nodup := by
    refine List.Nodup.map_on (fun a ha b hb hab => ?_) List.nodup_range
    rw [List.mem_range] at ha hb
    exact ((node_eq_iff hk hk ha.le hb.le).1 hab).1
  exact Loop.writes_of_mem hnodup (List.mem_range.2 hl) t

theorem not_points_touch (hd : 0 < d) (hk : k < 2 ^ d) :
    ¬ Points (touch d t k) d k := by
  intro h
  have hroot := h 0 hd
  rw [touch_node hk hd] at hroot
  exact Bool.not_ne_self _ hroot

/-- The use of a leaf does not change the nodes that its way does not
pass. -/
theorem touch_of_way_ne (hk : k < 2 ^ d) (he : e < 2 ^ d) (hl : l ≤ d)
    (hway : k >>> (d - l) ≠ e >>> (d - l)) :
    touch d t k (node d l e) = t (node d l e) := by
  refine touch_of_ne fun lvl hlvl heq => hway ?_
  obtain ⟨rfl, h⟩ := (node_eq_iff hk he hlvl.le hl).1 heq
  exact h

theorem foldl_touch_of_way_ne {ks : List ℕ} (he : e < 2 ^ d) (hl : l ≤ d)
    (hks : ∀ k ∈ ks, k < 2 ^ d ∧ k >>> (d - l) ≠ e >>> (d - l)) :
    ks.foldl (touch d) t (node d l e) = t (node d l e) := by
  induction ks generalizing t with
  | nil => rfl
  | cons k ks ih =>
    obtain ⟨hk, hway⟩ := hks k List.mem_cons_self
    rw [List.foldl_cons, ih fun j hj => hks j (List.mem_cons_of_mem k hj),
      touch_of_way_ne hk he hl hway]

/-- Where on every level a leaf branches off the way to `e`, uses of these
leaves, the lowest level first, make the bits lead along it. -/
theorem exists_uses {S : ℕ → Prop} (hS : ∀ s, S s → s < 2 ^ d)
    (he : e < 2 ^ d) (hl : l ≤ d)
    (hbranch : ∀ lvl < l, ∃ s, S s ∧
      s >>> (d - lvl) = e >>> (d - lvl) ∧ branch d lvl s ≠ branch d lvl e)
    (t : ℕ → Bool) :
    ∃ ks : List ℕ,
      (∀ k ∈ ks, S k ∧ k >>> (d - l) ≠ e >>> (d - l)) ∧
      ∀ lvl < l, ks.foldl (touch d) t (node d lvl e) = branch d lvl e := by
  induction l generalizing t with
  | zero => exact ⟨[], by simp, fun lvl hlvl => absurd hlvl (Nat.not_lt_zero lvl)⟩
  | succ l ih =>
    obtain ⟨s, hs, hway, hbit⟩ := hbranch l (Nat.lt_succ_self l)
    obtain ⟨ks, hks, hlead⟩ := ih (by omega)
      (fun lvl hlvl => hbranch lvl (by omega)) (touch d t s)
    have hpart : s >>> (d - (l + 1)) ≠ e >>> (d - (l + 1)) := fun h =>
      hbit ((way_succ_eq_iff hl).1 h).2
    refine ⟨s :: ks, ?_, fun lvl hlvl => ?_⟩
    · intro k hk
      rcases List.mem_cons.1 hk with rfl | hk
      · exact ⟨hs, hpart⟩
      · exact ⟨(hks k hk).1, way_ne_of_le (hks k hk).2 (Nat.le_succ l) hl⟩
    · rw [List.foldl_cons]
      rcases Nat.lt_succ_iff_lt_or_eq.1 hlvl with hlt | rfl
      · exact hlead lvl hlt
      · -- the later uses branch off above this level
        rw [foldl_touch_of_way_ne he (by omega)
          fun k hk => ⟨hS k (hks k hk).1, (hks k hk).2⟩]
        have hnode : node d lvl e = node d lvl s := by
          rw [node, node, hway]
        rw [hnode, touch_node (hS s hs) hl]
        exact Bool.not_eq.2 hbit

/-- The other leaf of the pair that a level tells apart. -/
theorem exists_sibling (he : e < 2 ^ d) (hl : lvl < d) :
    ∃ e' < 2 ^ d, e' >>> (d - lvl) = e >>> (d - lvl) ∧
      branch d lvl e' ≠ branch d lvl e := by
  have hpow : 2 ^ (d - lvl - 1) < 2 ^ d :=
    Nat.pow_lt_pow_right (by decide) (by omega)
  refine ⟨e ^^^ 2 ^ (d - lvl - 1), Nat.xor_lt_two_pow he hpow, ?_, ?_⟩
  · apply Nat.eq_of_testBit_eq
    intro i
    have hne : d - lvl - 1 ≠ d - lvl + i := by omega
    rw [Nat.testBit_shiftRight, Nat.testBit_shiftRight, Nat.testBit_xor,
      Nat.testBit_two_pow_of_ne hne, Bool.xor_false]
  · rw [branch, branch, Nat.testBit_xor, Nat.testBit_two_pow_self,
      Bool.xor_true]
    exact Bool.not_ne_self _

/-- The first level at which a leaf has no leaf of `S` beside it any more;
above it `S` has leaves on both sides. -/
theorem exists_way_out {S : ℕ → Prop} (hfree : ∃ e < 2 ^ d, ¬ S e) :
    ∃ e < 2 ^ d, ∃ l ≤ d,
      (∀ lvl < l, ∃ s, S s ∧ s >>> (d - lvl) = e >>> (d - lvl) ∧
        branch d lvl s ≠ branch d lvl e) ∧
      ∀ s, S s → s >>> (d - l) ≠ e >>> (d - l) := by
  have hex : ∃ l, l ≤ d ∧ ∃ e < 2 ^ d, ∀ s, S s →
      s >>> (d - l) ≠ e >>> (d - l) := by
    obtain ⟨e, he, hnot⟩ := hfree
    refine ⟨d, Nat.le_refl d, e, he, fun s hs heq => hnot ?_⟩
    rw [Nat.sub_self] at heq
    exact (show s = e from heq) ▸ hs
  classical
  obtain ⟨hl, e, he, hapart⟩ := Nat.find_spec hex
  have hmin : ∀ lvl < Nat.find hex, ∀ e < 2 ^ d, ∃ s, S s ∧
      s >>> (d - lvl) = e >>> (d - lvl) := by
    intro lvl hlvl e he
    by_contra hnone
    exact Nat.find_min hex hlvl
      ⟨by omega, e, he, fun s hs heq => hnone ⟨s, hs, heq⟩⟩
  refine ⟨e, he, Nat.find hex, hl, fun lvl hlvl => ?_, hapart⟩
  rcases Nat.lt_or_ge (lvl + 1) (Nat.find hex) with hlt | hge
  · have hlvld : lvl < d := by omega
    obtain ⟨e', he', hway, hbit⟩ := exists_sibling he hlvld
    obtain ⟨s, hs, hs'⟩ := hmin (lvl + 1) hlt e' he'
    obtain ⟨hs', hsbit⟩ := (way_succ_eq_iff hlvld).1 hs'
    exact ⟨s, hs, hs'.trans hway, fun h => hbit (hsbit.symm.trans h)⟩
  · obtain ⟨s, hs, hs'⟩ := hmin lvl hlvl e he
    refine ⟨s, hs, hs', fun h => hapart s hs ?_⟩
    have heq : Nat.find hex = lvl + 1 := by omega
    rw [heq, way_succ_eq_iff (by omega)]
    exact ⟨hs', h⟩

/-- Where a leaf is missing, uses of the others can make the bits point to
none of them. -/
theorem exists_unreached {S : ℕ → Prop} (hS : ∀ s, S s → s < 2 ^ d)
    (hfree : ∃ e < 2 ^ d, ¬ S e) (t : ℕ → Bool) :
    ∃ ks : List ℕ, (∀ k ∈ ks, S k) ∧
      ∀ s, S s → ¬ Points (ks.foldl (touch d) t) d s := by
  obtain ⟨e, he, l, hl, hbranch, hapart⟩ := exists_way_out hfree
  obtain ⟨ks, hks, hlead⟩ := exists_uses hS he hl hbranch t
  refine ⟨ks, fun k hk => (hks k hk).1, fun s hs hpoints => ?_⟩
  exact hapart s hs (hpoints.way_eq (hS s hs) he hl hlead)

end PlruTree
