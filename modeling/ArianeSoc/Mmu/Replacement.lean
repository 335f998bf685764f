import ArianeSoc.Mmu.Tlb
import Mathlib.Data.List.Induction

/-!
# The entry that a TLB replaces

The PLRU tree of `tlb.sv` is a tree of bits with one leaf for each number of
`$clog2(TLB_ENTRIES)` bits.  `Touched` says which trees hits make, and which
entry was hit last; the tree of a run of the TLB is one of them
(`exists_touched_run`).

A number of entries that is no power of two passes the check of the
parameters, but leaves some of the leaves without an entry:
`replaces_iff` says that the tree always selects one entry, and not the one
hit last, for the powers of two only.
-/

namespace ArianeSoc.Tlb

open PlruTree

variable {n w : ℕ} {t : ℕ → Bool} {q : State n w} {k : Fin n}

/-- A tree after hits, with the entry that was hit last. -/
inductive Touched (n : ℕ) : (ℕ → Bool) → Option (Fin n) → Prop
  | reset : Touched n (fun _ => false) none
  | hit {t : ℕ → Bool} {last : Option (Fin n)} (h : Touched n t last)
    (k : Fin n) : Touched n (plruTouch t k) (some k)

/-- The parameter check of the source. -/
def Admitted (n : ℕ) : Prop := n % 2 = 0 ∧ 1 < n

/-- One entry is selected, and not the one hit last. -/
def Replaces (q : State n w) (last : Option (Fin n)) : Prop :=
  (∃! k, replaceEn q k = true) ∧ ∀ k, last = some k → replaceEn q k = false

/-! ## Runs of the TLB -/

/-- The entries that a lookup hits, in the order of the loop. -/
def hits (q : State n w) (i : In w) : List (Fin n) :=
  (List.finRange n).filter fun k =>
    luHit q i.luAsid i.luVaddr k && i.luAccess

theorem plruNext_eq_foldl (q : State n w) (i : In w) :
    plruNext q i = (hits q i).foldl plruTouch q.plruTree := by
  rw [hits, List.foldl_filter]
  rfl

theorem Touched.foldl {last : Option (Fin n)} (h : Touched n t last)
    (ks : List (Fin n)) :
    Touched n (ks.foldl plruTouch t) (ks.getLast?.or last) := by
  induction ks using List.reverseRecOn with
  | nil => exact h
  | append_singleton ks k ih =>
    rw [List.foldl_concat, List.getLast?_concat]
    exact .hit ih k

/-- The registers after the inputs of a run from reset, and the entry that
was hit last. -/
def run (n w : ℕ) (is : List (In w)) : State n w × Option (Fin n) :=
  is.foldl (fun s i => (step s.1 i, (hits s.1 i).getLast?.or s.2))
    (reset n w, none)

theorem touched_run (is : List (In w)) :
    Touched n (run n w is).1.plruTree (run n w is).2 := by
  induction is using List.reverseRecOn with
  | nil => exact .reset
  | append_singleton is i ih =>
    rw [run, List.foldl_concat]
    show Touched n (plruNext (run n w is).1 i) _
    rw [plruNext_eq_foldl]
    exact ih.foldl _

/-! ## Which numbers of entries work -/

theorem replaces_of_two_pow {d : ℕ} (hn : n = 2 ^ d) (hd : 1 < n)
    {last : Option (Fin n)} (h : Touched n q.plruTree last) :
    Replaces q last := by
  have hclog : Nat.clog 2 n = d := by rw [hn, Nat.clog_pow 2 d (by decide)]
  constructor
  · obtain ⟨k, hk, hpoints⟩ := exists_points q.plruTree (Nat.clog 2 n)
    rw [hclog, ← hn] at hk
    refine ⟨⟨k, hk⟩, (replaceEn_iff_points q).2 hpoints, fun j hj => ?_⟩
    exact replaceEn_unique q hj ((replaceEn_iff_points q).2 hpoints)
  · rintro k rfl
    rw [Bool.eq_false_iff, Ne, replaceEn_iff_points]
    generalize q.plruTree = t at h
    cases h with
    | hit _ k => exact not_points_touch (Nat.clog_pos (by decide) hd) (lt_two_pow k)

/-- Where the tree has a leaf without an entry, hits can make it select no
entry. -/
theorem exists_touched_none (hn : ∀ d, n ≠ 2 ^ d) :
    ∃ t last, Touched n t last ∧
      ∀ q : State n w, q.plruTree = t → ∀ k, replaceEn q k = false := by
  have hlt : n < 2 ^ Nat.clog 2 n :=
    Nat.lt_of_le_of_ne (Nat.le_pow_clog (by decide) n) (hn _)
  have hfree : ∃ e < 2 ^ Nat.clog 2 n, ¬ e < n :=
    ⟨n, hlt, Nat.lt_irrefl n⟩
  obtain ⟨ks, hks, hnone⟩ := exists_unreached (S := (· < n))
    (fun s hs => hs.trans hlt) hfree (fun _ => false)
  have hmap : (ks.pmap Fin.mk hks).map Fin.val = ks := by
    rw [List.map_pmap]
    exact List.pmap_eq_self.2 fun _ _ => rfl
  rw [← hmap, List.foldl_map] at hnone
  refine ⟨_, _, Touched.reset.foldl (ks.pmap Fin.mk hks), fun q hq k => ?_⟩
  rw [Bool.eq_false_iff, Ne, replaceEn_iff_points, hq]
  exact hnone k k.isLt

/-- The tree always selects one entry, and not the one hit last, if and only
if the number of entries is a power of two. -/
theorem replaces_iff (hn : Admitted n) :
    (∀ (q : State n w) (last : Option (Fin n)),
      Touched n q.plruTree last → Replaces q last) ↔ ∃ d, n = 2 ^ d := by
  constructor
  · intro h
    by_contra hpow
    obtain ⟨t, last, ht, hnone⟩ :=
      exists_touched_none (n := n) (w := w) fun d hd => hpow ⟨d, hd⟩
    obtain ⟨k, hk, -⟩ := (h { reset n w with plruTree := t } last ht).1
    rw [hnone _ rfl k] at hk
    exact Bool.false_ne_true hk
  · rintro ⟨d, hd⟩ q last h
    exact replaces_of_two_pow hd hn.2 h

/-- With eight entries the tree always selects one. -/
theorem replaces_iff_eight :
    Replaces (run 8 1 []).1 (run 8 1 []).2 :=
  (replaces_iff ⟨rfl, by decide⟩).2 ⟨3, rfl⟩ _ _ (touched_run [])

/-- The inputs that fill an entry with a page, and that look the page up. -/
def fillAndHit (vpn : BitVec 27) : List (In 1) :=
  [{ flush := false
     update := ⟨true, false, false, vpn, 0#1, 0#64⟩
     luAccess := false, luAsid := 0#1, luVaddr := 0#64 },
   { flush := false
     update := ⟨false, false, false, 0#27, 0#1, 0#64⟩
     luAccess := true, luAsid := 0#1
     luVaddr := vpn.setWidth 64 <<< 12 }]

/-- Six entries pass the check; when three of them have been filled and hit,
none is selected. -/
theorem not_replaces_six :
    Admitted 6 ∧
      ¬ Replaces (run 6 1 (fillAndHit 0#27 ++ fillAndHit 1#27 ++
          fillAndHit 2#27)).1 (run 6 1 (fillAndHit 0#27 ++ fillAndHit 1#27 ++
          fillAndHit 2#27)).2 := by
  have hnone : ∀ k, replaceEn (run 6 1 (fillAndHit 0#27 ++ fillAndHit 1#27 ++
      fillAndHit 2#27)).1 k = false := by
    decide +kernel
  refine ⟨⟨rfl, by decide⟩, fun h => ?_⟩
  obtain ⟨k, hk, -⟩ := h.1
  rw [hnone k] at hk
  exact Bool.false_ne_true hk

end ArianeSoc.Tlb
