import ArianeSoc.Mmu.Walk
import ArianeSoc.Mmu.Tlb

/-!
# A translation lookaside buffer that agrees with the page tables

A TLB is `Sound` for an ASID if every entry of the ASID holds the leaf that
the page tables have for its tag.  `ok` is what is checked of a leaf before
the TLB is filled.

* `sound_step`, `sound_of_flush`: soundness is kept by sound updates and
  made by a flush.
* `oneHit_step`: an update for an address that misses keeps it that at most
  one entry hits.
* `holdsLeaf_of_lookup`: a lookup that hits gives the leaf of the address.
-/

namespace ArianeSoc.Tlb

open PageWalk Sv39

variable {n w : Nat}

/-! ## The leaf of an entry -/

/-- The number of indices below the leaf. -/
def Tag.level (t : Tag w) : Nat :=
  if t.is1G then 2 else if t.is2M then 1 else 0

/-- The entry as a leaf that is kept. -/
def Tag.leaf (t : Tag w) (p : Pte) : Cached (BitVec 9) Pte :=
  ⟨[t.vpn2, t.vpn1, t.vpn0], t.level, p⟩

/-- The tag matches the addresses that the leaf is for. -/
theorem hits_iff {t : Tag w} {asid : BitVec w} {vaddr : BitVec 64} (p : Pte) :
    t.hits asid vaddr = true ↔
      t.valid = true ∧ asid = t.asid ∧ (t.leaf p).Hits (vpns vaddr) := by
  have hlevel : (t.leaf p).Hits (vpns vaddr) ↔
      Ptw.vpn2 vaddr = t.vpn2 ∧ (t.is1G = true ∨ Ptw.vpn1 vaddr = t.vpn1 ∧
        (t.is2M = true ∨ Ptw.vpn0 vaddr = t.vpn0)) := by
    unfold Cached.Hits Tag.leaf Tag.level vpns
    cases t.is1G <;> cases t.is2M <;>
      simp [Ptw.vpn2, Ptw.vpn1, Ptw.vpn0]
  rw [hlevel]
  simp [Tag.hits, and_assoc]

/-- A page table entry with the global flag of the walk. -/
def withGlobal (p : Pte) (g : Bool) : Pte :=
  p ||| (BitVec.ofBool g).setWidth 64 <<< 5

variable (mem : BitVec 56 → BitVec 64) (root : BitVec 44) (ok : Pte → Bool)

/-- The entry holds the leaf of its tag. -/
def EntrySound (t : Tag w) (content : Pte) : Prop :=
  ∃ p g, content = withGlobal p g ∧ ok p = true ∧
    (t.leaf p).Sound (pteAt mem) pteKind root

/-- The entries of the ASID hold the leaves of their tags. -/
def Sound (asid : BitVec w) (q : State n w) : Prop :=
  ∀ k, (q.tags k).valid = true → (q.tags k).asid = asid →
    EntrySound mem root ok (q.tags k) (q.content k)

/-- At most one entry hits. -/
def OneHit (q : State n w) : Prop :=
  ∀ asid vaddr k k', luHit q asid vaddr k = true →
    luHit q asid vaddr k' = true → k = k'

/-- A lookup gives the leaf that the page tables have for the address. -/
def HoldsLeaf (vaddr : BitVec 64) (content : Pte) (is2M is1G : Bool) : Prop :=
  ∃ p g rest, leafOf mem root vaddr = some (p, rest) ∧
    content = withGlobal p g ∧ ok p = true ∧
    is2M = (rest.length == 1) ∧ is1G = (rest.length == 2)

variable {mem root ok} {q : State n w} {i : In w} {asid : BitVec w}
  {vaddr : BitVec 64}

/-! ## Soundness -/

theorem sound_reset (n : Nat) (asid : BitVec w) :
    Sound mem root ok asid (reset n w) := by
  intro k hv
  exact absurd hv Bool.false_ne_true

/-- A cycle keeps the entries sound if its update is. -/
theorem sound_step (h : Sound mem root ok asid q)
    (hu : i.update.valid = true →
      EntrySound mem root ok (updateTag i.update) i.update.content) :
    Sound mem root ok asid (step q i) := by
  intro k hv ha
  rcases step_cases q i k with hdrop | ⟨ht, htag, hc⟩ | ⟨-, -, htag, hc⟩
  · rw [hdrop] at hv
    exact absurd hv Bool.false_ne_true
  · rw [htag, hc]
    exact hu (takes_iff.mp ht).2.1
  · rw [htag] at hv ha
    rw [htag, hc]
    exact h k hv ha

/-- A flush leaves no entry of its ASID. -/
theorem sound_of_flush (hf : i.flush = true) :
    Sound mem root ok i.luAsid (step q i) := by
  intro k hv ha
  rcases step_cases q i k with hdrop | ⟨ht, -⟩ | ⟨hno, -, htag, -⟩
  · rw [hdrop] at hv
    exact absurd hv Bool.false_ne_true
  · rw [(takes_iff.mp ht).1] at hf
    exact absurd hf Bool.false_ne_true
  · rw [htag] at ha
    simp [flushes, hf, ha] at hno

/-! ## At most one hit -/

theorem oneHit_reset (n w : Nat) : OneHit (reset n w) := by
  intro asid vaddr k k' h
  simp [luHit, Tag.hits, reset] at h

/-- The tag of an update has the indices of the address of the walk. -/
theorem tag_updateTag {u : Ptw.TlbUpdate w} {a : BitVec 64} (p : Pte)
    (h : u.vpn = a.extractLsb' 12 27) :
    ((updateTag u).leaf p).tag = vpns a := by
  have hsub : ∀ lo, lo + 9 ≤ 27 →
      u.vpn.extractLsb' lo 9 = a.extractLsb' (lo + 12) 9 := by
    intro lo hlo
    rw [h]
    ext j hj
    simp only [BitVec.getElem_extractLsb', BitVec.getLsbD_extractLsb']
    rw [decide_eq_true (by omega : lo + j < 27), Bool.true_and,
      show 12 + (lo + j) = lo + 12 + j by omega]
  show [u.vpn.extractLsb' 18 9, u.vpn.extractLsb' 9 9,
    u.vpn.extractLsb' 0 9] = vpns a
  rw [hsub 18 (by omega), hsub 9 (by omega), hsub 0 (by omega)]
  rfl

theorem leaf_updateTag_hits {u : Ptw.TlbUpdate w} {a : BitVec 64} (p : Pte)
    (h : u.vpn = a.extractLsb' 12 27) :
    ((updateTag u).leaf p).Hits (vpns a) := by
  unfold Cached.Hits
  rw [tag_updateTag p h]
  exact ⟨rfl, rfl⟩

/-- Before the update nothing hits what the update will hit. -/
theorem not_luHit_of_update {a : BitVec 64} {k : Fin n}
    (hs : Sound mem root ok asid q) (hasid : i.update.asid = asid)
    (hvpn : i.update.vpn = a.extractLsb' 12 27)
    (hu : EntrySound mem root ok (updateTag i.update) i.update.content)
    (hmiss : luHit q asid a k = false) {b : BitVec w}
    (hit : (updateTag i.update).hits b vaddr = true) :
    luHit q b vaddr k = false := by
  obtain ⟨p, g, -, -, hp⟩ := hu
  obtain ⟨-, rfl, hhits⟩ := (hits_iff p).mp hit
  rw [show (updateTag i.update).asid = asid from hasid]
  refine Bool.eq_false_iff.mpr fun hk => ?_
  obtain ⟨hv, ha, -⟩ := (hits_iff 0#64).mp hk
  obtain ⟨p', g', -, -, hp'⟩ := hs k hv ha.symm
  have hk' := ((hits_iff p').mp hk).2.2
  have hcommon := hp'.hits_of_common hp hk' hhits
    (leaf_updateTag_hits p hvpn)
  have hhit : luHit q asid a k = true :=
    (hits_iff p').mpr ⟨hv, ha, hcommon⟩
  rw [hmiss] at hhit
  exact absurd hhit Bool.false_ne_true

/-- What hits after a cycle is the update or has hit before. -/
theorem luHit_step {b : BitVec w} {k : Fin n}
    (h : luHit (step q i) b vaddr k = true) :
    takes q i k = true ∧ (updateTag i.update).hits b vaddr = true ∨
      luHit q b vaddr k = true := by
  rcases step_cases q i k with hd | ⟨ht, htag, -⟩ | ⟨-, -, htag, -⟩
  · rw [((hits_iff 0#64).mp h).1] at hd
    exact absurd hd.symm Bool.false_ne_true
  · rw [luHit, htag] at h
    exact Or.inl ⟨ht, h⟩
  · rw [luHit, htag] at h
    exact Or.inr h

/-- Without an update what misses still misses. -/
theorem not_luHit_step {b : BitVec w} {k : Fin n}
    (hu : i.update.valid = false) (h : luHit q b vaddr k = false) :
    luHit (step q i) b vaddr k = false := by
  refine Bool.eq_false_iff.mpr fun hit => ?_
  rcases luHit_step hit with ⟨ht, -⟩ | hold
  · exact absurd (hu.symm.trans (takes_iff.mp ht).2.1) Bool.false_ne_true
  · exact absurd (h.symm.trans hold) Bool.false_ne_true

/-- An update for an address that misses keeps it that at most one entry
hits. -/
theorem oneHit_step (h : OneHit q) (hs : Sound mem root ok asid q)
    (hu : i.update.valid = true → i.flush = false →
      i.update.asid = asid ∧
      EntrySound mem root ok (updateTag i.update) i.update.content ∧
      ∃ a, i.update.vpn = a.extractLsb' 12 27 ∧
        ∀ k, luHit q asid a k = false) : OneHit (step q i) := by
  intro b vaddr k k' hk hk'
  have hmiss : ∀ j, takes q i j = true →
      (updateTag i.update).hits b vaddr = true →
      ∀ m, luHit q b vaddr m ≠ true := by
    intro j hj hit m
    obtain ⟨hf, huv, -⟩ := takes_iff.mp hj
    obtain ⟨hasid, hsound, a, hvpn, hmiss⟩ := hu huv hf
    exact Bool.eq_false_iff.mp
      (not_luHit_of_update hs hasid hvpn hsound (hmiss m) hit)
  rcases luHit_step hk with ⟨ht, hit⟩ | hold
  · rcases luHit_step hk' with ⟨ht', -⟩ | hold'
    · exact replaceEn_unique q (takes_iff.mp ht).2.2 (takes_iff.mp ht').2.2
    · exact absurd hold' (hmiss k ht hit k')
  · rcases luHit_step hk' with ⟨ht', hit'⟩ | hold'
    · exact absurd hold (hmiss k' ht' hit' k)
    · exact h b vaddr k k' hold hold'

/-! ## What a lookup gives -/

theorem holdsLeaf_of_lookup (hs : Sound mem root ok asid q) (h : OneHit q)
    (hit : (lookup q asid vaddr).hit = true) :
    HoldsLeaf mem root ok vaddr (lookup q asid vaddr).content
      (lookup q asid vaddr).is2M (lookup q asid vaddr).is1G := by
  obtain ⟨k, hk⟩ := exists_of_lookup_hit hit
  obtain ⟨hv, ha, -⟩ := (hits_iff 0#64).mp hk
  obtain ⟨p, g, hc, hok, hp⟩ := hs k hv ha.symm
  obtain ⟨rest, hwalk, hlen⟩ := hp.walk ((hits_iff p).mp hk).2.2
  rw [lookup_of_unique hk fun j hj => h asid vaddr j k hj hk]
  refine ⟨p, g, rest, hwalk, hc, hok, ?_, ?_⟩ <;> rw [hlen]
  · show _ = ((q.tags k).level == 1)
    unfold Tag.level
    cases (q.tags k).is1G <;> cases (q.tags k).is2M <;> rfl
  · show _ = ((q.tags k).level == 2)
    unfold Tag.level
    cases (q.tags k).is1G <;> cases (q.tags k).is2M <;> rfl

end ArianeSoc.Tlb
