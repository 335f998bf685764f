import ArianeSoc.Pk.Mmap.Cases
import ArianeSoc.Pk.Mmap.Pages
import Mathlib.Tactic.Common

/-!
# What `mprotect` does to a range

`do_mprotect` goes through the pages one by one and stops at the first that
does not accept the protection.  A populated page has it written to its
entry; for a page that is not populated it goes to the descriptor, which all
pages of the region share.

`Processed prot p j s t` says what has become of `s` after the pages `p` to
`p + j - 1`, and `doMprotect_range` that every `mprotect` ends like that.
-/

namespace ArianeSoc.Pk.Mmap

variable {s s' t : Vm} {prot : BitVec 32}

/-- The protection adds nothing to what the page allows. -/
def Accepts (prot : BitVec 32) (s : Vm) : Pte → Prop
  | .zero => False
  | .lazy v => ((s.vmr v).prot ^^^ prot) &&& ~~~(s.vmr v).prot = 0
  | .leaf _ type => type &&& PTE_U ≠ 0 ∧
      (prot &&& PROT_READ ≠ 0 → type &&& PTE_R ≠ 0) ∧
      (prot &&& PROT_WRITE ≠ 0 → type &&& PTE_W ≠ 0) ∧
      (prot &&& PROT_EXEC ≠ 0 → type &&& PTE_X ≠ 0)

/-- The entry with its new protection. -/
def reprotect (prot : BitVec 32) : Pte → Pte
  | .leaf ppn _ => pteCreate ppn (protToType prot true)
  | e => e

/-- The descriptor is that of one of the pages `p` to `p + j - 1`. -/
def Shares (s : Vm) (p j v : ℕ) : Prop := ∃ i < j, s.pte (p + i) = .lazy v

/-- The pages `p` to `p + j - 1` have taken the protection. -/
structure Processed (prot : BitVec 32) (p j : ℕ) (s t : Vm) : Prop where
  accepts : ∀ i < j, Accepts prot s (s.pte (p + i))
  inside : ∀ i < j, t.pte (p + i) = reprotect prot (s.pte (p + i))
  outside : ∀ k, ¬ (p ≤ k ∧ k < p + j) → t.pte k = s.pte k
  shared : ∀ v, Shares s p j v → (t.vmr v).prot = prot
  others : ∀ v, ¬ Shares s p j v → (t.vmr v).prot = (s.vmr v).prot

theorem Processed.zero (prot : BitVec 32) (p : ℕ) (s : Vm) :
    Processed prot p 0 s s where
  accepts i hi := absurd hi (Nat.not_lt_zero i)
  inside i hi := absurd hi (Nat.not_lt_zero i)
  outside k _ := rfl
  shared v hv := by
    obtain ⟨i, hi, -⟩ := hv
    exact absurd hi (Nat.not_lt_zero i)
  others v _ := rfl

/-- What the next page accepts after the pages before it, it accepted at
first. -/
theorem Processed.accepts_iff {p j : ℕ} (h : Processed prot p j s t) :
    Accepts prot t (t.pte (p + j)) ↔ Accepts prot s (s.pte (p + j)) := by
  rw [h.outside (p + j) (by omega)]
  cases hv : s.pte (p + j) with
  | zero => exact Iff.rfl
  | lazy v =>
    by_cases hshare : Shares s p j v
    · obtain ⟨i, hi, hvi⟩ := hshare
      have hacc := h.accepts i hi
      rw [hvi] at hacc
      refine iff_of_true ?_ hacc
      show ((t.vmr v).prot ^^^ prot) &&& ~~~(t.vmr v).prot = 0
      rw [h.shared v ⟨i, hi, hvi⟩, BitVec.xor_self, BitVec.zero_and]
      rfl
    · simp only [Accepts, h.others v hshare]
  | leaf ppn type => exact Iff.rfl

theorem shares_succ {p j v : ℕ} :
    Shares s p (j + 1) v ↔ Shares s p j v ∨ s.pte (p + j) = .lazy v := by
  constructor
  · intro h
    obtain ⟨i, hi, hv⟩ := h
    rcases Nat.lt_succ_iff_lt_or_eq.mp hi with hi | rfl
    · exact .inl ⟨i, hi, hv⟩
    · exact .inr hv
  · intro h
    rcases h with ⟨i, hi, hv⟩ | hv
    · exact ⟨i, by omega, hv⟩
    · exact ⟨j, Nat.lt_succ_self j, hv⟩

theorem mprotectPage_accepts {a : Addr}
    (h : mprotectPage prot s a = .ok s') :
    Accepts prot s (s.pte (vpn a)) := by
  rcases mprotectPage_cases h with ⟨v, hv, hbits, -⟩ |
    ⟨ppn, type, hl, hu, hr, hw, hx, -⟩
  · rw [hv]
    exact hbits
  · rw [hl]
    exact ⟨hu, hr, hw, hx⟩

/-- One more page. -/
theorem Processed.succ {p j : ℕ} {u : Vm} (h : Processed prot p j s t)
    (hk : p + j < 2 ^ 27)
    (hr : mprotectPage prot t (pageAddr (p + j)) = .ok u) :
    Processed prot p (j + 1) s u := by
  have hout := h.outside (p + j) (by omega)
  have hpage := mprotectPage_cases hr
  have hacc := mprotectPage_accepts hr
  rw [vpn_pageAddr hk] at hpage hacc
  rw [h.accepts_iff] at hacc
  have haccepts : ∀ i < j + 1, Accepts prot s (s.pte (p + i)) := by
    intro i hi
    rcases Nat.lt_succ_iff_lt_or_eq.mp hi with hi | rfl
    · exact h.accepts i hi
    · exact hacc
  rcases hpage with ⟨v, hv, -, rfl⟩ | ⟨ppn, type, hl, -, -, -, -, rfl⟩
  · have hsv : s.pte (p + j) = .lazy v := hout.symm.trans hv
    refine ⟨haccepts, fun i hi => ?_, fun k hk' => ?_, fun w hw => ?_,
      fun w hw => ?_⟩
    · rcases Nat.lt_succ_iff_lt_or_eq.mp hi with hi | rfl
      · exact h.inside i hi
      · rw [hsv]
        exact hv
    · exact h.outside k (by omega)
    · show (Function.update t.vmr v _ w).prot = prot
      by_cases hwv : w = v
      · subst hwv
        rw [Function.update_self]
      · rw [Function.update_of_ne hwv]
        refine h.shared w ((shares_succ.mp hw).resolve_right fun he => ?_)
        rw [hsv] at he
        exact hwv (Pte.lazy.inj he).symm
    · rw [shares_succ, not_or] at hw
      have hwv : w ≠ v := fun he => hw.2 (he ▸ hsv)
      show (Function.update t.vmr v _ w).prot = _
      rw [Function.update_of_ne hwv]
      exact h.others w hw.1
  · have hsl : s.pte (p + j) = .leaf ppn type := hout.symm.trans hl
    have hlazy : ∀ w, s.pte (p + j) ≠ .lazy w := by
      intro w hw
      rw [hsl] at hw
      cases hw
    refine ⟨haccepts, fun i hi => ?_, fun k hk' => ?_, fun w hw => ?_,
      fun w hw => ?_⟩
    · rw [setPte_pte]
      rcases Nat.lt_succ_iff_lt_or_eq.mp hi with hi | rfl
      · rw [Function.update_of_ne (by omega)]
        exact h.inside i hi
      · rw [Function.update_self, hsl]
        rfl
    · rw [setPte_pte, Function.update_of_ne (by omega)]
      exact h.outside k (by omega)
    · exact h.shared w ((shares_succ.mp hw).resolve_right (hlazy w))
    · rw [shares_succ, not_or] at hw
      exact h.others w hw.1

theorem mprotectPage_error {a e : Addr}
    (h : mprotectPage prot s a = .error e) :
    e ≠ 0 ∧ ¬ Accepts prot s (s.pte (vpn a)) := by
  unfold mprotectPage at h
  split at h
  · rename_i hz
    cases h
    rw [hz]
    exact ⟨by decide, id⟩
  · rename_i v hv
    split_ifs at h with hbad
    cases h
    rw [hv]
    exact ⟨by decide, hbad⟩
  · rename_i ppn type hl
    split_ifs at h with hbad
    cases h
    rw [hl]
    refine ⟨by decide, fun hacc => ?_⟩
    rcases hbad with hu | hr | hw | hx
    · exact hacc.1 hu
    · exact hacc.2.1 hr.1 hr.2
    · exact hacc.2.2.1 hw.1 hw.2
    · exact hacc.2.2.2 hx.1 hx.2

/-- How an `mprotect` of `n` pages ends: after all of them, or with an error
at one that does not accept the protection. -/
structure Ended (prot : BitVec 32) (p n : ℕ) (s s' : Vm) (r : Addr) (j : ℕ) :
    Prop where
  processed : Processed prot p j s s'
  le : j ≤ n
  done : r = 0 → j = n
  refused : r ≠ 0 → j < n ∧ ¬ Accepts prot s (s.pte (p + j))

theorem mprotectLoop_spec (stop : Addr) {r : Addr} {p m n j : ℕ}
    (hlt : ∀ i < m, pageAddr (p + i) < stop)
    (hstop : ¬ pageAddr (p + m) < stop) (hpm : p + m ≤ 2 ^ 27)
    (hj : j ≤ m) (ht : Processed prot p j s t)
    (h : mprotectLoop prot stop n (pageAddr (p + j)) t = some (s', r)) :
    ∃ j', Ended prot p m s s' r j' := by
  induction n generalizing j t with
  | zero => cases h
  | succ n ih =>
    unfold mprotectLoop at h
    split_ifs at h with hmore
    · have hjm : j < m := by
        refine Nat.lt_of_le_of_ne hj fun he => ?_
        rw [he] at hmore
        exact hstop hmore
      cases hp : mprotectPage prot t (pageAddr (p + j)) with
      | error e =>
        rw [hp] at h
        cases h
        obtain ⟨he, hacc⟩ := mprotectPage_error hp
        rw [vpn_pageAddr (by omega), ht.accepts_iff] at hacc
        exact ⟨j, ht, hj, fun hz => absurd hz he, fun _ => ⟨hjm, hacc⟩⟩
      | ok u =>
        rw [hp] at h
        dsimp only at h
        have hnext : pageAddr (p + j) + 4096 = pageAddr (p + (j + 1)) := by
          unfold pageAddr
          rw [← Nat.add_assoc, Nat.mul_succ, BitVec.ofNat_add]
          rfl
        rw [hnext] at h
        exact ih (by omega) (ht.succ (by omega) hp) h
    · cases h
      have hjm : j = m := by
        refine Nat.le_antisymm hj (Nat.not_lt.mp fun hlt' => ?_)
        exact hmore (hlt j hlt')
      exact ⟨j, ht, hj, fun _ => hjm, fun hz => absurd rfl hz⟩

/-- An `mprotect` of a range that does not wrap. -/
theorem doMprotect_range {addr length r : Addr}
    (ha : addr.toNat % 4096 = 0)
    (hle : addr.toNat + length.toNat ≤ 2 ^ 39)
    (h : doMprotect addr length prot s = some (s', r)) :
    ∃ j, Ended prot (pageOf addr) (pageCount length) s s' r j := by
  have hstop : (addr + length).toNat = addr.toNat + length.toNat := by
    rw [BitVec.toNat_add]
    omega
  have hpage : ∀ i, i ≤ pageCount length →
      (pageAddr (pageOf addr + i)).toNat = addr.toNat + 4096 * i := by
    intro i hi
    unfold pageCount at hi
    unfold pageOf
    rw [pageAddr_toNat (by omega)]
    omega
  unfold doMprotect at h
  rw [if_neg (not_not.mpr ((and_4095 addr).mpr ha))] at h
  refine mprotectLoop_spec (addr + length) (n := forever)
    (fun i hi => ?_) ?_ ?_ (Nat.zero_le _) (Processed.zero prot _ s) ?_
  · rw [BitVec.lt_def, hpage i (by omega), hstop]
    unfold pageCount at hi
    omega
  · rw [BitVec.lt_def, hpage _ (Nat.le_refl _), hstop]
    unfold pageCount
    omega
  · unfold pageOf pageCount
    omega
  · rw [Nat.add_zero, pageAddr_pageOf ha]
    exact h

end ArianeSoc.Pk.Mmap
