import ArianeSoc.Mmu.Walk
import ArianeSoc.Pk.Mmap.AddressSpace
import Mathlib.Tactic.Common

/-!
# Accesses to a page

What the hardware allows on the entries of `mmap.c`, and what becomes of an
access that it refuses: the handler of the fault populates the page or
checks its entry, and the access is tried again.

`permitted_iff` says when a user access to a page with a protection is
allowed in the end.  Write without read is encoded as an entry that the
architecture reserves.
-/

namespace ArianeSoc.Pk.Mmap

variable {c : Config} {s s' : Vm}

/-! ## What the hardware allows -/

/-- A leaf as it is in memory. -/
def leafBits (ppn : ℕ) (type : BitVec 8) : ArianeSoc.Pte :=
  BitVec.ofNat 64 ppn <<< 10 ||| type.setWidth 64

/-- The mode of a user program. -/
def userMode : Sv39.Mode := ⟨true, false, false⟩

/-- The access is allowed by the entry.  A pointer to a descriptor is even,
which is an entry that is not valid. -/
def hardwareAllows (e : Pte) (a : Sv39.Access) : Bool :=
  match e with
  | .leaf ppn type =>
    match Sv39.pteKind (leafBits ppn type) 0 with
    | .leaf => Sv39.permits (leafBits ppn type) userMode a
    | _ => false
  | _ => false

/-- The protection that the handler of the fault asks for. -/
def faultProt : Sv39.Access → BitVec 32
  | .fetch => PROT_EXEC
  | .load => PROT_READ
  | .store => PROT_WRITE

/-- The protection includes the access. -/
def includes (prot : BitVec 32) (a : Sv39.Access) : Bool :=
  decide (prot &&& faultProt a ≠ 0)

/-- The entry for the protection is not one that the architecture
reserves. -/
def Encodable (prot : BitVec 32) : Prop :=
  prot &&& PROT_WRITE ≠ 0 → prot &&& PROT_READ ≠ 0

instance (prot : BitVec 32) : Decidable (Encodable prot) :=
  inferInstanceAs (Decidable (_ → _))

theorem getLsbD_leafBits (ppn : ℕ) (type : BitVec 8) {i : ℕ} (h : i < 8) :
    (leafBits ppn type).getLsbD i = type.getLsbD i := by
  unfold leafBits
  rw [BitVec.getLsbD_or, BitVec.getLsbD_shiftLeft, BitVec.getLsbD_setWidth]
  simp [show i < 10 by omega, show i < 64 by omega]

/-- What a leaf of a type allows the user. -/
def typeAllows (type : BitVec 8) (a : Sv39.Access) : Bool :=
  (type.getLsbD 0 && (type.getLsbD 1 || !type.getLsbD 2) &&
    (type.getLsbD 1 || type.getLsbD 3)) &&
  (type.getLsbD 6 && type.getLsbD 4 &&
    match a with
    | .fetch => type.getLsbD 3
    | .load => type.getLsbD 1
    | .store => type.getLsbD 2 && type.getLsbD 7)

theorem hardwareAllows_leaf (ppn : ℕ) (type : BitVec 8)
    (a : Sv39.Access) :
    hardwareAllows (.leaf ppn type) a = typeAllows type a := by
  have hbit : ∀ i, i < 8 →
      (leafBits ppn type).getLsbD i = type.getLsbD i :=
    fun i hi => getLsbD_leafBits ppn type hi
  have hv : (leafBits ppn type).v = type.getLsbD 0 := hbit 0 (by decide)
  have hr : (leafBits ppn type).r = type.getLsbD 1 := hbit 1 (by decide)
  have hw : (leafBits ppn type).w = type.getLsbD 2 := hbit 2 (by decide)
  have hx : (leafBits ppn type).x = type.getLsbD 3 := hbit 3 (by decide)
  have hu : (leafBits ppn type).u = type.getLsbD 4 := hbit 4 (by decide)
  have ha : (leafBits ppn type).a = type.getLsbD 6 := hbit 6 (by decide)
  have hd : (leafBits ppn type).d = type.getLsbD 7 := hbit 7 (by decide)
  unfold hardwareAllows Sv39.pteKind Sv39.permits Sv39.userOk userMode
    typeAllows
  simp only [hv, hr, hw, hx, hu, ha, hd, Nat.mul_zero, Nat.pow_zero,
    Nat.mod_one]
  cases type.getLsbD 0 <;> cases type.getLsbD 1 <;>
    cases type.getLsbD 2 <;> cases type.getLsbD 3 <;> cases a <;> simp

/-- The rights of `prot_to_type` for the user. -/
def rights (r w x : Bool) : BitVec 8 :=
  let type := (if r then PTE_R ||| PTE_A else 0) |||
    (if w then PTE_W ||| PTE_D else 0) ||| if x then PTE_X ||| PTE_A else 0
  (if type = 0 then PTE_R else type) ||| PTE_U

theorem protToType_eq (prot : BitVec 32) :
    protToType prot true = rights (includes prot .load)
      (includes prot .store) (includes prot .fetch) := by
  unfold protToType rights includes faultProt
  generalize prot &&& PROT_READ = r
  generalize prot &&& PROT_WRITE = w
  generalize prot &&& PROT_EXEC = x
  by_cases hr : r = 0 <;> by_cases hw : w = 0 <;> by_cases hx : x = 0 <;>
    simp only [hr, hw, hx, ne_eq, not_true_eq_false, not_false_eq_true,
      if_true, if_false, decide_true, decide_false] <;> decide

/-- One of the three rights. -/
def right (r w x : Bool) : Sv39.Access → Bool
  | .fetch => x
  | .load => r
  | .store => w

/-- Read, write and execute in all combinations. -/
theorem rights_allow (r w x : Bool) (a : Sv39.Access) :
    typeAllows (PTE_V ||| rights r w x) a = (right r w x a && (!w || r)) ∧
      decide ((PTE_V ||| rights r w x) &&&
          (PTE_V ||| protToType (faultProt a) true) =
        PTE_V ||| protToType (faultProt a) true) = right r w x a := by
  cases a <;> revert r w x <;> decide

theorem includes_eq (prot : BitVec 32) (a : Sv39.Access) :
    right (includes prot .load) (includes prot .store)
      (includes prot .fetch) a = includes prot a := by
  cases a <;> rfl

/-- What a populated page with a protection allows. -/
theorem hardwareAllows_prot (prot : BitVec 32) (a : Sv39.Access) (ppn : ℕ) :
    hardwareAllows (.leaf ppn (PTE_V ||| protToType prot true)) a =
      (includes prot a && decide (Encodable prot)) := by
  have hencodable : decide (Encodable prot) =
      (!includes prot .store || includes prot .load) := by
    rw [Bool.eq_iff_iff, decide_eq_true_eq, Bool.or_eq_true,
      Bool.not_eq_true']
    unfold includes
    rw [decide_eq_false_iff_not, decide_eq_true_eq]
    exact imp_iff_not_or
  rw [hardwareAllows_leaf, protToType_eq, (rights_allow _ _ _ a).1,
    includes_eq, hencodable]

/-- The handler agrees with the protection. -/
theorem allows_prot (prot : BitVec 32) (a : Sv39.Access) :
    allows (PTE_V ||| protToType prot true) (faultProt a) =
      includes prot a := by
  unfold allows
  rw [protToType_eq prot, (rights_allow _ _ _ a).2, includes_eq]

/-! ## Accesses -/

/-- An access: it is allowed at once, or tried again when the handler has
dealt with its fault. -/
def access (c : Config) (io : ℕ → Bool) (a : Sv39.Access) (vaddr : Addr)
    (s : Vm) : Option (Vm × Bool) :=
  if hardwareAllows (s.pte (vpn vaddr)) a then some (s, true)
  else
    (handlePageFault c io vaddr (faultProt a) s).map fun r =>
      (r.1, r.2 && hardwareAllows (r.1.pte (vpn vaddr)) a)

/-- The access is allowed, in the end. -/
def permitted (c : Config) (io : ℕ → Bool) (a : Sv39.Access) (vaddr : Addr)
    (s : Vm) : Bool :=
  (access c io a vaddr s).any Prod.snd

/-- The page has the protection: in its entry, or in its descriptor. -/
def HasProt (s : Vm) (prot : BitVec 32) : Pte → Prop
  | .zero => False
  | .lazy v => (s.vmr v).prot = prot
  | .leaf _ type => type = PTE_V ||| protToType prot true

/-- The file of a page that is not populated can be read. -/
def Fetchable (io : ℕ → Bool) (s : Vm) (k : ℕ) : Prop :=
  ∀ v, s.pte k = .lazy v → (s.vmr v).file.isSome → io k = true

theorem user_lt (h : Inv c s) {k : ℕ} (hk : (s.pte k).User) :
    4096 * k < c.mmapMax.toNat :=
  h.addressSpace.below k hk

/-- An access to a page with a protection is allowed if and only if the
protection includes it, can be encoded and the file can be read. -/
theorem permitted_iff {io : ℕ → Bool} {a : Sv39.Access} {vaddr : Addr}
    {prot : BitVec 32} (h : Inv c s)
    (hu : (s.pte (pageOf vaddr)).User)
    (hp : HasProt s prot (s.pte (pageOf vaddr))) :
    permitted c io a vaddr s = true ↔
      includes prot a = true ∧ Encodable prot ∧
        Fetchable io s (pageOf vaddr) := by
  have hmax := mmapMax_le c
  have hlt := user_lt h hu
  have hvpn : vpn vaddr = pageOf vaddr := by
    unfold pageOf at hlt
    unfold vpn pageOf
    omega
  unfold permitted access
  rw [handlePageFault_eq, if_pos hlt, hvpn]
  cases hk : s.pte (pageOf vaddr) with
  | zero =>
    rw [hk] at hp
    exact hp.elim
  | leaf ppn type =>
    rw [hk] at hp
    obtain rfl : type = PTE_V ||| protToType prot true := hp
    have hfetch : Fetchable io s (pageOf vaddr) := by
      intro v hv
      rw [hk] at hv
      cases hv
    rw [hardwareAllows_prot]
    by_cases hall : (includes prot a && decide (Encodable prot)) = true
    · rw [if_pos hall]
      rw [Bool.and_eq_true, decide_eq_true_eq] at hall
      exact iff_of_true rfl ⟨hall.1, hall.2, hfetch⟩
    · rw [if_neg hall]
      rw [Bool.and_eq_true, decide_eq_true_eq] at hall
      refine iff_of_false (fun hany => hall ?_) fun hall' =>
        hall ⟨hall'.1, hall'.2.1⟩
      have hand : (_ && hardwareAllows (s.pte (pageOf vaddr)) a) = true :=
        hany
      rw [hk, hardwareAllows_prot, Bool.and_eq_true, Bool.and_eq_true,
        decide_eq_true_eq] at hand
      exact hand.2
  | lazy v =>
    rw [hk] at hp
    have hprot : (s.vmr v).prot = prot := hp
    have hfetch : Fetchable io s (pageOf vaddr) ↔
        ((s.vmr v).file.isSome → io (pageOf vaddr) = true) := by
      constructor
      · exact fun hf => hf v hk
      · intro hf u hu'
        rw [hk] at hu'
        obtain rfl := Pte.lazy.inj hu'
        exact hf
    rw [if_neg (show ¬ hardwareAllows (.lazy v) a = true from
      Bool.false_ne_true)]
    dsimp only
    by_cases hio : (s.vmr v).file.isSome ∧ io (pageOf vaddr) = false
    · rw [if_pos hio]
      refine iff_of_false Bool.false_ne_true fun hall => ?_
      rw [hfetch.mp hall.2.2 hio.1] at hio
      exact Bool.false_ne_true hio.2.symm
    · rw [if_neg hio, hprot, allows_prot]
      have hread : Fetchable io s (pageOf vaddr) := by
        refine hfetch.mpr fun hf => ?_
        by_contra hno
        exact hio ⟨hf, Bool.eq_false_iff.mpr hno⟩
      have hentry : (populated c v (pageOf vaddr) s).pte (pageOf vaddr) =
          userPage c prot (pageOf vaddr) := by
        unfold populated
        rw [setPte_pte, Function.update_self, hprot]
      show (includes prot a && hardwareAllows
        ((populated c v (pageOf vaddr) s).pte (pageOf vaddr)) a) = true ↔ _
      rw [hentry, userPage, pteCreate, hardwareAllows_prot,
        Bool.and_eq_true, Bool.and_eq_true, decide_eq_true_eq]
      constructor
      · exact fun hall => ⟨hall.1, hall.2.2, hread⟩
      · exact fun hall => ⟨hall.1, hall.1, hall.2.1⟩

end ArianeSoc.Pk.Mmap
