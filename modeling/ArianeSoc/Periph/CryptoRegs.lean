import ArianeSoc.Periph.Wrappers
import ArianeSoc.Sync

/-!
# The registers of the cryptographic wrappers

The wrappers of the cryptographic engines keep their registers behind an
AXI lite interface in the same way.  A write names a word by its address,
and each register of that word takes its part of the data unless its bit of
the register lock is set.  `RegTable` is what a wrapper fills in, and
`RegTable.step` is the write process.

One table for each of `aes0_wrapper.sv`, `aes1_wrapper.sv`,
`aes2_wrapper.sv`, `hmac_wrapper.sv` and `rsa_wrapper.sv` follows: the
registers that the bus can write, with the word, the lock bit and the reset
of each.  Arrays are stored from the last element on in the AES and HMAC
wrappers, so that `p_c[3]` of AES0 is at word 1.

A register keeps its value while its lock bit is set, with one exception:
a write to word 101 of the RSA wrapper copies `msg_in[1087:1056]` into
`msg_in[1119:1088]`.
-/

namespace ArianeSoc.Periph

/-- The word that the address selects by `bits` bits. -/
def AxiLite.index (axi : AxiLite) (bits : ℕ) : ℕ :=
  (axi.address.extractLsb' 3 bits).toNat

/-- The inputs of a wrapper.  `clear` stands for both resets, `lock` is
`reglk_ctrl_i` and `acct` is `acct_ctrl_i`. -/
structure RegIn where
  clear : Bool
  lock : BitVec 8
  acct : Bool
  debugMode : Bool
  axi : AxiLite

/-- The request is a read. -/
def RegIn.reading (i : RegIn) : Bool := i.axi.en && !i.axi.we

/-- A value that is read behind bit `b` of the register lock. -/
def RegIn.gated (i : RegIn) (b : ℕ) {w : ℕ} (v : BitVec w) : BitVec 64 :=
  if i.lock.getLsbD b then 0#64 else v.setWidth 64

/-- A write to word `k` with the lock register `lock`. -/
def regWrite (lock : BitVec 8) (k v : BitVec 64) : RegIn where
  clear := false
  lock := lock
  acct := true
  debugMode := false
  axi := ⟨true, true, k <<< 3, v⟩

/-- A read of word `k`. -/
def regRead (lock : BitVec 8) (k : BitVec 64) : RegIn :=
  { regWrite lock k 0#64 with axi := ⟨true, false, k <<< 3, 0#64⟩ }

/-- The registers `R` of a wrapper. -/
structure RegTable (R : Type) where
  width : R → ℕ
  addrBits : ℕ
  /-- The word at which a register is written. -/
  word : R → ℕ
  /-- The bit of the data at which it starts. -/
  lo : R → ℕ
  /-- The bit of the register lock that guards it. -/
  lockBit : R → ℕ
  /-- A reset clears it. -/
  cleared : R → Bool
  /-- What a write to it leaves there while it is locked. -/
  locked : ((r : R) → BitVec (width r)) → (r : R) → BitVec (width r)

variable {R : Type} (T : RegTable R)

abbrev RegTable.Regs : Type := (r : R) → BitVec (T.width r)

/-- The cycle writes to the word of `r`. -/
def RegTable.selects (i : RegIn) (r : R) : Bool :=
  i.axi.en && i.acct && i.axi.we && i.axi.index T.addrBits == T.word r

/-- The write process. -/
def RegTable.step (s : T.Regs) (i : RegIn) : T.Regs := fun r =>
  if i.clear then if T.cleared r then 0#(T.width r) else s r
  else if T.selects i r then
    if i.lock.getLsbD (T.lockBit r) then T.locked s r
    else i.axi.wdata.extractLsb' (T.lo r) (T.width r)
  else s r

/-- The register of `rs` that a read shows, at the word at which it is
written. -/
def RegTable.shown (rs : List R) (i : RegIn) : Option R :=
  rs.find? fun r => T.word r == i.axi.index T.addrBits

/-- What a read of one of the registers `rs` returns. -/
def RegTable.readRegs (rs : List R) (readLock : R → ℕ) (s : T.Regs)
    (i : RegIn) : Option (BitVec 64) :=
  (T.shown rs i).map fun r => i.gated (readLock r) (s r)

/-- Cycles without a reset in which `r` is locked. -/
def RegTable.Holds (r : R) (i : RegIn) : Prop :=
  i.clear = false ∧ i.lock.getLsbD (T.lockBit r) = true

instance (r : R) (i : RegIn) : Decidable (T.Holds r i) :=
  inferInstanceAs (Decidable (_ ∧ _))

variable {T} {s : T.Regs} {i : RegIn} {r : R}

/-- A locked register keeps its value unless a write leaves another one
there. -/
theorem RegTable.step_locked (h : T.Holds r i) :
    T.step s i r = s r ↔ ¬ (T.selects i r = true ∧ T.locked s r ≠ s r) := by
  unfold RegTable.step
  rw [if_neg (Bool.eq_false_iff.mp h.1)]
  by_cases hsel : T.selects i r = true
  · rw [if_pos hsel, if_pos h.2]
    simp [hsel]
  · rw [if_neg hsel]
    simp [hsel]

/-- Where every word below `n` has a register of `rs`, a read that shows
none is above. -/
theorem RegTable.le_index_of_not_shown {rs : List R} {n : ℕ}
    (hrs : ∀ k < n, ∃ r ∈ rs, T.word r = k) (h : T.shown rs i = none) :
    n ≤ i.axi.index T.addrBits := by
  by_contra hlt
  obtain ⟨r, hr, hword⟩ := hrs _ (Nat.lt_of_not_le hlt)
  have hno := List.find?_eq_none.mp h r hr
  rw [hword] at hno
  simp at hno

/-! ## Two states that differ in secret registers -/

/-- The states differ in secret registers only. -/
def RegTable.Agree (secret : R → Bool) (s s' : T.Regs) : Prop :=
  ∀ r, secret r = false → s r = s' r

variable {secret : R → Bool} {s' : T.Regs} {rs : List R} {readLock : R → ℕ}

theorem RegTable.Agree.step (hl : ∀ (s : T.Regs) r, T.locked s r = s r)
    (h : T.Agree secret s s') (i : RegIn) :
    T.Agree secret (T.step s i) (T.step s' i) := by
  intro r hr
  unfold RegTable.step
  rw [hl, hl, h r hr]

/-- A secret register is shown only behind its lock bit. -/
theorem RegTable.Agree.readRegs (h : T.Agree secret s s')
    (hi : ∀ r, T.shown rs i = some r → secret r = true →
      i.lock.getLsbD (readLock r) = true) :
    T.readRegs rs readLock s i = T.readRegs rs readLock s' i := by
  unfold RegTable.readRegs
  cases hr : T.shown rs i with
  | none => rfl
  | some r =>
    have hgate : i.gated (readLock r) (s r) = i.gated (readLock r) (s' r) := by
      cases hsec : secret r with
      | false => rw [h r hsec]
      | true =>
        unfold RegIn.gated
        rw [if_pos (hi r hr hsec), if_pos (hi r hr hsec)]
    exact congrArg some hgate

/-- Where none of the registers `rs` is secret, a read returns the same. -/
theorem RegTable.Agree.readRegs_public (h : T.Agree secret s s')
    (hrs : ∀ r ∈ rs, secret r = false) :
    T.readRegs rs readLock s i = T.readRegs rs readLock s' i := by
  refine h.readRegs fun r hr hsec => ?_
  have hpub := hrs r (List.mem_of_find?_eq_some hr)
  rw [hpub] at hsec
  exact absurd hsec Bool.false_ne_true

end ArianeSoc.Periph

namespace ArianeSoc.Periph

/-- The words `{f[0], f[1], ...}`, the first in the highest bits. -/
def concat {w : ℕ} : (n : ℕ) → (Fin n → BitVec w) → BitVec (w * n)
  | 0, _ => 0#0
  | n + 1, f => concat n (fun k => f k.castSucc) ++ f (Fin.last n)

/-! ## `aes0_wrapper` -/

inductive Aes0Reg
  | start | keySel
  | pC (k : Fin 4) | state (k : Fin 4)
  | key0 (k : Fin 6) | key1 (k : Fin 6) | key2 (k : Fin 6)
  deriving DecidableEq

abbrev aes0Width : Aes0Reg → ℕ
  | .start => 1
  | .keySel => 2
  | _ => 32

/-- The keys and the selection of the key have no reset. -/
abbrev aes0 : RegTable Aes0Reg where
  width := aes0Width
  addrBits := 6
  word
    | .start => 0
    | .pC k => 4 - k
    | .key0 k => 10 - k
    | .state k => 19 - k
    | .key1 k => 25 - k
    | .key2 k => 31 - k
    | .keySel => 32
  lo _ := 0
  lockBit
    | .start | .keySel => 1
    | .pC _ => 3
    | .key0 _ | .key1 _ | .key2 _ => 5
    | .state _ => 7
  cleared
    | .start | .pC _ | .state _ => true
    | _ => false
  locked s r := s r

/-- The registers that are loaded from the fuse memory. -/
def Aes0Reg.isKey : Aes0Reg → Bool
  | .key0 _ | .key1 _ | .key2 _ => true
  | _ => false

/-! ## `aes1_wrapper` -/

inductive Aes1Reg
  | init | next | encdec | keylen0 | keylen1 | keylen2 | keySel
  | block (k : Fin 4)
  | key0 (k : Fin 8) | key1 (k : Fin 8) | key2 (k : Fin 8)
  deriving DecidableEq

abbrev aes1Width : Aes1Reg → ℕ
  | .init | .next | .encdec | .keylen0 | .keylen1 | .keylen2 => 1
  | .keySel => 2
  | _ => 32

abbrev aes1 : RegTable Aes1Reg where
  width := aes1Width
  addrBits := 9
  word
    | .init | .next => 0x08
    | .encdec => 0x0a
    | .keylen0 => 0x0b
    | .keylen1 => 0x0c
    | .keylen2 => 0x0d
    | .keySel => 0x0e
    | .key0 k => 0x10 + k
    | .key1 k => 0x20 + k
    | .key2 k => 0x30 + k
    | .block k => 0x40 + k
  lo
    | .next => 1
    | _ => 0
  lockBit
    | .init | .next | .encdec => 1
    | .keylen0 | .keylen1 | .keylen2 => 3
    | .key0 _ | .key1 _ | .key2 _ => 3
    | .keySel | .block _ => 5
  cleared _ := true
  locked s r := s r

def Aes1Reg.isKey : Aes1Reg → Bool
  | .key0 _ | .key1 _ | .key2 _ => true
  | _ => false

/-! ## `aes2_wrapper` -/

inductive Aes2Reg
  | start | keySel
  | pC (k : Fin 4) | state (k : Fin 4)
  | key0 (k : Fin 4) | key1 (k : Fin 4) | key2 (k : Fin 4)
  deriving DecidableEq

abbrev aes2Width : Aes2Reg → ℕ
  | .start => 1
  | .keySel => 2
  | _ => 32

abbrev aes2 : RegTable Aes2Reg where
  width := aes2Width
  addrBits := 6
  word
    | .start => 0
    | .pC k => 4 - k
    | .key0 k => 8 - k
    | .state k => 17 - k
    | .key1 k => 21 - k
    | .key2 k => 25 - k
    | .keySel => 26
  lo _ := 0
  lockBit
    | .start | .keySel => 1
    | .pC _ | .state _ => 3
    | .key0 _ | .key1 _ | .key2 _ => 5
  cleared
    | .start | .pC _ | .state _ => true
    | _ => false
  locked s r := s r

def Aes2Reg.isKey : Aes2Reg → Bool
  | .key0 _ | .key1 _ | .key2 _ => true
  | _ => false

/-! ## `hmac_wrapper` -/

inductive HmacReg
  | startHash | newMessage | keyHashBypass
  | data (k : Fin 16)
  | key0 (k : Fin 8) | ikeyHash (k : Fin 8) | okeyHash (k : Fin 8)
  deriving DecidableEq

abbrev hmacWidth : HmacReg → ℕ
  | .startHash | .newMessage | .keyHashBypass => 1
  | _ => 32

abbrev hmac : RegTable HmacReg where
  width := hmacWidth
  addrBits := 7
  word
    | .startHash | .newMessage | .keyHashBypass => 0
    | .data k => 1 + k
    | .key0 k => 33 - k
    | .ikeyHash k => 41 - k
    | .okeyHash k => 49 - k
  lo
    | .newMessage => 1
    | .keyHashBypass => 2
    | _ => 0
  lockBit
    | .startHash | .newMessage | .keyHashBypass => 1
    | .data _ => 3
    | .key0 _ | .ikeyHash _ | .okeyHash _ => 5
  cleared
    | .startHash | .newMessage | .data _ => true
    | _ => false
  locked s r := s r

def HmacReg.isKey : HmacReg → Bool
  | .key0 _ | .ikeyHash _ | .okeyHash _ => true
  | _ => false

/-! ## `rsa_wrapper` -/

/-- The primes and the message are words of 32 bits of `prime_i`, `prime1_i`
and `msg_in`. -/
inductive RsaReg
  | interRst | interRst1 | encryDecry
  | prime (k : Fin 32) | prime1 (k : Fin 32) | msgIn (k : Fin 64)
  deriving DecidableEq

abbrev rsaWidth : RsaReg → ℕ
  | .interRst | .interRst1 | .encryDecry => 1
  | _ => 32

/-- The words 1087:1056 and 1119:1088 of the message. -/
abbrev MSG_33 : Fin 64 := 33
abbrev MSG_34 : Fin 64 := 34

/-- A locked write to `msg_in[1119:1088]` copies the word below it. -/
def rsaLocked (s : (r : RsaReg) → BitVec (rsaWidth r)) :
    (r : RsaReg) → BitVec (rsaWidth r)
  | .msgIn k => s (.msgIn (if k = MSG_34 then MSG_33 else k))
  | r => s r

abbrev rsa : RegTable RsaReg where
  width := rsaWidth
  addrBits := 8
  word
    | .interRst => 0
    | .interRst1 => 1
    | .encryDecry => 2
    | .prime k => 3 + k
    | .prime1 k => 35 + k
    | .msgIn k => 67 + k
  lo _ := 0
  lockBit _ := 3
  cleared _ := true
  locked := rsaLocked

/-! ## The wrappers -/

inductive Wrapper
  | aes0 | aes1 | aes2 | hmac | rsa

abbrev Wrapper.Reg : Wrapper → Type
  | .aes0 => Aes0Reg
  | .aes1 => Aes1Reg
  | .aes2 => Aes2Reg
  | .hmac => HmacReg
  | .rsa => RsaReg

abbrev Wrapper.table : (w : Wrapper) → RegTable w.Reg
  | .aes0 => Periph.aes0
  | .aes1 => Periph.aes1
  | .aes2 => Periph.aes2
  | .hmac => Periph.hmac
  | .rsa => Periph.rsa

end ArianeSoc.Periph

namespace ArianeSoc.Periph

/-- The cycle writes to the word of `msg_in[1119:1088]`, the register is that
word, and the word below it differs. -/
def CopiesBelow : (w : Wrapper) → w.Reg → w.table.Regs → RegIn → Prop
  | .rsa, .msgIn k, s, i =>
    k = MSG_34 ∧ rsa.selects i (.msgIn k) = true ∧
      s (.msgIn MSG_33) ≠ s (.msgIn MSG_34)
  | _, _, _, _ => False

instance : (w : Wrapper) → (r : w.Reg) → (s : w.table.Regs) →
    (i : RegIn) → Decidable (CopiesBelow w r s i)
  | .rsa, .msgIn _, _, _ => inferInstanceAs (Decidable (_ ∧ _ ∧ _))
  | .rsa, .interRst, _, _ | .rsa, .interRst1, _, _ | .rsa, .encryDecry, _, _
  | .rsa, .prime _, _, _ | .rsa, .prime1 _, _, _
  | .aes0, _, _, _ | .aes1, _, _, _ | .aes2, _, _, _ | .hmac, _, _, _ =>
    inferInstanceAs (Decidable False)

theorem rsaLocked_msgIn (s : (r : RsaReg) → BitVec (rsaWidth r))
    (k : Fin 64) :
    rsaLocked s (.msgIn k) ≠ s (.msgIn k) ↔
      k = MSG_34 ∧ s (.msgIn MSG_33) ≠ s (.msgIn MSG_34) := by
  by_cases hk : k = MSG_34
  · subst hk
    exact ⟨fun h => ⟨rfl, h⟩, fun h => h.2⟩
  · have hkeep : rsaLocked s (.msgIn k) = s (.msgIn k) := by
      show s (.msgIn (if k = MSG_34 then MSG_33 else k)) = s (.msgIn k)
      rw [if_neg hk]
    exact ⟨fun h => absurd hkeep h, fun h => absurd h.1 hk⟩

/-- What a locked write changes. -/
theorem locked_ne_iff (w : Wrapper) (r : w.Reg) (s : w.table.Regs)
    (i : RegIn) :
    (w.table.selects i r = true ∧ w.table.locked s r ≠ s r) ↔
      CopiesBelow w r s i := by
  cases w with
  | rsa =>
    cases r with
    | msgIn k =>
      refine (and_congr_right fun _ => rsaLocked_msgIn s k).trans ?_
      exact and_left_comm
    | _ => exact ⟨fun h => h.2 rfl, False.elim⟩
  | _ => exact ⟨fun h => h.2 rfl, False.elim⟩

/-- In a run without a reset in which its lock bit is set, a register keeps
its value in every state if and only if no cycle copies the word below it
there. -/
theorem write_locks_iff (w : Wrapper) (r : w.Reg) (s : w.table.Regs)
    (is : List RegIn) (h : ∀ i ∈ is, w.table.Holds r i) :
    Sync.Always w.table.step (fun t => t r = s r) s is ↔
      Sync.Along w.table.step (fun t i => ¬ CopiesBelow w r t i) s is := by
  have hholds : Sync.Along w.table.step (fun _ i => w.table.Holds r i) s is :=
    Sync.along_of_forall_mem h
  refine hholds.always_frame_iff (f := fun t => t r) fun t i hi => ?_
  rw [RegTable.step_locked hi, locked_ne_iff]

/-- Locked writes to the message, one of them to word 101 while the two
words are equal. -/
theorem write_locks_iff_msgIn :
    Sync.Always rsa.step (fun t => t (.msgIn MSG_34) = 0#32) (fun _ => 0)
      [regWrite 0xff#8 67#64 5#64, regWrite 0xff#8 101#64 5#64] :=
  (write_locks_iff .rsa (.msgIn MSG_34) (fun _ => 0)
    [regWrite 0xff#8 67#64 5#64, regWrite 0xff#8 101#64 5#64]
    (by decide +kernel)).mpr (by decide +kernel)

/-- A locked write to word 101 changes `msg_in[1119:1088]`. -/
theorem locked_msgIn_overwritten :
    let s := Sync.run rsa.step (fun _ => 0) [regWrite 0x00#8 100#64 7#64]
    let i := regWrite 0xff#8 101#64 5#64
    rsa.Holds (.msgIn MSG_34) i ∧ s (.msgIn MSG_34) = 0#32 ∧
      rsa.step s i (.msgIn MSG_34) = 7#32 := by
  decide +kernel

end ArianeSoc.Periph
