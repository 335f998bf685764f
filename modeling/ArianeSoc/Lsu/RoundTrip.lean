import ArianeSoc.BitField
import ArianeSoc.Lsu.Agu
import ArianeSoc.Lsu.LoadComplete

/-!
# A load reads what a store has written

Three tables have to agree: `data_align` rotates the operand of a store to
the byte lanes of its address, `be_gen` says which lanes are written, and
the load unit shifts the double word back and extends it with registers that
it has prepared one cycle earlier.

* `getLsbD_beGen`: the lanes of an aligned access are those of its bytes.
* `shiftedData_writeBytes`: the shift of the load undoes the rotation of the
  store.
* `load_reads_store`: a load of the same size gives what the operator makes
  of the operand, and the other bytes stay.
-/

namespace ArianeSoc.Lsu

/-! ## A write with byte enables -/

/-- The bits of the enabled bytes. -/
def byteMask (be : BitVec 8) : BitVec 64 :=
  BitVec.fill 8 (be.getLsbD 7) ++ BitVec.fill 8 (be.getLsbD 6) ++
    BitVec.fill 8 (be.getLsbD 5) ++ BitVec.fill 8 (be.getLsbD 4) ++
    BitVec.fill 8 (be.getLsbD 3) ++ BitVec.fill 8 (be.getLsbD 2) ++
    BitVec.fill 8 (be.getLsbD 1) ++ BitVec.fill 8 (be.getLsbD 0)

/-- The double word after a write of the enabled bytes. -/
def writeBytes (be : BitVec 8) (data word : BitVec 64) : BitVec 64 :=
  BitField.merge (byteMask be) word data

theorem getLsbD_fill {n k : Nat} (b : Bool) (hk : k < n) :
    (BitVec.fill n b).getLsbD k = b := by
  cases b <;> simp [BitVec.fill, BitVec.neg_one_eq_allOnes, hk]

theorem getLsbD_byteMask (be : BitVec 8) {k : Nat} (hk : k < 64) :
    (byteMask be).getLsbD k = be.getLsbD (k / 8) := by
  unfold byteMask
  simp only [BitVec.getLsbD_append]
  split_ifs <;>
    rw [getLsbD_fill _ (by omega)] <;>
    exact congrArg be.getLsbD (by omega)

theorem getLsbD_writeBytes (be : BitVec 8) (data word : BitVec 64) {k : Nat}
    (hk : k < 64) :
    (writeBytes be data word).getLsbD k =
      if be.getLsbD (k / 8) then data.getLsbD k else word.getLsbD k := by
  rw [writeBytes, BitField.getLsbD_merge, getLsbD_byteMask be hk]

/-! ## The lanes of an aligned access -/

/-- The offset is a multiple of the number of bytes. -/
def Aligned (size : BitVec 2) (addr : BitVec 3) : Prop :=
  addr.toNat % 2 ^ size.toNat = 0

instance (size : BitVec 2) (addr : BitVec 3) : Decidable (Aligned size addr) :=
  inferInstanceAs (Decidable (_ = _))

/-- The bytes of an aligned access lie in one double word. -/
theorem Aligned.fits {size : BitVec 2} {addr : BitVec 3}
    (h : Aligned size addr) : addr.toNat + 2 ^ size.toNat ≤ 8 := by
  revert h addr size
  decide

/-- `be_gen` of an aligned access enables its bytes. -/
theorem getLsbD_beGen {size : BitVec 2} {addr : BitVec 3}
    (h : Aligned size addr) {j : Nat} (hj : j < 8) :
    (beGen addr size).getLsbD j =
      decide (addr.toNat ≤ j ∧ j < addr.toNat + 2 ^ size.toNat) := by
  have hall : ∀ (size : BitVec 2) (addr : BitVec 3), Aligned size addr →
      ∀ j : Fin 8, (beGen addr size).getLsbD j =
        decide (addr.toNat ≤ j ∧ j < addr.toNat + 2 ^ size.toNat) := by
    decide
  exact hall size addr h ⟨j, hj⟩

/-- From the byte of the address on, the aligned data are the operand. -/
theorem getLsbD_dataAlign (addr : BitVec 3) (data : BitVec 64) {n : Nat}
    (hn : 8 * addr.toNat + n < 64) :
    (dataAlign addr data).getLsbD (8 * addr.toNat + n) = data.getLsbD n := by
  have hnot : ¬ 8 * addr.toNat + n < 8 * addr.toNat := by omega
  rw [dataAlign, BitVec.getLsbD_rotateLeft, Nat.mod_eq_of_lt (by omega)]
  simp [hn, hnot]

end ArianeSoc.Lsu

namespace ArianeSoc.LoadUnit

open Lsu

variable {size : BitVec 2} {d : LoadData} {operand word : BitVec 64}

/-! ## The shift -/

/-- The bytes that a store of the size writes at the offset. -/
def stored (size : BitVec 2) (addr : BitVec 3) (operand word : BitVec 64) :
    BitVec 64 :=
  writeBytes (beGen addr size) (dataAlign addr operand) word

/-- The shift gives the operand in the bytes of the access. -/
theorem shiftedData_stored (h : Aligned size d.addressOffset) {n : Nat}
    (hn : n < 8 * 2 ^ size.toNat) :
    (shiftedData d (stored size d.addressOffset operand word)).getLsbD n =
      operand.getLsbD n := by
  have hfits := h.fits
  have hlane : (beGen d.addressOffset size).getLsbD
      ((8 * d.addressOffset.toNat + n) / 8) = true := by
    rw [getLsbD_beGen h (by omega), decide_eq_true_eq]
    omega
  rw [shiftedData, BitVec.getLsbD_ushiftRight, stored,
    getLsbD_writeBytes _ _ _ (by omega), if_pos hlane,
    getLsbD_dataAlign _ _ (by omega)]

/-- The bytes outside the access stay. -/
theorem stored_outside {addr : BitVec 3} (h : Aligned size addr) {k : Nat}
    (hk : k < 8 * addr.toNat ∨ 8 * (addr.toNat + 2 ^ size.toNat) ≤ k) :
    (stored size addr operand word).getLsbD k = word.getLsbD k := by
  by_cases hlt : k < 64
  · have hlane : (beGen addr size).getLsbD (k / 8) = false := by
      rw [getLsbD_beGen h (by omega), decide_eq_false_iff_not]
      omega
    rw [stored, getLsbD_writeBytes _ _ _ hlt, hlane,
      if_neg Bool.false_ne_true]
  · rw [BitVec.getLsbD_of_ge _ _ (by omega),
      BitVec.getLsbD_of_ge _ _ (by omega)]

/-! ## The extension -/

/-- The operators of the loads. -/
def isLoad : FuOp → Bool
  | .LD | .LW | .LWU | .LH | .LHU | .LB | .LBU
  | .FLD | .FLW | .FLH | .FLB => true
  | _ => false

/-- The low bits of a word are known by its low bits. -/
theorem extractLsb'_congr {x y : BitVec 64} {len : Nat}
    (h : ∀ n < len, x.getLsbD n = y.getLsbD n) :
    x.extractLsb' 0 len = y.extractLsb' 0 len := by
  apply BitVec.eq_of_getLsbD_eq
  intro n hn
  rw [BitVec.getLsbD_extractLsb', BitVec.getLsbD_extractLsb', Nat.zero_add,
    h n hn]

/-- What a load makes of the data depends on the bytes of its size. -/
theorem loadValue_congr {op : FuOp} {x y : BitVec 64} (hop : isLoad op = true)
    (h : ∀ n < 8 * 2 ^ (extractTransferSize op).toNat,
      x.getLsbD n = y.getLsbD n) : loadValue op x = loadValue op y := by
  cases op <;> first | exact absurd hop (by decide) | skip
  case LW | LWU | FLW =>
    have hlow : x.extractLsb' 0 32 = y.extractLsb' 0 32 := extractLsb'_congr h
    simp only [loadValue, hlow]
  case LH | LHU | FLH =>
    have hlow : x.extractLsb' 0 16 = y.extractLsb' 0 16 := extractLsb'_congr h
    simp only [loadValue, hlow]
  case LB | LBU | FLB =>
    have hlow : x.extractLsb' 0 8 = y.extractLsb' 0 8 := extractLsb'_congr h
    simp only [loadValue, hlow]
  case LD | FLD => exact BitVec.eq_of_getLsbD_eq h

/-- An aligned load finds its sign in the double word. -/
theorem fits_of_aligned (h : Aligned (extractTransferSize d.operator)
    d.addressOffset) : Fits d := by
  have hfits := h.fits
  unfold Fits
  split
  · rename_i hop
    rw [hop] at hfits
    have hfour : d.addressOffset.toNat + 4 ≤ 8 := hfits
    omega
  · rename_i hop
    rw [hop] at hfits
    have htwo : d.addressOffset.toNat + 2 ≤ 8 := hfits
    omega
  · trivial

/-! ## The round trip -/

/-- Whatever the load unit did before, the load whose data it keeps gives
what its operator makes of the operand, if the double word has been written
by a store of the same size at the same aligned offset; and the write has
changed no other byte. -/
theorem load_reads_store (cfg : ArianeCfg) (q₀ : State) (i₀ i : In)
    (store : FuOp) (operand word : BitVec 64) :
    let q := step cfg q₀ i₀
    let d := q.loadData
    let size := extractTransferSize store
    isLoad d.operator = true → size = extractTransferSize d.operator →
    Aligned size d.addressOffset →
    i.dataRdata = writeBytes (beGen d.addressOffset size)
      (dataAlign d.addressOffset operand) word →
    resultO q i = loadValue d.operator operand ∧
      ∀ k, k < 8 * d.addressOffset.toNat ∨
          8 * (d.addressOffset.toNat + 2 ^ size.toNat) ≤ k →
        i.dataRdata.getLsbD k = word.getLsbD k := by
  intro q d size hload hsize halign hdata
  have hstored : i.dataRdata = stored size d.addressOffset operand word :=
    hdata
  constructor
  · rw [resultO_eq (prepared_step cfg q₀ i₀), hstored,
      resultOf_eq_loadValue (fits_of_aligned (hsize ▸ halign))]
    refine loadValue_congr hload fun n hn => ?_
    exact shiftedData_stored halign (hsize ▸ hn)
  · intro k hk
    rw [hstored]
    exact stored_outside halign hk

/-- An `lh` at the offset 2 is taken. -/
def takeHalf : In where
  flush := false
  valid := true
  lsuCtrl :=
    { LsuCtrl.zero with valid := true, vaddr := 0x1002#64, operator := .LH }
  paddr := 0x1002#56
  ex := ExceptionT.none
  dtlbHit := true
  pageOffsetMatches := false
  storeBufferEmpty := true
  commitTranId := 0#3
  dataGnt := true
  dataRvalid := false
  dataRdata := 0#64
  dcacheWbufferEmpty := true

theorem load_reads_store_half :
    let q := step ⟨[], [], []⟩ reset takeHalf
    let i := { takeHalf with dataRvalid := true,
                             dataRdata := 0x0111111180011111#64 }
    resultO q i = loadValue .LH 0x2223338001#64 ∧
      ∀ k, k < 16 ∨ 32 ≤ k →
        i.dataRdata.getLsbD k = (0x0111111111111111#64).getLsbD k :=
  load_reads_store ⟨[], [], []⟩ reset takeHalf _ .SH 0x2223338001#64
    0x0111111111111111#64 (by decide +kernel) (by decide +kernel)
    (by decide +kernel) (by decide +kernel)

end ArianeSoc.LoadUnit
