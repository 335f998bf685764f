import ArianeSoc.BitField
import ArianeSoc.CommonCells.Lzc
import ArianeSoc.Sync

/-!
# The fills of the L2 SMC

`l2_smc` is a small associative cache.  An entry holds a tag and four words
with a valid bit each; a fill writes all four words, a lookup reads the one
at its offset, and a flush clears valid bits.  A filled entry is locked until
a lookup hits it, so that it is not replaced before it is used.

Beside the state of the code goes a record of what its users are owed
(`Traced`): the words that have been filled and not flushed or replaced, and
the entries that have been filled and not hit or flushed.

* `unique_step`: a tag is in one valid entry at most.
* `holds_step`: the valid words of the entries are those of the record.
* `keeps_iff`: when a fill leaves the fresh entries of other tags alone.
  Where every entry is used or locked it takes the entry 0, locked or not.
-/

namespace ArianeSoc.L2.Smc

open CommonCells

/-- `L2_SMC_ENTRIES`. -/
def ENTRIES : ℕ := 16

/-- The fields of a line of `data_mem_f`. -/
structure Entry where
  tag : BitVec 14
  valid : BitVec 4
  data : BitVec 120

/-- `smc_sdid`, the upper bits of the tag. -/
def Entry.sdid (e : Entry) : BitVec 10 := e.tag.extractLsb' 4 10

/-- The word at an offset of the line. -/
def Entry.word (e : Entry) (offset : BitVec 2) : BitVec 30 :=
  (e.data >>> (offset.toNat * 30)).setWidth 30

/-- The inputs of one cycle. -/
structure In where
  rdEn : Bool
  wrEn : Bool
  rdDiagEn : Bool
  wrDiagEn : Bool
  flushEn : Bool
  addrOp : BitVec 2
  rdAddrIn : BitVec 16
  wrAddrIn : BitVec 16
  dataIn : BitVec 128

/-- The registers. -/
structure State where
  entryUsedF : ℕ → Bool
  entryLockedF : ℕ → Bool
  dataMemF : ℕ → Entry

def init : State := ⟨fun _ => false, fun _ => false, fun _ => ⟨0, 0, 0⟩⟩

/-! ## The inputs -/

/-- `L2_SMC_ADDR_TAG`. -/
def addrTag (addr : BitVec 16) : BitVec 14 := addr.extractLsb' 2 14

/-- `L2_SMC_ADDR_OFFSET`. -/
def addrOffset (addr : BitVec 16) : BitVec 2 := addr.extractLsb' 0 2

/-- `L2_SMC_ADDR_INDEX`. -/
def addrIndex (addr : BitVec 16) : ℕ := (addr.extractLsb' 2 4).toNat

/-- `L2_SMC_ADDR_SDID`. -/
def addrSdid (addr : BitVec 16) : BitVec 10 := addr.extractLsb' 6 10

/-- `smc_valid_in`: the top bit of each word of `data_in`. -/
def smcValidIn (dataIn : BitVec 128) : BitVec 4 :=
  dataIn.extractLsb' 127 1 ++ dataIn.extractLsb' 95 1 ++
    dataIn.extractLsb' 63 1 ++ dataIn.extractLsb' 31 1

/-- `smc_data_in`: the low 30 bits of each word of `data_in`. -/
def smcDataIn (dataIn : BitVec 128) : BitVec 120 :=
  dataIn.extractLsb' 96 30 ++ dataIn.extractLsb' 64 30 ++
    dataIn.extractLsb' 32 30 ++ dataIn.extractLsb' 0 30

/-! ## One cycle -/

/-- `l2_priority_encoder_4`, the same tree as that of the leading zero
counter, read from the low end. -/
def priorityEncoder (x : ℕ → Bool) : Lzc.Node := Lzc.node x 4 0

section Cycle

variable (s : State) (i : In)

def smcTagCmp (k : ℕ) : Bool :=
  (s.dataMemF k).tag == addrTag i.rdAddrIn &&
    (s.dataMemF k).valid.getLsbD (addrOffset i.rdAddrIn).toNat

def hit : Bool :=
  if i.rdEn && i.rdDiagEn then false
  else if i.rdEn then (priorityEncoder (smcTagCmp s i)).sel
  else false

def hitIndex : ℕ :=
  if i.rdEn && i.rdDiagEn then addrIndex i.rdAddrIn
  else if i.rdEn then (priorityEncoder (smcTagCmp s i)).index
  else 0

def dataOut : BitVec 30 :=
  (s.dataMemF (hitIndex s i)).word (addrOffset i.rdAddrIn)

def smcTagWrCmp (k : ℕ) : Bool :=
  (s.dataMemF k).tag == addrTag i.wrAddrIn && (s.dataMemF k).valid != 0#4

def wrHit : Bool :=
  (i.wrEn || (i.flushEn && i.addrOp == 1#2)) && (priorityEncoder (smcTagWrCmp s i)).sel

def wrHitIndex : ℕ :=
  if i.wrEn || (i.flushEn && i.addrOp == 1#2) then
    (priorityEncoder (smcTagWrCmp s i)).index
  else 0

def replaceCmp (k : ℕ) : Bool := !s.entryUsedF k && !s.entryLockedF k

def replaceIndex : ℕ :=
  if (priorityEncoder (replaceCmp s)).sel then (priorityEncoder (replaceCmp s)).index
  else 0

def wrIndex : ℕ :=
  if i.wrEn && i.wrDiagEn then addrIndex i.wrAddrIn
  else if (i.flushEn || i.wrEn) && wrHit s i then wrHitIndex s i
  else replaceIndex s

/-- The bit of the entry that a lookup hits. -/
def afterHit (f : ℕ → Bool) (b : Bool) : ℕ → Bool :=
  if i.rdEn && !i.rdDiagEn && hit s i then Function.update f (hitIndex s i) b else f

/-- The bit of the entry that a fill is for; it has the last word. -/
def afterWrite (f : ℕ → Bool) : ℕ → Bool :=
  if i.wrEn && !i.wrDiagEn then
    Function.update f (wrIndex s i) (smcValidIn i.dataIn != 0#4)
  else f

/-- `entry_locked_next`: a hit unlocks. -/
def entryLockedNext : ℕ → Bool := afterWrite s i (afterHit s i s.entryLockedF false)

/-- `entry_used_next`: when every entry has been used, none is. -/
def entryUsedNext : ℕ → Bool :=
  let used := afterWrite s i (afterHit s i s.entryUsedF true)
  if (List.range ENTRIES).all used then fun _ => false else used

/-- The bits of the valid vector but the one at the offset. -/
def clearBit (valid : BitVec 4) (offset : BitVec 2) : BitVec 4 :=
  valid &&& ~~~(1#4 <<< offset.toNat)

/-- A flush of all lines, of one word, or of a domain. -/
def flushed : ℕ → Entry :=
  if i.addrOp = 0#2 then fun k => { s.dataMemF k with valid := 0#4 }
  else if i.addrOp = 1#2 then
    if wrHit s i then
      Function.update s.dataMemF (wrIndex s i)
        { s.dataMemF (wrIndex s i) with
          valid := clearBit (s.dataMemF (wrIndex s i)).valid (addrOffset i.wrAddrIn) }
    else s.dataMemF
  else if i.addrOp = 2#2 then fun k =>
    if (s.dataMemF k).sdid == addrSdid i.wrAddrIn && (s.dataMemF k).valid != 0#4 then
      { s.dataMemF k with valid := 0#4 }
    else s.dataMemF k
  else s.dataMemF

/-- A diagnostic write of one field of a line. -/
def diagWritten (e : Entry) : Entry :=
  if i.addrOp = 0#2 then
    let word : BitField 120 30 := ⟨30 * (addrOffset i.wrAddrIn).toNat⟩
    { e with data := word.set (i.dataIn.setWidth 30) e.data }
  else if i.addrOp = 1#2 then { e with valid := i.dataIn.setWidth 4 }
  else if i.addrOp = 2#2 then { e with tag := i.dataIn.setWidth 14 }
  else e

def filled : Entry :=
  ⟨addrTag i.wrAddrIn, smcValidIn i.dataIn, smcDataIn i.dataIn⟩

def dataMemNext : ℕ → Entry :=
  if i.flushEn then flushed s i
  else if i.wrEn then
    Function.update s.dataMemF (wrIndex s i)
      (if i.wrDiagEn then diagWritten i (s.dataMemF (wrIndex s i)) else filled i)
  else s.dataMemF

/-- One clock cycle of `l2_smc`. -/
def step : State where
  entryUsedF := entryUsedNext s i
  entryLockedF := entryLockedNext s i
  dataMemF := dataMemNext s i

end Cycle

/-! ## What the users are owed -/

/-- The state with the words that have been filled and not flushed or
replaced, by tag and offset, and the entries that have been filled and not
hit or flushed. -/
structure Traced where
  s : State
  held : BitVec 14 → BitVec 2 → Option (BitVec 30)
  fresh : ℕ → Bool

namespace Traced

def init : Traced := ⟨Smc.init, fun _ _ => none, fun _ => false⟩

variable (t : Traced) (i : In)

/-- A fill is carried out: a flush in the same cycle goes first. -/
def fills : Bool := i.wrEn && !i.wrDiagEn && !i.flushEn

/-- Word `offset` of `data_in`. -/
def wordIn (dataIn : BitVec 128) (offset : BitVec 2) : BitVec 30 :=
  dataIn.extractLsb' (32 * offset.toNat) 30

/-- The tags that the flush is for. -/
def flushesTag (tag : BitVec 14) : Bool :=
  i.flushEn &&
    (i.addrOp == 0#2 || i.addrOp == 1#2 && tag == addrTag i.wrAddrIn ||
      i.addrOp == 2#2 && tag.extractLsb' 4 10 == addrSdid i.wrAddrIn)

/-- The addresses that the flush is for. -/
def flushes (tag : BitVec 14) (offset : BitVec 2) : Bool :=
  flushesTag i tag && (i.addrOp != 1#2 || offset == addrOffset i.wrAddrIn)

/-- The fill replaces the line of another tag. -/
def replaces (tag : BitVec 14) : Bool :=
  (t.s.dataMemF (wrIndex t.s i)).valid != 0#4 &&
    (t.s.dataMemF (wrIndex t.s i)).tag == tag

def heldNext (tag : BitVec 14) (offset : BitVec 2) : Option (BitVec 30) :=
  if fills i then
    if tag = addrTag i.wrAddrIn then
      if i.dataIn.getLsbD (32 * offset.toNat + 31) then some (wordIn i.dataIn offset)
      else none
    else if replaces t i tag then none
    else t.held tag offset
  else if flushes i tag offset then none
  else t.held tag offset

def freshNext (k : ℕ) : Bool :=
  if fills i && k == wrIndex t.s i then smcValidIn i.dataIn != 0#4
  else t.fresh k && !(hit t.s i && k == hitIndex t.s i) && !flushesTag i (t.s.dataMemF k).tag

def step : Traced := ⟨Smc.step t.s i, heldNext t i, freshNext t i⟩

end Traced

/-! ## The priority encoders -/

section Encoder

variable {x : ℕ → Bool}

theorem encoder_first (h : (priorityEncoder x).sel = true) :
    (priorityEncoder x).index < ENTRIES ∧ x (priorityEncoder x).index = true := by
  have hfirst := Lzc.node_first (h := 4) (k := 0) h
  exact ⟨hfirst.lt, hfirst.set⟩

theorem encoder_clear (h : (priorityEncoder x).sel = false) {k : ℕ}
    (hk : k < ENTRIES) : x k = false := by
  refine Lzc.node_clear (h := 4) (k := 0) h k ?_ hk
  rw [Nat.zero_mul]
  exact Nat.zero_le k

end Encoder

/-! ## The entry that is written -/

section Write

variable {s : State} {i : In} {k : ℕ}

/-- No diagnostic access. -/
def Ordinary (i : In) : Prop := i.rdDiagEn = false ∧ i.wrDiagEn = false

instance : Decidable (Ordinary i) :=
  inferInstanceAs (Decidable (_ ∧ _))

/-- A tag is in one valid entry at most. -/
def Unique (s : State) : Prop :=
  ∀ j k, j < ENTRIES → k < ENTRIES → (s.dataMemF j).valid ≠ 0#4 →
    (s.dataMemF k).valid ≠ 0#4 → (s.dataMemF j).tag = (s.dataMemF k).tag → j = k

theorem wrHit_index (ho : Ordinary i) (h : wrHit s i = true) :
    wrIndex s i < ENTRIES ∧
      (s.dataMemF (wrIndex s i)).tag = addrTag i.wrAddrIn ∧
      (s.dataMemF (wrIndex s i)).valid ≠ 0#4 := by
  obtain ⟨hen, hsel⟩ := Bool.and_eq_true_iff.mp h
  have hgo : (i.flushEn || i.wrEn) = true := by
    cases hw : i.wrEn <;> cases hf : i.flushEn <;> simp_all
  have hindex : wrIndex s i = (priorityEncoder (smcTagWrCmp s i)).index := by
    rw [wrIndex, ho.2, hgo, h, Bool.and_false, Bool.and_self,
      if_neg Bool.false_ne_true, if_pos rfl, wrHitIndex, if_pos hen]
  obtain ⟨hlt, hcmp⟩ := encoder_first hsel
  rw [hindex]
  simp only [smcTagWrCmp, Bool.and_eq_true, beq_iff_eq, bne_iff_ne] at hcmp
  exact ⟨hlt, hcmp⟩

theorem tag_ne_of_miss (hen : (i.wrEn || (i.flushEn && i.addrOp == 1#2)) = true)
    (h : wrHit s i = false) (hk : k < ENTRIES) (hvalid : (s.dataMemF k).valid ≠ 0#4) :
    (s.dataMemF k).tag ≠ addrTag i.wrAddrIn := by
  rw [wrHit, hen, Bool.true_and] at h
  have hcmp := encoder_clear h hk
  intro htag
  rw [smcTagWrCmp, htag, beq_self_eq_true, Bool.true_and, bne_eq_false_iff_eq] at hcmp
  exact hvalid hcmp

/-- A miss is written over the first entry that is neither used nor locked,
or over the entry 0. -/
theorem wrIndex_of_miss (ho : Ordinary i) (h : wrHit s i = false) :
    wrIndex s i < ENTRIES ∧
      ((s.entryUsedF (wrIndex s i) || s.entryLockedF (wrIndex s i)) = false ∨
        wrIndex s i = 0 ∧ ∀ k < ENTRIES, s.entryUsedF k || s.entryLockedF k) := by
  have hindex : wrIndex s i = replaceIndex s := by
    rw [wrIndex, ho.2, h, Bool.and_false, Bool.and_false, if_neg Bool.false_ne_true,
      if_neg Bool.false_ne_true]
  rw [hindex, replaceIndex]
  split_ifs with hsel
  · obtain ⟨hlt, hcmp⟩ := encoder_first hsel
    rw [replaceCmp, ← Bool.not_or, Bool.not_eq_true'] at hcmp
    exact ⟨hlt, Or.inl hcmp⟩
  · refine ⟨by decide, Or.inr ⟨rfl, fun k hk => ?_⟩⟩
    have hcmp := encoder_clear (Bool.eq_false_iff.mpr hsel) hk
    rw [replaceCmp] at hcmp
    cases hu : s.entryUsedF k <;> cases hl : s.entryLockedF k <;> simp_all

theorem wrIndex_lt (ho : Ordinary i) : wrIndex s i < ENTRIES := by
  cases h : wrHit s i with
  | true => exact (wrHit_index ho h).1
  | false => exact (wrIndex_of_miss ho h).1

/-! ## The flush of an entry -/

theorem getLsbD_clearBit (valid : BitVec 4) (o offset : BitVec 2) :
    (clearBit valid offset).getLsbD o.toNat =
      (valid.getLsbD o.toNat && o != offset) := by
  revert valid o offset
  decide

theorem flushed_tag (k : ℕ) : (flushed s i k).tag = (s.dataMemF k).tag := by
  unfold flushed
  split_ifs
  · rfl
  · rcases eq_or_ne k (wrIndex s i) with rfl | hne
    · rw [Function.update_self]
    · rw [Function.update_of_ne hne]
  · rfl
  · dsimp only
    split_ifs <;> rfl
  · rfl

theorem flushed_data (k : ℕ) : (flushed s i k).data = (s.dataMemF k).data := by
  unfold flushed
  split_ifs
  · rfl
  · rcases eq_or_ne k (wrIndex s i) with rfl | hne
    · rw [Function.update_self]
    · rw [Function.update_of_ne hne]
  · rfl
  · dsimp only
    split_ifs <;> rfl
  · rfl

theorem flushed_valid (ho : Ordinary i) (hu : Unique s) (hf : i.flushEn = true)
    (hk : k < ENTRIES) (o : BitVec 2) :
    (flushed s i k).valid.getLsbD o.toNat =
      ((s.dataMemF k).valid.getLsbD o.toNat &&
        !Traced.flushes i (s.dataMemF k).tag o) := by
  unfold Traced.flushes Traced.flushesTag flushed
  by_cases h0 : i.addrOp = 0#2
  · simp [h0, hf]
  by_cases h1 : i.addrOp = 1#2
  · rw [if_neg h0, if_pos h1]
    have hen : (i.wrEn || (i.flushEn && i.addrOp == 1#2)) = true := by simp [hf, h1]
    cases hhit : wrHit s i with
    | true =>
      obtain ⟨hlt, htag, hvalid⟩ := wrHit_index ho hhit
      rw [if_pos rfl]
      rcases eq_or_ne k (wrIndex s i) with rfl | hne
      · rw [Function.update_self, getLsbD_clearBit, htag]
        simp [hf, h1, bne]
      · rw [Function.update_of_ne hne]
        by_cases hsame : (s.dataMemF k).tag = addrTag i.wrAddrIn
        · have hzero : (s.dataMemF k).valid = 0#4 := by
            by_contra hv
            exact hne (hu k _ hk hlt hv hvalid (hsame.trans htag.symm))
          simp [hzero]
        · simp [hsame, h1]
    | false =>
      rw [if_neg Bool.false_ne_true]
      by_cases hsame : (s.dataMemF k).tag = addrTag i.wrAddrIn
      · have hzero : (s.dataMemF k).valid = 0#4 := by
          by_contra hv
          exact tag_ne_of_miss hen hhit hk hv hsame
        simp [hzero]
      · simp [hsame, h1]
  by_cases h2 : i.addrOp = 2#2
  · rw [if_neg h0, if_neg h1, if_pos h2]
    show (if (_ : Bool) then _ else _ : Entry).valid.getLsbD o.toNat = _
    simp only [Entry.sdid]
    by_cases hsd : (s.dataMemF k).tag.extractLsb' 4 10 = addrSdid i.wrAddrIn
    · by_cases hv : (s.dataMemF k).valid = 0#4
      · simp [hv]
      · simp [hsd, hv, h2, hf]
    · simp [hsd, h2]
  · rw [if_neg h0, if_neg h1, if_neg h2]
    simp [h0, h1, h2]

/-- A flush makes no line valid. -/
theorem valid_of_flushed (h : (flushed s i k).valid ≠ 0#4) :
    (s.dataMemF k).valid ≠ 0#4 := by
  intro hzero
  apply h
  unfold flushed
  split_ifs
  · rfl
  · rcases eq_or_ne k (wrIndex s i) with rfl | hne
    · rw [Function.update_self, clearBit, hzero, BitVec.zero_and]
    · rw [Function.update_of_ne hne, hzero]
  · exact hzero
  · simp [hzero]
  · exact hzero

/-! ## One tag, one entry -/

/-- The entries besides the one that is filled hold other tags. -/
theorem tag_ne_of_ne (ho : Ordinary i) (hu : Unique s) (hw : i.wrEn = true)
    (hk : k < ENTRIES) (hne : k ≠ wrIndex s i) (hvalid : (s.dataMemF k).valid ≠ 0#4) :
    (s.dataMemF k).tag ≠ addrTag i.wrAddrIn := by
  intro htag
  cases hhit : wrHit s i with
  | true =>
    obtain ⟨hlt, hwr, hwrValid⟩ := wrHit_index ho hhit
    exact hne (hu k _ hk hlt hvalid hwrValid (htag.trans hwr.symm))
  | false =>
    have hen : (i.wrEn || (i.flushEn && i.addrOp == 1#2)) = true := by simp [hw]
    exact tag_ne_of_miss hen hhit hk hvalid htag

theorem dataMem_flush (hf : i.flushEn = true) : (step s i).dataMemF = flushed s i :=
  if_pos hf

theorem dataMem_fill (hf : Traced.fills i = true) :
    (step s i).dataMemF = Function.update s.dataMemF (wrIndex s i) (filled i) := by
  simp only [Traced.fills, Bool.and_eq_true, Bool.not_eq_true'] at hf
  obtain ⟨⟨hw, hd⟩, hflush⟩ := hf
  show dataMemNext s i = _
  simp only [dataMemNext, hw, hd, hflush, Bool.false_eq_true, if_false, if_true]

theorem dataMem_idle (ho : Ordinary i) (hf : i.flushEn = false)
    (h : Traced.fills i = false) : (step s i).dataMemF = s.dataMemF := by
  have hw : i.wrEn = false := by simpa [Traced.fills, ho.2, hf] using h
  show dataMemNext s i = _
  simp only [dataMemNext, hf, hw, Bool.false_eq_true, if_false]

theorem unique_step (ho : Ordinary i) (hu : Unique s) : Unique (step s i) := by
  intro j k hj hk hjv hkv htag
  cases hflush : i.flushEn with
  | true =>
    rw [dataMem_flush hflush] at hjv hkv htag
    rw [flushed_tag, flushed_tag] at htag
    exact hu j k hj hk (valid_of_flushed hjv) (valid_of_flushed hkv) htag
  | false =>
    cases hfill : Traced.fills i with
    | false =>
      rw [dataMem_idle ho hflush hfill] at hjv hkv htag
      exact hu j k hj hk hjv hkv htag
    | true =>
      have hw : i.wrEn = true := by
        simp only [Traced.fills, Bool.and_eq_true] at hfill
        exact hfill.1.1
      rw [dataMem_fill hfill] at hjv hkv htag
      rcases eq_or_ne j (wrIndex s i) with rfl | hjne
      · by_contra hne
        rw [Function.update_self, Function.update_of_ne (Ne.symm hne)] at htag
        rw [Function.update_of_ne (Ne.symm hne)] at hkv
        exact tag_ne_of_ne ho hu hw hk (Ne.symm hne) hkv htag.symm
      rcases eq_or_ne k (wrIndex s i) with rfl | hkne
      · rw [Function.update_self, Function.update_of_ne hjne] at htag
        rw [Function.update_of_ne hjne] at hjv
        exact absurd htag (tag_ne_of_ne ho hu hw hj hjne hjv)
      · rw [Function.update_of_ne hjne, Function.update_of_ne hkne] at htag
        rw [Function.update_of_ne hjne] at hjv
        rw [Function.update_of_ne hkne] at hkv
        exact hu j k hj hk hjv hkv htag

end Write

/-! ## The record -/

namespace Traced

variable {t : Traced} {i : In}

/-- The valid words of the entries are those of the record. -/
structure Holds (t : Traced) : Prop where
  held_of_valid : ∀ k < ENTRIES, ∀ o : BitVec 2,
    (t.s.dataMemF k).valid.getLsbD o.toNat = true →
      t.held (t.s.dataMemF k).tag o = some ((t.s.dataMemF k).word o)
  valid_of_held : ∀ tag o, t.held tag o ≠ none → ∃ k < ENTRIES,
    (t.s.dataMemF k).tag = tag ∧ (t.s.dataMemF k).valid.getLsbD o.toNat = true

theorem filled_valid (o : BitVec 2) :
    (filled i).valid.getLsbD o.toNat = i.dataIn.getLsbD (32 * o.toNat + 31) := by
  have ho : o = 0#2 ∨ o = 1#2 ∨ o = 2#2 ∨ o = 3#2 := by
    revert o
    decide
  unfold filled smcValidIn
  simp only [BitVec.getLsbD_append, BitVec.getLsbD_extractLsb']
  rcases ho with rfl | rfl | rfl | rfl <;> simp

theorem filled_word (o : BitVec 2) : (filled i).word o = wordIn i.dataIn o := by
  have ho : o = 0#2 ∨ o = 1#2 ∨ o = 2#2 ∨ o = 3#2 := by
    revert o
    decide
  unfold filled smcDataIn Entry.word wordIn
  apply BitVec.eq_of_getLsbD_eq
  intro j hj
  rw [BitVec.getLsbD_setWidth, BitVec.getLsbD_ushiftRight]
  simp only [BitVec.getLsbD_append, BitVec.getLsbD_extractLsb']
  rcases ho with rfl | rfl | rfl | rfl
  · simp [hj]
  · have hpos : 30 + j - 30 = j := by omega
    simp only [BitVec.reduceToNat, Nat.reduceMul, hj, decide_true, Bool.true_and]
    rw [if_neg (by omega), if_pos (by omega)]
    simp [hpos, hj]
  · have hpos : 60 + j - 30 - 30 = j := by omega
    simp only [BitVec.reduceToNat, Nat.reduceMul, hj, decide_true, Bool.true_and]
    rw [if_neg (by omega), if_neg (by omega), if_pos (by omega)]
    simp [hpos, hj]
  · have hpos : 90 + j - 30 - 30 - 30 = j := by omega
    simp only [BitVec.reduceToNat, Nat.reduceMul, hj, decide_true, Bool.true_and]
    rw [if_neg (by omega), if_neg (by omega), if_neg (by omega)]
    simp [hpos, hj]

variable {k : ℕ}

theorem holds_flush (ho : Ordinary i) (hu : Unique t.s) (hf : i.flushEn = true)
    (hh : Holds t) : Holds (step t i) := by
  have hnofill : fills i = false := by simp [fills, hf]
  have hmem : (step t i).s.dataMemF = flushed t.s i := dataMem_flush hf
  have hheld : ∀ tag o, (step t i).held tag o =
      if flushes i tag o then none else t.held tag o := by
    intro tag o
    show heldNext t i tag o = _
    rw [heldNext, hnofill, if_neg Bool.false_ne_true]
  constructor
  · intro k hk o hvalid
    rw [hmem] at hvalid ⊢
    rw [flushed_valid ho hu hf hk, Bool.and_eq_true, Bool.not_eq_true'] at hvalid
    rw [hheld, flushed_tag, hvalid.2, if_neg Bool.false_ne_true,
      hh.held_of_valid k hk o hvalid.1, Entry.word, Entry.word, flushed_data]
  · intro tag o howed
    rw [hheld] at howed
    split_ifs at howed with hflush
    · exact absurd rfl howed
    obtain ⟨k, hk, rfl, hvalid⟩ := hh.valid_of_held tag o howed
    refine ⟨k, hk, ?_, ?_⟩
    · rw [hmem, flushed_tag]
    · rw [hmem, flushed_valid ho hu hf hk, hvalid, Bool.true_and, Bool.not_eq_true']
      exact Bool.eq_false_iff.mpr hflush

theorem valid_ne_zero {v : BitVec 4} {o : BitVec 2} (h : v.getLsbD o.toNat = true) :
    v ≠ 0#4 := by
  rintro rfl
  rw [BitVec.getLsbD_zero] at h
  exact Bool.false_ne_true h

theorem holds_fill (ho : Ordinary i) (hu : Unique t.s) (hf : fills i = true)
    (hh : Holds t) : Holds (step t i) := by
  have hw : i.wrEn = true := by
    simp only [fills, Bool.and_eq_true] at hf
    exact hf.1.1
  have hmem : (step t i).s.dataMemF =
      Function.update t.s.dataMemF (wrIndex t.s i) (filled i) := dataMem_fill hf
  have hlt : wrIndex t.s i < ENTRIES := wrIndex_lt ho
  constructor
  · intro k hk o hvalid
    rw [hmem] at hvalid ⊢
    show heldNext t i _ o = _
    rw [heldNext, if_pos hf]
    rcases eq_or_ne k (wrIndex t.s i) with rfl | hne
    · rw [Function.update_self] at hvalid ⊢
      rw [if_pos (show (filled i).tag = addrTag i.wrAddrIn from rfl), filled_word,
        if_pos ((filled_valid o).symm.trans hvalid)]
    · rw [Function.update_of_ne hne] at hvalid ⊢
      have hkv : (t.s.dataMemF k).valid ≠ 0#4 := valid_ne_zero hvalid
      have hkeep : replaces t i (t.s.dataMemF k).tag = false := by
        by_contra hrep
        simp only [replaces, Bool.not_eq_false, Bool.and_eq_true, bne_iff_ne,
          beq_iff_eq] at hrep
        exact hne (hu k _ hk hlt hkv hrep.1 hrep.2.symm)
      rw [if_neg (tag_ne_of_ne ho hu hw hk hne hkv), hkeep, if_neg Bool.false_ne_true]
      exact hh.held_of_valid k hk o hvalid
  · intro tag o howed
    change heldNext t i tag o ≠ none at howed
    rw [heldNext, if_pos hf] at howed
    rw [hmem]
    split_ifs at howed with htag hbit hrep
    · refine ⟨wrIndex t.s i, hlt, ?_, ?_⟩
      · rw [Function.update_self]
        exact htag.symm
      · rw [Function.update_self, filled_valid, hbit]
    · exact absurd rfl howed
    · exact absurd rfl howed
    · obtain ⟨k, hk, rfl, hvalid⟩ := hh.valid_of_held tag o howed
      have hne : k ≠ wrIndex t.s i := by
        rintro rfl
        apply hrep
        simp [replaces, valid_ne_zero hvalid]
      refine ⟨k, hk, ?_, ?_⟩ <;> rw [Function.update_of_ne hne]
      exact hvalid

theorem holds_step (ho : Ordinary i) (hu : Unique t.s) (hh : Holds t) :
    Holds (step t i) := by
  cases hflush : i.flushEn with
  | true => exact holds_flush ho hu hflush hh
  | false =>
    cases hfill : fills i with
    | true => exact holds_fill ho hu hfill hh
    | false =>
      have hmem : (step t i).s.dataMemF = t.s.dataMemF := dataMem_idle ho hflush hfill
      have hheld : (step t i).held = t.held := by
        funext tag o
        show heldNext t i tag o = _
        simp [heldNext, hfill, flushes, flushesTag, hflush]
      constructor
      · rw [hmem, hheld]
        exact hh.held_of_valid
      · rw [hmem, hheld]
        exact hh.valid_of_held

/-- The answer of a lookup. -/
def answer (s : State) (i : In) : Option (BitVec 30) :=
  if hit s i then some (dataOut s i) else none

/-- A lookup finds what has been filled and not flushed or replaced, and
nothing else. -/
def Answers (t : Traced) (i : In) : Prop :=
  i.rdEn = true →
    answer t.s i = t.held (addrTag i.rdAddrIn) (addrOffset i.rdAddrIn)

theorem answers_of_holds (ho : Ordinary i) (hh : Holds t) : Answers t i := by
  intro hrd
  have hhit : hit t.s i = (priorityEncoder (smcTagCmp t.s i)).sel := by
    simp only [hit, ho.1, hrd, Bool.and_false, Bool.false_eq_true, if_false, if_true]
  have hindex : hitIndex t.s i = (priorityEncoder (smcTagCmp t.s i)).index := by
    simp only [hitIndex, ho.1, hrd, Bool.and_false, Bool.false_eq_true, if_false, if_true]
  rw [answer, hhit, dataOut, hindex]
  cases hsel : (priorityEncoder (smcTagCmp t.s i)).sel with
  | true =>
    obtain ⟨hlt, hcmp⟩ := encoder_first hsel
    obtain ⟨htag, hvalid⟩ := Bool.and_eq_true_iff.mp hcmp
    rw [if_pos rfl, ← hh.held_of_valid _ hlt _ hvalid, eq_of_beq htag]
  | false =>
    rw [if_neg Bool.false_ne_true]
    by_contra howed
    obtain ⟨k, hk, htag, hvalid⟩ := hh.valid_of_held _ _ (Ne.symm howed)
    have hcmp := encoder_clear hsel hk
    rw [smcTagCmp, htag, hvalid, beq_self_eq_true] at hcmp
    exact Bool.noConfusion hcmp

/-! ## The fresh entries -/

/-- No fill of an empty line is asked for in the cycle of a flush, which
keeps it from the line but not from its lock. -/
def Separate (i : In) : Prop :=
  i.wrEn = true → i.flushEn = true → smcValidIn i.dataIn ≠ 0#4

instance (i : In) : Decidable (Separate i) :=
  inferInstanceAs (Decidable (_ → _ → _))

/-- The fresh entries are locked. -/
def Locks (t : Traced) : Prop := ∀ k, t.fresh k = true → t.s.entryLockedF k = true

theorem locks_step (ho : Ordinary i) (hsep : Separate i) (hl : Locks t) :
    Locks (step t i) := by
  intro k hfresh
  change freshNext t i k = true at hfresh
  show entryLockedNext t.s i k = true
  have hafter : t.fresh k = true → (hit t.s i && k == hitIndex t.s i) = false →
      afterHit t.s i t.s.entryLockedF false k = true := by
    intro hk hne
    unfold afterHit
    split_ifs with hhit
    · rw [(Bool.and_eq_true_iff.mp hhit).2, Bool.true_and, beq_eq_false_iff_ne] at hne
      rw [Function.update_of_ne hne]
      exact hl k hk
    · exact hl k hk
  rw [entryLockedNext, afterWrite, ho.2, Bool.not_false, Bool.and_true]
  unfold freshNext at hfresh
  split_ifs at hfresh with hfill
  · obtain ⟨hf, hk⟩ := Bool.and_eq_true_iff.mp hfill
    simp only [fills, Bool.and_eq_true] at hf
    rw [if_pos hf.1.1, eq_of_beq hk, Function.update_self]
    exact hfresh
  · simp only [Bool.and_eq_true, Bool.not_eq_true'] at hfresh
    obtain ⟨⟨hold, hhit⟩, -⟩ := hfresh
    by_cases hw : i.wrEn = true
    · rw [if_pos hw]
      rcases eq_or_ne k (wrIndex t.s i) with rfl | hne
      · -- the line is not filled, so the flush goes first
        have hflush : i.flushEn = true := by
          simpa [fills, hw, ho.2] using hfill
        rw [Function.update_self, bne_iff_ne]
        exact hsep hw hflush
      · rw [Function.update_of_ne hne]
        exact hafter hold hhit
    · rw [if_neg hw]
      exact hafter hold hhit

/-- The fresh entries are valid. -/
def Filled (t : Traced) : Prop :=
  ∀ k < ENTRIES, t.fresh k = true → (t.s.dataMemF k).valid ≠ 0#4

theorem flushed_valid_of_not (ho : Ordinary i) (hu : Unique t.s) (hf : i.flushEn = true)
    (hk : k < ENTRIES) (h : flushesTag i (t.s.dataMemF k).tag = false) :
    (flushed t.s i k).valid = (t.s.dataMemF k).valid := by
  apply BitVec.eq_of_getLsbD_eq
  intro j hj
  have hbit := flushed_valid ho hu hf hk (BitVec.ofNat 2 j)
  rw [BitVec.toNat_ofNat, Nat.mod_eq_of_lt (show j < 2 ^ 2 from hj), flushes, h,
    Bool.false_and, Bool.not_false, Bool.and_true] at hbit
  exact hbit

theorem filled_step (ho : Ordinary i) (hu : Unique t.s) (hv : Filled t) :
    Filled (step t i) := by
  intro k hk hfresh
  change freshNext t i k = true at hfresh
  show ((Smc.step t.s i).dataMemF k).valid ≠ 0#4
  unfold freshNext at hfresh
  split_ifs at hfresh with hfill
  · obtain ⟨hf, hkw⟩ := Bool.and_eq_true_iff.mp hfill
    rw [dataMem_fill hf, eq_of_beq hkw, Function.update_self]
    exact bne_iff_ne.mp hfresh
  · simp only [Bool.and_eq_true, Bool.not_eq_true'] at hfresh
    obtain ⟨⟨hold, -⟩, hnot⟩ := hfresh
    have hvalid := hv k hk hold
    cases hflush : i.flushEn with
    | true =>
      rw [dataMem_flush hflush, flushed_valid_of_not ho hu hflush hk hnot]
      exact hvalid
    | false =>
      cases hf : fills i with
      | true =>
        rw [hf, Bool.true_and, beq_iff_eq] at hfill
        rw [dataMem_fill hf, Function.update_of_ne hfill]
        exact hvalid
      | false =>
        rw [dataMem_idle ho hflush hf]
        exact hvalid

/-- While some entry is not locked, a fill leaves the fresh entries of
other tags alone. -/
def Keeps (t : Traced) (i : In) : Prop :=
  fills i = true → t.fresh (wrIndex t.s i) = true →
    (∃ j < ENTRIES, t.s.entryLockedF j = false) →
    (t.s.dataMemF (wrIndex t.s i)).tag = addrTag i.wrAddrIn

/-- A fill that misses does not come while every entry is used or locked, one
of them only used, and the entry 0 fresh. -/
def Roomy (t : Traced) (i : In) : Prop :=
  ¬ (fills i = true ∧ wrHit t.s i = false ∧
    (∀ k < ENTRIES, t.s.entryUsedF k || t.s.entryLockedF k) ∧
    (∃ j < ENTRIES, t.s.entryLockedF j = false) ∧ t.fresh 0 = true)

instance (t : Traced) (i : In) : Decidable (Keeps t i) :=
  inferInstanceAs (Decidable (_ → _ → _ → _))

theorem keeps_iff (ho : Ordinary i) (hl : Locks t) (hv : Filled t) :
    Keeps t i ↔ Roomy t i := by
  constructor
  · rintro hkeeps ⟨hfill, hmiss, hall, hfree, hzero⟩
    have hw : i.wrEn = true := by
      simp only [fills, Bool.and_eq_true] at hfill
      exact hfill.1.1
    have hindex : wrIndex t.s i = 0 := by
      obtain ⟨hlt, hnone | ⟨hindex, -⟩⟩ := wrIndex_of_miss ho hmiss
      · exact absurd (hall _ hlt) (Bool.eq_false_iff.mp hnone)
      · exact hindex
    have htag := hkeeps hfill (hindex ▸ hzero) hfree
    rw [hindex] at htag
    have hen : (i.wrEn || (i.flushEn && i.addrOp == 1#2)) = true := by simp [hw]
    exact tag_ne_of_miss hen hmiss (by decide) (hv 0 (by decide) hzero) htag
  · intro hroom hfill hfresh hfree
    cases hhit : wrHit t.s i with
    | true => exact (wrHit_index ho hhit).2.1
    | false =>
      obtain ⟨hlt, hnone | ⟨hindex, hall⟩⟩ := wrIndex_of_miss ho hhit
      · rw [hl _ hfresh, Bool.or_true] at hnone
        exact absurd hnone.symm Bool.false_ne_true
      · rw [hindex] at hfresh
        exact absurd ⟨hfill, hhit, hall, hfree, hfresh⟩ hroom

/-! ## The runs -/

theorem init_unique : Unique init.s := fun _ _ _ _ h _ _ => absurd rfl h

theorem init_holds : Holds init :=
  ⟨fun _ _ _ h => absurd rfl (valid_ne_zero h), fun _ _ h => absurd rfl h⟩

theorem init_locks : Locks init := fun _ h => absurd h Bool.false_ne_true

theorem init_filled : Filled init := fun _ _ h => absurd h Bool.false_ne_true

open Sync in
/-- In every run of fills, lookups and flushes a tag is in one valid entry at
most, and a lookup answers with what has been filled and not flushed or
replaced.  The fills leave the fresh entries alone if and only if none of
them comes when there is no room but the entry 0. -/
theorem fill_guarantee (is : List In) (ho : ∀ i ∈ is, Ordinary i) :
    Always step (fun t => Unique t.s) init is ∧ Along step Answers init is ∧
      ((∀ i ∈ is, Separate i) →
        (Along step Keeps init is ↔ Along step Roomy init is)) := by
  have hord : Along step (fun _ i => Ordinary i) init is := along_of_forall_mem ho
  have hinv := hord.along (P := fun t => Unique t.s ∧ Holds t ∧ Filled t)
    (fun t i hi ht => ⟨unique_step hi ht.1, holds_step hi ht.1 ht.2.1,
      filled_step hi ht.1 ht.2.2⟩) ⟨init_unique, init_holds, init_filled⟩
  refine ⟨?_, hinv.mono fun t i h => answers_of_holds h.1 h.2.2.1, fun hsep => ?_⟩
  · exact hord.always (P := fun t => Unique t.s) (fun t i hi ht => unique_step hi ht)
      init_unique
  · have hlocks := (hord.and (along_of_forall_mem hsep)).along
      (fun t i hi ht => locks_step hi.1 hi.2 ht) init_locks
    refine Along.congr_of (fun t i h => ?_) (hinv.and hlocks)
    exact keeps_iff h.1.1 h.2.2 h.1.2.2.2

/-! ## A fresh entry is replaced -/

/-- The fill of the four words of a tag. -/
def fill (tag : BitVec 14) : In where
  rdEn := false
  wrEn := true
  rdDiagEn := false
  wrDiagEn := false
  flushEn := false
  addrOp := 0#2
  rdAddrIn := 0#16
  wrAddrIn := tag.setWidth 16 <<< 2
  dataIn := BitVec.allOnes 128

/-- The lookup of the first word of a tag. -/
def lookup (tag : BitVec 14) : In where
  rdEn := true
  wrEn := false
  rdDiagEn := false
  wrDiagEn := false
  flushEn := false
  addrOp := 0#2
  rdAddrIn := tag.setWidth 16 <<< 2
  wrAddrIn := 0#16
  dataIn := 0#128

theorem fill_guarantee_lookup :
    Sync.Along step Answers init [fill 1#14, lookup 1#14] ∧
      (Sync.Along step Keeps init [fill 1#14, lookup 1#14] ↔
        Sync.Along step Roomy init [fill 1#14, lookup 1#14]) := by
  obtain ⟨-, hanswers, hkeeps⟩ := fill_guarantee [fill 1#14, lookup 1#14] (by decide)
  exact ⟨hanswers, hkeeps (by decide)⟩

/-- Sixteen fills lock every entry, and as every entry has been used, none is
any more.  A lookup unlocks the entry 1 and uses it; then the next fill
replaces the entry 0. -/
def sixteenFills : List In :=
  (List.range 16).map (fun k => fill (BitVec.ofNat 14 k)) ++ [lookup 1#14, fill 16#14]

theorem not_keeps :
    (∀ i ∈ sixteenFills, Ordinary i ∧ Separate i) ∧
      ¬ Sync.Along step Keeps init sixteenFills := by
  decide +kernel

end Traced

end ArianeSoc.L2.Smc
