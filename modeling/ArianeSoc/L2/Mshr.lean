import ArianeSoc.BitField
import ArianeSoc.RefCount
import ArianeSoc.Sync

/-!
# The waiting guards of the L2 MSHR

`l2_mshr` keeps the requests that wait for memory or for other caches, one in
each of its entries, and a counter beside them.  The counter is to be the
number of the entries that wait with a write-back guard request: if there are
too many of them, they are all woken.

The counter goes up when such an entry is written and down when a lookup
wakes one.  The entries change in more ways, and `Accounted` says for which
cycles the counter still agrees: `step_exact_iff` for one cycle,
`always_exact_iff` for a run from reset.
-/

namespace ArianeSoc.L2.Mshr

variable {ways tagIndex : ℕ}

/-- `L2_MSHR_ENTRIES`. -/
def ENTRIES : ℕ := 8

def STATE_INVAL : BitVec 2 := 0#2
def STATE_WAIT : BitVec 2 := 1#2
def STATE_PENDING : BitVec 2 := 2#2

/-- `L2_MSHR_WBG_THRESHOLD`. -/
def WBG_THRESHOLD : BitVec 3 := 4#3

def MSG_TYPE_WBGUARD_REQ : BitVec 8 := 13#8

/-- `L2_MSHR_MSG_TYPE`; `ways` is `L2_WAYS_WIDTH`. -/
def MSG_TYPE (ways : ℕ) : BitField (120 + ways) 8 := ⟨52 + ways⟩

/-- `L2_MSHR_SMC_MISS`. -/
def SMC_MISS (ways : ℕ) : BitField (120 + ways) 1 := ⟨117 + ways⟩

/-- `L2_MSHR_CMP_ADDR`, the index of the set. -/
def CMP_ADDR (ways tagIndex : ℕ) : BitField (120 + ways) tagIndex := ⟨6⟩

/-- The inputs of one cycle that the registers depend on. -/
structure In (ways tagIndex : ℕ) where
  camEn : Bool
  wrStateEn : Bool
  wrDataEn : Bool
  pendingReady : Bool
  incCounterEn : Bool
  stateIn : BitVec 2
  dataIn : BitVec (120 + ways)
  dataMaskIn : BitVec (120 + ways)
  wrIndexIn : BitVec 3
  addrIn : BitVec tagIndex

/-- The registers. -/
structure State (ways : ℕ) where
  stateMemF : ℕ → BitVec 2
  dataMemF : ℕ → BitVec (120 + ways)
  counterMemF : ℕ → BitVec 6
  wbgCounterF : BitVec 3

def init : State ways :=
  ⟨fun _ => STATE_INVAL, fun _ => 0, fun _ => 0#6, 0#3⟩

/-! ## One cycle -/

/-- The data of a write-back guard request. -/
def guards (data : BitVec (120 + ways)) : Bool :=
  (MSG_TYPE ways).get data == MSG_TYPE_WBGUARD_REQ

def smcMiss (data : BitVec (120 + ways)) : Bool :=
  (SMC_MISS ways).get data == 1#1

section Cycle

variable (s : State ways) (i : In ways tagIndex)

/-- The first pending entry: `pending` and `pending_index`. -/
def pending : Option ℕ :=
  (List.range ENTRIES).find? fun k => s.stateMemF k == STATE_PENDING

/-- The first entry that the lookup hits: `hit` and `hit_index`. -/
def hit : Option ℕ :=
  if i.camEn then
    (List.range ENTRIES).find? fun k =>
      (CMP_ADDR ways tagIndex).get (s.dataMemF k) == i.addrIn &&
        s.stateMemF k != STATE_INVAL
  else none

def In.wrIndex : ℕ := i.wrIndexIn.toNat

/-- The entry that is read out as pending in this cycle. -/
def completes : Option ℕ := if i.pendingReady then pending s else none

/-- The guard that the lookup wakes. -/
def wakes : Option ℕ := (hit s i).filter fun k => guards (s.dataMemF k)

/-- The state of an entry that has been read out: one with an SMC miss stays
locked. -/
def released (k : ℕ) : BitVec 2 :=
  if smcMiss (s.dataMemF k) then STATE_WAIT else STATE_INVAL

/-- `state_mem_f` after the cycle. -/
def stateMemNext : ℕ → BitVec 2 :=
  if i.wrStateEn then
    Function.update
      (match completes s i with
      | some k => Function.update s.stateMemF k (released s k)
      | none => s.stateMemF) i.wrIndex i.stateIn
  else
    match completes s i with
    | some k => Function.update s.stateMemF k (released s k)
    | none =>
      match wakes s i with
      | some k => Function.update s.stateMemF k STATE_PENDING
      | none =>
        if WBG_THRESHOLD < s.wbgCounterF then fun k =>
          if s.stateMemF k == STATE_WAIT && guards (s.dataMemF k) then STATE_PENDING
          else s.stateMemF k
        else s.stateMemF

/-- A guard is written as waiting. -/
def allocates : Bool :=
  i.wrStateEn && i.wrDataEn && i.stateIn == STATE_WAIT && guards i.dataIn &&
    (MSG_TYPE ways).get i.dataMaskIn == BitVec.allOnes 8

/-- `wbg_counter_next`. -/
def wbgCounterNext : BitVec 3 :=
  if allocates i then s.wbgCounterF + 1#3
  else if !i.wrStateEn && (completes s i).isNone && (wakes s i).isSome then
    s.wbgCounterF - 1#3
  else s.wbgCounterF

/-- The data of the entry at the write index after the cycle. -/
def dataNext : BitVec (120 + ways) :=
  if i.wrDataEn then
    BitField.merge i.dataMaskIn (s.dataMemF i.wrIndex) i.dataIn
  else s.dataMemF i.wrIndex

/-- `counter_mem_f` after the cycle: an entry that is read out counts from
zero again. -/
def counterMemNext : ℕ → BitVec 6 :=
  let counted := Function.update s.counterMemF i.wrIndex (s.counterMemF i.wrIndex + 1#6)
  match completes s i with
  | some k =>
    if i.incCounterEn && k != i.wrIndex then Function.update counted k 0#6
    else Function.update s.counterMemF k 0#6
  | none => if i.incCounterEn then counted else s.counterMemF

/-- One clock cycle of `l2_mshr`. -/
def step : State ways where
  stateMemF := stateMemNext s i
  dataMemF := Function.update s.dataMemF i.wrIndex (dataNext s i)
  counterMemF := counterMemNext s i
  wbgCounterF := wbgCounterNext s i

end Cycle

/-! ## What the counter is to be -/

section Account

variable (s : State ways) (i : In ways tagIndex)

/-- The entry waits with a write-back guard request. -/
def waits (k : ℕ) : Bool := s.stateMemF k == STATE_WAIT && guards (s.dataMemF k)

/-- The number of the waiting guards. -/
def waiting : ℕ := RefCount.refs ENTRIES (waits s) true

/-- The counter is the number of the waiting guards. -/
def Exact : Prop := s.wbgCounterF.toNat = waiting s

/-- The entry at the write index would wait as a guard if it kept its
state. -/
def kept : Bool := s.stateMemF i.wrIndex == STATE_WAIT && guards (dataNext s i)

/-- The entry at the write index waits as a guard with the state written. -/
def written : Bool := i.stateIn == STATE_WAIT && guards (dataNext s i)

/-- The entry waits as a guard once it has been read out. -/
def relocks (k : ℕ) : Bool :=
  smcMiss (s.dataMemF k) &&
    guards (if k = i.wrIndex then dataNext s i else s.dataMemF k)

/-- The cycles that the counter follows, by what they do. -/
def Accounted : Prop :=
  if i.wrStateEn then
    -- an entry that is written anew, or read out, is no guard behind the
    -- counter's back; and there is room in the counter
    (waits s i.wrIndex).toNat + (allocates i).toNat = (written s i).toNat +
        ((completes s i).any fun k => k != i.wrIndex && relocks s i k).toNat ∧
      (allocates i = true → waiting s < 7)
  else
    match completes s i with
    | some k => (waits s i.wrIndex).toNat = (kept s i).toNat + (relocks s i k).toNat
    | none =>
      match wakes s i with
      | some k =>
        -- the guard that is hit still waits
        (waits s k).toNat + (k != i.wrIndex && waits s i.wrIndex).toNat =
          1 + (k != i.wrIndex && kept s i).toNat
      | none => waiting s ≤ 4 ∧ waits s i.wrIndex = kept s i

/-- The counter does not wrap in the cycle. -/
def NoWrap : Prop :=
  (s.wbgCounterF = 7#3 → wbgCounterNext s i ≠ 0#3) ∧
    (s.wbgCounterF = 0#3 → wbgCounterNext s i ≠ 7#3)

/-- The clean-up is asked for if more guards than the threshold wait. -/
def Timely : Prop := WBG_THRESHOLD < s.wbgCounterF ↔ 4 < waiting s

end Account

/-! ## One cycle of the account -/

variable {s : State ways} {i : In ways tagIndex} {k : ℕ}

theorem pending_some (h : pending s = some k) :
    k < ENTRIES ∧ s.stateMemF k = STATE_PENDING :=
  ⟨List.mem_range.mp (List.mem_of_find?_eq_some h),
    eq_of_beq (List.find?_some (p := fun k => s.stateMemF k == STATE_PENDING) h)⟩

theorem completes_state (h : completes s i = some k) :
    k < ENTRIES ∧ s.stateMemF k = STATE_PENDING := by
  unfold completes at h
  split_ifs at h
  exact pending_some h

theorem completes_some (h : completes s i = some k) :
    k < ENTRIES ∧ waits s k = false := by
  obtain ⟨hk, hstate⟩ := completes_state h
  refine ⟨hk, ?_⟩
  rw [waits, hstate]
  rfl

theorem wakes_some (h : wakes s i = some k) : k < ENTRIES := by
  obtain ⟨hhit, -⟩ := Option.filter_eq_some_iff.mp h
  unfold hit at hhit
  split_ifs at hhit
  exact List.mem_range.mp (List.mem_of_find?_eq_some hhit)

theorem wrIndex_lt (i : In ways tagIndex) : i.wrIndex < ENTRIES :=
  i.wrIndexIn.isLt

/-- One entry may start or stop to wait. -/
theorem refs_update_bool {b : Bool} {f : ℕ → Bool} (hk : k < ENTRIES) :
    RefCount.refs ENTRIES (Function.update f k b) true + (f k).toNat =
      RefCount.refs ENTRIES f true + b.toNat := by
  have hmove := RefCount.refs_update (f := f) (x := true) (y := b) hk
  cases b <;> cases hf : f k <;> simpa [hf] using hmove

theorem waits_le_waiting (hk : k < ENTRIES) : (waits s k).toNat ≤ waiting s := by
  cases h : waits s k with
  | false => exact Nat.zero_le _
  | true => exact RefCount.refs_pos hk h

/-- An entry whose state is left alone, by whether it is at the write
index. -/
theorem waits_data (j : ℕ) :
    (s.stateMemF j == STATE_WAIT && guards ((step s i).dataMemF j)) =
      Function.update (waits s) i.wrIndex (kept s i) j := by
  show (_ && guards (Function.update s.dataMemF i.wrIndex (dataNext s i) j)) = _
  rcases eq_or_ne j i.wrIndex with rfl | hj
  · rw [Function.update_self, Function.update_self]
    rfl
  · rw [Function.update_of_ne hj, Function.update_of_ne hj]
    rfl

/-- An entry that has been read out. -/
theorem waits_released (k : ℕ) :
    (released s k == STATE_WAIT && guards ((step s i).dataMemF k)) =
      relocks s i k := by
  show (_ && guards (Function.update s.dataMemF i.wrIndex (dataNext s i) k)) = _
  have hstate : (released s k == STATE_WAIT) = smcMiss (s.dataMemF k) := by
    unfold released
    cases smcMiss (s.dataMemF k) <;> rfl
  rw [hstate, relocks, Function.update_apply]

theorem waits_write (h : i.wrStateEn = true) :
    waits (step s i) =
      Function.update
        (match completes s i with
        | some k => Function.update (waits s) k (relocks s i k)
        | none => waits s) i.wrIndex (written s i) := by
  funext j
  show (stateMemNext s i j == STATE_WAIT && guards ((step s i).dataMemF j)) = _
  rw [stateMemNext, if_pos h]
  rcases eq_or_ne j i.wrIndex with rfl | hj
  · rw [Function.update_self, Function.update_self]
    show (_ && guards (Function.update s.dataMemF i.wrIndex (dataNext s i) _)) = _
    rw [Function.update_self]
    rfl
  · have hdata := waits_data (s := s) (i := i) j
    rw [Function.update_of_ne hj] at hdata
    rw [Function.update_of_ne hj, Function.update_of_ne hj]
    cases completes s i with
    | none => exact hdata
    | some k =>
      rcases eq_or_ne j k with rfl | hjk
      · simp only [Function.update_self]
        exact waits_released j
      · simp only [Function.update_of_ne hjk]
        exact hdata

theorem waits_complete (h : i.wrStateEn = false) (hk : completes s i = some k) :
    waits (step s i) =
      Function.update (Function.update (waits s) i.wrIndex (kept s i)) k
        (relocks s i k) := by
  funext j
  show (stateMemNext s i j == STATE_WAIT && guards ((step s i).dataMemF j)) = _
  simp only [stateMemNext, h, hk, Bool.false_eq_true, if_false]
  rcases eq_or_ne j k with rfl | hj
  · rw [Function.update_self, Function.update_self]
    exact waits_released j
  · rw [Function.update_of_ne hj, Function.update_of_ne hj]
    exact waits_data j

theorem waits_wake (h : i.wrStateEn = false) (hnone : completes s i = none)
    (hk : wakes s i = some k) :
    waits (step s i) =
      Function.update (Function.update (waits s) i.wrIndex (kept s i)) k false := by
  funext j
  show (stateMemNext s i j == STATE_WAIT && guards ((step s i).dataMemF j)) = _
  simp only [stateMemNext, h, hnone, hk, Bool.false_eq_true, if_false]
  rcases eq_or_ne j k with rfl | hj
  · rw [Function.update_self, Function.update_self]
    rfl
  · rw [Function.update_of_ne hj, Function.update_of_ne hj]
    exact waits_data j

theorem waits_idle (h : i.wrStateEn = false) (hnone : completes s i = none)
    (hwake : wakes s i = none) (hle : ¬ WBG_THRESHOLD < s.wbgCounterF) :
    waits (step s i) = Function.update (waits s) i.wrIndex (kept s i) := by
  funext j
  show (stateMemNext s i j == STATE_WAIT && guards ((step s i).dataMemF j)) = _
  simp only [stateMemNext, h, hnone, hwake, if_neg hle, Bool.false_eq_true, if_false]
  exact waits_data j

/-- The clean-up leaves at most the entry waiting whose data are written in
the same cycle. -/
theorem waits_cleanup (h : i.wrStateEn = false) (hnone : completes s i = none)
    (hwake : wakes s i = none) (hlt : WBG_THRESHOLD < s.wbgCounterF) {j : ℕ}
    (hj : j ≠ i.wrIndex) : waits (step s i) j = false := by
  have hdata := waits_data (s := s) (i := i) j
  rw [Function.update_of_ne hj] at hdata
  show (stateMemNext s i j == STATE_WAIT && guards ((step s i).dataMemF j)) = _
  simp only [stateMemNext, h, hnone, hwake, if_pos hlt, Bool.false_eq_true, if_false]
  cases hw : waits s j with
  | true =>
    rw [show (s.stateMemF j == STATE_WAIT && guards (s.dataMemF j)) = true from hw]
    rfl
  | false =>
    rw [show (s.stateMemF j == STATE_WAIT && guards (s.dataMemF j)) = false from hw]
    exact hdata.trans hw

/-! ## The counter in a cycle -/

theorem allocates_le_written : (allocates i).toNat ≤ (written s i).toNat := by
  refine Bool.toNat_le_toNat (Bool.le_iff_imp.mpr fun h => ?_)
  simp only [allocates, Bool.and_eq_true, beq_iff_eq] at h
  obtain ⟨⟨⟨⟨-, hen⟩, hstate⟩, hguards⟩, hmask⟩ := h
  have hdata : guards (dataNext s i) = guards i.dataIn := by
    unfold dataNext guards
    rw [if_pos hen, BitField.get_merge_of_allOnes _ _ _ _ hmask]
  rw [written, hstate, hdata, hguards]
  rfl

/-- What is read out, then what is written. -/
theorem waiting_write (h : i.wrStateEn = true) :
    waiting (step s i) + (waits s i.wrIndex).toNat =
      waiting s + (written s i).toNat +
        ((completes s i).any fun k => k != i.wrIndex && relocks s i k).toNat := by
  have hwaits := waits_write (s := s) h
  cases hk : completes s i with
  | none =>
    rw [hk] at hwaits
    have hwr := refs_update_bool (b := written s i) (f := waits s) (wrIndex_lt i)
    rw [← hwaits] at hwr
    exact hwr
  | some k =>
    rw [hk] at hwaits
    obtain ⟨hkN, hpending⟩ := completes_some hk
    have hwr := refs_update_bool (b := written s i)
      (f := Function.update (waits s) k (relocks s i k)) (wrIndex_lt i)
    have hread := refs_update_bool (b := relocks s i k) (f := waits s) hkN
    rw [← hwaits] at hwr
    rw [hpending] at hread
    change waiting (step s i) + _ = _ at hwr
    change _ = waiting s + _ at hread
    rw [Option.any_some]
    rcases eq_or_ne k i.wrIndex with heq | hne
    · rw [heq, Function.update_self] at hwr
      rw [heq] at hread hpending
      simp only [heq, hpending, bne_self_eq_false, Bool.false_and, Bool.toNat_false]
      rw [Bool.toNat_false] at hread
      omega
    · rw [Function.update_of_ne hne.symm] at hwr
      rw [bne_iff_ne.mpr hne, Bool.true_and]
      rw [Bool.toNat_false] at hread
      omega

theorem exact_write (h : i.wrStateEn = true) (hex : Exact s) :
    Exact (step s i) ↔ Accounted s i := by
  have hcount : (wbgCounterNext s i).toNat =
      (s.wbgCounterF.toNat + (allocates i).toNat) % 8 := by
    unfold wbgCounterNext
    cases hal : allocates i with
    | true => exact BitVec.toNat_add ..
    | false => simp [h, Nat.mod_eq_of_lt s.wbgCounterF.isLt]
  have hexn : s.wbgCounterF.toNat = waiting s := hex
  have hlt : waiting s < 8 := hexn ▸ s.wbgCounterF.isLt
  have hread := waiting_write (s := s) h
  have hold : (waits s i.wrIndex).toNat ≤ waiting s := waits_le_waiting (wrIndex_lt i)
  have hnew : (allocates i).toNat ≤ (written s i).toNat := allocates_le_written
  have hwritten := Bool.toNat_le (written s i)
  have hone : allocates i = true ↔ (allocates i).toNat = 1 := Bool.toNat_eq_one.symm
  unfold Exact Accounted
  show (wbgCounterNext s i).toNat = waiting (step s i) ↔ _
  rw [if_pos h, hcount, hexn, hone]
  have hrelock := Bool.toNat_le
    ((completes s i).any fun k => k != i.wrIndex && relocks s i k)
  omega

theorem exact_complete (h : i.wrStateEn = false) (hk : completes s i = some k)
    (hex : Exact s) : Exact (step s i) ↔ Accounted s i := by
  have hcount : wbgCounterNext s i = s.wbgCounterF := by
    simp [wbgCounterNext, allocates, h, hk]
  have hexn : s.wbgCounterF.toNat = waiting s := hex
  obtain ⟨hlt, hpending⟩ := completes_some hk
  have hread := refs_update_bool (b := relocks s i k)
    (f := Function.update (waits s) i.wrIndex (kept s i)) hlt
  have hwr := refs_update_bool (b := kept s i) (f := waits s) (wrIndex_lt i)
  rw [← waits_complete h hk] at hread
  have hfree : Function.update (waits s) i.wrIndex (kept s i) k = false := by
    rcases eq_or_ne k i.wrIndex with heq | hne
    · obtain ⟨-, hstate⟩ := completes_state hk
      rw [heq, Function.update_self, kept, ← heq, hstate]
      rfl
    · rw [Function.update_of_ne hne, hpending]
  rw [hfree] at hread
  change waiting (step s i) + _ = _ at hread
  change _ = waiting s + _ at hwr
  unfold Exact Accounted
  show (wbgCounterNext s i).toNat = waiting (step s i) ↔ _
  simp only [h, hk, hcount, hexn, Bool.false_eq_true, if_false]
  rw [Bool.toNat_false] at hread
  omega

theorem exact_wake (h : i.wrStateEn = false) (hnone : completes s i = none)
    (hk : wakes s i = some k) (hex : Exact s) :
    Exact (step s i) ↔ Accounted s i := by
  have hcount : wbgCounterNext s i = s.wbgCounterF - 1#3 := by
    simp [wbgCounterNext, allocates, h, hnone, hk]
  have hsub : (s.wbgCounterF - 1#3).toNat = (7 + s.wbgCounterF.toNat) % 8 :=
    BitVec.toNat_sub ..
  have hexn : s.wbgCounterF.toNat = waiting s := hex
  have hlt : waiting s < 8 := hexn ▸ s.wbgCounterF.isLt
  have hkN := wakes_some hk
  have hkept := Bool.toNat_le (kept s i)
  have hone : (waits s k).toNat ≤ waiting s := waits_le_waiting hkN
  have hold : (waits s i.wrIndex).toNat ≤ waiting s := waits_le_waiting (wrIndex_lt i)
  have hwake := refs_update_bool (b := false)
    (f := Function.update (waits s) i.wrIndex (kept s i)) hkN
  have hwr := refs_update_bool (b := kept s i) (f := waits s) (wrIndex_lt i)
  rw [← waits_wake h hnone hk] at hwake
  change waiting (step s i) + _ = _ at hwake
  change _ = waiting s + _ at hwr
  unfold Exact Accounted
  show (wbgCounterNext s i).toNat = waiting (step s i) ↔ _
  simp only [h, hnone, hk, hcount, hsub, hexn, Bool.false_eq_true, if_false]
  rcases eq_or_ne k i.wrIndex with heq | hne
  · rw [heq, Function.update_self, Bool.toNat_false] at hwake
    rw [heq] at hone ⊢
    rw [bne_self_eq_false, Bool.false_and, Bool.false_and, Bool.toNat_false]
    omega
  · rw [Function.update_of_ne hne, Bool.toNat_false] at hwake
    rw [bne_iff_ne.mpr hne, Bool.true_and, Bool.true_and]
    omega

theorem exact_idle (h : i.wrStateEn = false) (hnone : completes s i = none)
    (hwake : wakes s i = none) (hex : Exact s) :
    Exact (step s i) ↔ Accounted s i := by
  have hcount : wbgCounterNext s i = s.wbgCounterF := by
    simp [wbgCounterNext, allocates, h, hnone, hwake]
  have hexn : s.wbgCounterF.toNat = waiting s := hex
  unfold Exact Accounted
  show (wbgCounterNext s i).toNat = waiting (step s i) ↔ _
  simp only [h, hnone, hwake, hcount, hexn, Bool.false_eq_true, if_false]
  by_cases hlt : WBG_THRESHOLD < s.wbgCounterF
  · have hfour : 4 < waiting s := hexn ▸ hlt
    have hone : waiting (step s i) ≤ 1 := by
      have hupd : waits (step s i) =
          Function.update (fun _ => false) i.wrIndex (waits (step s i) i.wrIndex) := by
        funext j
        rcases eq_or_ne j i.wrIndex with rfl | hj
        · rw [Function.update_self]
        · rw [Function.update_of_ne hj]
          exact waits_cleanup h hnone hwake hlt hj
      have hcard := refs_update_bool (b := waits (step s i) i.wrIndex)
        (f := fun _ => false) (wrIndex_lt i)
      have hzero : RefCount.refs ENTRIES (fun _ => false) true = 0 :=
        RefCount.refs_eq_zero_iff.mpr fun _ _ => Bool.false_ne_true
      have hbit := Bool.toNat_le (waits (step s i) i.wrIndex)
      rw [← hupd, hzero] at hcard
      change waiting (step s i) + _ = _ at hcard
      omega
    omega
  · have hwr := refs_update_bool (b := kept s i) (f := waits s) (wrIndex_lt i)
    have hfour : waiting s ≤ 4 := by
      rw [← hexn]
      exact Nat.le_of_not_lt hlt
    rw [← waits_idle h hnone hwake hlt] at hwr
    change waiting (step s i) + _ = waiting s + _ at hwr
    have hsame : waits s i.wrIndex = kept s i ↔
        (waits s i.wrIndex).toNat = (kept s i).toNat := by
      cases waits s i.wrIndex <;> cases kept s i <;> decide
    rw [hsame]
    omega

/-- A cycle keeps the counter exact if and only if it accounts for every
guard. -/
theorem step_exact_iff (hex : Exact s) : Exact (step s i) ↔ Accounted s i := by
  cases h : i.wrStateEn with
  | true => exact exact_write h hex
  | false =>
    cases hk : completes s i with
    | some k => exact exact_complete h hk hex
    | none =>
      cases hwake : wakes s i with
      | some k => exact exact_wake h hk hwake hex
      | none => exact exact_idle h hk hwake hex

theorem Exact.timely (hex : Exact s) : Timely s := by
  unfold Timely
  rw [← hex]
  exact Iff.rfl

theorem noWrap_of_accounted (hex : Exact s) (hacc : Accounted s i) : NoWrap s i := by
  have hexn : s.wbgCounterF.toNat = waiting s := hex
  unfold NoWrap wbgCounterNext
  constructor
  · intro hfull
    -- a full counter accounts for seven guards
    have hseven : waiting s = 7 := by rw [← hexn, hfull]; rfl
    have hroom : allocates i ≠ true := by
      intro hal
      have hwr : i.wrStateEn = true := by
        simp only [allocates, Bool.and_eq_true] at hal
        exact hal.1.1.1.1
      rw [Accounted, if_pos hwr] at hacc
      have := hacc.2 hal
      omega
    rw [if_neg hroom, hfull]
    split_ifs <;> decide
  · intro hzero
    have hnone : waiting s = 0 := by rw [← hexn, hzero]; rfl
    rw [hzero]
    split_ifs with hal hwake
    · decide
    · simp only [Bool.and_eq_true, Bool.not_eq_true', Option.isNone_iff_eq_none,
        Option.isSome_iff_exists] at hwake
      obtain ⟨⟨hwr, hcomp⟩, k, hk⟩ := hwake
      have hone : (waits s k).toNat ≤ waiting s := waits_le_waiting (wakes_some hk)
      have hold : (waits s i.wrIndex).toNat ≤ waiting s := waits_le_waiting (wrIndex_lt i)
      simp only [Accounted, hwr, hcomp, hk, Bool.false_eq_true, if_false] at hacc
      cases hne : (k != i.wrIndex) <;> simp only [hne, Bool.false_and, Bool.true_and,
        Bool.toNat_false] at hacc <;> omega
    · decide

/-! ## The runs -/

theorem init_exact : Exact (init : State ways) := by
  have hzero : RefCount.refs ENTRIES (waits (init : State ways)) true = 0 :=
    RefCount.refs_eq_zero_iff.mpr fun _ _ => Bool.false_ne_true
  exact hzero.symm

open Sync in
/-- The counter is exact in every state of a run from reset, asks for the
clean-up when it is due and never wraps, if and only if every cycle accounts
for every guard. -/
theorem always_exact_iff (is : List (In ways tagIndex)) :
    (Always step Exact init is ∧ Always step Timely init is ∧
      Along step NoWrap init is) ↔ Along step Accounted init is := by
  have htrue : Along step (fun _ _ => True) (init : State ways) is :=
    along_of_forall_mem fun _ _ => trivial
  have hiff : Always step Exact init is ↔ Along step Accounted init is :=
    htrue.always_iff (fun _ _ _ => step_exact_iff) init_exact
  refine ⟨fun h => hiff.mp h.1, fun h => ?_⟩
  have hexact := hiff.mpr h
  refine ⟨hexact, hexact.mono fun _ => Exact.timely, ?_⟩
  have hboth := h.along (fun s i hacc hex => (step_exact_iff hex).mpr hacc) init_exact
  exact hboth.mono fun s i hsi => noWrap_of_accounted hsi.2 hsi.1

/-! ## Where the counter goes wrong -/

/-- A guard is written into entry `k` as waiting, for the set `k`. -/
def guardWrite (k : BitVec 3) : In 2 8 where
  camEn := false
  wrStateEn := true
  wrDataEn := true
  pendingReady := false
  incCounterEn := false
  stateIn := STATE_WAIT
  dataIn := (MSG_TYPE 2).set MSG_TYPE_WBGUARD_REQ
    ((CMP_ADDR 2 8).set (k.setWidth 8) 0#122)
  dataMaskIn := BitVec.allOnes 122
  wrIndexIn := k
  addrIn := 0#8

/-- A cycle without a write, with a lookup of the set 0 or without one. -/
def quiet (camEn : Bool) : In 2 8 where
  camEn := camEn
  wrStateEn := false
  wrDataEn := false
  pendingReady := false
  incCounterEn := false
  stateIn := STATE_INVAL
  dataIn := 0#122
  dataMaskIn := 0#122
  wrIndexIn := 0#3
  addrIn := 0#8

open Sync in
/-- Five guards are written, the clean-up wakes them all, and the counter
still has them.  A guard that is hit once more before it is read out is
counted down twice, and the counter wraps. -/
theorem not_exact :
    ¬ Always step Exact (init : State 2)
        ([0#3, 1#3, 2#3, 3#3, 4#3].map guardWrite ++ [quiet false]) ∧
      ¬ Along step NoWrap (init : State 2) [guardWrite 0#3, quiet true, quiet true] := by
  constructor
  · intro h
    have hend : (5 : ℕ) = 0 := by
      have hex := h 6
      exact hex
    cases hend
  · rintro ⟨-, -, ⟨-, hwrap⟩, -⟩
    exact hwrap (by decide) (by decide)

end ArianeSoc.L2.Mshr
