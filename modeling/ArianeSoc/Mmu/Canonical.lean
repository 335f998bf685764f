import ArianeSoc.Lsu.Agu
import ArianeSoc.Mmu.Transparency

/-!
# Addresses that are not sign-extended

With Sv39 the bits 63 to 39 of a virtual address have to be equal to bit 38.
The instruction interface checks the address itself, so that a fetch from
any other address carries an exception, whatever the TLB and the walker say.

The data interface leaves the check to `overflow` of the address generation
unit, which finds nothing with a `VLEN` of 64.  The TLBs and the walker look
at the bits 38 to 12 only.  So a data access is answered like one to the
sign-extended address.

* `noncanonical_fetch`: the exception of a fetch.
* `answer_cases`: what the data interface answers one cycle after a request.
* `noncanonical_access`: which accesses to such addresses fault.
-/

namespace ArianeSoc.Mmu

open Sync Lsu
open ReadOperands (FuData)

variable {ni nd w : Nat}

/-- The address is the sign extension of its lower 39 bits. -/
def Canonical (vaddr : BitVec 64) : Prop :=
  ∀ k, 39 ≤ k → k < 64 → vaddr.getLsbD k = vaddr.getLsbD 38

theorem isCanonical_iff (vaddr : BitVec 64) :
    isCanonical vaddr = true ↔ Canonical vaddr := by
  have h : (!isCanonical vaddr) = false ↔ Canonical vaddr :=
    overflow_eq_false_iff 39 (by omega) (by omega)
  rw [← h]
  cases isCanonical vaddr <;> simp

/-! ## Fetches -/

/-- The exception of an instruction. -/
def InstrFault (ex : ExceptionT) : Prop :=
  ex.valid = true ∧
    (ex.cause = INSTR_ACCESS_FAULT ∨ ex.cause = INSTR_PAGE_FAULT)

/-- A fetch from any other address carries an exception. -/
theorem instrFault_of_noncanonical (cfg : ArianeCfg) {q : State ni nd w}
    {i : In w} (hon : i.enableTranslation = true) (hreq : i.fetchReq = true)
    (h : ¬ Canonical i.fetchVaddr) : InstrFault (fetchExceptionO cfg q i) := by
  have hno : isCanonical i.fetchVaddr = false :=
    Bool.eq_false_iff.mpr fun hc => h ((isCanonical_iff _).mp hc)
  have hex : InstrFault (fetchTranslationEx q i) := by
    have haccess : InstrFault ⟨INSTR_ACCESS_FAULT, i.fetchVaddr, true⟩ :=
      ⟨rfl, Or.inl rfl⟩
    simp only [fetchTranslationEx, hon, hreq, hno, Bool.not_false,
      Bool.and_self, if_true]
    split_ifs
    · exact ⟨rfl, Or.inr rfl⟩
    · exact haccess
    · exact ⟨rfl, Or.inr rfl⟩
    · exact haccess
  unfold fetchExceptionO
  split_ifs
  · exact hex
  · exact ⟨rfl, Or.inl rfl⟩

/-! ## Data accesses -/

/-- The MMU gets the request of the access `d`. -/
structure Requests (i : In w) (d : FuData) : Prop where
  fu : d.fu = .LOAD ∨ d.fu = .STORE
  lsuReq : i.lsuReq = true
  lsuVaddr : i.lsuVaddr = vaddr d
  lsuIsStore : i.lsuIsStore = decide (d.fu = .STORE)
  misalignedEx : i.misalignedEx =
    misalignedException (lsuReqI d true) i.enLdStTranslation

/-- The exception of a load, or of a store or atomic. -/
def DataFault (d : FuData) (ex : ExceptionT) : Prop :=
  ex.valid = true ∧
    if d.fu = .LOAD then
      ex.cause = LD_ADDR_MISALIGNED ∨ ex.cause = LD_ACCESS_FAULT ∨
        ex.cause = LOAD_PAGE_FAULT
    else
      ex.cause = ST_ADDR_MISALIGNED ∨ ex.cause = ST_ACCESS_FAULT ∨
        ex.cause = STORE_PAGE_FAULT

/-- A page table entry that does not allow the access. -/
def entryDenies (p : Pte) (isStore : Bool) (priv : PrivLvl) (sum : Bool) :
    Bool :=
  isStore && (!p.w || !p.d) || priv = PRIV_LVL_S && !sum && p.u ||
    priv = PRIV_LVL_U && !p.u

section Answer

variable {q : State ni nd w} {i i' : In w} {d : FuData}

theorem denied_step (h : Requests i d) :
    denied (step q i) i' =
      entryDenies (dtlbLookup q i).content (decide (d.fu = .STORE))
        i'.ldStPrivLvl i'.sum := by
  show (if i.lsuIsStore then !(dtlbLookup q i).content.w ||
      (i'.ldStPrivLvl = PRIV_LVL_S && !i'.sum && (dtlbLookup q i).content.u ||
        i'.ldStPrivLvl = PRIV_LVL_U && !(dtlbLookup q i).content.u) ||
      !(dtlbLookup q i).content.d
    else (i'.ldStPrivLvl = PRIV_LVL_S && !i'.sum &&
        (dtlbLookup q i).content.u ||
      i'.ldStPrivLvl = PRIV_LVL_U && !(dtlbLookup q i).content.u)) = _
  rw [h.lsuIsStore, entryDenies]
  cases decide (d.fu = .STORE) with
  | false => rfl
  | true =>
    cases (dtlbLookup q i).content.w <;> cases (dtlbLookup q i).content.d <;>
      simp

theorem dataFault_of_misaligned (hfu : d.fu = .LOAD ∨ d.fu = .STORE)
    (h : dataMisaligned (lsuReqI d true) = true) (en : Bool) :
    DataFault d (misalignedException (lsuReqI d true) en) := by
  rw [misalignedException_lsuReqI, if_pos h]
  unfold DataFault dataException
  rcases hfu with hfu | hfu <;> simp [lsuReqI, hfu]

theorem dataFault_of_pageFault (h : Requests i d) (a : BitVec 64) :
    DataFault d (dataPageFault (step q i) a) := by
  refine ⟨rfl, ?_⟩
  show if d.fu = .LOAD then _ ∨ _ ∨ (if i.lsuIsStore then _ else _) = _
    else _ ∨ _ ∨ (if i.lsuIsStore then _ else _) = _
  rw [h.lsuIsStore]
  rcases h.fu with hfu | hfu <;> simp [hfu]

theorem misalignedEx_step (h : Requests i d) :
    (step q i).misalignedEx =
      misalignedException (lsuReqI d true) i.enLdStTranslation := by
  show { i.misalignedEx with valid := i.misalignedEx.valid && i.lsuReq } = _
  rw [h.lsuReq, Bool.and_true, h.misalignedEx]

theorem dataHit_step (h : Requests i d) :
    dataHit (step q i) = (dtlbLookup q i).hit := by
  show ((dtlbLookup q i).hit && i.lsuReq) = _
  rw [h.lsuReq, Bool.and_true]

/-- A misaligned access is not translated, an aligned one is answered from
the entry that it hits or with the error of the walker. -/
theorem answer_cases (h : Requests i d) (hon : i'.enLdStTranslation = true) :
    (dataMisaligned (lsuReqI d true) = true ∧
        DataFault d (lsuExceptionO (step q i) i')) ∨
      (dataMisaligned (lsuReqI d true) = false ∧
        (dtlbLookup q i).hit = true ∧ lsuValidO (step q i) i' = true ∧
        lsuExceptionO (step q i) i' =
          if entryDenies (dtlbLookup q i).content (decide (d.fu = .STORE))
              i'.ldStPrivLvl i'.sum then
            dataPageFault (step q i) (vaddr d)
          else ExceptionT.none) ∨
      (dataMisaligned (lsuReqI d true) = false ∧
        (dtlbLookup q i).hit = false ∧
        (lsuValidO (step q i) i' = true →
          DataFault d (lsuExceptionO (step q i) i'))) := by
  have hex := misalignedEx_step (q := q) h
  cases hm : dataMisaligned (lsuReqI d true) with
  | true =>
    have hfault := dataFault_of_misaligned h.fu hm i.enLdStTranslation
    rw [← hex] at hfault
    refine Or.inl ⟨rfl, ?_⟩
    have hno : translates (step q i) i' = false := by
      rw [translates, hfault.1]
      simp
    rw [lsuExceptionO, hno, if_neg Bool.false_ne_true]
    exact hfault
  | false =>
    rw [misalignedException_lsuReqI, hm, if_neg Bool.false_ne_true] at hex
    have htr : translates (step q i) i' = true := by
      rw [translates, hex, hon]
      rfl
    have hhit := dataHit_step (q := q) h
    unfold lsuValidO lsuExceptionO
    rw [htr, if_pos rfl, if_pos rfl, hhit, denied_step h, hex]
    cases ht : (dtlbLookup q i).hit with
    | true =>
      refine Or.inr (Or.inl ⟨rfl, rfl, rfl, ?_⟩)
      rw [if_pos rfl, show (step q i).lsuVaddr = vaddr d from h.lsuVaddr]
    | false =>
      refine Or.inr (Or.inr ⟨rfl, rfl, fun hv => ?_⟩)
      rw [Bool.false_or] at hv
      rw [if_neg Bool.false_ne_true, if_pos hv]
      exact dataFault_of_pageFault h _

end Answer

/-! ## Which accesses fault -/

/-- An access to any other address carries an exception for a fetch.  The
answer to a data access carries one if and only if the access is misaligned,
misses the data TLB or is denied by the entry that it hits there. -/
theorem noncanonical_access (cfg : ArianeCfg) (q : State ni nd w)
    (i i' : In w) (d : FuData) :
    (i.enableTranslation = true → i.fetchReq = true →
        ¬ Canonical i.fetchVaddr → InstrFault (fetchExceptionO cfg q i)) ∧
      (Requests i d → i'.enLdStTranslation = true → ¬ Canonical (vaddr d) →
        ((lsuValidO (step q i) i' = true →
            DataFault d (lsuExceptionO (step q i) i')) ↔
          dataMisaligned (lsuReqI d true) = true ∨
            (dtlbLookup q i).hit = false ∨
            entryDenies (dtlbLookup q i).content (decide (d.fu = .STORE))
              i'.ldStPrivLvl i'.sum = true)) := by
  refine ⟨instrFault_of_noncanonical cfg, fun h hon _ => ?_⟩
  rcases answer_cases (q := q) h hon with
    ⟨hm, hfault⟩ | ⟨hm, hhit, hv, hex⟩ | ⟨hm, hmiss, hfault⟩
  · exact ⟨fun _ => Or.inl hm, fun _ _ => hfault⟩
  · rw [hv, hex, hm, hhit]
    cases hd : entryDenies (dtlbLookup q i).content (decide (d.fu = .STORE))
        i'.ldStPrivLvl i'.sum with
    | true =>
      refine ⟨fun _ => Or.inr (Or.inr rfl), fun _ _ => ?_⟩
      exact dataFault_of_pageFault h _
    | false =>
      have hnone : ¬ DataFault d ExceptionT.none :=
        fun hf => Bool.false_ne_true hf.1
      simp [hnone]
  · exact ⟨fun _ => Or.inr (Or.inl hmiss), fun _ => hfault⟩

/-- The cycle of an access in S-mode, with a fetch from the same address. -/
def accessAt (d : FuData) : In 1 :=
  { In.quiet with
    fetchReq := true
    fetchVaddr := vaddr d
    lsuReq := true
    lsuVaddr := vaddr d
    lsuIsStore := d.fu = .STORE
    misalignedEx := misalignedException (lsuReqI d true) true }

theorem requests_accessAt {d : FuData} (h : d.fu = .LOAD ∨ d.fu = .STORE) :
    Requests (accessAt d) d :=
  ⟨h, rfl, rfl, rfl, rfl⟩

/-- The data TLB is filled with the giga page at `0x40000000`. -/
def gigaFilled : State 2 2 1 :=
  run step (reset 2 2 1) [(Cycle.load 0x40201000#64).mmu, Cycle.grant.mmu,
    (Cycle.answer 0x100000CF#64).mmu, In.quiet]

/-- A load at `0x8040201000`, where bit 39 is set and bit 38 is not. -/
def aliasLoad : FuData := ⟨.LOAD, .LD, 0x8040201000#64, 0#64, 0#64, 0#3⟩

theorem not_canonical_aliasLoad : ¬ Canonical (vaddr aliasLoad) :=
  fun h => absurd ((isCanonical_iff _).mpr h) (by decide)

theorem noncanonical_access_aliasLoad :
    InstrFault (fetchExceptionO ⟨[], [], []⟩ gigaFilled
        (accessAt aliasLoad)) ∧
      ((lsuValidO (step gigaFilled (accessAt aliasLoad)) In.quiet = true →
          DataFault aliasLoad
            (lsuExceptionO (step gigaFilled (accessAt aliasLoad)) In.quiet)) ↔
        dataMisaligned (lsuReqI aliasLoad true) = true ∨
          (dtlbLookup gigaFilled (accessAt aliasLoad)).hit = false ∨
          entryDenies (dtlbLookup gigaFilled (accessAt aliasLoad)).content
            false PRIV_LVL_S false = true) :=
  have h := noncanonical_access ⟨[], [], []⟩ gigaFilled (accessAt aliasLoad)
    In.quiet aliasLoad
  ⟨h.1 rfl rfl not_canonical_aliasLoad,
    h.2 (requests_accessAt (Or.inl rfl)) rfl not_canonical_aliasLoad⟩

/-- The load goes to `0x40201000` without an exception. -/
theorem alias_translated :
    Requests (accessAt aliasLoad) aliasLoad ∧
      ¬ Canonical (vaddr aliasLoad) ∧
      In.quiet.enLdStTranslation = true ∧
      lsuValidO (step gigaFilled (accessAt aliasLoad)) In.quiet = true ∧
      (lsuExceptionO (step gigaFilled (accessAt aliasLoad)) In.quiet).valid =
        false ∧
      lsuPaddrO (step gigaFilled (accessAt aliasLoad)) In.quiet =
        0x40201000#56 :=
  ⟨requests_accessAt (Or.inl rfl), not_canonical_aliasLoad, rfl,
    by decide +kernel, by decide +kernel, by decide +kernel⟩

end ArianeSoc.Mmu
