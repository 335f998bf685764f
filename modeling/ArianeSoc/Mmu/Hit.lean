import ArianeSoc.Mmu.Mmu
import ArianeSoc.Mmu.TlbSound

/-!
# What a hit in a TLB gives

The MMU composes the physical address of the page number in the entry and of
bits of the virtual address, and it checks with every access what the walker
has not checked before it filled the TLB.  Both together have to be what the
page tables say of the access.

* `physical_eq`: the address for the three sizes of a page.
* `fetchAgrees_of_holdsLeaf`, `dataAgrees_of_holdsLeaf`: an access that hits
  the leaf of its address goes where the page tables say, or is a page
  fault.
-/

namespace ArianeSoc.Mmu

open Sv39 Tlb

/-! ## What a hit has to give -/

variable {ni nd w : Nat} (cfg : ArianeCfg) (q : State ni nd w) (i : In w)

/-- A fetch goes to the address, or has an exception if there is none.  The
exception is a page fault unless the address that the TLB gives lies outside
the execute regions. -/
def FetchAgrees (o : Option (BitVec 56)) : Prop :=
  (∀ pa ∈ o, fetchPaddrO q i = pa ∧
    ¬ ((fetchExceptionO cfg q i).valid = true ∧
      (fetchExceptionO cfg q i).cause = INSTR_PAGE_FAULT)) ∧
  (o = none → (fetchExceptionO cfg q i).valid = true ∧
    ((fetchExceptionO cfg q i).cause = INSTR_PAGE_FAULT ∨
      matchAnyExecuteRegion cfg q i = false))

/-- A data access goes to the address, or is a page fault if there is
none. -/
def DataAgrees (o : Option (BitVec 56)) : Prop :=
  (∀ pa ∈ o, lsuPaddrO q i = pa ∧ (lsuExceptionO q i).valid = false) ∧
  (o = none → (lsuExceptionO q i).valid = true ∧
    (lsuExceptionO q i).cause =
      if q.lsuIsStore then STORE_PAGE_FAULT else LOAD_PAGE_FAULT)

/-- A fetch that hits the instruction TLB, in a mode that is translated. -/
def fetchHits : Bool :=
  i.enableTranslation && i.fetchReq && (itlbLookup q i).hit &&
    (i.privLvl = PRIV_LVL_S || i.privLvl = PRIV_LVL_U)

/-- A data access that has hit the data TLB, in a mode that is translated. -/
def dataHits : Bool :=
  translates q i && dataHit q &&
    (i.ldStPrivLvl = PRIV_LVL_S || i.ldStPrivLvl = PRIV_LVL_U)

def fetchMode : Mode := ⟨i.privLvl = PRIV_LVL_U, i.sum, i.mxr⟩
def dataMode : Mode := ⟨i.ldStPrivLvl = PRIV_LVL_U, i.sum, i.mxr⟩

/-! ## The answer of a sound TLB -/

section Leaf

variable {p : Pte} {g : Bool}

theorem getLsbD_withGlobal {k : Nat} (hk : k ≠ 5) :
    (withGlobal p g).getLsbD k = p.getLsbD k := by
  have hbit : ((BitVec.ofBool g).setWidth 64 <<< 5 : BitVec 64).getLsbD k =
      false := by
    rw [BitVec.getLsbD_shiftLeft, BitVec.getLsbD_setWidth,
      BitVec.getLsbD_ofBool]
    by_cases hlt : k < 5
    · simp [hlt]
    · simp [show k - 5 ≠ 0 by omega]
  rw [withGlobal, BitVec.getLsbD_or, hbit, Bool.or_false]

@[simp] theorem u_withGlobal : (withGlobal p g).u = p.u :=
  getLsbD_withGlobal (by omega)

@[simp] theorem w_withGlobal : (withGlobal p g).w = p.w :=
  getLsbD_withGlobal (by omega)

@[simp] theorem d_withGlobal : (withGlobal p g).d = p.d :=
  getLsbD_withGlobal (by omega)

@[simp] theorem ppn_withGlobal : (withGlobal p g).ppn = p.ppn := by
  apply BitVec.eq_of_getLsbD_eq
  intro k hk
  show ((withGlobal p g).extractLsb' 10 44).getLsbD k =
    (p.extractLsb' 10 44).getLsbD k
  rw [BitVec.getLsbD_extractLsb', BitVec.getLsbD_extractLsb',
    getLsbD_withGlobal (by omega)]

end Leaf

variable {cfg} {q} {i} {root : BitVec 44} {tables : BitVec 56 → BitVec 64}
  {ok : Pte → Bool} {vaddr : BitVec 64} {p : Pte} {rest : List (BitVec 9)}

/-- Above the page offset the address of a page is its page number. -/
theorem extractLsb'_page {ppn : BitVec 44} {off : BitVec 12} {lo len : Nat} :
    (ppn ++ off : BitVec (44 + 12)).extractLsb' (12 + lo) len =
      ppn.extractLsb' lo len := by
  rw [BitVec.extractLsb'_append_eq_of_le (by omega), Nat.add_sub_cancel_left]

/-- The three sizes of a page. -/
theorem physical_eq (h : leafOf tables root vaddr = some (p, rest)) :
    physical p.ppn vaddr (rest.length == 1) (rest.length == 2) =
      pageOf p rest ++ vaddr.extractLsb' 0 12 := by
  have hoff : (p.ppn ++ vaddr.extractLsb' 0 12 : BitVec (44 + 12)).extractLsb'
      0 12 = vaddr.extractLsb' 0 12 := by
    rw [BitVec.extractLsb'_append_eq_of_add_le (by omega)]
    exact BitVec.extractLsb'_eq_self
  have hrest := PageWalk.walk_rest h
  have hlt : rest.length < 3 := PageWalk.length_lt_of_walk h
  rcases (by omega : rest.length = 0 ∨ rest.length = 1 ∨ rest.length = 2) with
    hl | hl | hl
  · rw [hl] at hrest ⊢
    rw [hrest]
    rfl
  · rw [hl] at hrest ⊢
    rw [hrest]
    show (p.ppn ++ vaddr.extractLsb' 0 12 : BitVec (44 + 12)).extractLsb'
        (12 + 9) 35 ++ vaddr.extractLsb' 12 9 ++
      (p.ppn ++ vaddr.extractLsb' 0 12 : BitVec (44 + 12)).extractLsb' 0 12 = _
    rw [hoff, extractLsb'_page]
    rfl
  · rw [hl] at hrest ⊢
    rw [hrest]
    show (p.ppn ++ vaddr.extractLsb' 0 12 : BitVec (44 + 12)).extractLsb'
        (12 + 18) 26 ++ vaddr.extractLsb' 12 18 ++
      (p.ppn ++ vaddr.extractLsb' 0 12 : BitVec (44 + 12)).extractLsb' 0 12 = _
    rw [hoff, extractLsb'_page]
    show _ = (p.ppn.extractLsb' 18 26 ++ vaddr.extractLsb' 21 9 ++
      vaddr.extractLsb' 12 9) ++ vaddr.extractLsb' 0 12
    have hsplit : vaddr.extractLsb' 12 18 =
        vaddr.extractLsb' 21 9 ++ vaddr.extractLsb' 12 9 :=
      (BitVec.extractLsb'_append_extractLsb'_eq_extractLsb'
        (show 21 = 12 + 9 from rfl)).symm
    rw [hsplit, BitVec.append_assoc']
    rfl

/-- A lookup that gives the leaf gives the translation, but for the
permissions that are checked with every access. -/
theorem translate_of_holdsLeaf {content : Pte} {is2M is1G : Bool}
    (h : HoldsLeaf tables root ok vaddr content is2M is1G) (m : Mode)
    (a : Access) :
    ∃ p, content.u = p.u ∧ content.w = p.w ∧ content.d = p.d ∧ ok p = true ∧
      translate tables root vaddr m a =
        if permits p m a then some (physical content.ppn vaddr is2M is1G)
        else none := by
  obtain ⟨p, g, rest, hleaf, rfl, hok, rfl, rfl⟩ := h
  refine ⟨p, u_withGlobal, w_withGlobal, d_withGlobal, hok, ?_⟩
  rw [ppn_withGlobal, physical_eq hleaf, Sv39.translate, hleaf]
  rfl

/-! ## A hit -/

/-- What is checked before the instruction TLB is filled. -/
def fetchOk (p : Pte) : Bool := p.x && p.a

/-- What is checked before the data TLB is filled. -/
def dataOk (mxr : Bool) (p : Pte) : Bool := p.a && (p.r || p.x && mxr)

theorem fetchAgrees_of_holdsLeaf (hits : fetchHits q i = true)
    (h : HoldsLeaf tables i.satpPpn fetchOk i.fetchVaddr
      (itlbLookup q i).content (itlbLookup q i).is2M (itlbLookup q i).is1G) :
    FetchAgrees cfg q i (translate tables i.satpPpn i.fetchVaddr
      (fetchMode i) .fetch) := by
  simp only [fetchHits, Bool.and_eq_true, Bool.or_eq_true,
    decide_eq_true_eq] at hits
  obtain ⟨⟨⟨hon, hreq⟩, hit⟩, hpriv⟩ := hits
  obtain ⟨p, hu, -, -, hok, htrans⟩ :=
    translate_of_holdsLeaf h (fetchMode i) .fetch
  have hpaddr : fetchPaddrO q i = physical (itlbLookup q i).content.ppn
      i.fetchVaddr (itlbLookup q i).is2M (itlbLookup q i).is1G := by
    rw [fetchPaddrO, hon, if_pos rfl]
  have herr : iaccessErr q i = !permits p (fetchMode i) .fetch := by
    simp only [fetchOk, Bool.and_eq_true] at hok
    simp only [permits, userOk, fetchMode, iaccessErr, hreq, hu, hok.1, hok.2]
    rcases hpriv with hp | hp <;> cases p.u <;> simp [hp]
  rw [htrans, ← hpaddr]
  cases hpermit : permits p (fetchMode i) .fetch with
  | true =>
    have hno : iaccessErr q i = false := by rw [herr, hpermit]; rfl
    refine ⟨?_, fun h => absurd h (Option.some_ne_none _)⟩
    rintro pa ⟨⟩
    refine ⟨rfl, ?_⟩
    have hex : fetchTranslationEx q i =
        if i.fetchReq && !isCanonical i.fetchVaddr then
          ⟨INSTR_ACCESS_FAULT, i.fetchVaddr, true⟩
        else ExceptionT.none := by
      rw [fetchTranslationEx, hon, hit, hno]
      rfl
    have hfault : INSTR_ACCESS_FAULT ≠ INSTR_PAGE_FAULT := by decide
    rw [fetchExceptionO, hex]
    split_ifs
    · exact fun h => hfault h.2
    · exact fun h => Bool.false_ne_true h.1
    · exact fun h => hfault h.2
  | false =>
    have herr' : iaccessErr q i = true := by rw [herr, hpermit]; rfl
    refine ⟨fun pa hpa => absurd hpa (Option.not_mem_none pa), fun _ => ?_⟩
    rw [fetchExceptionO, fetchTranslationEx, hon, hit, herr']
    cases hm : matchAnyExecuteRegion cfg q i with
    | true => exact ⟨rfl, Or.inl rfl⟩
    | false => exact ⟨rfl, Or.inr rfl⟩

theorem dataAgrees_of_holdsLeaf (hits : dataHits q i = true)
    (h : HoldsLeaf tables root (dataOk i.mxr) q.lsuVaddr q.dtlbPte
      q.dtlbIs2M q.dtlbIs1G) :
    DataAgrees q i (translate tables root q.lsuVaddr (dataMode i)
      (if q.lsuIsStore then .store else .load)) := by
  simp only [dataHits, Bool.and_eq_true, Bool.or_eq_true,
    decide_eq_true_eq] at hits
  obtain ⟨⟨htr, hit⟩, hpriv⟩ := hits
  have hmis : q.misalignedEx.valid = false := by
    simp only [translates, Bool.and_eq_true, Bool.not_eq_true'] at htr
    exact htr.2
  obtain ⟨p, hu, hw, hd, hok, htrans⟩ := translate_of_holdsLeaf h (dataMode i)
    (if q.lsuIsStore then .store else .load)
  have hpaddr : lsuPaddrO q i =
      physical q.dtlbPte.ppn q.lsuVaddr q.dtlbIs2M q.dtlbIs1G := by
    rw [lsuPaddrO, htr, if_pos rfl]
  have hdeny : denied q i = !permits p (dataMode i)
      (if q.lsuIsStore then .store else .load) := by
    simp only [dataOk, Bool.and_eq_true] at hok
    simp only [denied, daccessErr, hu, hw, hd]
    cases q.lsuIsStore <;>
      simp only [permits, userOk, dataMode, hok.1, hok.2] <;>
      rcases hpriv with hp | hp <;> cases p.u <;> cases i.sum <;> simp [hp]
  rw [htrans, ← hpaddr]
  cases hpermit : permits p (dataMode i)
      (if q.lsuIsStore then .store else .load) with
  | true =>
    have hno : denied q i = false := by rw [hdeny, hpermit]; rfl
    refine ⟨?_, fun h => absurd h (Option.some_ne_none _)⟩
    rintro pa ⟨⟩
    refine ⟨rfl, ?_⟩
    rw [lsuExceptionO, htr, hit, hno]
    exact hmis
  | false =>
    have hdeny' : denied q i = true := by rw [hdeny, hpermit]; rfl
    refine ⟨fun pa hpa => absurd hpa (Option.not_mem_none pa), fun _ => ?_⟩
    rw [lsuExceptionO, htr, hit, hdeny']
    exact ⟨rfl, rfl⟩

end ArianeSoc.Mmu
