import ArianeSoc.Mmu.Tlb
import ArianeSoc.RiscvPkg

/-!
# The memory management unit

`mmu.sv` connects the two TLBs and the page table walker.  The instruction
interface answers in the cycle of the request.  The data interface registers
the request with what the data TLB says, and answers one cycle later.

`VLEN` is 64, so no address is extended where an exception carries it.
-/

namespace ArianeSoc.Mmu

/-- The registers of the parts and of the data interface. -/
structure State (ni nd w : Nat) where
  itlb : Tlb.State ni w
  dtlb : Tlb.State nd w
  ptw : Ptw.State w
  lsuVaddr : BitVec 64
  lsuReq : Bool
  misalignedEx : ExceptionT
  dtlbPte : Pte
  dtlbHit : Bool
  lsuIsStore : Bool
  dtlbIs2M : Bool
  dtlbIs1G : Bool

/-- The registers after a reset. -/
def reset (ni nd w : Nat) : State ni nd w where
  itlb := Tlb.reset ni w
  dtlb := Tlb.reset nd w
  ptw := Ptw.reset w
  lsuVaddr := 0#64
  lsuReq := false
  misalignedEx := ExceptionT.none
  dtlbPte := 0#64
  dtlbHit := false
  lsuIsStore := false
  dtlbIs2M := false
  dtlbIs1G := false

/-- The inputs of one cycle. -/
structure In (w : Nat) where
  flush : Bool
  enableTranslation : Bool
  enLdStTranslation : Bool
  fetchReq : Bool
  fetchVaddr : BitVec 64
  misalignedEx : ExceptionT
  lsuReq : Bool
  lsuVaddr : BitVec 64
  lsuIsStore : Bool
  privLvl : PrivLvl
  ldStPrivLvl : PrivLvl
  sum : Bool
  mxr : Bool
  satpPpn : BitVec 44
  asid : BitVec w
  flushTlb : Bool
  dataGnt : Bool
  dataRvalid : Bool
  dataRdata : BitVec 64

variable {ni nd w : Nat} (cfg : ArianeCfg) (q : State ni nd w) (i : In w)

/-! ## The TLBs and the walker -/

/-- The lookup of the instruction TLB. -/
def itlbLookup : Tlb.Lookup := Tlb.lookup q.itlb i.asid i.fetchVaddr

/-- The lookup of the data TLB. -/
def dtlbLookup : Tlb.Lookup := Tlb.lookup q.dtlb i.asid i.lsuVaddr

/-- The inputs of the walker. -/
def ptwIn : Ptw.In w where
  flush := i.flush
  enableTranslation := i.enableTranslation
  enLdStTranslation := i.enLdStTranslation
  lsuIsStore := i.lsuIsStore
  dataGnt := i.dataGnt
  dataRvalid := i.dataRvalid
  dataRdata := i.dataRdata
  asid := i.asid
  itlbAccess := i.fetchReq
  itlbHit := (itlbLookup q i).hit
  itlbVaddr := i.fetchVaddr
  dtlbAccess := i.lsuReq
  dtlbHit := (dtlbLookup q i).hit
  dtlbVaddr := i.lsuVaddr
  satpPpn := i.satpPpn
  mxr := i.mxr

/-- The inputs of the instruction TLB. -/
def itlbIn : Tlb.In w where
  flush := i.flushTlb
  update := Ptw.itlbUpdateO q.ptw (ptwIn q i)
  luAccess := i.fetchReq
  luAsid := i.asid
  luVaddr := i.fetchVaddr

/-- The inputs of the data TLB. -/
def dtlbIn : Tlb.In w where
  flush := i.flushTlb
  update := Ptw.dtlbUpdateO q.ptw (ptwIn q i)
  luAccess := i.lsuReq
  luAsid := i.asid
  luVaddr := i.lsuVaddr

/-- The physical address of `vaddr` in a page, of which a superpage gives
the upper bits only. -/
def physical (ppn : BitVec 44) (vaddr : BitVec 64) (is2M is1G : Bool) :
    BitVec 56 :=
  let p : BitVec 56 := ppn ++ vaddr.extractLsb' 0 12
  let p : BitVec 56 :=
    if is2M then
      p.extractLsb' 21 35 ++ vaddr.extractLsb' 12 9 ++ p.extractLsb' 0 12
    else p
  if is1G then
    p.extractLsb' 30 26 ++ vaddr.extractLsb' 12 18 ++ p.extractLsb' 0 12
  else p

/-! ## The instruction interface -/

/-- `iaccess_err`. -/
def iaccessErr : Bool :=
  i.fetchReq &&
    (i.privLvl = PRIV_LVL_U && !(itlbLookup q i).content.u ||
      i.privLvl = PRIV_LVL_S && (itlbLookup q i).content.u)

/-- `fetch_paddr`. -/
def fetchPaddrO : BitVec 56 :=
  let o := itlbLookup q i
  if i.enableTranslation then physical o.content.ppn i.fetchVaddr o.is2M o.is1G
  else i.fetchVaddr.extractLsb' 0 56

/-- `fetch_valid`. -/
def fetchValidO : Bool :=
  if i.enableTranslation then
    if (itlbLookup q i).hit then i.fetchReq
    else Ptw.ptwActiveO q.ptw && q.ptw.isInstrPtw && Ptw.ptwErrorO q.ptw
  else i.fetchReq

/-- The bits of the address from 38 on are equal. -/
def isCanonical (vaddr : BitVec 64) : Bool :=
  vaddr.extractLsb' 38 26 = BitVec.allOnes 26 ∨ vaddr.extractLsb' 38 26 = 0#26

/-- The exception of a fetch but for the execute regions. -/
def fetchTranslationEx : ExceptionT :=
  if i.enableTranslation then
    let ex : ExceptionT :=
      if i.fetchReq && !isCanonical i.fetchVaddr then
        ⟨INSTR_ACCESS_FAULT, i.fetchVaddr, true⟩
      else ExceptionT.none
    if (itlbLookup q i).hit then
      if iaccessErr q i then ⟨INSTR_PAGE_FAULT, i.fetchVaddr, true⟩ else ex
    else if Ptw.ptwActiveO q.ptw && q.ptw.isInstrPtw then
      ⟨INSTR_PAGE_FAULT, q.ptw.vaddr, true⟩
    else ex
  else ExceptionT.none

/-- `match_any_execute_region`. -/
def matchAnyExecuteRegion : Bool :=
  isInsideExecuteRegions cfg ((fetchPaddrO q i).setWidth 64)

/-- `fetch_exception`. -/
def fetchExceptionO : ExceptionT :=
  if matchAnyExecuteRegion cfg q i then fetchTranslationEx q i
  else ⟨INSTR_ACCESS_FAULT, (fetchPaddrO q i).setWidth 64, true⟩

/-! ## The data interface -/

/-- `lsu_dtlb_hit_o`, in the cycle of the request. -/
def lsuDtlbHitO : Bool :=
  if i.enLdStTranslation then (dtlbLookup q i).hit else true

/-- `daccess_err`. -/
def daccessErr : Bool :=
  i.ldStPrivLvl = PRIV_LVL_S && !i.sum && q.dtlbPte.u ||
    i.ldStPrivLvl = PRIV_LVL_U && !q.dtlbPte.u

/-- The registered request is translated. -/
def translates : Bool := i.enLdStTranslation && !q.misalignedEx.valid

/-- The registered request has hit the data TLB. -/
def dataHit : Bool := q.dtlbHit && q.lsuReq

/-- The walker reports an error of a data access. -/
def dataWalkError : Bool :=
  Ptw.ptwActiveO q.ptw && !q.ptw.isInstrPtw && Ptw.ptwErrorO q.ptw

/-- `lsu_paddr_o`. -/
def lsuPaddrO : BitVec 56 :=
  if translates q i then
    physical q.dtlbPte.ppn q.lsuVaddr q.dtlbIs2M q.dtlbIs1G
  else q.lsuVaddr.extractLsb' 0 56

/-- `lsu_valid_o`. -/
def lsuValidO : Bool :=
  if translates q i then dataHit q || dataWalkError q else q.lsuReq

/-- The entry that was hit denies the access. -/
def denied : Bool :=
  if q.lsuIsStore then !q.dtlbPte.w || daccessErr q i || !q.dtlbPte.d
  else daccessErr q i

/-- The page fault of the registered request. -/
def dataPageFault (vaddr : BitVec 64) : ExceptionT :=
  ⟨if q.lsuIsStore then STORE_PAGE_FAULT else LOAD_PAGE_FAULT, vaddr, true⟩

/-- `lsu_exception_o`. -/
def lsuExceptionO : ExceptionT :=
  if translates q i then
    if dataHit q then
      if denied q i then dataPageFault q q.lsuVaddr else q.misalignedEx
    else if dataWalkError q then dataPageFault q q.ptw.vaddr
    else q.misalignedEx
  else q.misalignedEx

/-! ## One cycle -/

def step : State ni nd w where
  itlb := Tlb.step q.itlb (itlbIn q i)
  dtlb := Tlb.step q.dtlb (dtlbIn q i)
  ptw := Ptw.step q.ptw (ptwIn q i)
  lsuVaddr := i.lsuVaddr
  lsuReq := i.lsuReq
  misalignedEx := { i.misalignedEx with valid := i.misalignedEx.valid && i.lsuReq }
  dtlbPte := (dtlbLookup q i).content
  dtlbHit := (dtlbLookup q i).hit
  lsuIsStore := i.lsuIsStore
  dtlbIs2M := (dtlbLookup q i).is2M
  dtlbIs1G := (dtlbLookup q i).is1G

end ArianeSoc.Mmu
