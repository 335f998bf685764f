import ArianeSoc.Chipset.AxiliteRequests

/-!
# Every request of the AXI-Lite bridge makes one access and one response

The loads and the stores that have come in are lists, and each buffer on
their way has a part of them: `ReadInv` says so of the loads, `WriteInv` of
the stores, whose address and data go to AXI apart, and `SentInv` of the
responses on their way out.

The bridge frees the request buffer of a load with the address handshake,
and selects the bytes of the read data with what the buffer has when they
come.  So the response of a load is right if the buffer still has its access
then (`exact_of_keeps`), and may be wrong if the next load has come in
(`exact_overwritten`).
-/

namespace ArianeSoc.Chipset.AxiliteBridge

open Framing
open Noc (Flit)

/-! ## Headers of responses -/

theorem length_respHeader (header0 header2 : Flit) (length type : BitVec 8) :
    MSG_LENGTH.get (respHeader header0 header2 length type) = length := by
  apply BitVec.eq_of_getLsbD_eq
  intro j hj
  have hlo : MSG_LENGTH.lo = 22 := rfl
  rw [BitField.getLsbD_get, hlo]
  unfold respHeader
  rw [BitVec.getLsbD_append, if_neg (by omega), BitVec.getLsbD_append,
    if_neg (by omega), BitVec.getLsbD_append, if_neg (by omega),
    BitVec.getLsbD_append, if_pos (by omega), decide_eq_true hj,
    Bool.true_and]
  congr 1
  omega

theorem payload_wRespHeader (p : Params) (header0 header2 : Flit) :
    payload (wRespHeader0Next p header0 header2) = 0 := by
  rw [payload, wRespHeader0Next, length_respHeader]
  rfl

namespace Traffic

/-! ## Loads -/

/-- The loads that have been read, those that are answered and those whose
response has gone out, and the one that waits for its data. -/
structure ReadLists where
  taken : List (List Flit)
  answered : List (List Flit)
  out : List (List Flit)
  current : List Flit

structure ReadInv (p : Params) (s : Traffic) (v : ReadLists) : Prop where
  status : s.regs.rReqBufStatusF = .incomp ∨ s.regs.rReqBufStatusF = .comp
  loads : s.loads = v.taken ++
    if s.regs.rReqBufStatusF = .comp then [s.regs.loadPacket] else []
  reads : s.reads = v.taken.map (readOf p)
  respStatus : s.regs.rRespBufStatusF ≠ .comp
  taken : v.taken = v.answered ++
    if s.regs.rRespBufStatusF = .waitresp then [v.current] else []
  current : s.regs.rRespBufStatusF = .waitresp →
    ∃ header0 header2, v.current = [header0, s.lastRead, header2] ∧
      s.regs.rRespBufHeader0F =
        rRespHeader0Next p header0 s.lastRead header2
  answered : v.answered.length = s.rdata.length
  out : List.zipWith (loadResponse p) v.answered s.rdata = v.out ++
    if s.regs.rRespBufStatusF = .respsend then
      [response s.regs.rRespBufHeader0F s.regs.rRespBufData0F]
    else []

variable {p : Params} {s : Traffic} {i : In} {v : ReadLists}
  {new : List (List Flit)}

theorem arGo_spec {q : Regs} (h : q.arGo i = true) :
    q.rReqBufStatusF = .comp ∧ q.rRespBufStatusF = .incomp := by
  simp only [Regs.arGo, Regs.arvalid, Bool.and_eq_true,
    decide_eq_true_iff] at h
  exact h.1

theorem rTaken_spec {q : Regs} {d : BitVec 64} (h : q.rTaken i = some d) :
    q.rRespBufStatusF = .waitresp := by
  unfold Regs.rTaken Regs.rready at h
  split_ifs at h with hr
  exact of_decide_eq_true hr

theorem ackLoadGo_spec {q : Regs} (h : q.ackLoadGo i = true) :
    q.rRespBufStatusF = .respsend := by
  simp only [Regs.ackLoadGo, Regs.rRespBufVal, Bool.and_eq_true,
    decide_eq_true_iff] at h
  exact h.1.2

/-- The last flit of the response to a load goes out. -/
def loadDone (q : Regs) (i : In) : Bool :=
  q.ackLoadGo i && q.ackLoadCounterF = 0#8

/-- What a cycle does to the buffer of the response to a load. -/
inductive ReadEvent (p : Params) (q q' : Regs) (i : In) : Prop where
  | idle (har : q.arGo i = false) (hr : q.rTaken i = none)
      (hdone : loadDone q i = false)
      (hstatus : q'.rRespBufStatusF = q.rRespBufStatusF)
      (hhead : q'.rRespBufHeader0F = q.rRespBufHeader0F)
      (hdata : q'.rRespBufData0F = q.rRespBufData0F)
  | read (har : q.arGo i = true) (hr : q.rTaken i = none)
      (hdone : loadDone q i = false) (hold : q.rRespBufStatusF = .incomp)
      (hstatus : q'.rRespBufStatusF = .waitresp)
      (hhead : q'.rRespBufHeader0F = rRespHeader0Next p q.rReqBufHeader0F
        q.rReqBufHeader1F q.rReqBufHeader2F)
  | data (d : BitVec 64) (har : q.arGo i = false) (hr : q.rTaken i = some d)
      (hdone : loadDone q i = false) (hold : q.rRespBufStatusF = .waitresp)
      (hstatus : q'.rRespBufStatusF = .respsend)
      (hhead : q'.rRespBufHeader0F = q.rRespBufHeader0F)
      (hdata : q'.rRespBufData0F = rdataMasked p q.rReqBufHeader1F d)
  | done (har : q.arGo i = false) (hr : q.rTaken i = none)
      (hdone : loadDone q i = true) (hold : q.rRespBufStatusF = .respsend)
      (hstatus : q'.rRespBufStatusF = .incomp)

theorem read_event (p : Params) (q : Regs) (i : In) :
    ReadEvent p q (q.next p i) i := by
  cases har : q.arGo i with
  | true =>
    obtain ⟨-, hold⟩ := arGo_spec har
    refine .read har ?_ ?_ hold ?_ ?_ <;>
      simp [Regs.rTaken, Regs.rready, loadDone, Regs.ackLoadGo,
        Regs.rRespBufVal, Regs.next, har, hold]
  | false =>
    cases hr : q.rTaken i with
    | some d =>
      have hold := rTaken_spec hr
      refine .data d har hr ?_ hold ?_ ?_ ?_ <;>
        simp [loadDone, Regs.ackLoadGo, Regs.rRespBufVal, Regs.next, har, hr,
          hold]
    | none =>
      cases hdone : loadDone q i with
      | true =>
        obtain ⟨hack, hzero⟩ := Bool.and_eq_true_iff.mp hdone
        have hold := ackLoadGo_spec hack
        refine .done har hr hdone hold ?_
        simp [Regs.next, har, hr, hack, of_decide_eq_true hzero, hold]
      | false =>
        refine .idle har hr hdone ?_ ?_ ?_
        · unfold loadDone at hdone
          simp [Regs.next, har, hr, hdone]
        · simp [Regs.next, har]
        · simp [Regs.next, hr]

/-- The requests after a cycle, as those that have gone to AXI and the one in
the buffer. -/
theorem buffer_step {st st' : BufStatus} {go : Bool} {pk pk' : List Flit}
    {taken all : List (List Flit)} (hst : st = .incomp ∨ st = .comp)
    (hgo : go = true → st = .comp)
    (hkeeps : new = [] → st' = (if go then .incomp else st) ∧
      (st = .comp → pk' = pk))
    (hfills : new ≠ [] → new = [pk'] ∧ st = .incomp ∧ st' = .comp)
    (hall : all = taken ++ if st = .comp then [pk] else []) :
    (st' = .incomp ∨ st' = .comp) ∧
      all ++ new = (taken ++ if go then [pk] else []) ++
        if st' = .comp then [pk'] else [] := by
  rw [hall]
  by_cases hnil : new = []
  · obtain ⟨hstatus, hpacket⟩ := hkeeps hnil
    rw [hstatus, hnil, List.append_nil]
    cases hg : go with
    | true => simp [hgo hg]
    | false =>
      refine ⟨hst, ?_⟩
      by_cases hc : st = .comp
      · simp [hc, hpacket hc]
      · simp [hc]
  · obtain ⟨heq, hincomp, hcomp⟩ := hfills hnil
    have hg : go = false := by
      rw [Bool.eq_false_iff]
      intro hg
      rw [hgo hg] at hincomp
      exact absurd hincomp (by decide)
    exact ⟨.inr hcomp, by simp [hincomp, hcomp, hg, heq]⟩

theorem loadResponse_current {header0 header2 : Flit} {rdata : BitVec 64}
    (hhead : s.regs.rRespBufHeader0F =
      rRespHeader0Next p header0 s.lastRead header2)
    (hsame : SameAccess p s.regs.rReqBufHeader1F s.lastRead) :
    loadResponse p [header0, s.lastRead, header2] rdata =
      response s.regs.rRespBufHeader0F
        (rdataMasked p s.regs.rReqBufHeader1F rdata) := by
  rw [rdataMasked_congr p hsame, hhead]
  rfl

section LoadCycle

variable {taken : List (List Flit)}
  (hstatus : (s.step p i).regs.rReqBufStatusF = .incomp ∨
    (s.step p i).regs.rReqBufStatusF = .comp)
  (hloads : (s.step p i).loads = taken ++
    if (s.step p i).regs.rReqBufStatusF = .comp then
      [(s.step p i).regs.loadPacket]
    else [])

theorem step_reads : (s.step p i).reads = s.reads ++
    if s.regs.arGo i then [readOf p s.regs.loadPacket] else [] := rfl

theorem step_rdata (p : Params) (s : Traffic) (i : In) :
    (s.step p i).rdata = s.rdata ++ (s.regs.rTaken i).toList := rfl

theorem step_lastRead : (s.step p i).lastRead =
    if s.regs.arGo i then s.regs.rReqBufHeader1F else s.lastRead := rfl

include hstatus hloads

/-- Nothing happens to the load that waits. -/
theorem ReadInv.step_idle (h : ReadInv p s v) (htaken : taken = v.taken)
    (har : s.regs.arGo i = false) (hr : s.regs.rTaken i = none)
    (hs : (s.step p i).regs.rRespBufStatusF = s.regs.rRespBufStatusF)
    (hhead : (s.step p i).regs.rRespBufHeader0F = s.regs.rRespBufHeader0F)
    (hdata : (s.step p i).regs.rRespBufData0F = s.regs.rRespBufData0F) :
    ReadInv p (s.step p i) v := by
  have hrdata := step_rdata p s i
  rw [hr, Option.toList_none, List.append_nil] at hrdata
  refine ⟨hstatus, htaken ▸ hloads, ?_, ?_, ?_, ?_, ?_, ?_⟩
  · rw [step_reads, har, if_neg Bool.false_ne_true, List.append_nil]
    exact h.reads
  · rw [hs]
    exact h.respStatus
  · rw [hs]
    exact h.taken
  · rw [hs, hhead, step_lastRead, har, if_neg Bool.false_ne_true]
    exact h.current
  · rw [hrdata]
    exact h.answered
  · rw [hs, hhead, hdata, hrdata]
    exact h.out

/-- A load goes to AXI. -/
theorem ReadInv.step_read (h : ReadInv p s v)
    (htaken : taken = v.taken ++ [s.regs.loadPacket])
    (har : s.regs.arGo i = true) (hr : s.regs.rTaken i = none)
    (hold : s.regs.rRespBufStatusF = .incomp)
    (hs : (s.step p i).regs.rRespBufStatusF = .waitresp)
    (hhead : (s.step p i).regs.rRespBufHeader0F = rRespHeader0Next p
      s.regs.rReqBufHeader0F s.regs.rReqBufHeader1F s.regs.rReqBufHeader2F) :
    ReadInv p (s.step p i) ⟨v.taken ++ [s.regs.loadPacket], v.answered, v.out,
      s.regs.loadPacket⟩ := by
  have hrdata := step_rdata p s i
  rw [hr, Option.toList_none, List.append_nil] at hrdata
  refine ⟨hstatus, htaken ▸ hloads, ?_, ?_, ?_, ?_, ?_, ?_⟩
  · rw [step_reads, har, if_pos rfl, h.reads, List.map_append,
      List.map_singleton]
  · simp [hs]
  · rw [h.taken, hold, hs]
    simp
  · intro _
    rw [step_lastRead, har, if_pos rfl]
    exact ⟨_, _, rfl, hhead⟩
  · rw [hrdata]
    exact h.answered
  · rw [hrdata, h.out, hold, hs]
    simp

/-- The data of the load that waits come back. -/
theorem ReadInv.step_data (h : ReadInv p s v) (htaken : taken = v.taken)
    {d : BitVec 64} (har : s.regs.arGo i = false)
    (hr : s.regs.rTaken i = some d) (hkeeps : s.Keeps p i)
    (hold : s.regs.rRespBufStatusF = .waitresp)
    (hs : (s.step p i).regs.rRespBufStatusF = .respsend)
    (hhead : (s.step p i).regs.rRespBufHeader0F = s.regs.rRespBufHeader0F)
    (hdata : (s.step p i).regs.rRespBufData0F =
      rdataMasked p s.regs.rReqBufHeader1F d) :
    ReadInv p (s.step p i)
      ⟨v.taken, v.answered ++ [v.current], v.out, v.current⟩ := by
  have hrdata := step_rdata p s i
  rw [hr, Option.toList_some] at hrdata
  obtain ⟨h0, h2, hcur, hhead0⟩ := h.current hold
  have hlen := h.answered
  have hout := h.out
  rw [hold, if_neg (by decide), List.append_nil] at hout
  refine ⟨hstatus, htaken ▸ hloads, ?_, ?_, ?_, ?_, ?_, ?_⟩
  · rw [step_reads, har, if_neg Bool.false_ne_true, List.append_nil]
    exact h.reads
  · simp [hs]
  · rw [h.taken, hold, hs]
    simp
  · rw [hs]
    exact fun hw => absurd hw (by decide)
  · rw [hrdata, List.length_append, List.length_append, hlen]
    rfl
  · rw [hrdata, List.zipWith_append hlen, hout, hs, if_pos rfl, hhead, hdata,
      hcur]
    congr 1
    exact congrArg (fun r => [r]) (loadResponse_current hhead0
      (hkeeps (by rw [hr]; rfl)))

/-- The last flit of the response goes out. -/
theorem ReadInv.step_done (h : ReadInv p s v) (htaken : taken = v.taken)
    (har : s.regs.arGo i = false) (hr : s.regs.rTaken i = none)
    (hold : s.regs.rRespBufStatusF = .respsend)
    (hs : (s.step p i).regs.rRespBufStatusF = .incomp) :
    ReadInv p (s.step p i) ⟨v.taken, v.answered,
      v.out ++ [response s.regs.rRespBufHeader0F s.regs.rRespBufData0F],
      v.current⟩ := by
  have hrdata := step_rdata p s i
  rw [hr, Option.toList_none, List.append_nil] at hrdata
  refine ⟨hstatus, htaken ▸ hloads, ?_, ?_, ?_, ?_, ?_, ?_⟩
  · rw [step_reads, har, if_neg Bool.false_ne_true, List.append_nil]
    exact h.reads
  · simp [hs]
  · rw [h.taken, hold, hs]
    simp
  · rw [hs]
    exact fun hw => absurd hw (by decide)
  · rw [hrdata]
    exact h.answered
  · rw [hrdata, h.out, hold, hs]
    simp

end LoadCycle

/-- One cycle of the loads. -/
theorem ReadInv.step (h : ReadInv p s v)
    (hfill : Regs.LoadFills s.regs (s.step p i).regs i new)
    (hnew : (s.step p i).loads = s.loads ++ new) (hkeeps : s.Keeps p i) :
    ∃ v', ReadInv p (s.step p i) v' ∧
      v'.out = v.out ++
        if loadDone s.regs i then
          [response s.regs.rRespBufHeader0F s.regs.rRespBufData0F]
        else [] := by
  obtain ⟨hreq, hloads⟩ := buffer_step h.status
    (fun har => (arGo_spec har).1) hfill.keeps hfill.fills h.loads
  rw [← hnew] at hloads
  cases read_event p s.regs i with
  | idle har hr hdone hstatus hhead hdata =>
    refine ⟨v, h.step_idle hreq hloads ?_ har hr hstatus hhead hdata, ?_⟩
    · rw [har, if_neg Bool.false_ne_true, List.append_nil]
    · rw [hdone, if_neg Bool.false_ne_true, List.append_nil]
  | read har hr hdone hst hstatus hhead =>
    refine ⟨_, h.step_read hreq hloads ?_ har hr hst hstatus hhead, ?_⟩
    · rw [har, if_pos rfl]
    · rw [hdone, if_neg Bool.false_ne_true, List.append_nil]
  | data d har hr hdone hst hstatus hhead hdata =>
    refine ⟨_, h.step_data hreq hloads ?_ har hr hkeeps hst hstatus hhead
      hdata, ?_⟩
    · rw [har, if_neg Bool.false_ne_true, List.append_nil]
    · rw [hdone, if_neg Bool.false_ne_true, List.append_nil]
  | done har hr hdone hst hstatus =>
    refine ⟨_, h.step_done hreq hloads ?_ har hr hst hstatus, ?_⟩
    · rw [har, if_neg Bool.false_ne_true, List.append_nil]
    · rw [hdone, if_pos rfl]

/-! ## Stores -/

/-- The stores whose address and those whose data have gone to AXI, those
that are answered, and those whose response has gone out; and the ones whose
address and whose data wait for an answer. -/
structure WriteLists where
  addrTaken : List (List Flit)
  dataTaken : List (List Flit)
  answered : List (List Flit)
  out : List (List Flit)
  addrCurrent : List Flit
  dataCurrent : List Flit

structure WriteInv (p : Params) (s : Traffic) (w : WriteLists) : Prop where
  addrStatus : s.regs.wAddrReqBufStatusF = .incomp ∨
    s.regs.wAddrReqBufStatusF = .comp
  dataStatus : s.regs.wDataReqBufStatusF = .incomp ∨
    s.regs.wDataReqBufStatusF = .comp
  addrStores : s.stores = w.addrTaken ++
    if s.regs.wAddrReqBufStatusF = .comp then [s.regs.storePacket] else []
  dataStores : s.stores = w.dataTaken ++
    if s.regs.wDataReqBufStatusF = .comp then [s.regs.storePacket] else []
  writes : s.writes = w.addrTaken.map writeOf
  wdata : s.wdata = w.dataTaken.map (wdataOf p)
  addrResp : s.regs.wAddrRespBufStatusF ≠ .comp
  dataResp : s.regs.wDataRespBufStatusF ≠ .comp
  respsend : s.regs.wAddrRespBufStatusF = .respsend ↔
    s.regs.wDataRespBufStatusF = .respsend
  addrTaken : w.addrTaken = w.answered ++
    if s.regs.wAddrRespBufStatusF = .waitresp then [w.addrCurrent] else []
  dataTaken : w.dataTaken = w.answered ++
    if s.regs.wDataRespBufStatusF = .waitresp then [w.dataCurrent] else []
  answered : w.answered.length = s.answered
  current : s.regs.wAddrRespBufStatusF = .waitresp →
    storeResponse p w.addrCurrent = [s.regs.wRespBufHeader0F]
  header : s.regs.wAddrRespBufStatusF ≠ .incomp →
    payload s.regs.wRespBufHeader0F = 0
  out : w.answered.map (storeResponse p) = w.out ++
    if s.regs.wAddrRespBufStatusF = .respsend then
      [[s.regs.wRespBufHeader0F]]
    else []

variable {w : WriteLists} {q : Regs}

theorem awGo_spec (h : q.awGo i = true) :
    q.wReqBufStatus = .comp ∧ q.wAddrRespBufStatusF = .incomp := by
  simp only [Regs.awGo, Regs.awvalid, Bool.and_eq_true,
    decide_eq_true_iff] at h
  exact h.1

theorem wGo_spec (h : q.wGo i = true) :
    q.wReqBufStatus = .comp ∧ q.wDataRespBufStatusF = .incomp := by
  simp only [Regs.wGo, Regs.wvalid, Bool.and_eq_true,
    decide_eq_true_iff] at h
  exact h.1

/-- Where one half of a response is taken or sent, so is the other. -/
theorem wRespBufStatus_spec (ha : q.wAddrRespBufStatusF ≠ .comp)
    (hd : q.wDataRespBufStatusF ≠ .comp)
    (hsend : q.wAddrRespBufStatusF = .respsend ↔
      q.wDataRespBufStatusF = .respsend) :
    (q.wRespBufStatus = .waitresp ↔ q.wAddrRespBufStatusF = .waitresp ∧
        q.wDataRespBufStatusF = .waitresp) ∧
      (q.wRespBufStatus = .respsend ↔ q.wAddrRespBufStatusF = .respsend ∧
        q.wDataRespBufStatusF = .respsend) := by
  unfold Regs.wRespBufStatus
  cases hqa : q.wAddrRespBufStatusF <;> cases hqd : q.wDataRespBufStatusF <;>
    simp_all

/-- What a cycle does to the buffer of the response to a store. -/
inductive WriteEvent (p : Params) (q q' : Regs) (i : In) : Prop where
  | send (hb : q.bGo i = false) (hdone : q.ackStoreGo i = false)
      (haddr : q'.wAddrRespBufStatusF =
        if q.awGo i then .waitresp else q.wAddrRespBufStatusF)
      (hdata : q'.wDataRespBufStatusF =
        if q.wGo i then .waitresp else q.wDataRespBufStatusF)
      (hhead : q'.wRespBufHeader0F =
        if q.awGo i then
          wRespHeader0Next p q.wReqBufHeader0F q.wReqBufHeader2F
        else q.wRespBufHeader0F)
  | answer (hb : q.bGo i = true) (haw : q.awGo i = false)
      (hw : q.wGo i = false) (hdone : q.ackStoreGo i = false)
      (hold : q.wAddrRespBufStatusF = .waitresp ∧
        q.wDataRespBufStatusF = .waitresp)
      (haddr : q'.wAddrRespBufStatusF = .respsend)
      (hdata : q'.wDataRespBufStatusF = .respsend)
      (hhead : q'.wRespBufHeader0F = q.wRespBufHeader0F)
  | done (hb : q.bGo i = false) (haw : q.awGo i = false)
      (hw : q.wGo i = false) (hdone : q.ackStoreGo i = true)
      (hold : q.wAddrRespBufStatusF = .respsend)
      (haddr : q'.wAddrRespBufStatusF = .incomp)
      (hdata : q'.wDataRespBufStatusF = .incomp)

theorem write_event (p : Params) (i : In)
    (ha : q.wAddrRespBufStatusF ≠ .comp)
    (hd : q.wDataRespBufStatusF ≠ .comp)
    (hsend : q.wAddrRespBufStatusF = .respsend ↔
      q.wDataRespBufStatusF = .respsend) :
    WriteEvent p q (q.next p i) i := by
  obtain ⟨hwait, hresp⟩ := wRespBufStatus_spec ha hd hsend
  cases hb : q.bGo i with
  | true =>
    have hready : q.bready = true := (Bool.and_eq_true_iff.mp hb).1
    obtain ⟨hqa, hqd⟩ := hwait.mp (of_decide_eq_true hready)
    have hst : q.wRespBufStatus = .waitresp := of_decide_eq_true hready
    refine .answer hb ?_ ?_ ?_ ⟨hqa, hqd⟩ ?_ ?_ ?_ <;>
      simp [Regs.awGo, Regs.awvalid, Regs.wGo, Regs.wvalid,
        Regs.ackStoreGo, Regs.wRespBufVal, Regs.next, hqa, hqd, hst, hb]
  | false =>
    cases hdone : q.ackStoreGo i with
    | true =>
      have hval : q.wRespBufVal = true := by
        simp only [Regs.ackStoreGo, Bool.and_eq_true] at hdone
        exact hdone.1.2
      obtain ⟨hqa, hqd⟩ := hresp.mp (of_decide_eq_true hval)
      refine .done hb ?_ ?_ hdone hqa ?_ ?_ <;>
        simp [Regs.awGo, Regs.awvalid, Regs.wGo, Regs.wvalid, Regs.next,
          hqa, hqd, hb, hdone]
    | false =>
      refine .send hb hdone ?_ ?_ ?_ <;> simp [Regs.next, hb, hdone]

/-- A channel whose response buffer is free has not sent the request in the
buffer, if there is one. -/
theorem comp_of_free {st st' resp resp' : BufStatus} {pk c c' : List Flit}
    {taken taken' answered all : List (List Flit)}
    (hst : st = .incomp ∨ st = .comp) (hany : st = .comp ∨ st' = .comp)
    (hall : all = taken ++ if st = .comp then [pk] else [])
    (hall' : all = taken' ++ if st' = .comp then [pk] else [])
    (htaken : taken = answered ++ if resp = .waitresp then [c] else [])
    (htaken' : taken' = answered ++ if resp' = .waitresp then [c'] else [])
    (hfree : resp = .incomp) : st = .comp := by
  rcases hst with hincomp | hcomp
  · have hcomp' : st' = .comp := hany.resolve_left (by simp [hincomp])
    have hlen := congrArg List.length (hall.symm.trans hall')
    rw [htaken, htaken', hfree, hincomp, hcomp'] at hlen
    simp only [reduceCtorEq, if_false, if_true, List.append_nil,
      List.length_append, List.length_singleton] at hlen
    omega
  · exact hcomp

theorem WriteInv.any_comp (h : WriteInv p s w)
    (hcomp : s.regs.wReqBufStatus = .comp) :
    s.regs.wAddrReqBufStatusF = .comp ∨ s.regs.wDataReqBufStatusF = .comp := by
  rcases h.addrStatus with ha | ha
  · rcases h.dataStatus with hd | hd
    · rw [Regs.wReqBufStatus_eq_incomp.mpr ⟨ha, hd⟩] at hcomp
      exact absurd hcomp (by decide)
    · exact .inr hd
  · exact .inl ha

theorem WriteInv.addr_comp (h : WriteInv p s w)
    (haw : s.regs.awGo i = true) : s.regs.wAddrReqBufStatusF = .comp :=
  comp_of_free h.addrStatus (h.any_comp (awGo_spec haw).1) h.addrStores
    h.dataStores h.addrTaken h.dataTaken (awGo_spec haw).2

theorem WriteInv.data_comp (h : WriteInv p s w)
    (hw : s.regs.wGo i = true) : s.regs.wDataReqBufStatusF = .comp :=
  comp_of_free h.dataStatus (h.any_comp (wGo_spec hw).1).symm h.dataStores
    h.addrStores h.dataTaken h.addrTaken (wGo_spec hw).2

/-- The address and the data that wait for an answer are of one store. -/
theorem WriteInv.current_eq (h : WriteInv p s w)
    (ha : s.regs.wAddrRespBufStatusF = .waitresp)
    (hd : s.regs.wDataRespBufStatusF = .waitresp) :
    w.addrTaken = w.answered ++ [w.addrCurrent] ∧
      w.dataTaken = w.answered ++ [w.addrCurrent] := by
  have haddr := h.addrTaken
  have hdata := h.dataTaken
  rw [ha, if_pos rfl] at haddr
  rw [hd, if_pos rfl] at hdata
  have hlen : w.addrTaken.length = w.dataTaken.length := by
    rw [haddr, hdata, List.length_append, List.length_append]
    rfl
  have heq := (List.append_inj
    (h.addrStores.symm.trans h.dataStores) hlen).1
  exact ⟨haddr, heq ▸ haddr⟩

/-- The stores as those whose address and whose data have gone to AXI and
those that the request buffer has. -/
structure Requested (s : Traffic) (addrTaken dataTaken : List (List Flit)) :
    Prop where
  addrStatus : s.regs.wAddrReqBufStatusF = .incomp ∨
    s.regs.wAddrReqBufStatusF = .comp
  dataStatus : s.regs.wDataReqBufStatusF = .incomp ∨
    s.regs.wDataReqBufStatusF = .comp
  addrStores : s.stores = addrTaken ++
    if s.regs.wAddrReqBufStatusF = .comp then [s.regs.storePacket] else []
  dataStores : s.stores = dataTaken ++
    if s.regs.wDataReqBufStatusF = .comp then [s.regs.storePacket] else []

theorem WriteInv.requested (h : WriteInv p s w)
    (hfill : Regs.StoreFills s.regs (s.step p i).regs i new)
    (hnew : (s.step p i).stores = s.stores ++ new) :
    Requested (s.step p i)
      (w.addrTaken ++ if s.regs.awGo i then [s.regs.storePacket] else [])
      (w.dataTaken ++ if s.regs.wGo i then [s.regs.storePacket] else []) := by
  have hbusy : s.regs.wReqBufStatus = .incomp →
      s.regs.wAddrReqBufStatusF = .incomp ∧
        s.regs.wDataReqBufStatusF = .incomp :=
    Regs.wReqBufStatus_eq_incomp.mp
  have hpacket : new = [] → s.regs.wAddrReqBufStatusF = .comp ∨
      s.regs.wDataReqBufStatusF = .comp →
      (s.step p i).regs.storePacket = s.regs.storePacket := by
    intro hnil hany
    apply (hfill.keeps hnil).2.2
    unfold Regs.wReqBufStatus
    rw [if_neg]
    rintro ⟨ha, hd⟩
    simp [ha, hd] at hany
  obtain ⟨haddrReq, haddrStores⟩ := buffer_step h.addrStatus h.addr_comp
    (fun hnil => ⟨(hfill.keeps hnil).1, fun hc => hpacket hnil (.inl hc)⟩)
    (fun hne => ⟨(hfill.fills hne).1, (hbusy (hfill.fills hne).2.1).1,
      (hfill.fills hne).2.2.1⟩) h.addrStores
  obtain ⟨hdataReq, hdataStores⟩ := buffer_step h.dataStatus h.data_comp
    (fun hnil => ⟨(hfill.keeps hnil).2.1, fun hc => hpacket hnil (.inr hc)⟩)
    (fun hne => ⟨(hfill.fills hne).1, (hbusy (hfill.fills hne).2.1).2,
      (hfill.fills hne).2.2.2⟩) h.dataStores
  rw [← hnew] at haddrStores hdataStores
  exact ⟨haddrReq, hdataReq, haddrStores, hdataStores⟩

theorem step_writes : (s.step p i).writes = s.writes ++
    if s.regs.awGo i then [writeOf s.regs.storePacket] else [] := rfl

theorem step_wdata : (s.step p i).wdata = s.wdata ++
    if s.regs.wGo i then [wdataOf p s.regs.storePacket] else [] := rfl

theorem step_answered :
    (s.step p i).answered = s.answered + (s.regs.bGo i).toNat := rfl

/-- The address or the data of a store go to AXI, or neither. -/
theorem WriteInv.step_send (h : WriteInv p s w)
    (hreq : Requested (s.step p i)
      (w.addrTaken ++ if s.regs.awGo i then [s.regs.storePacket] else [])
      (w.dataTaken ++ if s.regs.wGo i then [s.regs.storePacket] else []))
    (hb : s.regs.bGo i = false)
    (haddr : (s.step p i).regs.wAddrRespBufStatusF =
      if s.regs.awGo i then .waitresp else s.regs.wAddrRespBufStatusF)
    (hdata : (s.step p i).regs.wDataRespBufStatusF =
      if s.regs.wGo i then .waitresp else s.regs.wDataRespBufStatusF)
    (hhead : (s.step p i).regs.wRespBufHeader0F =
      if s.regs.awGo i then
        wRespHeader0Next p s.regs.wReqBufHeader0F s.regs.wReqBufHeader2F
      else s.regs.wRespBufHeader0F) :
    WriteInv p (s.step p i)
      ⟨w.addrTaken ++ if s.regs.awGo i then [s.regs.storePacket] else [],
        w.dataTaken ++ if s.regs.wGo i then [s.regs.storePacket] else [],
        w.answered, w.out,
        if s.regs.awGo i then s.regs.storePacket else w.addrCurrent,
        if s.regs.wGo i then s.regs.storePacket else w.dataCurrent⟩ := by
  have haw : s.regs.awGo i = true →
      s.regs.wAddrRespBufStatusF = .incomp := fun hg => (awGo_spec hg).2
  have hwg : s.regs.wGo i = true →
      s.regs.wDataRespBufStatusF = .incomp := fun hg => (wGo_spec hg).2
  have hsend := h.respsend
  refine ⟨hreq.addrStatus, hreq.dataStatus, hreq.addrStores, hreq.dataStores,
    ?_, ?_, ?_, ?_, ?_, ?_, ?_, ?_, ?_, ?_, ?_⟩
  · rw [step_writes, h.writes, List.map_append]
    cases s.regs.awGo i <;> rfl
  · rw [step_wdata, h.wdata, List.map_append]
    cases s.regs.wGo i <;> rfl
  · rw [haddr]
    split_ifs
    · decide
    · exact h.addrResp
  · rw [hdata]
    split_ifs
    · decide
    · exact h.dataResp
  · rw [haddr, hdata]
    cases hga : s.regs.awGo i <;> cases hgd : s.regs.wGo i
    · simpa using hsend
    · simpa [hwg hgd] using hsend
    · simpa [haw hga, eq_comm] using hsend
    · simp
  · rw [haddr, h.addrTaken]
    cases hga : s.regs.awGo i <;> simp_all
  · rw [hdata, h.dataTaken]
    cases hgd : s.regs.wGo i <;> simp_all
  · rw [step_answered, hb]
    exact h.answered
  · rw [haddr, hhead]
    cases hga : s.regs.awGo i with
    | false => simpa using h.current
    | true => exact fun _ => rfl
  · rw [haddr, hhead]
    cases hga : s.regs.awGo i with
    | false => simpa using h.header
    | true => exact fun _ => payload_wRespHeader p _ _
  · rw [haddr, hhead, h.out]
    cases hga : s.regs.awGo i with
    | false => simp
    | true => simp [haw hga]

/-- AXI answers the store whose address and data it has. -/
theorem WriteInv.step_answer (h : WriteInv p s w)
    (hreq : Requested (s.step p i) w.addrTaken w.dataTaken)
    (hb : s.regs.bGo i = true) (haw : s.regs.awGo i = false)
    (hw : s.regs.wGo i = false)
    (hold : s.regs.wAddrRespBufStatusF = .waitresp ∧
      s.regs.wDataRespBufStatusF = .waitresp)
    (haddr : (s.step p i).regs.wAddrRespBufStatusF = .respsend)
    (hdata : (s.step p i).regs.wDataRespBufStatusF = .respsend)
    (hhead : (s.step p i).regs.wRespBufHeader0F = s.regs.wRespBufHeader0F) :
    WriteInv p (s.step p i)
      ⟨w.addrTaken, w.dataTaken, w.answered ++ [w.addrCurrent], w.out,
        w.addrCurrent, w.dataCurrent⟩ := by
  obtain ⟨haddrTaken, hdataTaken⟩ := h.current_eq hold.1 hold.2
  refine ⟨hreq.addrStatus, hreq.dataStatus, hreq.addrStores, hreq.dataStores,
    ?_, ?_, ?_, ?_, ?_, ?_, ?_, ?_, ?_, ?_, ?_⟩
  · rw [step_writes, haw, if_neg Bool.false_ne_true, List.append_nil]
    exact h.writes
  · rw [step_wdata, hw, if_neg Bool.false_ne_true, List.append_nil]
    exact h.wdata
  · simp [haddr]
  · simp [hdata]
  · simp [haddr, hdata]
  · simp [haddr, haddrTaken]
  · simp [hdata, hdataTaken]
  · rw [step_answered, hb, List.length_append, h.answered]
    rfl
  · simp [haddr]
  · intro _
    rw [hhead]
    exact h.header (by simp [hold.1])
  · rw [List.map_append, h.out, hold.1, if_neg (by decide), List.append_nil,
      List.map_singleton, h.current hold.1, haddr, if_pos rfl, hhead]

/-- The response goes out. -/
theorem WriteInv.step_done (h : WriteInv p s w)
    (hreq : Requested (s.step p i) w.addrTaken w.dataTaken)
    (hb : s.regs.bGo i = false) (haw : s.regs.awGo i = false)
    (hw : s.regs.wGo i = false)
    (hold : s.regs.wAddrRespBufStatusF = .respsend)
    (haddr : (s.step p i).regs.wAddrRespBufStatusF = .incomp)
    (hdata : (s.step p i).regs.wDataRespBufStatusF = .incomp) :
    WriteInv p (s.step p i)
      ⟨w.addrTaken, w.dataTaken, w.answered,
        w.out ++ [[s.regs.wRespBufHeader0F]], w.addrCurrent, w.dataCurrent⟩ := by
  have haddrTaken := h.addrTaken
  have hdataTaken := h.dataTaken
  rw [hold, if_neg (by decide)] at haddrTaken
  rw [h.respsend.mp hold, if_neg (by decide)] at hdataTaken
  refine ⟨hreq.addrStatus, hreq.dataStatus, hreq.addrStores, hreq.dataStores,
    ?_, ?_, ?_, ?_, ?_, ?_, ?_, ?_, ?_, ?_, ?_⟩
  · rw [step_writes, haw, if_neg Bool.false_ne_true, List.append_nil]
    exact h.writes
  · rw [step_wdata, hw, if_neg Bool.false_ne_true, List.append_nil]
    exact h.wdata
  · simp [haddr]
  · simp [hdata]
  · simp [haddr, hdata]
  · simp [haddr, haddrTaken]
  · simp [hdata, hdataTaken]
  · rw [step_answered, hb]
    exact h.answered
  · simp [haddr]
  · simp [haddr]
  · rw [h.out, hold, if_pos rfl, haddr, if_neg (by decide), List.append_nil]

/-- One cycle of the stores. -/
theorem WriteInv.step (h : WriteInv p s w)
    (hfill : Regs.StoreFills s.regs (s.step p i).regs i new)
    (hnew : (s.step p i).stores = s.stores ++ new) :
    ∃ w', WriteInv p (s.step p i) w' ∧
      w'.out = w.out ++
        if s.regs.ackStoreGo i then [[s.regs.wRespBufHeader0F]] else [] := by
  have hreq := h.requested hfill hnew
  cases write_event p i h.addrResp h.dataResp h.respsend with
  | send hb hdone haddr hdata hhead =>
    refine ⟨_, h.step_send hreq hb haddr hdata hhead, ?_⟩
    rw [hdone, if_neg Bool.false_ne_true, List.append_nil]
  | answer hb haw hw hdone hold haddr hdata hhead =>
    rw [haw, hw, if_neg Bool.false_ne_true, List.append_nil,
      List.append_nil] at hreq
    refine ⟨_, h.step_answer hreq hb haw hw hold haddr hdata hhead, ?_⟩
    rw [hdone, if_neg Bool.false_ne_true, List.append_nil]
  | done hb haw hw hdone hold haddr hdata =>
    rw [haw, hw, if_neg Bool.false_ne_true, List.append_nil,
      List.append_nil] at hreq
    refine ⟨_, h.step_done hreq hb haw hw hold haddr hdata, ?_⟩
    rw [hdone, if_pos rfl]

/-! ## Responses on their way out -/

/-- What has gone out: the responses of the two lists, and a part of the one
to a load that is going out. -/
structure SentInv (s : Traffic) (loadsOut storesOut : List (List Flit)) :
    Prop where
  merged : Merges (byAck loadsOut storesOut) (progress payload s.sent).done
  idle : s.regs.rRespBufStatusF ≠ .respsend →
    (progress payload s.sent).rest = []
  going : s.regs.rRespBufStatusF = .respsend →
    s.regs.ackLoadCounterF.toNat ≤ payload s.regs.rRespBufHeader0F ∧
      (progress payload s.sent).rest =
        (response s.regs.rRespBufHeader0F s.regs.rRespBufData0F).take
          (payload s.regs.rRespBufHeader0F -
            s.regs.ackLoadCounterF.toNat)

variable {loadsOut storesOut : List (List Flit)}

theorem sent_step (p : Params) (s : Traffic) (i : In) :
    (s.step p i).sent = s.sent ++
      if s.regs.ackLoadGo i then [s.regs.ackLoad]
      else if s.regs.ackStoreGo i then [s.regs.wRespBufHeader0F] else [] := by
  show s.sent ++ _ = _
  congr 1
  unfold Regs.flitOut Regs.ackLoadGo Regs.ackStoreGo
  cases s.regs.ackMuxSel <;> cases i.splitterRdy <;>
    cases s.regs.rRespBufVal <;> cases s.regs.wRespBufVal <;> rfl

theorem counter_eq_iff (q : Regs) :
    q.ackLoadCounterF = MSG_LENGTH.get q.rRespBufHeader0F ↔
      q.ackLoadCounterF.toNat = payload q.rRespBufHeader0F :=
  BitVec.toNat_inj.symm

/-- The next flit of the response to a load. -/
theorem SentInv.load (h : SentInv s loadsOut storesOut)
    (hgo : s.regs.ackLoadGo i = true) :
    progress payload (s.sent ++ [s.regs.ackLoad]) =
      if s.regs.ackLoadCounterF = 0#8 then
        ⟨(progress payload s.sent).done ++
          [response s.regs.rRespBufHeader0F s.regs.rRespBufData0F], []⟩
      else ⟨(progress payload s.sent).done,
        (response s.regs.rRespBufHeader0F s.regs.rRespBufData0F).take
          (payload s.regs.rRespBufHeader0F -
            s.regs.ackLoadCounterF.toNat + 1)⟩ := by
  obtain ⟨hle, hrest⟩ := h.going (ackLoadGo_spec hgo)
  have hlen : (List.replicate (payload s.regs.rRespBufHeader0F)
      s.regs.rRespBufData0F).length = payload s.regs.rRespBufHeader0F :=
    List.length_replicate
  have hx : (response s.regs.rRespBufHeader0F s.regs.rRespBufData0F)[
      payload s.regs.rRespBufHeader0F - s.regs.ackLoadCounterF.toNat]? =
        some s.regs.ackLoad := by
    unfold Regs.ackLoad response
    by_cases hc : s.regs.ackLoadCounterF.toNat =
        payload s.regs.rRespBufHeader0F
    · rw [if_pos ((counter_eq_iff _).mpr hc), hc, Nat.sub_self]
      rfl
    · rw [if_neg (mt (counter_eq_iff _).mp hc), List.getElem?_cons,
        if_neg (by omega), List.getElem?_replicate, if_pos (by omega)]
  have hfeed := feed_packet hlen hx (progress payload s.sent).done
  rw [progress_snoc]
  have hprog : progress payload s.sent = ⟨(progress payload s.sent).done,
      (response s.regs.rRespBufHeader0F s.regs.rRespBufData0F).take
        (payload s.regs.rRespBufHeader0F -
          s.regs.ackLoadCounterF.toNat)⟩ := by
    rw [← hrest]
  rw [hprog]
  refine hfeed.trans ?_
  by_cases hz : s.regs.ackLoadCounterF = 0#8
  · rw [if_pos hz, if_pos (by rw [hz]; rfl)]
    rfl
  · have hne : s.regs.ackLoadCounterF.toNat ≠ 0 :=
      fun hzero => hz (BitVec.eq_of_toNat_eq hzero)
    rw [if_neg hz, if_neg (by omega)]
    rfl

/-- No response to a load has begun when one to a store goes out. -/
theorem SentInv.rest_store (h : SentInv s loadsOut storesOut)
    (hgo : s.regs.ackStoreGo i = true) :
    (progress payload s.sent).rest = [] := by
  by_cases hs : s.regs.rRespBufStatusF = .respsend
  · obtain ⟨-, hrest⟩ := h.going hs
    have hcounter : s.regs.ackLoadCounterF =
        MSG_LENGTH.get s.regs.rRespBufHeader0F := by
      unfold Regs.ackStoreGo Regs.ackMuxSel Regs.rRespBufVal at hgo
      by_contra hne
      simp [hs, hne] at hgo
    rw [hrest, (counter_eq_iff _).mp hcounter, Nat.sub_self, List.take_zero]
  · exact h.idle hs

theorem counter_step (p : Params) (s : Traffic) (i : In) :
    (s.step p i).regs.ackLoadCounterF =
      if s.regs.rRespBufStatusF = .waitresp then
        MSG_LENGTH.get s.regs.rRespBufHeader0F
      else if s.regs.ackLoadGo i && s.regs.ackLoadCounterF ≠ 0#8 then
        s.regs.ackLoadCounterF - 1#8
      else s.regs.ackLoadCounterF := rfl

/-- A cycle in which a flit of the response to a load goes out. -/
theorem SentInv.step_load (h : SentInv s loadsOut storesOut)
    (hload : s.regs.ackLoadGo i = true) :
    SentInv (s.step p i)
      (loadsOut ++ if loadDone s.regs i then
        [response s.regs.rRespBufHeader0F s.regs.rRespBufData0F] else [])
      storesOut := by
  have hsent := sent_step p s i
  have hcounter := counter_step p s i
  have hst := ackLoadGo_spec hload
  have hprog := h.load hload
  rw [hload, if_pos rfl] at hsent
  rw [← hsent] at hprog
  by_cases hz : s.regs.ackLoadCounterF = 0#8
  · have hdone : loadDone s.regs i = true := by simp [loadDone, hload, hz]
    rw [if_pos hz] at hprog
    have hs' : (s.step p i).regs.rRespBufStatusF = .incomp := by
      cases read_event p s.regs i with
      | done _ _ _ _ hstatus => exact hstatus
      | idle _ _ hno => simp [hdone] at hno
      | read _ _ hno => simp [hdone] at hno
      | data _ _ _ hno => simp [hdone] at hno
    rw [hdone, if_pos rfl]
    refine ⟨?_, fun _ => by rw [hprog], fun hs => ?_⟩
    · rw [hprog]
      apply h.merged.snoc _ (i := Ack.load) rfl
      intro k hk
      cases k with
      | load => exact absurd rfl hk
      | store => rfl
    · rw [hs'] at hs
      exact absurd hs (by decide)
  · have hdone : loadDone s.regs i = false := by simp [loadDone, hz]
    rw [if_neg hz] at hprog
    obtain ⟨hle, -⟩ := h.going hst
    rw [hdone, if_neg Bool.false_ne_true, List.append_nil]
    cases read_event p s.regs i with
    | idle _ _ _ hstatus hh hd =>
      have hs' : (s.step p i).regs.rRespBufStatusF =
          s.regs.rRespBufStatusF := hstatus
      have hh' : (s.step p i).regs.rRespBufHeader0F =
          s.regs.rRespBufHeader0F := hh
      have hd' : (s.step p i).regs.rRespBufData0F =
          s.regs.rRespBufData0F := hd
      have hpos : s.regs.ackLoadCounterF.toNat ≠ 0 :=
        fun hzero => hz (BitVec.eq_of_toNat_eq hzero)
      have hc : (s.step p i).regs.ackLoadCounterF.toNat =
          s.regs.ackLoadCounterF.toNat - 1 := by
        rw [hcounter, hst, if_neg (by decide), hload]
        simp only [ne_eq, hz, not_false_eq_true, decide_true, Bool.and_true,
          if_true]
        rw [BitVec.toNat_sub]
        have hlt := s.regs.ackLoadCounterF.isLt
        show (2 ^ 8 - 1 + _) % 2 ^ 8 = _
        omega
      refine ⟨by rw [hprog]; exact h.merged, fun hne => ?_, fun _ => ?_⟩
      · rw [hs'] at hne
        exact absurd hst hne
      · rw [hprog, hh', hd', hc]
        refine ⟨by omega, ?_⟩
        show List.take _ _ = _
        congr 1
        omega
    | read _ _ _ hold => simp [hst] at hold
    | data _ _ _ _ hold => simp [hst] at hold
    | done _ _ hyes => simp [hdone] at hyes

/-- A cycle in which none does. -/
theorem SentInv.step_other (h : SentInv s loadsOut storesOut)
    (hload : s.regs.ackLoadGo i = false)
    (hhead : s.regs.ackStoreGo i = true →
      payload s.regs.wRespBufHeader0F = 0) :
    SentInv (s.step p i) loadsOut
      (storesOut ++ if s.regs.ackStoreGo i then
        [[s.regs.wRespBufHeader0F]] else []) := by
  have hsent := sent_step p s i
  have hcounter := counter_step p s i
  rw [hload, if_neg Bool.false_ne_true] at hsent
  rw [hload, Bool.false_and, if_neg Bool.false_ne_true] at hcounter
  have hprog : (progress payload (s.step p i).sent).rest =
        (progress payload s.sent).rest ∧
      Merges (byAck loadsOut (storesOut ++ if s.regs.ackStoreGo i then
        [[s.regs.wRespBufHeader0F]] else []))
          (progress payload (s.step p i).sent).done := by
    rw [hsent]
    cases hstore : s.regs.ackStoreGo i with
    | false =>
      simpa using h.merged
    | true =>
      have hrest := h.rest_store hstore
      rw [if_pos rfl, if_pos rfl, progress_snoc, feed_header hrest,
        if_pos (hhead hstore)]
      refine ⟨hrest.symm, h.merged.snoc _ (i := Ack.store) rfl ?_⟩
      intro k hk
      cases k with
      | load => rfl
      | store => exact absurd rfl hk
  obtain ⟨hrest, hmerged⟩ := hprog
  cases read_event p s.regs i with
  | idle _ _ _ hstatus hh hd =>
    have hs' : (s.step p i).regs.rRespBufStatusF =
        s.regs.rRespBufStatusF := hstatus
    have hh' : (s.step p i).regs.rRespBufHeader0F =
        s.regs.rRespBufHeader0F := hh
    have hd' : (s.step p i).regs.rRespBufData0F =
        s.regs.rRespBufData0F := hd
    refine ⟨hmerged, fun hne => ?_, fun hs => ?_⟩
    · rw [hrest]
      exact h.idle (hs' ▸ hne)
    · rw [hs'] at hs
      rw [hs, if_neg (by decide)] at hcounter
      rw [hrest, hh', hd', hcounter]
      exact h.going hs
  | read _ _ _ hold hstatus =>
    have hs' : (s.step p i).regs.rRespBufStatusF = .waitresp := hstatus
    refine ⟨hmerged, fun _ => ?_, fun hs => ?_⟩
    · rw [hrest]
      exact h.idle (by simp [hold])
    · rw [hs'] at hs
      exact absurd hs (by decide)
  | data _ _ _ _ hold hstatus hh =>
    have hs' : (s.step p i).regs.rRespBufStatusF = .respsend := hstatus
    have hh' : (s.step p i).regs.rRespBufHeader0F =
        s.regs.rRespBufHeader0F := hh
    rw [hold, if_pos rfl] at hcounter
    refine ⟨hmerged, fun hne => absurd hs' hne, fun _ => ?_⟩
    rw [hrest, h.idle (by simp [hold]), hh', hcounter]
    refine ⟨Nat.le_refl _, ?_⟩
    show _ = List.take (payload _ - payload _) _
    rw [Nat.sub_self, List.take_zero]
  | done _ _ hyes => simp [loadDone, hload] at hyes

/-- One cycle of what goes out. -/
theorem SentInv.step (h : SentInv s loadsOut storesOut)
    (hhead : s.regs.ackStoreGo i = true →
      payload s.regs.wRespBufHeader0F = 0) :
    SentInv (s.step p i)
      (loadsOut ++ if loadDone s.regs i then
        [response s.regs.rRespBufHeader0F s.regs.rRespBufData0F] else [])
      (storesOut ++ if s.regs.ackStoreGo i then
        [[s.regs.wRespBufHeader0F]] else []) := by
  cases hload : s.regs.ackLoadGo i with
  | true =>
    have hstore : s.regs.ackStoreGo i = false := by
      simp only [Regs.ackLoadGo, Bool.and_eq_true, decide_eq_true_iff]
        at hload
      simp [Regs.ackStoreGo, hload.1.1]
    rw [hstore, if_neg Bool.false_ne_true, List.append_nil]
    exact h.step_load hload
  | false =>
    have hdone : loadDone s.regs i = false := by simp [loadDone, hload]
    rw [hdone, if_neg Bool.false_ne_true, List.append_nil]
    exact h.step_other hload hhead

/-! ## Every run -/

structure Inv (p : Params) (s : Traffic) : Prop where
  parsing : Regs.Parsing s.regs (progress payload s.received).rest
  lists : ∃ v w, ReadInv p s v ∧ WriteInv p s w ∧ SentInv s v.out w.out

theorem Inv.step (h : Inv p s) (hoffers : s.Offers i)
    (hkeeps : s.Keeps p i) : Inv p (s.step p i) := by
  obtain ⟨v, w, hv, hw, hsent⟩ := h.lists
  have hprog : progress payload (s.step p i).received =
      (s.regs.taken i).elim (progress payload s.received)
        ((progress payload s.received).feed payload) := by
    show progress payload (s.received ++ _) = _
    cases s.regs.taken i with
    | none => rw [Option.toList_none, List.append_nil, Option.elim_none]
    | some x => exact progress_snoc _ _
  obtain ⟨hparsing, new, hdone, hload, hstore⟩ :=
    h.parsing.step (p := p) hoffers hprog
  have hloads : (s.step p i).loads = s.loads ++ new.filter isLoad := by
    unfold loads requests
    rw [hdone, List.filter_append]
  have hstores : (s.step p i).stores = s.stores ++ new.filter isStore := by
    unfold stores requests
    rw [hdone, List.filter_append]
  obtain ⟨v', hv', hvout⟩ := hv.step hload hloads hkeeps
  obtain ⟨w', hw', hwout⟩ := hw.step hstore hstores
  refine ⟨hparsing, v', w', hv', hw', ?_⟩
  rw [hvout, hwout]
  refine hsent.step fun hgo => hw.header fun hincomp => ?_
  have hval : s.regs.wRespBufVal = true := by
    simp only [Regs.ackStoreGo, Bool.and_eq_true] at hgo
    exact hgo.1.2
  have hspec := (wRespBufStatus_spec hw.addrResp hw.dataResp hw.respsend).2
  rw [(hspec.mp (of_decide_eq_true hval)).1] at hincomp
  exact absurd hincomp (by decide)

theorem Inv.reset (p : Params) : Inv p Traffic.reset where
  parsing := .start rfl
  lists :=
    ⟨⟨[], [], [], []⟩, ⟨[], [], [], [], [], []⟩,
      ⟨.inl rfl, rfl, rfl, by decide, rfl, fun h => absurd h (by decide), rfl,
        rfl⟩,
      ⟨.inl rfl, .inl rfl, rfl, rfl, rfl, rfl, by decide, by decide, by decide,
        rfl, rfl, rfl, fun h => absurd h (by decide),
        fun h => absurd rfl h, rfl⟩,
      ⟨⟨[], rfl, fun k => by cases k <;> rfl⟩, fun _ => rfl,
        fun h => absurd h (by decide)⟩⟩

/-! ## What the invariant says of the interfaces -/

theorem length_ite_le {α : Type} (c : Prop) [Decidable c] (x : α) :
    (if c then [x] else []).length ≤ 1 := by
  split_ifs <;> simp

/-- Data of fewer reads than there are loads. -/
theorem zipWith_answered {f : List Flit → BitVec 64 → List Flit}
    {answered more : List (List Flit)} {data : List (BitVec 64)}
    (hlen : answered.length = data.length) :
    List.zipWith f (answered ++ more) data = List.zipWith f answered data := by
  have h : List.zipWith f (answered ++ more) (data ++ []) =
      List.zipWith f answered data ++ List.zipWith f more [] :=
    List.zipWith_append hlen
  simpa using h

theorem Inv.exact (h : Inv p s) : Exact p s := by
  obtain ⟨v, w, hv, hw, hsent⟩ := h.lists
  have hvlen := hv.answered
  have hwlen := hw.answered
  have hloads := hv.loads
  rw [hv.taken, List.append_assoc] at hloads
  have hstores := hw.addrStores
  rw [hw.addrTaken, List.append_assoc] at hstores
  refine ⟨?_, ?_, ?_, ⟨?_, ?_, ?_⟩, v.out, w.out,
    if s.regs.rRespBufStatusF = .respsend then
      [response s.regs.rRespBufHeader0F s.regs.rRespBufData0F] else [],
    ?_, ?_, ?_, hsent.merged, ?_⟩
  · rw [hv.reads, hv.loads, List.map_append]
    exact ⟨_, rfl, by rw [List.length_map]; exact length_ite_le _ _⟩
  · rw [hw.writes, hw.addrStores, List.map_append]
    exact ⟨_, rfl, by rw [List.length_map]; exact length_ite_le _ _⟩
  · rw [hw.wdata, hw.dataStores, List.map_append]
    exact ⟨_, rfl, by rw [List.length_map]; exact length_ite_le _ _⟩
  · rw [hv.reads, hv.taken, List.length_map, List.length_append]
    omega
  · rw [hw.writes, hw.addrTaken, List.length_map, List.length_append]
    omega
  · rw [hw.wdata, hw.dataTaken, List.length_map, List.length_append]
    omega
  · rw [hloads, zipWith_answered hvlen]
    exact hv.out
  · exact length_ite_le _ _
  · rw [hstores, ← hwlen, List.take_left, hw.out]
    exact ⟨_, rfl, length_ite_le _ _⟩
  · by_cases hs : s.regs.rRespBufStatusF = .respsend
    · refine .inr ⟨_, by rw [if_pos hs]; exact List.mem_singleton_self _, ?_⟩
      rw [(hsent.going hs).2]
      exact List.take_prefix _ _
    · exact .inl (hsent.idle hs)

/-- Every request makes one access and one response, in every state of every
run in which the request buffer still has the access of a load when its data
come. -/
theorem exact_of_keeps (p : Params) (is : List In)
    (h : Sync.Along (Traffic.step p) (fun s i => s.Offers i ∧ s.Keeps p i)
      Traffic.reset is) :
    Sync.Always (Traffic.step p) (Exact p) Traffic.reset is := by
  have hinv := h.always (P := Inv p)
    (fun _ _ hi hs => hs.step hi.1 hi.2) (Inv.reset p)
  exact hinv.mono fun _ hs => hs.exact

/-- A load of a byte, with `header1`, whose data come after the second header
flit of the next load, with `header1'`. -/
def overtaken (header1 header1' : Flit) : List In :=
  let idle : In := ⟨none, true, true, true, true, none, false⟩
  [{ idle with data := some 0x838040#64 }, { idle with data := some header1 },
    { idle with data := some 0#64 }, idle,
    { idle with data := some 0x838080#64 },
    { idle with data := some header1' },
    { idle with rdata := some 0x1122334455667788#64 }, idle, idle]

/-- Two loads of a byte. -/
theorem exact_of_keeps_bytes :
    Sync.Always (Traffic.step ⟨0, false, false, 0#8⟩)
      (Exact ⟨0, false, false, 0#8⟩) Traffic.reset
      (overtaken 0x100#64 0x100#64) :=
  exact_of_keeps _ _ (by decide +kernel)

/-- The load of a byte gets eight bytes, as the load behind it asks for. -/
theorem exact_overwritten :
    Sync.Along (Traffic.step ⟨0, false, false, 0#8⟩) Offers Traffic.reset
        (overtaken 0x100#64 0x400#64) ∧
      ¬ Exact ⟨0, false, false, 0#8⟩
        (Sync.run (Traffic.step ⟨0, false, false, 0#8⟩) Traffic.reset
          (overtaken 0x100#64 0x400#64)) := by
  refine ⟨by decide +kernel, fun hexact => ?_⟩
  obtain ⟨loadsOut, storesOut, late, hloads, -, ⟨late', hstores, -⟩, hmerged,
    -⟩ := hexact.responses
  obtain ⟨k, hk⟩ := hmerged.exists_mem
    (b := [0x468040#64, 0x1122334455667788#64]) (by decide +kernel)
  cases k with
  | load =>
    have hmem := List.mem_append_left late hk
    rw [byAck, ← hloads] at hmem
    exact absurd hmem (by decide +kernel)
  | store =>
    have hmem := List.mem_append_left late' hk
    rw [byAck, ← hstores] at hmem
    exact absurd hmem (by decide +kernel)

end Traffic

end ArianeSoc.Chipset.AxiliteBridge
