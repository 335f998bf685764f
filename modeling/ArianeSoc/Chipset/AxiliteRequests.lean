import ArianeSoc.Chipset.AxiliteBridge
import ArianeSoc.Framing
import ArianeSoc.Sync

/-!
# What goes through the AXI-Lite bridge

`Traffic` is the bridge with what has gone over each of its interfaces.
`Exact` relates the requests that have come in to the accesses and the
responses: every request makes one access and one response, in order.

The requests are well formed (`Offers`); when the other sides are ready and
when AXI answers is up to them.

`Parsing` says what the parser and the request buffers have of a packet
that is coming in.  `Fills` is what a cycle does to them: the buffers of a
request that is waiting stay as they are, and one that was free may get a
whole request.
-/

namespace ArianeSoc.Chipset.AxiliteBridge

open Framing
open Noc (Flit)

/-- The bridge and what has gone over its interfaces. -/
structure Traffic where
  regs : Regs
  received : List Flit
  /-- The address and the size of every read, and the data of those that are
  answered. -/
  reads : List (BitVec 64 × BitVec 3)
  rdata : List (BitVec 64)
  /-- The second header flit of the last load that has been read. -/
  lastRead : Flit
  /-- The address and the size of every write, its data and strobe, and how
  many writes are answered. -/
  writes : List (BitVec 64 × BitVec 3)
  wdata : List (BitVec 64 × BitVec 8)
  answered : ℕ
  sent : List Flit

namespace Traffic

def reset : Traffic where
  regs := Regs.reset
  received := []
  reads := []
  rdata := []
  lastRead := 0#64
  writes := []
  wdata := []
  answered := 0
  sent := []

variable (p : Params) (s : Traffic) (i : In)

def step : Traffic where
  regs := s.regs.next p i
  received := s.received ++ (s.regs.taken i).toList
  reads := s.reads ++
    if s.regs.arGo i then
      [(axiAddr s.regs.rReqBufHeader1F,
        rReqbufSize p s.regs.rReqBufHeader1F)]
    else []
  rdata := s.rdata ++ (s.regs.rTaken i).toList
  lastRead := if s.regs.arGo i then s.regs.rReqBufHeader1F else s.lastRead
  writes := s.writes ++
    if s.regs.awGo i then
      [(axiAddr s.regs.wReqBufHeader1F, reqbufSize s.regs.wReqBufHeader1F)]
    else []
  wdata := s.wdata ++
    if s.regs.wGo i then
      [(AxiliteBridge.wdata p s.regs.wReqBufData0F,
        wStrb s.regs.wReqBufHeader1F)]
    else []
  answered := s.answered + (s.regs.bGo i).toNat
  sent := s.sent ++ if i.splitterRdy then s.regs.flitOut.toList else []

/-! ## Requests -/

/-- A header of a request, with as many flits behind it as it should have:
two, and for a store one more. -/
def WellFormed (x : Flit) : Prop :=
  MSG_TYPE.get x = MSG_TYPE_NC_LOAD_REQ ∧ MSG_LENGTH.get x = 2#8 ∨
    MSG_TYPE.get x = MSG_TYPE_NC_STORE_REQ ∧ MSG_LENGTH.get x = 3#8

instance (x : Flit) : Decidable (WellFormed x) :=
  inferInstanceAs (Decidable (_ ∨ _))

/-- A packet that starts is a request. -/
def Offers : Prop :=
  ∀ x, i.data = some x → (progress payload s.received).rest = [] →
    WellFormed x

instance : Decidable (s.Offers i) :=
  match h : i.data with
  | none => isTrue fun _ hx => by rw [h] at hx; cases hx
  | some x =>
    decidable_of_iff
      ((progress payload s.received).rest = [] → WellFormed x)
      ⟨fun hw y hy => by rw [h] at hy; cases hy; exact hw, fun hw => hw x h⟩

/-- The requests that have come in as a whole. -/
def requests : List (List Flit) := (progress payload s.received).done

def isLoad (pk : List Flit) : Bool :=
  pk.head?.any fun h => MSG_TYPE.get h = MSG_TYPE_NC_LOAD_REQ

def isStore (pk : List Flit) : Bool :=
  pk.head?.any fun h => MSG_TYPE.get h = MSG_TYPE_NC_STORE_REQ

def loads : List (List Flit) := s.requests.filter isLoad

def stores : List (List Flit) := s.requests.filter isStore

/-! ## What a request is to cause -/

/-- The address and the size of a load. -/
def readOf : List Flit → BitVec 64 × BitVec 3
  | _ :: header1 :: _ => (axiAddr header1, rReqbufSize p header1)
  | _ => (0#64, 0#3)

/-- The address and the size of a store. -/
def writeOf : List Flit → BitVec 64 × BitVec 3
  | _ :: header1 :: _ => (axiAddr header1, reqbufSize header1)
  | _ => (0#64, 0#3)

/-- The data and the strobe of a store. -/
def wdataOf : List Flit → BitVec 64 × BitVec 8
  | _ :: header1 :: _ :: data0 :: _ =>
    (AxiliteBridge.wdata p data0, wStrb header1)
  | _ => (0#64, 0#8)

/-- A header and as many flits of data as it says. -/
def response (header : Flit) (data : BitVec 64) : List Flit :=
  header :: List.replicate (payload header) data

/-- The response to a load, from the data of its read. -/
def loadResponse : List Flit → BitVec 64 → List Flit
  | header0 :: header1 :: header2 :: _, rdata =>
    response (rRespHeader0Next p header0 header1 header2)
      (rdataMasked p header1 rdata)
  | _, _ => []

/-- The response to a store. -/
def storeResponse : List Flit → List Flit
  | header0 :: _ :: header2 :: _ => [wRespHeader0Next p header0 header2]
  | _ => []

/-- The first list and at most one more element. -/
def AllButOne {α : Type} (xs ys : List α) : Prop :=
  ∃ late, ys = xs ++ late ∧ late.length ≤ 1

/-- The responses by what they answer. -/
def byAck (loadsOut storesOut : List (List Flit)) : Ack → List (List Flit)
  | .load => loadsOut
  | .store => storesOut

/-- Every request makes one access and one response. -/
structure Exact : Prop where
  reads : AllButOne s.reads (s.loads.map (readOf p))
  writes : AllButOne s.writes (s.stores.map writeOf)
  wdata : AllButOne s.wdata (s.stores.map (wdataOf p))
  /-- Only what has been asked for is answered. -/
  answers : s.rdata.length ≤ s.reads.length ∧
    s.answered ≤ s.writes.length ∧ s.answered ≤ s.wdata.length
  /-- What goes out are the responses to the loads that are answered, with
  the data of their own reads, and those to the stores that are answered;
  and if a part of a packet has gone out, it is one of these. -/
  responses : ∃ loadsOut storesOut late : List (List Flit),
    List.zipWith (loadResponse p) s.loads s.rdata = loadsOut ++ late ∧
    late.length ≤ 1 ∧
    AllButOne storesOut ((s.stores.take s.answered).map (storeResponse p)) ∧
    Merges (byAck loadsOut storesOut)
      (progress payload s.sent).done ∧
    ((progress payload s.sent).rest = [] ∨
      ∃ pk ∈ late, (progress payload s.sent).rest <+: pk)

/-! ## The accesses of two loads -/

/-- The two have the same bytes in a word of read data, as far as the
parameters tell. -/
def SameAccess (header1 header1' : Flit) : Prop :=
  0 < p.slaveRespBytewidth ∨
    MSG_DATA_SIZE_.get header1 = MSG_DATA_SIZE_.get header1' ∧
      (p.alignRdata = true → (axiAddr header1).extractLsb' 0 3 =
        (axiAddr header1').extractLsb' 0 3)

instance (header1 header1' : Flit) :
    Decidable (SameAccess p header1 header1') :=
  inferInstanceAs (Decidable (_ ∨ _))

/-- When read data comes, the request buffer still has the access of the
load that it is for. -/
def Keeps : Prop :=
  (s.regs.rTaken i).isSome = true →
    SameAccess p s.regs.rReqBufHeader1F s.lastRead

instance : Decidable (s.Keeps p i) :=
  inferInstanceAs (Decidable (_ → _))

theorem rdataMasked_congr {header1 header1' : Flit}
    (h : SameAccess p header1 header1') (rdata : BitVec 64) :
    rdataMasked p header1 rdata = rdataMasked p header1' rdata := by
  have htmp : rdataMaskedTmp p header1 rdata =
      rdataMaskedTmp p header1' rdata := by
    unfold rdataMaskedTmp rdataShifted
    rcases h with hwidth | ⟨hsize, haddr⟩
    · have hvar : ¬ p.slaveRespBytewidth ≤ 0 := by omega
      simp only [hvar, if_false]
    · rw [hsize]
      cases ha : p.alignRdata with
      | false => rfl
      | true => rw [haddr ha]
  unfold rdataMasked
  rw [htmp]

end Traffic

end ArianeSoc.Chipset.AxiliteBridge

namespace ArianeSoc.Chipset.AxiliteBridge

open Framing
open Noc (Flit)

namespace Regs

variable {p : Params} {q : Regs} {i : In} {rest : List Flit}

/-- The request in the buffer for loads. -/
def loadPacket (q : Regs) : List Flit :=
  [q.rReqBufHeader0F, q.rReqBufHeader1F, q.rReqBufHeader2F]

/-- The request in the buffer for stores. -/
def storePacket (q : Regs) : List Flit :=
  [q.wReqBufHeader0F, q.wReqBufHeader1F, q.wReqBufHeader2F, q.wReqBufData0F]

/-- What the parser and the buffers have of the packet that comes in. -/
inductive Parsing (q : Regs) : List Flit → Prop where
  | start (hstate : q.msgStateNext = .header0) : Parsing q []
  | load1 {h0 : Flit} (htype : q.msgTypeF = .load)
      (hfree : q.rReqBufStatusF = .incomp) (hstate : q.msgStateF = .header0)
      (hcounter : q.msgCounterF = 2#8)
      (hh0 : MSG_TYPE.get h0 = MSG_TYPE_NC_LOAD_REQ ∧
        MSG_LENGTH.get h0 = 2#8)
      (hbuf : q.rReqBufHeader0F = h0) : Parsing q [h0]
  | load2 {h0 h1 : Flit} (htype : q.msgTypeF = .load)
      (hfree : q.rReqBufStatusF = .incomp) (hstate : q.msgStateF = .header1)
      (hcounter : q.msgCounterF = 1#8)
      (hh0 : MSG_TYPE.get h0 = MSG_TYPE_NC_LOAD_REQ ∧
        MSG_LENGTH.get h0 = 2#8)
      (hbuf : q.rReqBufHeader0F = h0 ∧ q.rReqBufHeader1F = h1) :
      Parsing q [h0, h1]
  | store1 {h0 : Flit} (htype : q.msgTypeF = .store)
      (hfree : q.wReqBufStatus = .incomp) (hstate : q.msgStateF = .header0)
      (hcounter : q.msgCounterF = 3#8)
      (hh0 : MSG_TYPE.get h0 = MSG_TYPE_NC_STORE_REQ ∧
        MSG_LENGTH.get h0 = 3#8)
      (hbuf : q.wReqBufHeader0F = h0) : Parsing q [h0]
  | store2 {h0 h1 : Flit} (htype : q.msgTypeF = .store)
      (hfree : q.wReqBufStatus = .incomp) (hstate : q.msgStateF = .header1)
      (hcounter : q.msgCounterF = 2#8)
      (hh0 : MSG_TYPE.get h0 = MSG_TYPE_NC_STORE_REQ ∧
        MSG_LENGTH.get h0 = 3#8)
      (hbuf : q.wReqBufHeader0F = h0 ∧ q.wReqBufHeader1F = h1) :
      Parsing q [h0, h1]
  | store3 {h0 h1 h2 : Flit} (htype : q.msgTypeF = .store)
      (hfree : q.wReqBufStatus = .incomp) (hstate : q.msgStateF = .header2)
      (hcounter : q.msgCounterF = 1#8)
      (hh0 : MSG_TYPE.get h0 = MSG_TYPE_NC_STORE_REQ ∧
        MSG_LENGTH.get h0 = 3#8)
      (hbuf : q.wReqBufHeader0F = h0 ∧ q.wReqBufHeader1F = h1 ∧
        q.wReqBufHeader2F = h2) : Parsing q [h0, h1, h2]

/-- What a cycle does to the buffer for loads; `new` is the request that has
come in. -/
structure LoadFills (q q' : Regs) (i : In) (new : List (List Flit)) :
    Prop where
  keeps : new = [] →
    q'.rReqBufStatusF = (if q.arGo i then .incomp else q.rReqBufStatusF) ∧
      (q.rReqBufStatusF = .comp → q'.loadPacket = q.loadPacket)
  fills : new ≠ [] → new = [q'.loadPacket] ∧ q.rReqBufStatusF = .incomp ∧
    q'.rReqBufStatusF = .comp

/-- What a cycle does to the buffer for stores. -/
structure StoreFills (q q' : Regs) (i : In) (new : List (List Flit)) :
    Prop where
  keeps : new = [] →
    q'.wAddrReqBufStatusF =
        (if q.awGo i then .incomp else q.wAddrReqBufStatusF) ∧
      q'.wDataReqBufStatusF =
        (if q.wGo i then .incomp else q.wDataReqBufStatusF) ∧
      (q.wReqBufStatus = .comp → q'.storePacket = q.storePacket)
  fills : new ≠ [] → new = [q'.storePacket] ∧ q.wReqBufStatus = .incomp ∧
    q'.wAddrReqBufStatusF = .comp ∧ q'.wDataReqBufStatusF = .comp

/-- What a cycle does to the requests. -/
structure Fills (q q' : Regs) (i : In) (prog prog' : Progress Flit) :
    Prop where
  parsing : Parsing q' prog'.rest
  new : ∃ new, prog'.done = prog.done ++ new ∧
    LoadFills q q' i (new.filter Traffic.isLoad) ∧
    StoreFills q q' i (new.filter Traffic.isStore)

theorem wReqBufStatus_eq_incomp :
    q.wReqBufStatus = .incomp ↔
      q.wAddrReqBufStatusF = .incomp ∧ q.wDataReqBufStatusF = .incomp := by
  unfold wReqBufStatus
  split_ifs with h
  · exact iff_of_true rfl h
  · exact iff_of_false (by decide) h

theorem arGo_of_incomp (h : q.rReqBufStatusF = .incomp) :
    q.arGo i = false := by
  simp [arGo, arvalid, h]

theorem awGo_of_incomp (h : q.wReqBufStatus = .incomp) :
    q.awGo i = false := by
  simp [awGo, awvalid, h]

theorem wGo_of_incomp (h : q.wReqBufStatus = .incomp) : q.wGo i = false := by
  simp [wGo, wvalid, h]

/-- A cycle that fills no buffer. -/
theorem loadFills_nil (h : (q.loadGo i && q.msgStateNext = .header2) = false) :
    LoadFills q (q.next p i) i [] where
  keeps _ := by
    refine ⟨by simp only [next, h, Bool.false_eq_true, if_false],
      fun hcomp => ?_⟩
    have hno : q.loadGo i = false := by
      simp [loadGo, hcomp]
    simp [loadPacket, next, hno]
  fills hne := absurd rfl hne

theorem storeFills_nil (h : q.wStatusUpdate i = false) :
    StoreFills q (q.next p i) i [] where
  keeps _ := by
    refine ⟨by simp only [next, h, Bool.false_eq_true, if_false],
      by simp only [next, h, Bool.false_eq_true, if_false], fun hcomp => ?_⟩
    have hno : q.storeGo i = false := by
      simp [storeGo, hcomp]
    simp [storePacket, next, hno]
  fills hne := absurd rfl hne

/-- The state of the parser after a cycle in which no flit comes in. -/
theorem Parsing.idle (h : Parsing q rest) (htaken : q.taken i = none) :
    Parsing (q.next p i) rest ∧ q.loadGo i = false ∧ q.storeGo i = false := by
  have hload : q.loadGo i = false := by simp [loadGo, htaken]
  have hstore : q.storeGo i = false := by simp [storeGo, htaken]
  have hupdate : q.wStatusUpdate i = false := by simp [wStatusUpdate, hstore]
  refine ⟨?_, hload, hstore⟩
  have hread : q.rReqBufStatusF = .incomp →
      (q.next p i).rReqBufStatusF = .incomp := by
    intro hr
    simp [next, hload, arGo_of_incomp hr, hr]
  have hwrite : q.wReqBufStatus = .incomp →
      (q.next p i).wReqBufStatus = .incomp := by
    intro hw
    obtain ⟨ha, hd⟩ := wReqBufStatus_eq_incomp.mp hw
    rw [wReqBufStatus_eq_incomp]
    simp [next, hupdate, awGo_of_incomp hw, wGo_of_incomp hw, ha, hd]
  cases h with
  | start hstate =>
    refine .start ?_
    simpa [msgStateNext, next, htaken] using hstate
  | load1 htype hfree hstate hcounter hh0 hbuf =>
    refine .load1 ?_ (hread hfree) ?_ ?_ hh0 ?_ <;>
      simp [next, htaken, hload, htype, hstate, hcounter, hbuf]
  | load2 htype hfree hstate hcounter hh0 hbuf =>
    refine .load2 ?_ (hread hfree) ?_ ?_ hh0 ?_ <;>
      simp [next, htaken, hload, htype, hstate, hcounter, hbuf]
  | store1 htype hfree hstate hcounter hh0 hbuf =>
    refine .store1 ?_ (hwrite hfree) ?_ ?_ hh0 ?_ <;>
      simp [next, htaken, hstore, htype, hstate, hcounter, hbuf]
  | store2 htype hfree hstate hcounter hh0 hbuf =>
    refine .store2 ?_ (hwrite hfree) ?_ ?_ hh0 ?_ <;>
      simp [next, htaken, hstore, htype, hstate, hcounter, hbuf]
  | store3 htype hfree hstate hcounter hh0 hbuf =>
    refine .store3 ?_ (hwrite hfree) ?_ ?_ hh0 ?_ <;>
      simp [next, htaken, hstore, htype, hstate, hcounter, hbuf]

/-! ## A flit comes in -/

/-- A packet that is not complete yet. -/
theorem fills_nil {prog prog' : Progress Flit}
    (hdone : prog'.done = prog.done) (hparsing : Parsing (q.next p i) prog'.rest)
    (hload : LoadFills q (q.next p i) i [])
    (hstore : StoreFills q (q.next p i) i []) :
    Fills q (q.next p i) i prog prog' :=
  ⟨hparsing, [], by rw [hdone, List.append_nil], hload, hstore⟩

section Take

variable {x : Flit} (htaken : q.taken i = some x)

include htaken

theorem data_of_taken : i.data = some x := by
  unfold taken at htaken
  split_ifs at htaken
  exact htaken

theorem bridgeData_of_taken : bridgeData i = x := by
  rw [bridgeData, data_of_taken htaken, Option.getD_some]

/-- A flit of a load comes in if the buffer for loads is free. -/
theorem loadGo_of_taken (htype : q.msgTypeNext i = .load) :
    q.rReqBufStatusF = .incomp ∧ q.loadGo i = true ∧ q.storeGo i = false := by
  have hfree : q.rReqBufStatusF = .incomp := by
    unfold taken bridgeRdy at htaken
    split_ifs at htaken with hrdy
    simpa [htype] using hrdy
  exact ⟨hfree, by simp [loadGo, htype, htaken, hfree],
    by simp [storeGo, htype]⟩

theorem storeGo_of_taken (htype : q.msgTypeNext i = .store) :
    q.wReqBufStatus = .incomp ∧ q.storeGo i = true ∧ q.loadGo i = false := by
  have hfree : q.wReqBufStatus = .incomp := by
    unfold taken bridgeRdy at htaken
    split_ifs at htaken with hrdy
    simpa [htype] using hrdy
  exact ⟨hfree, by simp [storeGo, htype, htaken, hfree],
    by simp [loadGo, htype]⟩

/-- The parser after a flit of a load that is not the last one. -/
theorem next_load (htype : q.msgTypeNext i = .load)
    (hnot : q.msgStateNext ≠ .header2) :
    (q.next p i).msgStateF = q.msgStateNext ∧
      (q.next p i).msgTypeF = .load ∧
      (q.next p i).msgCounterF = q.msgCounterNext i ∧
      (q.next p i).rReqBufStatusF = .incomp ∧
      LoadFills q (q.next p i) i [] ∧ StoreFills q (q.next p i) i [] := by
  obtain ⟨hfree, hload, hstore⟩ := loadGo_of_taken htaken htype
  refine ⟨?_, ?_, ?_, ?_, loadFills_nil ?_, storeFills_nil ?_⟩ <;>
    simp [next, htaken, htype, hnot, arGo_of_incomp hfree, hfree,
      wStatusUpdate, hstore]

/-- The parser after a flit of a store that is not the last one. -/
theorem next_store (htype : q.msgTypeNext i = .store)
    (hnot : q.msgStateNext ≠ .data) :
    (q.next p i).msgStateF = q.msgStateNext ∧
      (q.next p i).msgTypeF = .store ∧
      (q.next p i).msgCounterF = q.msgCounterNext i ∧
      (q.next p i).wReqBufStatus = .incomp ∧
      LoadFills q (q.next p i) i [] ∧ StoreFills q (q.next p i) i [] := by
  obtain ⟨hfree, hstore, hload⟩ := storeGo_of_taken htaken htype
  obtain ⟨ha, hd⟩ := wReqBufStatus_eq_incomp.mp hfree
  rw [wReqBufStatus_eq_incomp]
  refine ⟨?_, ?_, ?_, ?_, loadFills_nil ?_, storeFills_nil ?_⟩ <;>
    simp [next, htaken, htype, hnot, awGo_of_incomp hfree,
      wGo_of_incomp hfree, ha, hd, wStatusUpdate, hload]

theorem Parsing.take_start (hstate : q.msgStateNext = .header0)
    (hwf : Traffic.WellFormed x) (pks : List (List Flit)) :
    Fills q (q.next p i) i ⟨pks, []⟩
      (Progress.feed payload ⟨pks, []⟩ x) := by
  have hdata := data_of_taken htaken
  have hbridge := bridgeData_of_taken htaken
  have hcounter : q.msgCounterNext i = MSG_LENGTH.get x := by
    rw [msgCounterNext, if_pos hstate, hbridge]
  have hnext : q.msgTypeNext i = msgTypeMuxOut i := by
    rw [msgTypeNext, hstate]
    rfl
  rcases hwf with ⟨hty, hlen⟩ | ⟨hty, hlen⟩
  · have htype : q.msgTypeNext i = .load := by
      rw [hnext, msgTypeMuxOut, hdata]
      simp [hty]
    obtain ⟨-, hload, -⟩ := loadGo_of_taken htaken htype
    obtain ⟨hs, ht, hc, hfree, hlf, hsf⟩ := next_load (p := p) htaken htype
      (by rw [hstate]; decide)
    have hfeed : Progress.feed payload ⟨pks, []⟩ x = ⟨pks, [x]⟩ := by
      rw [feed_header rfl, if_neg]
      rw [payload, hlen]
      decide
    rw [hfeed]
    refine fills_nil rfl (.load1 ht hfree ?_ ?_ ⟨hty, hlen⟩ ?_) hlf hsf
    · rw [hs, hstate]
    · rw [hc, hcounter, hlen]
    · simp [next, hload, hstate, hbridge]
  · have htype : q.msgTypeNext i = .store := by
      rw [hnext, msgTypeMuxOut, hdata]
      simp only [hty]
      decide
    obtain ⟨-, hstore, -⟩ := storeGo_of_taken htaken htype
    obtain ⟨hs, ht, hc, hfree, hlf, hsf⟩ := next_store (p := p) htaken htype
      (by rw [hstate]; decide)
    have hfeed : Progress.feed payload ⟨pks, []⟩ x = ⟨pks, [x]⟩ := by
      rw [feed_header rfl, if_neg]
      rw [payload, hlen]
      decide
    rw [hfeed]
    refine fills_nil rfl (.store1 ht hfree ?_ ?_ ⟨hty, hlen⟩ ?_) hlf
      hsf
    · rw [hs, hstate]
    · rw [hc, hcounter, hlen]
    · simp [next, hstore, hstate, hbridge]

omit htaken in
/-- After the last flit the next one is a header. -/
theorem msgStateNext_of_zero
    (hstate : q.msgStateF = .header2 ∨ q.msgStateF = .data)
    (hcounter : q.msgCounterF = 0#8) : q.msgStateNext = .header0 := by
  rcases hstate with hs | hs <;> simp [msgStateNext, hs, hcounter]

/-- A flit behind a header. -/
theorem Parsing.take_body {h0 : Flit} {ps : List Flit}
    (h : Parsing q (h0 :: ps)) (pks : List (List Flit)) :
    Fills q (q.next p i) i ⟨pks, h0 :: ps⟩
      (Progress.feed payload ⟨pks, h0 :: ps⟩ x) := by
  have hbridge := bridgeData_of_taken htaken
  rw [feed_cons rfl]
  cases h with
  | load1 htype hfree hstate hcounter hh0 hbuf =>
    have hnext : q.msgStateNext = .header1 := by
      simp [msgStateNext, hstate]
    have htn : q.msgTypeNext i = .load := by
      simp [msgTypeNext, hnext, htype]
    obtain ⟨-, hload, -⟩ := loadGo_of_taken htaken htn
    obtain ⟨hs, ht, hc, hfree', hlf, hsf⟩ := next_load (p := p) htaken htn
      (by rw [hnext]; decide)
    rw [if_neg (by simp [payload, hh0.2])]
    refine fills_nil rfl (.load2 ht hfree' ?_ ?_ hh0 ?_) hlf hsf
    · rw [hs, hnext]
    · rw [hc, msgCounterNext, hnext, hcounter, if_neg (by decide)]
      rfl
    · simp [next, hload, hnext, hbridge, hbuf]
  | @load2 _ h1 htype hfree hstate hcounter hh0 hbuf =>
    have hnext : q.msgStateNext = .header2 := by
      simp [msgStateNext, hstate]
    have htn : q.msgTypeNext i = .load := by
      simp [msgTypeNext, hnext, htype]
    obtain ⟨-, hload, hstore⟩ := loadGo_of_taken htaken htn
    have hpacket : (q.next p i).loadPacket = [h0, h1, x] := by
      simp [loadPacket, next, hload, hnext, hbridge, hbuf]
    rw [if_pos (by simp [payload, hh0.2])]
    refine ⟨.start ?_, [[h0, h1, x]], rfl, ?_, ?_⟩
    · apply msgStateNext_of_zero
      · exact .inl (by simp [next, htaken, hnext])
      · simp [next, htaken, msgCounterNext, hnext, hcounter]
    · have hloads : [[h0, h1, x]].filter Traffic.isLoad = [[h0, h1, x]] := by
        simp [Traffic.isLoad, hh0.1]
      rw [hloads]
      refine ⟨fun hnil => absurd hnil (by simp), fun _ => ?_⟩
      rw [hpacket]
      exact ⟨rfl, hfree, by simp [next, hload, hnext]⟩
    · have hstores : [[h0, h1, x]].filter Traffic.isStore = [] := by
        simp [Traffic.isStore, hh0.1, MSG_TYPE_NC_LOAD_REQ,
          MSG_TYPE_NC_STORE_REQ]
      rw [hstores]
      exact storeFills_nil (by simp [wStatusUpdate, hstore])
  | store1 htype hfree hstate hcounter hh0 hbuf =>
    have hnext : q.msgStateNext = .header1 := by
      simp [msgStateNext, hstate]
    have htn : q.msgTypeNext i = .store := by
      simp [msgTypeNext, hnext, htype]
    obtain ⟨-, hstore, -⟩ := storeGo_of_taken htaken htn
    obtain ⟨hs, ht, hc, hfree', hlf, hsf⟩ := next_store (p := p) htaken htn
      (by rw [hnext]; decide)
    rw [if_neg (by simp [payload, hh0.2])]
    refine fills_nil rfl (.store2 ht hfree' ?_ ?_ hh0 ?_) hlf hsf
    · rw [hs, hnext]
    · rw [hc, msgCounterNext, hnext, hcounter, if_neg (by decide)]
      rfl
    · simp [next, hstore, hnext, hbridge, hbuf]
  | store2 htype hfree hstate hcounter hh0 hbuf =>
    have hnext : q.msgStateNext = .header2 := by
      simp [msgStateNext, hstate]
    have htn : q.msgTypeNext i = .store := by
      simp [msgTypeNext, hnext, htype]
    obtain ⟨-, hstore, -⟩ := storeGo_of_taken htaken htn
    obtain ⟨hs, ht, hc, hfree', hlf, hsf⟩ := next_store (p := p) htaken htn
      (by rw [hnext]; decide)
    rw [if_neg (by simp [payload, hh0.2])]
    refine fills_nil rfl (.store3 ht hfree' ?_ ?_ hh0 ?_) hlf hsf
    · rw [hs, hnext]
    · rw [hc, msgCounterNext, hnext, hcounter, if_neg (by decide)]
      rfl
    · simp [next, hstore, hnext, hbridge, hbuf]
  | @store3 _ h1 h2 htype hfree hstate hcounter hh0 hbuf =>
    have hnext : q.msgStateNext = .data := by
      simp [msgStateNext, hstate, hcounter]
    have htn : q.msgTypeNext i = .store := by
      simp [msgTypeNext, hnext, htype]
    obtain ⟨-, hstore, hload⟩ := storeGo_of_taken htaken htn
    have hpacket : (q.next p i).storePacket = [h0, h1, h2, x] := by
      simp [storePacket, next, hstore, hnext, hbridge, hbuf]
    have hupdate : q.wStatusUpdate i = true := by
      simp [wStatusUpdate, hstore, hnext, hcounter]
    rw [if_pos (by simp [payload, hh0.2])]
    refine ⟨.start ?_, [[h0, h1, h2, x]], rfl, ?_, ?_⟩
    · apply msgStateNext_of_zero
      · exact .inr (by simp [next, htaken, hnext])
      · simp [next, htaken, msgCounterNext, hnext, hcounter]
    · have hloads : [[h0, h1, h2, x]].filter Traffic.isLoad = [] := by
        simp [Traffic.isLoad, hh0.1, MSG_TYPE_NC_LOAD_REQ,
          MSG_TYPE_NC_STORE_REQ]
      rw [hloads]
      exact loadFills_nil (by simp [hload])
    · have hstores : [[h0, h1, h2, x]].filter Traffic.isStore =
          [[h0, h1, h2, x]] := by
        simp [Traffic.isStore, hh0.1]
      rw [hstores]
      refine ⟨fun hnil => absurd hnil (by simp), fun _ => ?_⟩
      rw [hpacket]
      exact ⟨rfl, hfree, by simp [next, hupdate], by simp [next, hupdate]⟩

end Take

/-- One cycle of the parser and the request buffers. -/
theorem Parsing.step {prog : Progress Flit} (h : Parsing q prog.rest)
    (hwf : ∀ x, i.data = some x → prog.rest = [] → Traffic.WellFormed x)
    {prog' : Progress Flit}
    (hprog : prog' = (q.taken i).elim prog (prog.feed payload)) :
    Fills q (q.next p i) i prog prog' := by
  cases htaken : q.taken i with
  | none =>
    obtain ⟨hidle, hload, hstore⟩ := h.idle (p := p) htaken
    rw [htaken] at hprog
    subst hprog
    exact fills_nil rfl hidle (loadFills_nil (by simp [hload]))
      (storeFills_nil (by simp [wStatusUpdate, hstore]))
  | some x =>
    rw [htaken] at hprog
    subst hprog
    obtain ⟨pks, rest⟩ := prog
    cases rest with
    | nil =>
      cases h with
      | start hstate =>
        exact Parsing.take_start htaken hstate
          (hwf x (data_of_taken htaken) rfl) pks
    | cons h0 ps => exact h.take_body htaken pks

end Regs

end ArianeSoc.Chipset.AxiliteBridge
