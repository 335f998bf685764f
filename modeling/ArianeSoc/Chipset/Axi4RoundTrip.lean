import ArianeSoc.Chipset.Axi4Write

/-!
# A store and a load through the AXI4 bridge

A store packet goes through the deserialiser and `noc_axi4_bridge_write` to
a memory, and a load of the same bytes through `noc_axi4_bridge_read` and the
serialiser back.

* `Read.load_eq`: the data that answer a load, under any handshakes.
* `Ser.respond_eq`: the flits of the response.  The last one is lost if it is
  not taken in the first cycle in which it is offered.
* `written_apply`, `byte_loaded`: which bytes of the memory a store sets and
  a load finds.
* `layout_bytes_iff`: when the data of a request start with its payload.
* `Trip.correct_iff`: when a store and a load give the bytes back.
-/

namespace ArianeSoc.Chipset.Axi4Bridge

open ByteLanes
open Noc (Flit)

/-! ## The read -/

namespace Read

variable {p : Params} {mem : Memory 64}

/-- What the memory and the buffer do in a cycle. -/
structure Cycle where
  arready : Bool
  /-- The memory answers, if an address waits. -/
  rvalid : Bool
  respRdy : Bool

/-- The read module and the id and address that wait for an answer. -/
structure Sys where
  regs : Regs
  ar : Option (BitVec 6 × BitVec 64)

def Sys.input (mem : Memory 64) (s : Sys) (r : Option (Header × Id))
    (c : Cycle) : In where
  req := r
  respRdy := c.respRdy
  arready := c.arready
  r := if c.rvalid then s.ar.map fun a => (a.1, mem.read 512 a.2) else none

@[simp] theorem Sys.input_req {s : Sys} {r : Option (Header × Id)}
    {c : Cycle} : (s.input mem r c).req = r := rfl

def Sys.next (p : Params) (mem : Memory 64) (s : Sys)
    (r : Option (Header × Id)) (c : Cycle) : Sys where
  regs := s.regs.next (s.input mem r c)
  ar :=
    if s.regs.argo (s.input mem r c) then
      some (s.regs.arid, s.regs.araddr p)
    else if (s.regs.rTaken (s.input mem r c)).isSome then none
    else s.ar

/-- The data of the first response that is given out. -/
def Sys.answer (p : Params) (mem : Memory 64) (s : Sys) :
    List Cycle → Option Data
  | [] => none
  | c :: cs =>
    if (s.regs.respVal && c.respRdy) = true then some s.regs.respData
    else (s.next p mem none c).answer p mem cs

/-- A run with one request, which is offered in the first cycle. -/
def Sys.load (p : Params) (mem : Memory 64) (s : Sys) (r : Header × Id)
    (c : Cycle) (cs : List Cycle) : Option Data :=
  (s.next p mem (some r) c).answer p mem cs

/-- The data that answer a request. -/
def loaded (p : Params) (mem : Memory 64) (h : Header) : Data :=
  respData (readSize h)
    (mem.read 512 (lineAddr (addr p h)) >>>
      (8 * (offset h MSG_TYPE_NC_LOAD_REQ).toNat))

/-- The states of a load from when its request has come. -/
inductive Stands (p : Params) (mem : Memory 64) (r : Header × Id) (s : Sys) :
    Prop
  | gotReq (hreq : s.regs.reqState = .gotReq)
      (hresp : s.regs.respState = .idle) (har : s.ar = none)
      (hheader : s.regs.reqHeaderF = r.1) (hid : s.regs.reqIdF = r.2)
  | waits (hreq : s.regs.reqState = .idle)
      (hresp : s.regs.respState = .idle)
      (har : s.ar = some (axiId r.2, lineAddr (addr p r.1)))
      (hsize : s.regs.size r.2 = readSize r.1)
      (hoffset : s.regs.offset r.2 = offset r.1 MSG_TYPE_NC_LOAD_REQ)
  | gotResp (hreq : s.regs.reqState = .idle)
      (hresp : s.regs.respState = .gotResp) (hid : s.regs.respIdF = r.2)
      (hsize : s.regs.size r.2 = readSize r.1)
      (hdata : s.regs.dataOffseted =
        mem.read 512 (lineAddr (addr p r.1)) >>>
          (8 * (offset r.1 MSG_TYPE_NC_LOAD_REQ).toNat))
  | sendResp (hreq : s.regs.reqState = .idle)
      (hresp : s.regs.respState = .sendResp)
      (hdata : s.regs.respData = loaded p mem r.1)

variable {s : Sys} {r : Header × Id} {c : Cycle} {cs : List Cycle}

theorem setWidth_axiId (id : Id) :
    (axiId id).setWidth BUFFER_ADDR_SIZE = id := by
  revert id
  decide

/-- A cycle in which no response is given out. -/
theorem Stands.step (hs : Stands p mem r s)
    (hout : ¬ (s.regs.respVal && c.respRdy) = true) :
    Stands p mem r (s.next p mem none c) := by
  cases hs with
  | gotReq hreq hresp har hheader hid =>
    have htaken : s.regs.rTaken (s.input mem none c) = none := by
      simp [Regs.rTaken, Sys.input, har]
    have hargo : s.regs.argo (s.input mem none c) = c.arready := by
      simp [Regs.argo, Regs.arvalid, hreq, Sys.input]
    cases ha : c.arready
    · rw [ha] at hargo
      refine .gotReq ?_ ?_ ?_ ?_ ?_ <;>
        simp [Sys.next, Regs.next, hreq, hresp, har, hargo, htaken, hheader,
          hid]
    · rw [ha] at hargo
      refine .waits ?_ ?_ ?_ ?_ ?_ <;>
        simp [Sys.next, Regs.next, hreq, hresp, hargo, htaken, hheader, hid,
          Regs.arid, Regs.araddr]
  | waits hreq hresp har hsize hoffset =>
    have hargo : s.regs.argo (s.input mem none c) = false := by
      simp [Regs.argo, Regs.arvalid, hreq]
    have hgo : s.regs.respGo (s.input mem none c) = false := by
      simp [Regs.respGo, Regs.respVal, hresp]
    have hrdy : s.regs.rready = true := by simp [Regs.rready, hresp]
    cases hv : c.rvalid
    · have htaken : s.regs.rTaken (s.input mem none c) = none := by
        simp [Regs.rTaken, Sys.input, hv]
      refine .waits ?_ ?_ ?_ ?_ ?_ <;>
        simp [Sys.next, Regs.next, hreq, hresp, har, hargo, hgo, htaken,
          hsize, hoffset]
    · have htaken : s.regs.rTaken (s.input mem none c) =
          some (axiId r.2, mem.read 512 (lineAddr (addr p r.1))) := by
        simp [Regs.rTaken, Sys.input, hrdy, har, hv]
      refine .gotResp ?_ ?_ ?_ ?_ ?_ <;>
        simp [Sys.next, Regs.next, hreq, hresp, hargo, hgo, htaken, hsize,
          setWidth_axiId, hoffset]
  | gotResp hreq hresp hid hsize hdata =>
    refine .sendResp ?_ ?_ ?_
    · simp [Sys.next, Regs.next, hreq]
    · simp [Sys.next, Regs.next, hresp]
    · simp only [Sys.next, Regs.next, hresp, hid, hsize, hdata, loaded]
  | sendResp hreq hresp hdata =>
    have hval : s.regs.respVal = true := by simp [Regs.respVal, hresp]
    have hgo : s.regs.respGo (s.input mem none c) = false := by
      simpa [Regs.respGo, hval, Sys.input] using hout
    refine .sendResp ?_ ?_ ?_
    · simp [Sys.next, Regs.next, hreq]
    · simp [Sys.next, Regs.next, hresp, hgo]
    · simp [Sys.next, Regs.next, hresp, hgo, hdata]

theorem Stands.answer_eq {d : Data} (hs : Stands p mem r s)
    (h : s.answer p mem cs = some d) : d = loaded p mem r.1 := by
  induction cs generalizing s with
  | nil => cases h
  | cons c cs ih =>
    rw [Sys.answer] at h
    by_cases hout : (s.regs.respVal && c.respRdy) = true
    · rw [if_pos hout] at h
      cases h
      have hsend : s.regs.respState = .sendResp := by
        simpa [Regs.respVal] using (Bool.and_eq_true_iff.1 hout).1
      cases hs with
      | sendResp _ _ hdata => exact hdata
      | gotReq _ hresp _ _ _ => rw [hsend] at hresp; cases hresp
      | waits _ hresp _ _ _ => rw [hsend] at hresp; cases hresp
      | gotResp _ hresp _ _ _ => rw [hsend] at hresp; cases hresp
    · rw [if_neg hout] at h
      exact ih (hs.step hout) h

/-- What a load gives that is requested when the module is idle. -/
theorem load_eq {h : Header} {id : Id} {d : Data}
    (hreq : s.regs.reqState = .idle) (hresp : s.regs.respState = .idle)
    (har : s.ar = none) (hload : s.load p mem (h, id) c cs = some d) :
    d = loaded p mem h := by
  refine Stands.answer_eq (r := (h, id)) (.gotReq ?_ ?_ ?_ ?_ ?_) hload
  · simp [Sys.next, Regs.next, hreq]
  · simp [Sys.next, Regs.next, hresp, Regs.rTaken, Sys.input, har]
  · simp [Sys.next, Regs.argo, Regs.arvalid, hreq, har]
  · simp [Sys.next, Regs.next, hreq]
  · simp [Sys.next, Regs.next, hreq]

end Read

/-! ## The serialiser -/

namespace Ser

/-- The flits that are taken in a run. -/
def sent (q : Regs) : List In → List Flit
  | [] => []
  | i :: is =>
    (if i.flitOutRdy then q.flitOut.toList else []) ++ sent (q.next i) is

/-- A run that starts with a response. -/
def respond (q : Regs) (h : Header) (d : Data) (i : In) (is : List In) :
    List Flit :=
  sent (q.next { i with headerIn := h, dataIn := d, inVal := true }) is

/-- What is left of the inputs when `n` flits have been taken. -/
def afterTaken : ℕ → List In → List In
  | 0, is => is
  | _ + 1, [] => []
  | n + 1, i :: is =>
    if i.flitOutRdy then afterTaken n is else afterTaken (n + 1) is

/-- The flit behind the first `n` is taken in the first cycle in which it is
offered. -/
def Prompt (n : ℕ) (is : List In) : Prop :=
  (afterTaken n is).head?.any (·.flitOutRdy) = true

instance (n : ℕ) (is : List In) : Decidable (Prompt n is) :=
  inferInstanceAs (Decidable (_ = true))

/-- The number of flits that a run has room for. -/
def room (is : List In) : ℕ := is.countP (·.flitOutRdy)

variable {q : Regs} {i : In} {is : List In}

theorem prompt_zero_cons : Prompt 0 (i :: is) ↔ i.flitOutRdy = true :=
  Iff.rfl

theorem prompt_succ_of_rdy {n : ℕ} (hi : i.flitOutRdy = true) :
    Prompt (n + 1) (i :: is) ↔ Prompt n is := by
  rw [Prompt, Prompt, afterTaken, if_pos hi]

theorem prompt_succ_of_not_rdy {n : ℕ} (hi : ¬ i.flitOutRdy = true) :
    Prompt (n + 1) (i :: is) ↔ Prompt (n + 1) is := by
  rw [Prompt, Prompt, afterTaken, if_neg hi]

/-- Word `j` of the data. -/
def word (d : Data) (j : ℕ) : Flit := d.extractLsb' (64 * j) 64

/-- The flit that is put out with `n` flits remaining. -/
theorem dataFlit_eq {n : ℕ} (hn : n ≤ 8)
    (hrem : q.remainingFlits.toNat = n) :
    q.dataFlit = word q.dataInF (8 - n) := by
  have hshift : (64#32 * (8#32 - q.remainingFlits.setWidth 32)).toNat =
      64 * (8 - n) := by
    have hle : q.remainingFlits.toNat ≤ 8 := by omega
    rw [BitVec.toNat_mul, BitVec.toNat_sub, BitVec.toNat_setWidth]
    simp only [BitVec.toNat_ofNat]
    omega
  rw [Regs.dataFlit, hshift, word]
  apply BitVec.eq_of_getLsbD_eq
  intro k hk
  rw [BitVec.getLsbD_setWidth, BitVec.getLsbD_ushiftRight,
    BitVec.getLsbD_extractLsb', decide_eq_true hk]

theorem word_eight (d : Data) : word d 8 = 0#64 := by
  apply BitVec.eq_of_getLsbD_eq
  intro k hk
  rw [word, BitVec.getLsbD_extractLsb', BitVec.getLsbD_of_ge d _ (by omega),
    Bool.and_false, BitVec.getLsbD_zero]

/-- The flit that is sent in place of the last one, when that has waited. -/
theorem sent_overrun (hstate : q.state = .sendData)
    (hrem : q.remainingFlits.toNat = 0) (hroom : 0 < room is) :
    (sent q is)[0]? = some 0#64 := by
  induction is generalizing q with
  | nil => exact absurd hroom (Nat.lt_irrefl 0)
  | cons i is ih =>
    have hflit : q.flitOut = some 0#64 := by
      rw [Regs.flitOut, hstate]
      simp only
      rw [dataFlit_eq (Nat.zero_le 8) hrem, word_eight]
    rw [sent]
    by_cases hi : i.flitOutRdy = true
    · rw [if_pos hi, hflit]
      rfl
    · have hne : q.remainingFlits ≠ 1#8 := by
        intro h1
        rw [h1] at hrem
        cases hrem
      rw [if_neg hi, List.nil_append]
      refine ih ?_ ?_ ?_
      · simp [Regs.next, hstate, hne]
      · simp [Regs.next, hstate, hne, hi, hrem]
      · rwa [room, List.countP_cons_of_neg hi] at hroom

@[simp] theorem next_dataInF (hstate : q.state ≠ .accept) :
    (q.next i).dataInF = q.dataInF := by
  simp [Regs.next, Regs.inGo, Regs.inRdy, hstate]

/-- The flits are sent one after the other down to the last one. -/
theorem next_of_one_lt (hstate : q.state = .sendData)
    (hrem : 1 < q.remainingFlits.toNat) :
    (q.next i).state = .sendData ∧ (q.next i).remainingFlits.toNat =
      if i.flitOutRdy then q.remainingFlits.toNat - 1
      else q.remainingFlits.toNat := by
  have hne : q.remainingFlits ≠ 1#8 := by
    intro h1
    rw [h1] at hrem
    exact absurd hrem (by decide)
  constructor
  · simp [Regs.next, hstate, hne]
  · cases hi : i.flitOutRdy
    · simp [Regs.next, hstate, hne, hi]
    · simp only [Regs.next, hstate, hne, hi, if_true, if_false]
      bv_omega

/-- The last `n` flits of a response. -/
theorem sent_data {n j : ℕ} (hn : n ≤ 8) (hstate : q.state = .sendData)
    (hrem : q.remainingFlits.toNat = n) (hroom : n ≤ room is) (hj : j < n) :
    (sent q is)[j]? = some
      (if j + 1 = n ∧ ¬ Prompt (n - 1) is then 0#64
      else word q.dataInF (8 - n + j)) := by
  induction is generalizing q n j with
  | nil =>
    have hzero : n ≤ 0 := hroom
    omega
  | cons i is ih =>
    have hflit : q.flitOut = some (word q.dataInF (8 - n)) := by
      rw [Regs.flitOut, hstate]
      simp only
      rw [dataFlit_eq hn hrem]
    have hdata : (q.next i).dataInF = q.dataInF :=
      next_dataInF (by simp [hstate])
    rw [sent, hflit]
    by_cases hone : n = 1
    · subst hone
      obtain rfl : j = 0 := by omega
      by_cases hi : i.flitOutRdy = true
      · have hprompt : Prompt 0 (i :: is) := prompt_zero_cons.2 hi
        rw [if_pos hi, if_neg fun h => h.2 hprompt]
        rfl
      · -- the counter is cleared although the flit stays
        have hprompt : ¬ Prompt 0 (i :: is) := fun h =>
          hi (prompt_zero_cons.1 h)
        have hrem1 : q.remainingFlits = 1#8 := BitVec.eq_of_toNat_eq hrem
        rw [if_neg hi, List.nil_append, if_pos ⟨rfl, hprompt⟩]
        refine sent_overrun ?_ ?_ ?_
        · simp [Regs.next, hstate, hrem1, hi]
        · simp [Regs.next, hstate, hrem1]
        · rwa [room, List.countP_cons_of_neg hi] at hroom
    · obtain ⟨hstate', hrem'⟩ :=
        next_of_one_lt (i := i) hstate (by omega)
      obtain ⟨m, rfl⟩ : ∃ m, n = m + 2 := ⟨n - 2, by omega⟩
      by_cases hi : i.flitOutRdy = true
      · rw [if_pos hi] at hrem' ⊢
        rw [room, List.countP_cons_of_pos hi] at hroom
        cases j with
        | zero =>
          rw [if_neg (by omega)]
          rfl
        | succ j =>
          have hj' := ih (show m + 1 ≤ 8 by omega) hstate' (by omega)
            (show m + 1 ≤ room is from Nat.le_of_succ_le_succ hroom)
            (show j < m + 1 by omega)
          have hword : 8 - (m + 2) + (j + 1) = 8 - (m + 1) + j := by omega
          have hlast : j + 1 + 1 = m + 2 ↔ j + 1 = m + 1 := by omega
          rw [hdata] at hj'
          simp only [Nat.add_sub_cancel] at hj'
          simp only [Option.toList_some, List.singleton_append,
            List.getElem?_cons_succ, hj', hword, hlast,
            show m + 2 - 1 = m + 1 from rfl, prompt_succ_of_rdy hi]
      · rw [if_neg hi] at hrem' ⊢
        rw [room, List.countP_cons_of_neg hi] at hroom
        have hj' := ih hn hstate' (hrem'.trans hrem) hroom hj
        rw [hdata] at hj'
        simp only [List.nil_append, hj', show m + 2 - 1 = m + 1 from rfl,
          prompt_succ_of_not_rdy hi]

/-- The flits from the header on. -/
theorem sent_header {j : ℕ} (hstate : q.state = .sendHeader)
    (hlen : MSG_LENGTH.get q.respHeader = 8#8) (hroom : 9 ≤ room is)
    (hj : j < 8) :
    (sent q is)[0]? = some q.respHeader ∧
      (sent q is)[j + 1]? = some
        (if j = 7 ∧ ¬ Prompt 8 is then 0#64 else word q.dataInF j) := by
  induction is generalizing q with
  | nil => exact absurd hroom (by decide)
  | cons i is ih =>
    have hflit : q.flitOut = some q.respHeader := by
      rw [Regs.flitOut, hstate]
    have hdata : (q.next i).dataInF = q.dataInF :=
      next_dataInF (by simp [hstate])
    rw [sent, hflit]
    by_cases hi : i.flitOutRdy = true
    · rw [room, List.countP_cons_of_pos hi] at hroom
      have hrun := sent_data (q := q.next i) (j := j) (n := 8)
        (Nat.le_refl 8) (by simp [Regs.next, hstate, hi, hlen])
        (by simp [Regs.next, hstate, hi, hlen])
        (Nat.le_of_succ_le_succ hroom) hj
      have hlast : j + 1 = 8 ↔ j = 7 := by omega
      rw [hdata] at hrun
      simp only [Nat.sub_self, Nat.zero_add, hlast] at hrun
      rw [if_pos hi]
      refine ⟨rfl, ?_⟩
      simp only [Option.toList_some, List.singleton_append,
        List.getElem?_cons_succ, hrun, prompt_succ_of_rdy hi]
    · rw [room, List.countP_cons_of_neg hi] at hroom
      have hkeep : (q.next i).respHeader = q.respHeader := by
        simp [Regs.next, hstate, hi]
      have hrun := ih (q := q.next i) (by simp [Regs.next, hstate, hi])
        (by rw [hkeep, hlen]) hroom
      rw [hkeep, hdata] at hrun
      rw [if_neg hi, List.nil_append]
      simpa only [prompt_succ_of_not_rdy hi] using hrun

theorem length_respHeader (h : Header) :
    MSG_LENGTH.get (respHeader h) = (respType h).2 := by
  apply BitVec.eq_of_getLsbD_eq
  intro k hk
  rw [BitField.getLsbD_get, decide_eq_true hk, Bool.true_and, respHeader]
  show BitVec.getLsbD _ (22 + k) = _
  -- above the options, the MSHR and the type
  rw [BitVec.getLsbD_append, if_neg (by omega), BitVec.getLsbD_append,
    if_neg (by omega), BitVec.getLsbD_append, if_neg (by omega),
    BitVec.getLsbD_append, if_pos (by omega)]
  congr 1
  omega

theorem sent_accept {j : ℕ} (hstate : q.state = .accept)
    (hval : i.inVal = true) (hlen : (respType i.headerIn).2 = 8#8)
    (hroom : 9 ≤ room is) (hj : j < 8) :
    (sent (q.next i) is)[0]? = some (respHeader i.headerIn) ∧
      (sent (q.next i) is)[j + 1]? = some
        (if j = 7 ∧ ¬ Prompt 8 is then 0#64 else word i.dataIn j) := by
  have hgo : q.inGo i = true := by
    simp [Regs.inGo, Regs.inRdy, hstate, hval]
  have hstate' : (q.next i).state = .sendHeader := by
    simp [Regs.next, hstate, hval]
  have hheader : (q.next i).respHeader = respHeader i.headerIn := by
    simp [Regs.next, hstate, hgo]
  have hdata : (q.next i).dataInF = i.dataIn := by
    simp [Regs.next, hgo]
  have hrun := sent_header (j := j) hstate'
    (by rw [hheader, length_respHeader, hlen]) hroom hj
  rw [hheader, hdata] at hrun
  exact hrun

/-- The packet of a load, flit by flit. -/
theorem respond_eq {h : Header} {d : Data} {j : ℕ}
    (hstate : q.state = .accept) (hlen : (respType h).2 = 8#8)
    (hroom : 9 ≤ room is) (hj : j < 8) :
    (respond q h d i is)[0]? = some (respHeader h) ∧
      (respond q h d i is)[j + 1]? = some
        (if j = 7 ∧ ¬ Prompt 8 is then 0#64 else word d j) :=
  sent_accept (i := { i with headerIn := h, dataIn := d, inVal := true })
    hstate rfl hlen hroom hj

end Ser

/-! ## Bytes -/

/-- The bytes that a size stands for. -/
def bytesOf (size : BitVec 3) : ℕ :=
  if size = MSG_DATA_SIZE_0B then 0 else 2 ^ (size.toNat - 1)

/-- The bytes of an access: a line, if it is cacheable. -/
def accessBytes (h : Header) (type : BitVec 8) : ℕ :=
  if uncacheable h type then bytesOf (MSG_DATA_SIZE_.get h.w2) else 64

/-- The address of the first of them. -/
def firstByte (p : Params) (h : Header) (type : BitVec 8) : BitVec 64 :=
  lineAddr (addr p h) + BitVec.ofNat 64 (offset h type).toNat

/-- Where the memory is not mapped, an uncacheable access is at its
address. -/
theorem firstByte_eq_virtAddr {p : Params} {h : Header} {type : BitVec 8}
    (hboot : p.uartBootEn = false) (hunc : uncacheable h type = true) :
    firstByte p h type = (virtAddr h).setWidth 64 := by
  have hlt := (virtAddr h).isLt
  have haddr : addr p h = (virtAddr h).setWidth 64 := by
    rw [addr, hboot, if_neg Bool.false_ne_true]
  apply BitVec.eq_of_toNat_eq
  rw [firstByte, offset, if_pos hunc, haddr, lineAddr, BitVec.toNat_add,
    BitField.toNat_append_add]
  simp only [BitVec.extractLsb'_toNat, BitVec.toNat_setWidth,
    BitVec.toNat_ofNat, Nat.shiftRight_eq_div_pow]
  omega

theorem strbBeforeOffset_eq (h : Header) :
    strbBeforeOffset h =
      (BitVec.allOnes (accessBytes h MSG_TYPE_NC_STORE_REQ)).setWidth 64 := by
  rw [strbBeforeOffset, accessBytes]
  by_cases hunc : uncacheable h MSG_TYPE_NC_STORE_REQ = true
  · rw [if_pos hunc, if_pos hunc]
    generalize MSG_DATA_SIZE_.get h.w2 = size
    revert size
    decide
  · rw [if_neg hunc, if_neg hunc]
    decide

theorem toNat_readSize (h : Header) :
    (readSize h).toNat = accessBytes h MSG_TYPE_NC_LOAD_REQ := by
  rw [readSize, accessBytes]
  by_cases hunc : uncacheable h MSG_TYPE_NC_LOAD_REQ = true
  · rw [if_pos hunc, if_pos hunc]
    generalize MSG_DATA_SIZE_.get h.w2 = size
    revert size
    decide
  · rw [if_neg hunc, if_neg hunc]
    rfl

theorem bytesOf_dvd (size : BitVec 3) :
    bytesOf size = 0 ∨ bytesOf size ∣ 64 := by
  revert size
  decide

theorem accessBytes_le (h : Header) (type : BitVec 8) :
    accessBytes h type ≤ 64 := by
  rw [accessBytes]
  split
  · generalize MSG_DATA_SIZE_.get h.w2 = size
    revert size
    decide
  · exact Nat.le_refl 64

/-- An access below a line is for half of it at most. -/
theorem accessBytes_le_of_ne {h : Header} {type : BitVec 8}
    (hne : accessBytes h type ≠ 64) : accessBytes h type ≤ 32 := by
  rw [accessBytes] at hne ⊢
  split at hne
  · rename_i hunc
    rw [if_pos hunc]
    generalize MSG_DATA_SIZE_.get h.w2 = size at hne ⊢
    revert size
    decide
  · exact absurd rfl hne

theorem getLsbD_append_low {w k : ℕ} (x : BitVec w) (y : Flit)
    (hk : k < 64) : (x ++ y).getLsbD k = y.getLsbD k := by
  rw [BitVec.getLsbD_append, if_pos hk]

theorem getLsbD_append_high {w k : ℕ} (x : BitVec w) (y : Flit)
    (hk : 64 ≤ k) : (x ++ y).getLsbD k = x.getLsbD (k - 64) := by
  rw [BitVec.getLsbD_append, if_neg (by omega)]

theorem getLsbD_concat (buf : BitVec 3 → Flit) {n k : ℕ} (hn : n < 8)
    (hk : k < 64) :
    (Deser.Regs.concat buf).getLsbD (64 * n + k) =
      (buf (BitVec.ofNat 3 (7 - n))).getLsbD k := by
  have hcases : n = 0 ∨ n = 1 ∨ n = 2 ∨ n = 3 ∨ n = 4 ∨ n = 5 ∨ n = 6 ∨
      n = 7 := by
    omega
  rw [Deser.Regs.concat]
  rcases hcases with rfl | rfl | rfl | rfl | rfl | rfl | rfl | rfl
  all_goals
    simp (disch := omega) only [getLsbD_append_high, getLsbD_append_low]
    refine congrArg (BitVec.getLsbD (buf _)) ?_
    omega

theorem byte_concat (buf : BitVec 3 → Flit) {j : ℕ} (hj : j < 64) :
    byte (Deser.Regs.concat buf) j =
      byte (buf (BitVec.ofNat 3 (7 - j / 8))) (j % 8) := by
  apply byte_congr
  intro i hi
  have hbit : 8 * j + i = 64 * (j / 8) + (8 * (j % 8) + i) := by omega
  rw [hbit, getLsbD_concat buf (by omega) (by omega)]

/-- The payload is at the upper end of the data. -/
theorem byte_layout {xs : List Flit} (hxs : xs.length ≤ 8) {j : ℕ}
    (hj : j < 64) :
    byte (Deser.Regs.concat (Deser.layout xs)) j =
      if 64 ≤ j + 8 * xs.length then flitByte xs (j + 8 * xs.length - 64)
      else 0#8 := by
  have hk : (BitVec.ofNat 3 (7 - j / 8)).toNat = 7 - j / 8 := by
    rw [BitVec.toNat_ofNat]
    omega
  rw [byte_concat _ hj]
  split
  · rename_i hin
    have hword : xs.length - 1 - (7 - j / 8) =
        (j + 8 * xs.length - 64) / 8 := by
      omega
    have hbyte : j % 8 = (j + 8 * xs.length - 64) % 8 := by omega
    rw [Deser.layout, hk, flitByte, ← hbyte, List.getD_eq_getElem?_getD,
      List.getElem?_reverse (by omega), hword, List.getD_eq_getElem?_getD]
  · rw [Deser.layout_of_le (by omega), byte_zero]

/-- The bytes of a response are those at the start of the data. -/
theorem byte_respData {size : BitVec 7} {d : Data} {j : ℕ}
    (hj : j < size.toNat) : byte (respData size d) j = byte d j := by
  have hstart (n : ℕ) (k : ℕ) (hk : 0 < k) (hjn : 8 * j + 8 ≤ n) :
      byte ((d.extractLsb' (8 * 0) n).replicate k) j = byte d j := by
    rw [byte_replicate _ hk hjn, byte_extractLsb' d hjn, Nat.zero_add]
  rw [respData]
  split_ifs with h0 h1 h2 h4 h8 h16 h32
  · subst h0
    exact absurd hj (Nat.not_lt_zero j)
  · subst h1
    exact hstart 8 64 (by decide) (by change j < 1 at hj; omega)
  · subst h2
    exact hstart 16 32 (by decide) (by change j < 2 at hj; omega)
  · subst h4
    exact hstart 32 16 (by decide) (by change j < 4 at hj; omega)
  · subst h8
    exact hstart 64 8 (by decide) (by change j < 8 at hj; omega)
  · subst h16
    exact hstart 128 4 (by decide) (by change j < 16 at hj; omega)
  · subst h32
    exact hstart 256 2 (by decide) (by change j < 32 at hj; omega)
  · rfl

/-- The data have the payload at their start, for the bytes below `n`. -/
theorem layout_bytes_iff {xs : List Flit} (hxs : xs.length ≤ 8) {n : ℕ}
    (hn : n ≤ 8 * xs.length) :
    (∀ j < n, byte (Deser.Regs.concat (Deser.layout xs)) j = flitByte xs j) ↔
      xs.length = 8 ∨ ∀ j < n, flitByte xs j = 0#8 := by
  have hbyte (j : ℕ) (hj : j < n) := byte_layout hxs (j := j) (by omega)
  constructor
  · intro h
    by_cases hlen : xs.length = 8
    · exact Or.inl hlen
    refine Or.inr fun j => ?_
    -- a byte is one of the bytes below it, or is in front of the payload
    induction j using Nat.strongRecOn with
    | ind j ih =>
      intro hj
      rw [← h j hj, hbyte j hj]
      split
      · exact ih _ (by omega) (by omega)
      · rfl
  · rintro (hlen | hzero) j hj
    · have hsub : j + 8 * xs.length - 64 = j := by omega
      rw [hbyte j hj, if_pos (by omega), hsub]
    · rw [hbyte j hj, hzero j hj]
      split
      · exact hzero _ (by omega)
      · rfl

/-! ## The memory -/

variable {p : Params} {h : Header} {d : Data} {mem : Memory 64}

/-- A store leaves the bytes at the start of the data in the memory. -/
theorem written_apply
    (hfits : (offset h MSG_TYPE_NC_STORE_REQ).toNat +
      accessBytes h MSG_TYPE_NC_STORE_REQ ≤ 64) (b : BitVec 64) :
    Write.written p h d mem b =
      if (b - firstByte p h MSG_TYPE_NC_STORE_REQ).toNat <
          accessBytes h MSG_TYPE_NC_STORE_REQ then
        byte d (b - firstByte p h MSG_TYPE_NC_STORE_REQ).toNat
      else mem b := by
  have hlanes (j : ℕ) : (Write.lanes h d).2.getLsbD j = decide
      ((offset h MSG_TYPE_NC_STORE_REQ).toNat ≤ j ∧
        j < (offset h MSG_TYPE_NC_STORE_REQ).toNat +
          accessBytes h MSG_TYPE_NC_STORE_REQ) := by
    rw [Write.lanes, strbBeforeOffset_eq]
    exact getLsbD_lanes hfits j
  rw [Write.written, write_of_lanes (by omega) hlanes]
  rw [show Write.line p h +
    BitVec.ofNat 64 (offset h MSG_TYPE_NC_STORE_REQ).toNat =
      firstByte p h MSG_TYPE_NC_STORE_REQ from rfl]
  split
  · rename_i hb
    exact byte_shiftLeft d (by omega)
  · rfl

/-- A load finds the bytes of its access. -/
theorem byte_loaded {j : ℕ} (hj : j < accessBytes h MSG_TYPE_NC_LOAD_REQ)
    (hfits : (offset h MSG_TYPE_NC_LOAD_REQ).toNat +
      accessBytes h MSG_TYPE_NC_LOAD_REQ ≤ 64) :
    byte (Read.loaded p mem h) j =
      mem (firstByte p h MSG_TYPE_NC_LOAD_REQ + BitVec.ofNat 64 j) := by
  rw [Read.loaded, byte_respData (by rw [toNat_readSize]; exact hj),
    byte_shiftRight, byte_read (by omega), firstByte, BitVec.add_assoc,
    BitVec.ofNat_add]

/-! ## The round trip -/

/-- The load is for what the store was for. -/
inductive SameAccess (p : Params) (s l : Header) : Prop
  | uncached (hs : uncacheable s MSG_TYPE_NC_STORE_REQ = true)
      (hl : uncacheable l MSG_TYPE_NC_LOAD_REQ = true)
      (haddr : virtAddr l = virtAddr s)
      (hsize : MSG_DATA_SIZE_.get l.w2 = MSG_DATA_SIZE_.get s.w2)
      (haligned : bytesOf (MSG_DATA_SIZE_.get s.w2) = 0 ∨
        bytesOf (MSG_DATA_SIZE_.get s.w2) ∣ (virtAddr s).toNat)
  | cached (hs : uncacheable s MSG_TYPE_NC_STORE_REQ = false)
      (hl : uncacheable l MSG_TYPE_NC_LOAD_REQ = false)
      (hline : lineAddr (addr p l) = lineAddr (addr p s))

namespace SameAccess

variable {s l : Header}

theorem accessBytes_eq (hsame : SameAccess p s l) :
    accessBytes l MSG_TYPE_NC_LOAD_REQ =
      accessBytes s MSG_TYPE_NC_STORE_REQ := by
  cases hsame with
  | uncached hs hl haddr hsize haligned =>
    rw [accessBytes, accessBytes, if_pos hs, if_pos hl, hsize]
  | cached hs hl hline => simp [accessBytes, hs, hl]

theorem firstByte_eq (hsame : SameAccess p s l) :
    firstByte p l MSG_TYPE_NC_LOAD_REQ =
      firstByte p s MSG_TYPE_NC_STORE_REQ := by
  cases hsame with
  | uncached hs hl haddr hsize haligned =>
    rw [firstByte, firstByte, offset, offset, if_pos hs, if_pos hl, addr,
      addr, haddr]
  | cached hs hl hline => simp [firstByte, offset, hs, hl, hline]

theorem fits_store (hsame : SameAccess p s l) :
    (offset s MSG_TYPE_NC_STORE_REQ).toNat +
      accessBytes s MSG_TYPE_NC_STORE_REQ ≤ 64 := by
  cases hsame with
  | uncached hs hl haddr hsize haligned =>
    rw [offset, accessBytes, if_pos hs, if_pos hs,
      BitVec.extractLsb'_toNat]
    rcases bytesOf_dvd (MSG_DATA_SIZE_.get s.w2) with h0 | hdvd
    · rw [h0]
      omega
    rcases haligned with h0 | haligned
    · rw [h0]
      omega
    generalize bytesOf (MSG_DATA_SIZE_.get s.w2) = n at hdvd haligned ⊢
    generalize (virtAddr s).toNat = v at haligned ⊢
    have hmod : n ∣ v % 64 := (Nat.dvd_mod_iff hdvd).2 haligned
    have hlt : v % 64 < 64 := Nat.mod_lt v (by decide)
    have hle : n ≤ 64 - v % 64 :=
      Nat.le_of_dvd (by omega) (Nat.dvd_sub hdvd hmod)
    show v >>> 0 % 64 + n ≤ 64
    rw [Nat.shiftRight_zero]
    omega
  | cached hs hl hline => simp [offset, accessBytes, hs]

theorem fits_load (hsame : SameAccess p s l) :
    (offset l MSG_TYPE_NC_LOAD_REQ).toNat +
      accessBytes l MSG_TYPE_NC_LOAD_REQ ≤ 64 := by
  rw [hsame.accessBytes_eq]
  have hfits := hsame.fits_store
  cases hsame with
  | uncached hs hl haddr hsize haligned =>
    rw [offset, if_pos hs] at hfits
    rw [offset, if_pos hl, haddr]
    exact hfits
  | cached hs hl hline =>
    simp [offset, accessBytes, hs, hl]

end SameAccess

/-- The requests that are answered with data. -/
def isLoad (h : Header) : Bool :=
  MSG_TYPE.get h.w1 = MSG_TYPE_LOAD_MEM ||
    MSG_TYPE.get h.w1 = MSG_TYPE_NC_LOAD_REQ

theorem length_of_isLoad {h : Header} (hload : isLoad h = true) :
    (respType h).2 = 8#8 := by
  rw [isLoad, Bool.or_eq_true, decide_eq_true_iff, decide_eq_true_iff]
    at hload
  rcases hload with htype | htype <;> rw [respType, htype] <;> rfl

/-- A store and a load, in modules that are idle when they come.  The write
module gets the request that the deserialiser gives out, and the serialiser
the answer of the read module. -/
structure Trip (p : Params) where
  store : Packet
  load : Header
  isLoad : isLoad load = true
  same : SameAccess p store.header load
  size_le : accessBytes store.header MSG_TYPE_NC_STORE_REQ ≤
    8 * store.payload.length
  /-- The flits of the packet come after those of other packets. -/
  before : List Deser.In
  before_idle : (Deser.run before).state = .acceptW1
  flitIns : List Deser.In
  request : Header × Data
  delivered : Deser.deliver (Deser.run before) flitIns =
    some (store.flits, request)
  writer : Write.Sys
  writer_idle : writer.regs.reqState = .idle
  writer_aw : writer.aw = none
  writer_w : writer.w = none
  storeId : Id
  storeIn₀ : Write.In
  storeIn₁ : Write.In
  storeIns : List Write.In
  sent : (writer.store p (request.1, storeId) request.2 storeIn₀ storeIn₁
    storeIns).regs.reqState = .idle
  reader : Read.Sys
  reader_req : reader.regs.reqState = .idle
  reader_resp : reader.regs.respState = .idle
  reader_ar : reader.ar = none
  loadId : Id
  loadCycle : Read.Cycle
  loadCycles : List Read.Cycle
  answer : Data
  answered : reader.load p
    (writer.store p (request.1, storeId) request.2 storeIn₀ storeIn₁
      storeIns).memory (load, loadId) loadCycle loadCycles = some answer
  ser : Ser.Regs
  ser_accept : ser.state = .accept
  serIn : Ser.In
  serIns : List Ser.In
  ser_room : 9 ≤ Ser.room serIns

namespace Trip

variable (t : Trip p)

/-- The memory after the store. -/
def stored : Memory 64 :=
  (t.writer.store p (t.request.1, t.storeId) t.request.2 t.storeIn₀
    t.storeIn₁ t.storeIns).memory

/-- The flits of the response behind its header. -/
def response : List Flit :=
  (Ser.respond t.ser t.load t.answer t.serIn t.serIns).drop 1

def bytes : ℕ := accessBytes t.store.header MSG_TYPE_NC_STORE_REQ

def first : BitVec 64 := firstByte p t.store.header MSG_TYPE_NC_STORE_REQ

/-- The store sets the bytes of its access to those of its payload, and the
load gives them back. -/
structure Correct : Prop where
  stored : ∀ b, t.stored b =
    if (b - t.first).toNat < t.bytes then
      flitByte t.store.payload (b - t.first).toNat
    else t.writer.memory b
  loaded : ∀ j < t.bytes,
    flitByte t.response j = flitByte t.store.payload j

/-- The payload has eight flits or nothing but zeros, and the last flit of
the response is not kept waiting if it matters. -/
structure Meets : Prop where
  payload : t.store.payload.length = 8 ∨
    ∀ j < t.bytes, flitByte t.store.payload j = 0#8
  lastFlit : t.bytes = 64 →
    Ser.Prompt 8 t.serIns ∨ t.store.payload.getD 7 0#64 = 0#64

theorem request_eq : t.request =
    (t.store.header, Deser.Regs.concat (Deser.layout t.store.payload)) :=
  Deser.deliver_eq t.before_idle t.delivered

theorem stored_apply (b : BitVec 64) : t.stored b =
    if (b - t.first).toNat < t.bytes then
      byte (Deser.Regs.concat (Deser.layout t.store.payload))
        (b - t.first).toNat
    else t.writer.memory b := by
  have hmem : t.stored = _ :=
    Write.store_memory t.writer_idle t.writer_aw t.writer_w t.sent
  rw [hmem, t.request_eq]
  exact written_apply t.same.fits_store b

/-- The store is right if the data have the payload at their start. -/
theorem stored_iff : (∀ b, t.stored b =
    if (b - t.first).toNat < t.bytes then
      flitByte t.store.payload (b - t.first).toNat
    else t.writer.memory b) ↔
      t.store.payload.length = 8 ∨
        ∀ j < t.bytes, flitByte t.store.payload j = 0#8 := by
  rw [← layout_bytes_iff t.store.payload_le (n := t.bytes) t.size_le]
  constructor
  · intro h j hj
    have hle : t.bytes ≤ 64 := accessBytes_le _ _
    have hlane : (t.first + BitVec.ofNat 64 j - t.first).toNat = j := by
      rw [BitVec.add_comm, BitVec.add_sub_cancel, BitVec.toNat_ofNat]
      omega
    have hb := h (t.first + BitVec.ofNat 64 j)
    rw [stored_apply, hlane, if_pos hj, if_pos hj] at hb
    exact hb
  · intro h b
    rw [stored_apply]
    split
    · rename_i hb
      exact h _ hb
    · rfl

theorem answer_eq : t.answer = Read.loaded p t.stored t.load :=
  Read.load_eq t.reader_req t.reader_resp t.reader_ar t.answered

theorem byte_answer {j : ℕ} (hj : j < t.bytes) :
    byte t.answer j = t.stored (t.first + BitVec.ofNat 64 j) := by
  have hbytes : accessBytes t.load MSG_TYPE_NC_LOAD_REQ = t.bytes :=
    t.same.accessBytes_eq
  have hfirst : firstByte p t.load MSG_TYPE_NC_LOAD_REQ = t.first :=
    t.same.firstByte_eq
  rw [answer_eq, byte_loaded (by rw [hbytes]; exact hj) t.same.fits_load,
    hfirst]

/-- The bytes of the response, but for a last flit that has waited. -/
theorem flitByte_response {j : ℕ} (hj : j < t.bytes) :
    flitByte t.response j =
      if j / 8 = 7 ∧ ¬ Ser.Prompt 8 t.serIns then 0#8
      else t.stored (t.first + BitVec.ofNat 64 j) := by
  have hle : t.bytes ≤ 64 := accessBytes_le _ _
  have hresp := (Ser.respond_eq t.ser_accept (length_of_isLoad t.isLoad)
    (d := t.answer) (i := t.serIn) t.ser_room (j := j / 8) (by omega)).2
  have hflit : t.response.getD (j / 8) 0#64 =
      if j / 8 = 7 ∧ ¬ Ser.Prompt 8 t.serIns then 0#64
      else Ser.word t.answer (j / 8) := by
    rw [response, List.getD_eq_getElem?_getD, List.getElem?_drop,
      Nat.add_comm 1, hresp, Option.getD_some]
  rw [flitByte, hflit]
  split
  · exact byte_zero _
  · have hword : 8 * (j / 8) + j % 8 = j := Nat.div_add_mod j 8
    rw [Ser.word, show 64 * (j / 8) = 8 * (8 * (j / 8)) by omega,
      byte_extractLsb' _ (by omega), hword, t.byte_answer hj]

/-- A store and a load through the bridge are right exactly if the payload
has eight flits or is zero, and the last flit of the response is taken at
once or is zero. -/
theorem correct_iff : t.Correct ↔ t.Meets := by
  constructor
  · intro h
    refine ⟨t.stored_iff.1 h.stored, fun hline => ?_⟩
    by_cases hprompt : Ser.Prompt 8 t.serIns
    · exact Or.inl hprompt
    refine Or.inr (eq_of_byte_eq (n := 8) (Nat.le_refl 64) fun j hj => ?_)
    have hlast := h.loaded (56 + j) (by omega)
    rw [t.flitByte_response (by omega), if_pos ⟨by omega, hprompt⟩,
      flitByte, show (56 + j) / 8 = 7 by omega,
      show (56 + j) % 8 = j by omega] at hlast
    rw [byte_zero]
    exact hlast.symm
  · intro h
    have hstored := t.stored_iff.2 h.payload
    refine ⟨hstored, fun j hj => ?_⟩
    have hle : t.bytes ≤ 64 := accessBytes_le _ _
    have hlane : (t.first + BitVec.ofNat 64 j - t.first).toNat = j := by
      rw [BitVec.add_comm, BitVec.add_sub_cancel, BitVec.toNat_ofNat]
      omega
    rw [t.flitByte_response hj]
    split
    · rename_i hlast
      -- a flit that is kept waiting is the last of a line
      have hline : t.bytes = 64 := by
        by_contra hne
        have hhalf : t.bytes ≤ 32 := accessBytes_le_of_ne hne
        omega
      have hzero := (h.lastFlit hline).resolve_left hlast.2
      rw [flitByte, hlast.1, hzero, byte_zero]
    · rw [hstored, hlane, if_pos hj]

/-! ### Two trips in which every handshake is at once -/

/-- The memory is not mapped. -/
def mapped : Params := ⟨false, fun a => a.setWidth 64⟩

def flitCycle (x : Flit) : Deser.In := ⟨some x, true, true⟩

def writeCycle : Write.In := ⟨none, 0#512, true, true, true, none⟩

def readCycle : Read.Cycle := ⟨true, true, true⟩

def serCycle (flitOutRdy : Bool) : Ser.In :=
  ⟨Header.zero, 0#512, false, flitOutRdy⟩

/-- The byte `0xff` in one flit. -/
def bytePacket : Packet where
  header := ⟨0xc3c000#64, 0x100#64, 0#64⟩
  payload := [0xff#64]
  length_eq := by decide
  payload_pos := by decide
  payload_le := by decide
  store := by decide

def byteTrip : Trip mapped where
  store := bytePacket
  load := ⟨0x838000#64, 0x100#64, 0#64⟩
  isLoad := by decide
  same := .uncached (by decide) (by decide) rfl rfl (by decide)
  size_le := by decide
  before := []
  before_idle := rfl
  flitIns := bytePacket.flits.map flitCycle ++ [flitCycle 0#64]
  request := (bytePacket.header, 0xff#512 <<< 448)
  delivered := by decide +kernel
  writer := ⟨Write.Regs.reset, none, none, fun _ => 0#8⟩
  writer_idle := rfl
  writer_aw := rfl
  writer_w := rfl
  storeId := 0
  storeIn₀ := writeCycle
  storeIn₁ := writeCycle
  storeIns := [writeCycle]
  sent := by decide +kernel
  reader := ⟨Read.Regs.reset, none⟩
  reader_req := rfl
  reader_resp := rfl
  reader_ar := rfl
  loadId := 0
  loadCycle := readCycle
  loadCycles := List.replicate 5 readCycle
  answer := 0#512
  answered := by decide +kernel
  ser := Ser.Regs.reset
  ser_accept := rfl
  serIn := serCycle true
  serIns := List.replicate 9 (serCycle true)
  ser_room := by decide

/-- A line of eight words. -/
def linePacket : Packet where
  header := ⟨0x2850000#64, 0#64, 0#64⟩
  payload := [1#64, 2#64, 3#64, 4#64, 5#64, 6#64, 7#64, 8#64]
  length_eq := by decide
  payload_pos := by decide
  payload_le := by decide
  store := by decide

def lineTrip (serIns : List Ser.In) (h : 9 ≤ Ser.room serIns) :
    Trip mapped where
  store := linePacket
  load := ⟨0x84c000#64, 0#64, 0#64⟩
  isLoad := by decide
  same := .cached (by decide) (by decide) rfl
  size_le := by decide
  before := []
  before_idle := rfl
  flitIns := linePacket.flits.map flitCycle ++ [flitCycle 0#64]
  request := (linePacket.header,
    Deser.Regs.concat (Deser.layout linePacket.payload))
  delivered := by decide +kernel
  writer := ⟨Write.Regs.reset, none, none, fun _ => 0#8⟩
  writer_idle := rfl
  writer_aw := rfl
  writer_w := rfl
  storeId := 0
  storeIn₀ := writeCycle
  storeIn₁ := writeCycle
  storeIns := [writeCycle]
  sent := by decide +kernel
  reader := ⟨Read.Regs.reset, none⟩
  reader_req := rfl
  reader_resp := rfl
  reader_ar := rfl
  loadId := 0
  loadCycle := readCycle
  loadCycles := List.replicate 5 readCycle
  answer := Deser.Regs.concat (Deser.layout linePacket.payload)
  answered := by decide +kernel
  ser := Ser.Regs.reset
  ser_accept := rfl
  serIn := serCycle true
  serIns := serIns
  ser_room := h

/-- The last flit of the response has to wait for a cycle. -/
def waiting : List Ser.In :=
  List.replicate 8 (serCycle true) ++ [serCycle false, serCycle true]

/-- The byte is lost, and so is the last word of the line. -/
theorem not_correct :
    ¬ byteTrip.Correct ∧ ¬ (lineTrip waiting (by decide)).Correct := by
  constructor
  · intro h
    have hb := h.stored 0#64
    revert hb
    decide +kernel
  · intro h
    have hb := h.loaded 56
    revert hb
    decide +kernel

/-- Without the wait the eight words come back. -/
theorem correct_line :
    (lineTrip (List.replicate 9 (serCycle true)) (by decide)).Correct :=
  (lineTrip _ _).correct_iff.2
    { payload := Or.inl rfl
      lastFlit := fun _ => Or.inl (by decide) }

end Trip

end ArianeSoc.Chipset.Axi4Bridge
