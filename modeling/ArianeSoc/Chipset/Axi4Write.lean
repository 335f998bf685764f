import ArianeSoc.Chipset.Axi4Bridge

/-!
# A store through the AXI4 bridge

The flits of a store packet go through the deserialiser, and the request
that it gives out through `noc_axi4_bridge_write` to a memory.  Every
handshake may take any time.

* `Deser.deliver_eq`: the request has the header of the packet, and its data
  have the payload at their upper end, the last flit highest.
* `Write.store_memory`: what the memory holds when the request has been
  sent.

Both are inductions over the cycles with a relation `Stands` between the
registers and what is still to come.
-/

namespace ArianeSoc.Chipset.Axi4Bridge

open ByteLanes
open Noc (Flit)

/-! ## Packets -/

/-- A store packet of one to eight payload flits. -/
structure Packet where
  header : Header
  payload : List Flit
  length_eq : Chipset.payload header.w1 = payload.length + 2
  payload_pos : 0 < payload.length
  payload_le : payload.length ≤ 8
  store : isWrite header = true

/-- The flits in the order in which they come. -/
def Packet.flits (pk : Packet) : List Flit :=
  pk.header.w1 :: pk.header.w2 :: pk.header.w3 :: pk.payload

/-- Byte `j` of flits, the first of which is the lowest word. -/
def flitByte (xs : List Flit) (j : ℕ) : BitVec 8 :=
  byte (xs.getD (j / 8) 0#64) (j % 8)

/-! ## The deserialiser -/

namespace Deser

variable {q : Regs} {i : In} {pk : Packet} {fs : List Flit}

/-- The registers after the inputs of a run from reset. -/
def run (ins : List In) : Regs := ins.foldl Regs.next Regs.reset

/-- The flits that are taken until a request is given out, and the request. -/
def deliver (q : Regs) : List In → Option (List Flit × Header × Data)
  | [] => none
  | i :: is =>
    if (q.outVal && i.outRdy) = true then
      some ([], q.headerOut, q.dataOut)
    else
      (deliver (q.next i) is).map fun r => ((q.taken i).toList ++ r.1, r.2)

/-- What the buffer holds at the end: the last flit first. -/
def layout (xs : List Flit) (k : BitVec 3) : Flit :=
  xs.reverse.getD k.toNat 0#64

/-- The registers when the flits `fs` of a packet are to come. -/
inductive Stands (pk : Packet) (q : Regs) : List Flit → Prop
  | acceptW1 (hstate : q.state = .acceptW1)
      (hbuf : ∀ k, q.inDataBuf k = 0#64) : Stands pk q pk.flits
  | acceptW2 (hstate : q.state = .acceptW2)
      (hw1 : q.pktW1 = pk.header.w1)
      (hrem : q.remainingFlits.toNat = pk.payload.length + 1)
      (hbuf : ∀ k, q.inDataBuf k = 0#64) :
      Stands pk q (pk.header.w2 :: pk.header.w3 :: pk.payload)
  | acceptW3 (hstate : q.state = .acceptW3)
      (hw1 : q.pktW1 = pk.header.w1) (hw2 : q.pktW2 = pk.header.w2)
      (hrem : q.remainingFlits.toNat = pk.payload.length)
      (hbuf : ∀ k, q.inDataBuf k = 0#64) :
      Stands pk q (pk.header.w3 :: pk.payload)
  | acceptData (x : Flit) (ys : List Flit) (hstate : q.state = .acceptData)
      (hheader : q.headerOut = pk.header)
      (hsuffix : x :: ys <:+ pk.payload)
      (hrem : q.remainingFlits.toNat = ys.length)
      (habove : ∀ k : BitVec 3, ys.length < k.toNat →
        q.inDataBuf k = layout pk.payload k)
      (hbelow : ∀ k : BitVec 3, k.toNat < ys.length →
        q.inDataBuf k = 0#64) :
      Stands pk q (x :: ys)
  | send (hstate : q.state = .send) (hheader : q.headerOut = pk.header)
      (hbuf : ∀ k, q.inDataBuf k = layout pk.payload k) : Stands pk q []

/-- In the layout the flit with `n` flits behind it is at index `n`. -/
theorem layout_of_suffix {xs ys : List Flit} {x : Flit} {k : BitVec 3}
    (h : x :: ys <:+ xs) (hk : k.toNat = ys.length) : layout xs k = x := by
  obtain ⟨zs, rfl⟩ := h
  rw [layout, hk, List.reverse_append, List.reverse_cons, List.append_assoc]
  simp [List.getD_eq_getElem?_getD]

/-- Behind the payload the buffer is clear. -/
theorem layout_of_le {xs : List Flit} {k : BitVec 3}
    (h : xs.length ≤ k.toNat) : layout xs k = 0#64 := by
  rw [layout, List.getD_eq_getElem?_getD, List.getElem?_eq_none]
  · rfl
  · rw [List.length_reverse]
    exact h

theorem inDataBufNext_of_ne (hdata : q.state ≠ .acceptData)
    (hsend : q.state ≠ .send) (k : BitVec 3) :
    q.inDataBufNext i k = q.inDataBuf k := by
  rw [Regs.inDataBufNext]
  cases hstate : q.state <;> simp_all

/-- A flit goes to the place that the number of remaining flits gives. -/
theorem inDataBufNext_acceptData (hstate : q.state = .acceptData)
    {x : Flit} (hx : i.flitIn = some x) (k : BitVec 3) :
    q.inDataBufNext i k =
      if k.toNat = q.remainingFlits.toNat then x else q.inDataBuf k := by
  have hiff : k.setWidth 8 = q.remainingFlits ↔
      k.toNat = q.remainingFlits.toNat := by
    rw [← BitVec.toNat_inj, BitVec.toNat_setWidth_of_le (by omega)]
  rw [Regs.inDataBufNext, hstate, hx]
  simp only [hiff]

/-- A flit that is offered but not taken stays at the place of the flit to
come. -/
theorem inDataBufNext_of_ne_remaining (hstate : q.state = .acceptData)
    {k : BitVec 3} (hk : k.toNat ≠ q.remainingFlits.toNat) :
    q.inDataBufNext i k = q.inDataBuf k := by
  cases hx : i.flitIn with
  | none => rw [Regs.inDataBufNext, hstate, hx]
  | some x => rw [inDataBufNext_acceptData hstate hx, if_neg hk]

/-- In the state `acceptData` with the flit that is taken. -/
theorem stands_data {x : Flit} {ys : List Flit} (ht : q.taken i = some x)
    (hstate : q.state = .acceptData) (hheader : q.headerOut = pk.header)
    (hsuffix : x :: ys <:+ pk.payload)
    (hrem : q.remainingFlits.toNat = ys.length)
    (habove : ∀ k : BitVec 3, ys.length < k.toNat →
      q.inDataBuf k = layout pk.payload k)
    (hbelow : ∀ k : BitVec 3, k.toNat < ys.length →
      q.inDataBuf k = 0#64) : Stands pk (q.next i) ys := by
  have hx : i.flitIn = some x := by
    rw [Regs.taken] at ht
    split at ht
    · exact ht
    · cases ht
  have hbuf : ∀ k : BitVec 3, ys.length ≤ k.toNat →
      q.inDataBufNext i k = layout pk.payload k := by
    intro k hk
    rw [inDataBufNext_acceptData hstate hx, hrem]
    rcases Nat.eq_or_lt_of_le hk with hk | hk
    · rw [if_pos hk.symm, layout_of_suffix hsuffix hk.symm]
    · rw [if_neg (by omega), habove k hk]
  cases ys with
  | nil =>
    have hzero : q.remainingFlits = 0#8 := BitVec.eq_of_toNat_eq hrem
    have hnext : q.next i =
        { q with
          inDataBuf := q.inDataBufNext i
          state := .send
          remainingFlits := 0#8 } := by
      simp only [Regs.next, hstate, ht, if_pos hzero]
    rw [hnext]
    exact .send rfl hheader fun k => hbuf k (Nat.zero_le _)
  | cons y zs =>
    have hne : q.remainingFlits ≠ 0#8 := by
      intro h0
      rw [h0] at hrem
      cases hrem
    have hnext : q.next i =
        { q with
          inDataBuf := q.inDataBufNext i
          remainingFlits := q.remainingFlits - 1#8 } := by
      simp only [Regs.next, hstate, ht, if_neg hne]
    rw [List.length_cons] at hrem hbuf hbelow
    rw [hnext]
    refine .acceptData y zs hstate hheader ?_ ?_ ?_ ?_
    · exact (List.suffix_cons x _).trans hsuffix
    · show (q.remainingFlits - 1#8).toNat = zs.length
      bv_omega
    · exact fun k hk => hbuf k hk
    · intro k hk
      show q.inDataBufNext i k = 0#64
      rw [inDataBufNext_acceptData hstate hx, if_neg (by omega)]
      exact hbelow k (by omega)

/-- A cycle in which no flit is taken and the request is not given out. -/
theorem next_of_wait (ht : q.taken i = none)
    (hout : ¬ (q.outVal && i.outRdy) = true) :
    q.next i = { q with inDataBuf := q.inDataBufNext i } := by
  cases hstate : q.state with
  | send =>
    have hrdy : i.outRdy = false := by
      simpa [Regs.outVal, hstate] using hout
    simp [Regs.next, hstate, hrdy]
  | _ => simp only [Regs.next, hstate, ht]

theorem Stands.wait (h : Stands pk q fs) (ht : q.taken i = none)
    (hout : ¬ (q.outVal && i.outRdy) = true) : Stands pk (q.next i) fs := by
  rw [next_of_wait ht hout]
  have hkeep (hdata : q.state ≠ .acceptData) (hsend : q.state ≠ .send)
      (hbuf : ∀ k, q.inDataBuf k = 0#64) : ∀ k, q.inDataBufNext i k = 0#64 :=
    fun k => (inDataBufNext_of_ne hdata hsend k).trans (hbuf k)
  cases h with
  | acceptW1 hstate hbuf =>
    exact .acceptW1 hstate (hkeep (by simp [hstate]) (by simp [hstate]) hbuf)
  | acceptW2 hstate hw1 hrem hbuf =>
    exact .acceptW2 hstate hw1 hrem
      (hkeep (by simp [hstate]) (by simp [hstate]) hbuf)
  | acceptW3 hstate hw1 hw2 hrem hbuf =>
    exact .acceptW3 hstate hw1 hw2 hrem
      (hkeep (by simp [hstate]) (by simp [hstate]) hbuf)
  | acceptData x ys hstate hheader hsuffix hrem habove hbelow =>
    refine .acceptData x ys hstate hheader hsuffix hrem ?_ ?_
    · intro k hk
      show q.inDataBufNext i k = layout pk.payload k
      rw [inDataBufNext_of_ne_remaining hstate (by omega), habove k hk]
    · intro k hk
      show q.inDataBufNext i k = 0#64
      rw [inDataBufNext_of_ne_remaining hstate (by omega), hbelow k hk]
  | send hstate hheader hbuf =>
    have hrdy : i.outRdy = false := by
      simpa [Regs.outVal, hstate] using hout
    refine .send hstate hheader fun k => ?_
    show q.inDataBufNext i k = _
    rw [Regs.inDataBufNext, hstate]
    simp [hrdy, hbuf k]

/-- In the state `acceptW1` with the flit that is taken. -/
theorem stands_w1 (ht : q.taken i = some pk.header.w1)
    (hstate : q.state = .acceptW1) (hbuf : ∀ k, q.inDataBuf k = 0#64) :
    Stands pk (q.next i) (pk.header.w2 :: pk.header.w3 :: pk.payload) := by
  have hlen := pk.length_eq
  have hle := pk.payload_le
  have hnext : q.next i =
      { q with
        inDataBuf := q.inDataBufNext i
        state := .acceptW2
        remainingFlits := MSG_LENGTH.get pk.header.w1 - 1#8
        pktW1 := pk.header.w1 } := by
    simp only [Regs.next, hstate, ht]
  rw [hnext]
  refine .acceptW2 rfl rfl ?_ fun k => ?_
  · rw [Chipset.payload] at hlen
    show (MSG_LENGTH.get pk.header.w1 - 1#8).toNat = _
    bv_omega
  · show q.inDataBufNext i k = 0#64
    rw [inDataBufNext_of_ne (by simp [hstate]) (by simp [hstate]), hbuf]

/-- In the state `acceptW2` with the flit that is taken. -/
theorem stands_w2 (ht : q.taken i = some pk.header.w2)
    (hstate : q.state = .acceptW2) (hw1 : q.pktW1 = pk.header.w1)
    (hrem : q.remainingFlits.toNat = pk.payload.length + 1)
    (hbuf : ∀ k, q.inDataBuf k = 0#64) :
    Stands pk (q.next i) (pk.header.w3 :: pk.payload) := by
  have hle := pk.payload_le
  have hnext : q.next i =
      { q with
        inDataBuf := q.inDataBufNext i
        state := .acceptW3
        remainingFlits := q.remainingFlits - 1#8
        pktW2 := pk.header.w2 } := by
    simp only [Regs.next, hstate, ht]
  rw [hnext]
  refine .acceptW3 rfl hw1 rfl ?_ fun k => ?_
  · show (q.remainingFlits - 1#8).toNat = _
    bv_omega
  · show q.inDataBufNext i k = 0#64
    rw [inDataBufNext_of_ne (by simp [hstate]) (by simp [hstate]), hbuf]

/-- In the state `acceptW3` with the flit that is taken. -/
theorem stands_w3 (ht : q.taken i = some pk.header.w3)
    (hstate : q.state = .acceptW3) (hw1 : q.pktW1 = pk.header.w1)
    (hw2 : q.pktW2 = pk.header.w2)
    (hrem : q.remainingFlits.toNat = pk.payload.length)
    (hbuf : ∀ k, q.inDataBuf k = 0#64) :
    Stands pk (q.next i) pk.payload := by
  have hkeep : ∀ k, q.inDataBufNext i k = 0#64 := fun k => by
    rw [inDataBufNext_of_ne (by simp [hstate]) (by simp [hstate]), hbuf]
  have hle := pk.payload_le
  have hpos := pk.payload_pos
  have hne : q.remainingFlits ≠ 0#8 := by
    intro h0
    rw [h0] at hrem
    rw [← hrem] at hpos
    exact Nat.lt_irrefl 0 hpos
  have hnext : q.next i =
      { q with
        inDataBuf := q.inDataBufNext i
        state := .acceptData
        remainingFlits := q.remainingFlits - 1#8
        pktW3 := pk.header.w3 } := by
    simp only [Regs.next, hstate, ht, if_neg hne]
  rw [hnext]
  cases hys : pk.payload with
  | nil => rw [hys] at hpos; cases hpos
  | cons y ys =>
    rw [hys, List.length_cons] at hrem hle
    refine .acceptData y ys rfl ?_ ?_ ?_ ?_ fun k _ => hkeep k
    · show (⟨q.pktW1, q.pktW2, pk.header.w3⟩ : Header) = pk.header
      rw [hw1, hw2]
    · exact hys.symm ▸ List.suffix_rfl
    · show (q.remainingFlits - 1#8).toNat = ys.length
      bv_omega
    · -- above the place of the first flit nothing is laid out
      intro k hk
      show q.inDataBufNext i k = layout pk.payload k
      rw [hkeep, layout_of_le]
      rw [hys, List.length_cons]
      exact hk

/-- A cycle in which the request is not given out. -/
theorem Stands.step (h : Stands pk q ((q.taken i).toList ++ fs))
    (hout : ¬ (q.outVal && i.outRdy) = true) : Stands pk (q.next i) fs := by
  cases ht : q.taken i with
  | none =>
    rw [ht] at h
    exact Stands.wait h ht hout
  | some x =>
    rw [ht, Option.toList_some, List.singleton_append] at h
    generalize hgs : x :: fs = gs at h
    cases h with
    | acceptW1 hstate hbuf =>
      obtain ⟨rfl, rfl⟩ := List.cons.inj hgs
      exact stands_w1 ht hstate hbuf
    | acceptW2 hstate hw1 hrem hbuf =>
      obtain ⟨rfl, rfl⟩ := List.cons.inj hgs
      exact stands_w2 ht hstate hw1 hrem hbuf
    | acceptW3 hstate hw1 hw2 hrem hbuf =>
      obtain ⟨rfl, rfl⟩ := List.cons.inj hgs
      exact stands_w3 ht hstate hw1 hw2 hrem hbuf
    | acceptData y ys hstate hheader hsuffix hrem habove hbelow =>
      obtain ⟨rfl, rfl⟩ := List.cons.inj hgs
      exact stands_data ht hstate hheader hsuffix hrem habove hbelow
    | send hstate hheader hbuf => cases hgs

/-- What is given out for the flits of a packet. -/
theorem Stands.deliver {ins : List In} {out : Header × Data}
    (h : Stands pk q fs) (hrun : Deser.deliver q ins = some (fs, out)) :
    out = (pk.header, Regs.concat (layout pk.payload)) := by
  induction ins generalizing q fs with
  | nil => cases hrun
  | cons i is ih =>
    rw [Deser.deliver] at hrun
    by_cases hout : (q.outVal && i.outRdy) = true
    · rw [if_pos hout] at hrun
      have hsend : q.state = .send := by
        simpa [Regs.outVal] using (Bool.and_eq_true_iff.1 hout).1
      cases h with
      | send hstate hheader hbuf =>
        cases hrun
        rw [hheader, Regs.dataOut, funext hbuf]
      | acceptW1 hstate _ => rw [hsend] at hstate; cases hstate
      | acceptW2 hstate _ _ _ => rw [hsend] at hstate; cases hstate
      | acceptW3 hstate _ _ _ _ => rw [hsend] at hstate; cases hstate
      | acceptData x ys hstate _ _ _ _ _ => rw [hsend] at hstate; cases hstate
    · rw [if_neg hout] at hrun
      obtain ⟨r, hr, hrs⟩ := Option.map_eq_some_iff.1 hrun
      cases hrs
      exact ih (h.step hout) hr

theorem next_inDataBuf : (q.next i).inDataBuf = q.inDataBufNext i := by
  rw [Regs.next]
  split
  · split <;> rfl
  · split <;> rfl
  · split
    · split <;> rfl
    · rfl
  · split
    · split <;> rfl
    · rfl
  · split <;> rfl

/-- The states `acceptData` and `send` are left with a clear buffer. -/
def Clear (q : Regs) : Prop :=
  q.state ≠ .acceptData → q.state ≠ .send → ∀ k, q.inDataBuf k = 0#64

theorem clear_step (h : Clear q) : Clear (q.next i) := by
  intro hdata hsend k
  rw [next_inDataBuf]
  by_cases hd : q.state = .acceptData
  · -- it is not left but for `send`
    exfalso
    cases ht : q.taken i with
    | none => exact hdata (by simp only [Regs.next, hd, ht])
    | some x =>
      by_cases h0 : q.remainingFlits = 0#8
      · exact hsend (by simp only [Regs.next, hd, ht, if_pos h0])
      · exact hdata (by simp only [Regs.next, hd, ht, if_neg h0])
  by_cases hs : q.state = .send
  · cases hrdy : i.outRdy
    · exact absurd (by simp [Regs.next, hs, hrdy]) hsend
    · simp [Regs.inDataBufNext, hs, hrdy]
  · rw [inDataBufNext_of_ne hd hs]
    exact h hd hs k

theorem clear_foldl (h : Clear q) (ins : List In) :
    Clear (ins.foldl Regs.next q) := by
  induction ins generalizing q with
  | nil => exact h
  | cons i is ih => exact ih (clear_step h)

/-- A packet that comes when the last request has been given out. -/
theorem deliver_eq {before ins : List In} {out : Header × Data}
    (hidle : (run before).state = .acceptW1)
    (h : deliver (run before) ins = some (pk.flits, out)) :
    out = (pk.header, Regs.concat (layout pk.payload)) := by
  have hclear : Clear (run before) := clear_foldl (fun _ _ _ => rfl) before
  refine Stands.deliver (.acceptW1 hidle ?_) h
  exact hclear (by simp [hidle]) (by simp [hidle])

end Deser

/-! ## The write -/

namespace Write

variable {p : Params}

/-- The write module and a memory.  An address and data that have been taken
wait for each other. -/
structure Sys where
  regs : Regs
  aw : Option (BitVec 64)
  w : Option (Data × BitVec 64)
  memory : Memory 64

/-- The address that waits after a cycle, if it is not used in it. -/
def Sys.awNext (s : Sys) (i : In) : Option (BitVec 64) :=
  if s.regs.awgo i then some s.regs.awaddr else s.aw

def Sys.wNext (s : Sys) (i : In) : Option (Data × BitVec 64) :=
  if s.regs.wgo i then some (s.regs.wdata, s.regs.wstrb) else s.w

def Sys.next (p : Params) (s : Sys) (i : In) : Sys :=
  match s.awNext i, s.wNext i with
  | some a, some d =>
    { regs := s.regs.next p i
      aw := none
      w := none
      memory := s.memory.write a d.2 d.1 }
  | aw, w => { s with regs := s.regs.next p i, aw := aw, w := w }

/-- The cycle without a request. -/
def In.quiet (i : In) : In := { i with req := none }

/-- A run with one request, which is offered in the first cycle and whose
data come in the second. -/
def Sys.store (p : Params) (s : Sys) (r : Header × Id) (d : Data)
    (i₀ i₁ : In) (is : List In) : Sys :=
  (is.map In.quiet).foldl (Sys.next p)
    ((s.next p { i₀ with req := some r }).next p { i₁ with reqData := d })

/-- The registers hold a request with its data. -/
structure Holds (p : Params) (h : Header) (d : Data) (q : Regs) : Prop where
  header : q.reqHeaderF = h
  data : q.reqDataF = d
  strb : q.strbBeforeOffset = strbBeforeOffset h
  offset : q.offset = Axi4Bridge.offset h MSG_TYPE_NC_STORE_REQ
  addr : q.addr = Axi4Bridge.addr p h

/-- The address, the data and the strobes of a store. -/
def line (p : Params) (h : Header) : BitVec 64 := lineAddr (addr p h)

def lanes (h : Header) (d : Data) : Data × BitVec 64 :=
  let o := (offset h MSG_TYPE_NC_STORE_REQ).toNat
  (d <<< (8 * o), strbBeforeOffset h <<< o)

def written (p : Params) (h : Header) (d : Data) (mem : Memory 64) :
    Memory 64 :=
  mem.write (line p h) (lanes h d).2 (lanes h d).1

/-- The states of a store from when its data have come. -/
inductive Stands (p : Params) (h : Header) (d : Data) (mem : Memory 64)
    (s : Sys) : Prop
  | prepReq (hstate : s.regs.reqState = .prepReq) (hholds : Holds p h d s.regs)
      (haw : s.aw = none) (hw : s.w = none) (hmem : s.memory = mem)
  | sentAw (hstate : s.regs.reqState = .sentAw) (hholds : Holds p h d s.regs)
      (haw : s.aw = some (line p h)) (hw : s.w = none)
      (hmem : s.memory = mem)
  | sentW (hstate : s.regs.reqState = .sentW) (hholds : Holds p h d s.regs)
      (haw : s.aw = none) (hw : s.w = some (lanes h d))
      (hmem : s.memory = mem)
  | idle (hstate : s.regs.reqState = .idle) (haw : s.aw = none)
      (hw : s.w = none) (hmem : s.memory = written p h d mem)

variable {s : Sys} {i : In} {h : Header} {d : Data} {mem : Memory 64}

/-- A request is held until it is sent. -/
theorem Holds.next {q : Regs} (hq : Holds p h d q)
    (hidle : q.reqState ≠ .idle) (hgot : q.reqState ≠ .gotReq)
    (hsent : q.sent i = false) : Holds p h d (q.next p i) := by
  have hheader : (q.next p i).reqHeaderF = q.reqHeaderF := by
    rw [Regs.next]
    cases hstate : q.reqState <;> simp_all
  have hdata : (q.next p i).reqDataF = q.reqDataF := by
    rw [Regs.next]
    cases hstate : q.reqState <;> simp_all
  have hold := hq.header
  exact
    { header := hheader.trans hold
      data := hdata.trans hq.data
      strb := congrArg strbBeforeOffset hold
      offset := congrArg (Axi4Bridge.offset · MSG_TYPE_NC_STORE_REQ) hold
      addr := congrArg (Axi4Bridge.addr p) hold }

theorem Holds.awaddr_eq {q : Regs} (hq : Holds p h d q) :
    q.awaddr = line p h := by
  rw [Regs.awaddr, hq.addr, line]

theorem Holds.lanes_eq {q : Regs} (hq : Holds p h d q) :
    (q.wdata, q.wstrb) = lanes h d := by
  rw [Regs.wdata, Regs.wstrb, hq.data, hq.strb, hq.offset, lanes]

/-- The address and the data meet. -/
theorem next_of_both {a : BitVec 64} {x : Data × BitVec 64}
    (ha : s.awNext i = some a) (hx : s.wNext i = some x) :
    s.next p i =
      { regs := s.regs.next p i
        aw := none
        w := none
        memory := s.memory.write a x.2 x.1 } := by
  rw [Sys.next, ha, hx]

theorem next_of_waits (hnone : s.awNext i = none ∨ s.wNext i = none) :
    s.next p i =
      { s with
        regs := s.regs.next p i
        aw := s.awNext i
        w := s.wNext i } := by
  rw [Sys.next]
  rcases hnone with hnone | hnone <;> rw [hnone]
  cases s.awNext i <;> rfl

/-- Nothing is on offer to the memory. -/
theorem next_of_not_valid (hav : s.regs.awvalid = false)
    (hwv : s.regs.wvalid = false) (haw : s.aw = none) (hw : s.w = none) :
    s.next p i = { s with regs := s.regs.next p i } := by
  have hawNext : s.awNext i = none := by
    simp [Sys.awNext, Regs.awgo, hav, haw]
  have hwNext : s.wNext i = none := by
    simp [Sys.wNext, Regs.wgo, hwv, hw]
  rw [next_of_waits (.inl hawNext), hawNext, hwNext, ← haw, ← hw]

theorem Stands.step (hs : Stands p h d mem s) :
    Stands p h d mem (s.next p i.quiet) := by
  cases hs with
  | prepReq hstate hholds haw hw hmem =>
    have hawgo : s.regs.awgo i.quiet = i.awready := by
      simp [Regs.awgo, Regs.awvalid, hstate, In.quiet]
    have hwgo : s.regs.wgo i.quiet = i.wready := by
      simp [Regs.wgo, Regs.wvalid, hstate, In.quiet]
    have hawNext : s.awNext i.quiet =
        if i.awready then some (line p h) else none := by
      rw [Sys.awNext, hawgo, hholds.awaddr_eq, haw]
    have hwNext : s.wNext i.quiet =
        if i.wready then some (lanes h d) else none := by
      rw [Sys.wNext, hwgo, hholds.lanes_eq, hw]
    have hkeep (hsent : (i.awready && i.wready) = false) :
        Holds p h d (s.regs.next p i.quiet) := by
      refine hholds.next (by simp [hstate]) (by simp [hstate]) ?_
      simp only [Regs.sent, hstate, hawgo, hwgo, hsent]
    have hreq : (s.regs.next p i.quiet).reqState =
        if i.awready && i.wready then .idle
        else if i.awready then .sentAw
        else if i.wready then .sentW else .prepReq := by
      simp only [Regs.next, hstate, hawgo, hwgo]
    cases ha : i.awready <;> cases hb : i.wready <;>
      simp only [ha, hb, if_true, Bool.false_eq_true, if_false,
        Bool.and_true, Bool.and_false] at hawNext hwNext hreq
    · rw [next_of_waits (.inl hawNext)]
      exact .prepReq hreq (hkeep (by simp [ha])) hawNext hwNext hmem
    · rw [next_of_waits (.inl hawNext)]
      exact .sentW hreq (hkeep (by simp [ha])) hawNext hwNext hmem
    · rw [next_of_waits (.inr hwNext)]
      exact .sentAw hreq (hkeep (by simp [hb])) hawNext hwNext hmem
    · rw [next_of_both hawNext hwNext]
      exact .idle hreq rfl rfl (by rw [hmem, written])
  | sentAw hstate hholds haw hw hmem =>
    have hawgo : s.regs.awgo i.quiet = false := by
      simp [Regs.awgo, Regs.awvalid, hstate]
    have hwgo : s.regs.wgo i.quiet = i.wready := by
      simp [Regs.wgo, Regs.wvalid, hstate, In.quiet]
    have hawNext : s.awNext i.quiet = some (line p h) := by
      rw [Sys.awNext, hawgo, if_neg Bool.false_ne_true, haw]
    have hwNext : s.wNext i.quiet =
        if i.wready then some (lanes h d) else none := by
      rw [Sys.wNext, hwgo, hholds.lanes_eq, hw]
    have hreq : (s.regs.next p i.quiet).reqState =
        if i.wready then .idle else .sentAw := by
      simp only [Regs.next, hstate, hwgo]
    cases hb : i.wready <;>
      simp only [hb, if_true, Bool.false_eq_true, if_false] at hwNext hreq
    · rw [next_of_waits (.inr hwNext)]
      refine .sentAw hreq (hholds.next ?_ ?_ ?_) hawNext hwNext hmem
      · simp [hstate]
      · simp [hstate]
      · simp only [Regs.sent, hstate, hwgo, hb]
    · rw [next_of_both hawNext hwNext]
      exact .idle hreq rfl rfl (by rw [hmem, written])
  | sentW hstate hholds haw hw hmem =>
    have hawgo : s.regs.awgo i.quiet = i.awready := by
      simp [Regs.awgo, Regs.awvalid, hstate, In.quiet]
    have hwgo : s.regs.wgo i.quiet = false := by
      simp [Regs.wgo, Regs.wvalid, hstate]
    have hawNext : s.awNext i.quiet =
        if i.awready then some (line p h) else none := by
      rw [Sys.awNext, hawgo, hholds.awaddr_eq, haw]
    have hwNext : s.wNext i.quiet = some (lanes h d) := by
      rw [Sys.wNext, hwgo, if_neg Bool.false_ne_true, hw]
    have hreq : (s.regs.next p i.quiet).reqState =
        if i.awready then .idle else .sentW := by
      simp only [Regs.next, hstate, hawgo]
    cases ha : i.awready <;>
      simp only [ha, if_true, Bool.false_eq_true, if_false] at hawNext hreq
    · rw [next_of_waits (.inl hawNext)]
      refine .sentW hreq (hholds.next ?_ ?_ ?_) hawNext hwNext hmem
      · simp [hstate]
      · simp [hstate]
      · simp only [Regs.sent, hstate, hawgo, ha]
    · rw [next_of_both hawNext hwNext]
      exact .idle hreq rfl rfl (by rw [hmem, written])
  | idle hstate haw hw hmem =>
    have hav : s.regs.awvalid = false := by simp [Regs.awvalid, hstate]
    have hwv : s.regs.wvalid = false := by simp [Regs.wvalid, hstate]
    rw [next_of_not_valid hav hwv haw hw]
    refine .idle ?_ haw hw hmem
    simp [Regs.next, hstate, In.quiet]

theorem Stands.foldl (hs : Stands p h d mem s) (is : List In) :
    Stands p h d mem ((is.map In.quiet).foldl (Sys.next p) s) := by
  induction is generalizing s with
  | nil => exact hs
  | cons i is ih => exact ih hs.step

/-- The request and its data have come. -/
theorem stands_prepReq {r : Header × Id} {i₀ i₁ : In}
    (hidle : s.regs.reqState = .idle) (haw : s.aw = none) (hw : s.w = none) :
    Stands p r.1 d s.memory ((s.next p { i₀ with req := some r }).next p
      { i₁ with reqData := d }) := by
  have hav : s.regs.awvalid = false := by simp [Regs.awvalid, hidle]
  have hwv : s.regs.wvalid = false := by simp [Regs.wvalid, hidle]
  rw [next_of_not_valid hav hwv haw hw]
  have hgot : (s.regs.next p { i₀ with req := some r }).reqState =
      .gotReq := by
    simp [Regs.next, hidle]
  have hheader : (s.regs.next p { i₀ with req := some r }).reqHeaderF =
      r.1 := by
    simp [Regs.next, hidle]
  generalize s.regs.next p { i₀ with req := some r } = q at hgot hheader
  have hav₁ : q.awvalid = false := by simp [Regs.awvalid, hgot]
  have hwv₁ : q.wvalid = false := by simp [Regs.wvalid, hgot]
  rw [next_of_not_valid (s := { s with regs := q }) hav₁ hwv₁ haw hw]
  refine .prepReq ?_ ?_ haw hw rfl
  · simp [Regs.next, hgot]
  · exact
      { header := by simp [Regs.next, hgot, hheader, Regs.sent]
        data := by simp [Regs.next, hgot]
        strb := congrArg strbBeforeOffset hheader
        offset := congrArg (offset · MSG_TYPE_NC_STORE_REQ) hheader
        addr := congrArg (addr p) hheader }

/-- The memory after a store that has been sent. -/
theorem store_memory {r : Header × Id} {i₀ i₁ : In} {is : List In}
    (hidle : s.regs.reqState = .idle) (haw : s.aw = none) (hw : s.w = none)
    (hdone : (s.store p r d i₀ i₁ is).regs.reqState = .idle) :
    (s.store p r d i₀ i₁ is).memory = written p r.1 d s.memory := by
  have hs : Stands p r.1 d s.memory (s.store p r d i₀ i₁ is) :=
    (stands_prepReq hidle haw hw).foldl is
  cases hs with
  | idle _ _ _ hmem => exact hmem
  | prepReq hstate _ _ _ _ => rw [hdone] at hstate; cases hstate
  | sentAw hstate _ _ _ _ => rw [hdone] at hstate; cases hstate
  | sentW hstate _ _ _ _ => rw [hdone] at hstate; cases hstate

end Write

end ArianeSoc.Chipset.Axi4Bridge
