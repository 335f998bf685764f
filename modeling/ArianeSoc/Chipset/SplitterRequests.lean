import ArianeSoc.Chipset.MemIoSplitter
import ArianeSoc.Framing

/-!
# What the splitter does with requests

The address flit of a request says where it goes, and the header is before
it.  `routed` is the stream of NoC2 with the destination of its packet at
every flit; `Inv` says how far it has got, which of it is in the two buffers
and that a header without its address waits in the last one.
-/

namespace ArianeSoc.Chipset.MemIoSplitter

open Noc (Flit)

/-! ## Where a packet goes -/

section Routed

variable (cfg : Config)

/-- The destination of a packet, if its address has come in. -/
def destOf : List Beat → Side
  | _ :: a :: _ => destNext cfg a.uartBootEn a.data
  | _ => .inval

def routePacket (p : List Beat) : List (Side × Flit) :=
  p.map fun b => (destOf cfg p, b.data)

/-- The flits of a stream of packets with their destinations. -/
def routed (accepted : List Beat) : List (Side × Flit) :=
  (Framing.packets Beat.payload accepted).flatMap (routePacket cfg)

end Routed

variable {cfg : Config} {s : Noc2} {i : In} {cur before : List Beat}

theorem destNext_ne_inval (cfg : Config) (uartBootEn : Bool) (data : Flit) :
    destNext cfg uartBootEn data ≠ .inval := by
  cases cfg with
  | noMc => exact Side.noConfusion
  | emulated | bramTest | proto =>
    simp only [destNext]
    split_ifs <;> exact Side.noConfusion

theorem routed_append (hw : Framing.Whole Beat.payload before)
    (cur : List Beat) :
    routed cfg (before ++ cur) = routed cfg before ++ routed cfg cur := by
  unfold routed
  rw [Framing.packets_append hw, List.flatMap_append]

theorem routed_of_le {h : Beat} {bs : List Beat}
    (hle : bs.length ≤ h.payload) :
    routed cfg (h :: bs) = routePacket cfg (h :: bs) := by
  unfold routed
  rw [Framing.packets_of_le hle, List.flatMap_singleton]

/-! ## The parser -/

/-- The parser is behind the flits `cur` of a packet. -/
def Parsed (st : MsgState) (counter : BitVec 8) (cur : List Beat) : Prop :=
  match st with
  | .inval => cur = []
  | .header0 => ∃ h, cur = [h] ∧ h.payload = counter.toNat ∧ 2 ≤ h.payload
  | .header1 => ∃ h a, cur = [h, a] ∧ h.payload = counter.toNat + 1 ∧
      2 ≤ h.payload
  | .header2 => ∃ h a b, cur = [h, a, b] ∧ h.payload = counter.toNat + 2
  | .data => ∃ h a b bs, cur = h :: a :: b :: bs ∧
      h.payload = counter.toNat + 2 + bs.length

theorem Parsed.length_le {st : MsgState} {counter : BitVec 8}
    (h : Parsed st counter cur) :
    cur = [] ∨ ∃ b bs, cur = b :: bs ∧ bs.length ≤ b.payload := by
  cases st with
  | inval => exact .inl h
  | header0 =>
    obtain ⟨b, rfl, -, -⟩ := h
    exact .inr ⟨b, [], rfl, Nat.zero_le _⟩
  | header1 =>
    obtain ⟨b, a, rfl, hlen, -⟩ := h
    refine .inr ⟨b, [a], rfl, ?_⟩
    rw [List.length_singleton]
    omega
  | header2 =>
    obtain ⟨b, a, b', rfl, hlen⟩ := h
    refine .inr ⟨b, [a, b'], rfl, ?_⟩
    rw [hlen]
    exact Nat.le_add_left 2 _
  | data =>
    obtain ⟨b, a, b', bs, rfl, hlen⟩ := h
    refine .inr ⟨b, a :: b' :: bs, rfl, ?_⟩
    rw [List.length_cons, List.length_cons]
    omega

/-- Where a header is due, the packet before it is whole. -/
theorem Parsed.whole (h : Parsed s.msgStateF s.msgCounterF cur)
    (hnext : s.msgStateNext = .header0) :
    cur = [] ∨ ∃ b bs, cur = b :: bs ∧ bs.length = b.payload := by
  unfold Noc2.msgStateNext at hnext
  unfold Parsed at h
  cases hst : s.msgStateF with
  | inval =>
    rw [hst] at h
    exact .inl h
  | header0 => simp [hst] at hnext
  | header1 => simp [hst] at hnext
  | header2 =>
    rw [hst] at h
    obtain ⟨b, a, b', rfl, hlen⟩ := h
    have hzero : s.msgCounterF = 0#8 := by simpa [hst] using hnext
    refine .inr ⟨b, [a, b'], rfl, ?_⟩
    rw [hlen, hzero]
    rfl
  | data =>
    rw [hst] at h
    obtain ⟨b, a, b', bs, rfl, hlen⟩ := h
    have hzero : s.msgCounterF = 0#8 := by simpa [hst] using hnext
    refine .inr ⟨b, a :: b' :: bs, rfl, ?_⟩
    rw [hlen, hzero, BitVec.toNat_ofNat, List.length_cons, List.length_cons]
    omega

theorem msgStateNext_cases (s : Noc2) :
    s.msgStateNext = .header0 ∨
      s.msgStateF = .header0 ∧ s.msgStateNext = .header1 ∨
      s.msgStateF = .header1 ∧ s.msgStateNext = .header2 ∨
      (s.msgStateF = .header2 ∨ s.msgStateF = .data) ∧
        s.msgCounterF ≠ 0#8 ∧ s.msgStateNext = .data := by
  unfold Noc2.msgStateNext
  by_cases hz : s.msgCounterF = 0#8 <;> cases s.msgStateF <;> simp [hz]

theorem msgStateNext_ne_inval (s : Noc2) : s.msgStateNext ≠ .inval := by
  rcases msgStateNext_cases s with h | ⟨-, h⟩ | ⟨-, h⟩ | ⟨-, -, h⟩ <;>
    rw [h] <;> exact MsgState.noConfusion

/-- A counter that is not zero can be counted down. -/
theorem toNat_pred {c : BitVec 8} (h : 0 < c.toNat) :
    (c - 1#8).toNat + 1 = c.toNat := by
  have hlt := c.isLt
  rw [BitVec.toNat_sub]
  show (256 - 1 + c.toNat) % 256 + 1 = _
  omega

/-- The next flit of the packet. -/
theorem Parsed.next (h : Parsed s.msgStateF s.msgCounterF cur) (x : Beat)
    (hnext : s.msgStateNext ≠ .header0) :
    Parsed s.msgStateNext (s.msgCounterF - 1#8) (cur ++ [x]) := by
  unfold Parsed at h
  rcases msgStateNext_cases s with h0 | ⟨hst, hn⟩ | ⟨hst, hn⟩ |
    ⟨hst, hpos, hn⟩
  · exact absurd h0 hnext
  · rw [hst] at h
    obtain ⟨b, rfl, hlen, htwo⟩ := h
    have hpred := toNat_pred (c := s.msgCounterF) (by omega)
    rw [hn]
    exact ⟨b, x, rfl, by omega, htwo⟩
  · rw [hst] at h
    obtain ⟨b, a, rfl, hlen, htwo⟩ := h
    have hpred := toNat_pred (c := s.msgCounterF) (by omega)
    rw [hn]
    exact ⟨b, a, x, rfl, by omega⟩
  · have hne : s.msgCounterF.toNat ≠ 0 :=
      fun h0 => hpos (BitVec.eq_of_toNat_eq h0)
    have hpred := toNat_pred (Nat.pos_of_ne_zero hne)
    rw [hn]
    rcases hst with hst | hst <;> rw [hst] at h
    · obtain ⟨b, a, b', rfl, hlen⟩ := h
      refine ⟨b, a, b', [x], rfl, ?_⟩
      rw [List.length_singleton]
      omega
    · obtain ⟨b, a, b', bs, rfl, hlen⟩ := h
      refine ⟨b, a, b', bs ++ [x], rfl, ?_⟩
      rw [List.length_append, List.length_singleton]
      omega

/-! ## The buffers -/

/-- What the buffers hold, oldest first, with the destinations that are
known. -/
def Noc2.held (s : Noc2) : List (Side × Flit) :=
  (if s.buf1Val then [(s.rdyMuxSel, s.buf1DataF)] else []) ++
    if s.buf0Val then [(s.buf0DestF, s.buf0DataF)] else []

/-- The flits that I/O and memory take. -/
def Noc2.taken (s : Noc2) (i : In) : List (Side × Flit) :=
  (if s.outVal .io && i.ioRdy then [(.io, s.buf1DataF)] else []) ++
    if s.outVal .mem && i.memRdy then [(.mem, s.buf1DataF)] else []

/-- The flit that comes in from NoC2. -/
def Noc2.arrives (s : Noc2) (i : In) : List Beat :=
  if s.go i then [⟨i.noc2Data, i.uartBootEn⟩] else []

/-- The flit in the last buffer leaves unless the buffer stalls. -/
theorem taken_eq : s.taken i =
    if s.buf1Val && !s.stallBuf1 i then [(s.rdyMuxSel, s.buf1DataF)]
    else [] := by
  unfold Noc2.taken Noc2.outVal Noc2.stallBuf1 Noc2.rdyMuxOut
  cases s.buf1Val
  · rfl
  · cases hsel : s.rdyMuxSel with
    | inval => rfl
    | io => cases i.ioRdy <;> rfl
    | mem => cases i.memRdy <;> rfl

theorem go_of_stallBuf1 (hgo : s.go i = true) (hs : s.stallBuf1 i = true) :
    s.buf0StateF = .inval := by
  simp only [Noc2.go, Noc2.rdy, Noc2.stallBuf0, hs, Noc2.buf0Val,
    Bool.true_and, Bool.and_eq_true, Bool.not_eq_true', decide_eq_false_iff_not,
    not_not] at hgo
  exact hgo.2

theorem buf1Val_of_stallBuf1 (hs : s.stallBuf1 i = true) :
    s.buf1StateF ≠ .inval := by
  simp only [Noc2.stallBuf1, Noc2.buf1Val, Bool.and_eq_true,
    decide_eq_true_iff] at hs
  exact hs.1

/-- Without a destination the last buffer stalls. -/
theorem stallBuf1_of_inval (hval : s.buf1StateF ≠ .inval)
    (hsel : s.rdyMuxSel = .inval) : s.stallBuf1 i = true := by
  simp [Noc2.stallBuf1, Noc2.buf1Val, Noc2.rdyMuxOut, hsel, hval]

/-- The requests with all that has come in and gone out. -/
structure Requests where
  regs : Noc2
  accepted : List Beat
  sent : List (Side × Flit)

namespace Requests

def reset : Requests := ⟨Noc2.reset, [], []⟩

def step (cfg : Config) (t : Requests) (i : In) : Requests where
  regs := t.regs.next cfg i
  accepted := t.accepted ++ t.regs.arrives i
  sent := t.sent ++ t.regs.taken i

/-- The packets before the one that is coming in are whole. -/
structure Inv (cfg : Config) (t : Requests) (before cur : List Beat) :
    Prop where
  whole : Framing.Whole Beat.payload before
  accepted : t.accepted = before ++ cur
  parsed : Parsed t.regs.msgStateF t.regs.msgCounterF cur
  /-- The first buffer is empty or holds the last flit that came in. -/
  buf0 : t.regs.buf0StateF = .inval ∨ t.regs.buf0StateF = t.regs.msgStateF
  dest : t.regs.buf0DestF = destOf cfg cur
  /-- What waits in the last buffer for its destination is the header of this
  packet. -/
  waits : t.regs.buf1StateF ≠ .inval → t.regs.buf1DestF = .inval →
    t.regs.buf0StateF = .inval ∧ t.regs.msgStateF = .header0 ∨
      t.regs.buf0StateF = .header1
  /-- A header that has left the first buffer waits in the last one. -/
  there : t.regs.msgStateF = .header0 → t.regs.buf0StateF = .inval →
    t.regs.buf1StateF ≠ .inval ∧ t.regs.buf1DestF = .inval
  routed : t.sent ++ t.regs.held = routed cfg before ++ routePacket cfg cur

theorem Inv.reset : Inv cfg Requests.reset [] [] where
  whole := .nil
  accepted := rfl
  parsed := rfl
  buf0 := .inl rfl
  dest := rfl
  waits := fun h => absurd rfl h
  there := fun h => absurd h MsgState.noConfusion
  routed := rfl

variable {t : Requests}

theorem Inv.routed_eq (h : Inv cfg t before cur) :
    MemIoSplitter.routed cfg t.accepted = t.sent ++ t.regs.held := by
  rw [h.accepted, routed_append h.whole, h.routed]
  rcases h.parsed.length_le with rfl | ⟨b, bs, rfl, hle⟩
  · rfl
  · rw [routed_of_le hle]

/-! ## One cycle -/

/-- Unless the flit that comes in is an address, it goes behind what the
buffers hold. -/
theorem Inv.held_step (h : Inv cfg t before cur)
    (hnot : t.regs.go i = true → t.regs.msgStateNext ≠ .header1) :
    t.regs.taken i ++ (t.regs.next cfg i).held = t.regs.held ++
      (t.regs.arrives i).map fun b =>
        ((t.regs.next cfg i).buf0DestF, b.data) := by
  have hne := msgStateNext_ne_inval t.regs
  rw [taken_eq]
  cases hs : t.regs.stallBuf1 i with
  | true =>
    have hval := buf1Val_of_stallBuf1 hs
    cases hgo : t.regs.go i with
    | true =>
      have hempty := go_of_stallBuf1 hgo hs
      -- a header that waits would get its address
      have hdest : t.regs.buf1DestF ≠ .inval := by
        intro hinval
        rcases h.waits hval hinval with ⟨-, hst⟩ | hst
        · have hn := hnot hgo
          simp [Noc2.msgStateNext, hst] at hn
        · rw [hempty] at hst
          exact MsgState.noConfusion hst
      simp [Noc2.held, Noc2.arrives, Noc2.next, Noc2.nextBuf0, Noc2.buf0Val,
        Noc2.buf1Val, Noc2.rdyMuxSel, Noc2.stallBuf0, hs, hgo, hempty, hval,
        hdest, hne]
    | false =>
      by_cases hempty : t.regs.buf0StateF = .inval
      · simp [Noc2.held, Noc2.arrives, Noc2.next, Noc2.nextBuf0,
          Noc2.buf0Val, Noc2.buf1Val, Noc2.rdyMuxSel, Noc2.stallBuf0, hs,
          hgo, hempty]
      · simp [Noc2.held, Noc2.arrives, Noc2.next, Noc2.nextBuf0,
          Noc2.buf0Val, Noc2.stallBuf0, hs, hgo, hempty]
  | false =>
    cases hgo : t.regs.go i with
    | true =>
      have hn := hnot hgo
      by_cases hempty : t.regs.buf0StateF = .inval <;>
        simp [Noc2.held, Noc2.arrives, Noc2.next, Noc2.nextBuf0,
          Noc2.buf0Val, Noc2.buf1Val, Noc2.rdyMuxSel, Noc2.stallBuf0, hs,
          hgo, hempty, hne, hn]
      exact Eq.symm
    | false =>
      by_cases hempty : t.regs.buf0StateF = .inval <;>
        simp [Noc2.held, Noc2.arrives, Noc2.next, Noc2.nextBuf0,
          Noc2.buf0Val, Noc2.buf1Val, Noc2.rdyMuxSel, Noc2.stallBuf0, hs,
          hgo, hempty]
      exact Eq.symm

/-- An address that comes in is behind its header, and now both have a
destination. -/
theorem Inv.held_header1 (h : Inv cfg t before cur)
    (hst : t.regs.msgStateF = .header0) (hgo : t.regs.go i = true) :
    ∃ pre x, t.regs.held = pre ++ [(.inval, x)] ∧
      t.regs.taken i ++ (t.regs.next cfg i).held =
        pre ++ [(destNext cfg i.uartBootEn i.noc2Data, x),
          (destNext cfg i.uartBootEn i.noc2Data, i.noc2Data)] := by
  have hnext : t.regs.msgStateNext = .header1 := by
    simp [Noc2.msgStateNext, hst]
  have hne := destNext_ne_inval cfg i.uartBootEn i.noc2Data
  have hparsed := h.parsed
  rw [hst] at hparsed
  obtain ⟨b, rfl, -, -⟩ := hparsed
  have hdest : t.regs.buf0DestF = .inval := h.dest
  rw [taken_eq]
  by_cases hempty : t.regs.buf0StateF = .inval
  · obtain ⟨hval, hinval⟩ := h.there hst hempty
    have hs : t.regs.stallBuf1 i = true :=
      stallBuf1_of_inval hval (by simp [Noc2.rdyMuxSel, hinval, hempty])
    refine ⟨[], t.regs.buf1DataF, ?_, ?_⟩
    · simp [Noc2.held, Noc2.buf0Val, Noc2.buf1Val, Noc2.rdyMuxSel, hempty,
        hval, hinval]
    · simp [Noc2.held, Noc2.next, Noc2.nextBuf0, Noc2.buf0Val, Noc2.buf1Val,
        Noc2.rdyMuxSel, Noc2.stallBuf0, hs, hgo, hempty, hval, hinval,
        hnext]
  · have hs : t.regs.stallBuf1 i = false := by
      refine Bool.eq_false_iff.mpr fun hs => ?_
      exact hempty (go_of_stallBuf1 hgo hs)
    refine ⟨if t.regs.buf1Val then [(t.regs.rdyMuxSel, t.regs.buf1DataF)]
      else [], t.regs.buf0DataF, ?_, ?_⟩
    · simp [Noc2.held, Noc2.buf0Val, hempty, hdest]
    · simp [Noc2.held, Noc2.next, Noc2.nextBuf0, Noc2.buf0Val, Noc2.buf1Val,
        Noc2.rdyMuxSel, Noc2.stallBuf0, hs, hgo, hempty, hnext, hdest]

/-- What the first buffer and the parser have behind a cycle. -/
theorem Inv.next_buf0 (h : Inv cfg t before cur) :
    (t.regs.next cfg i).buf0StateF = .inval ∨
      (t.regs.next cfg i).buf0StateF = (t.regs.next cfg i).msgStateF := by
  have hbuf0 := h.buf0
  cases hs0 : t.regs.stallBuf0 i with
  | true =>
    have hs : t.regs.stallBuf1 i = true := by
      simp only [Noc2.stallBuf0, Bool.and_eq_true] at hs0
      exact hs0.1
    simpa [Noc2.next, Noc2.nextBuf0, hs, hs0] using hbuf0
  | false =>
    cases hs : t.regs.stallBuf1 i <;> cases hgo : t.regs.go i <;>
      simp [Noc2.next, Noc2.nextBuf0, hs, hs0, hgo]

theorem Inv.next_waits (h : Inv cfg t before cur)
    (hval : (t.regs.next cfg i).buf1StateF ≠ .inval)
    (hinval : (t.regs.next cfg i).buf1DestF = .inval) :
    (t.regs.next cfg i).buf0StateF = .inval ∧
        (t.regs.next cfg i).msgStateF = .header0 ∨
      (t.regs.next cfg i).buf0StateF = .header1 := by
  -- behind a header comes the address
  have haddr : t.regs.msgStateF = .header0 →
      t.regs.msgStateNext = .header1 := by
    intro hst
    simp [Noc2.msgStateNext, hst]
  cases hs : t.regs.stallBuf1 i with
  | true =>
    have hval' := buf1Val_of_stallBuf1 hs
    have hinval' : t.regs.buf1DestF = .inval := by
      cases hs0 : t.regs.stallBuf0 i <;> cases hgo : t.regs.go i <;>
        simpa [Noc2.next, Noc2.nextBuf0, hs, hs0, hgo] using hinval
    have hwaits := h.waits hval' hinval'
    cases hgo : t.regs.go i with
    | true =>
      have hempty := go_of_stallBuf1 hgo hs
      rcases hwaits with ⟨-, hst⟩ | hst
      · refine .inr ?_
        simp [Noc2.next, Noc2.nextBuf0, Noc2.stallBuf0, Noc2.buf0Val, hs,
          hgo, hempty, haddr hst]
      · rw [hempty] at hst
        exact absurd hst MsgState.noConfusion
    | false =>
      by_cases hempty : t.regs.buf0StateF = .inval
      · simpa [Noc2.next, Noc2.nextBuf0, Noc2.stallBuf0, Noc2.buf0Val, hs,
          hgo, hempty] using hwaits
      · simpa [Noc2.next, Noc2.nextBuf0, Noc2.stallBuf0, Noc2.buf0Val, hs,
          hgo, hempty] using hwaits
  | false =>
    have hnext : (t.regs.next cfg i).buf1StateF = t.regs.buf0StateF ∧
        (t.regs.next cfg i).buf1DestF = t.regs.buf0DestF := by
      simp [Noc2.next, hs]
    rw [hnext.1] at hval
    rw [hnext.2, h.dest] at hinval
    have hst : t.regs.msgStateF = .header0 := by
      have hbuf0 := h.buf0.resolve_left hval
      have hparsed := h.parsed
      cases hm : t.regs.msgStateF with
      | inval => exact absurd (hbuf0.trans hm) hval
      | header0 => rfl
      | header1 | header2 | data =>
        rw [hm] at hparsed
        first
          | obtain ⟨b, a, rfl, -⟩ := hparsed
            exact absurd hinval (destNext_ne_inval _ _ _)
          | obtain ⟨b, a, b', rfl, -⟩ := hparsed
            exact absurd hinval (destNext_ne_inval _ _ _)
          | obtain ⟨b, a, b', bs, rfl, -⟩ := hparsed
            exact absurd hinval (destNext_ne_inval _ _ _)
    cases hgo : t.regs.go i with
    | true =>
      refine .inr ?_
      simp [Noc2.next, Noc2.nextBuf0, Noc2.stallBuf0, hs, hgo, haddr hst]
    | false =>
      refine .inl ?_
      simp [Noc2.next, Noc2.nextBuf0, Noc2.stallBuf0, hs, hgo, hst]

theorem Inv.next_there (h : Inv cfg t before cur)
    (hst : (t.regs.next cfg i).msgStateF = .header0)
    (hempty : (t.regs.next cfg i).buf0StateF = .inval) :
    (t.regs.next cfg i).buf1StateF ≠ .inval ∧
      (t.regs.next cfg i).buf1DestF = .inval := by
  have hne := msgStateNext_ne_inval t.regs
  cases hgo : t.regs.go i with
  | true =>
    have hs0 : t.regs.stallBuf0 i = false := by
      simp only [Noc2.go, Noc2.rdy, Bool.and_eq_true, Bool.not_eq_true'] at hgo
      exact hgo.2
    refine absurd hempty ?_
    cases hs : t.regs.stallBuf1 i <;>
      simpa [Noc2.next, Noc2.nextBuf0, hs, hs0, hgo] using hne
  | false =>
    have hst' : t.regs.msgStateF = .header0 := by
      cases hs : t.regs.stallBuf1 i <;> cases hs0 : t.regs.stallBuf0 i <;>
        simpa [Noc2.next, Noc2.nextBuf0, hs, hs0, hgo] using hst
    cases hs : t.regs.stallBuf1 i with
    | true =>
      have hempty' : t.regs.buf0StateF = .inval := by
        by_contra hfull
        simp [Noc2.next, Noc2.nextBuf0, Noc2.stallBuf0, Noc2.buf0Val, hs,
          hfull] at hempty
      have hthere := h.there hst' hempty'
      simpa [Noc2.next, Noc2.nextBuf0, Noc2.stallBuf0, Noc2.buf0Val, hs,
        hgo, hempty'] using hthere
    | false =>
      have hfull : t.regs.buf0StateF ≠ .inval := by
        intro hempty'
        obtain ⟨hval, hinval⟩ := h.there hst' hempty'
        have hstall := stallBuf1_of_inval (i := i) hval
          (by simp [Noc2.rdyMuxSel, hinval, hempty'])
        exact Bool.noConfusion (hstall.symm.trans hs)
      have hdest : t.regs.buf0DestF = .inval := by
        have hparsed := h.parsed
        rw [hst'] at hparsed
        obtain ⟨b, rfl, -, -⟩ := hparsed
        exact h.dest
      simpa [Noc2.next, hs] using ⟨hfull, hdest⟩

/-- The parser behind a flit. -/
theorem next_of_go (cfg : Config) (hgo : s.go i = true) :
    (s.next cfg i).msgStateF = s.msgStateNext ∧
      (s.next cfg i).msgCounterF =
        (if s.msgStateNext = .header0 then MSG_LENGTH.get i.noc2Data
        else s.msgCounterF - 1#8) ∧
      (s.next cfg i).buf0DestF =
        (if s.msgStateNext = .header0 then .inval
        else if s.msgStateNext = .header1 then
          destNext cfg i.uartBootEn i.noc2Data
        else s.buf0DestF) := by
  have hs0 : s.stallBuf0 i = false := by
    simp only [Noc2.go, Noc2.rdy, Bool.and_eq_true, Bool.not_eq_true'] at hgo
    exact hgo.2
  cases hs : s.stallBuf1 i <;>
    simp [Noc2.next, Noc2.nextBuf0, hs, hs0, hgo]

/-- The parser where no flit comes in. -/
theorem next_of_not_go (cfg : Config) (hgo : s.go i = false) :
    (s.next cfg i).msgStateF = s.msgStateF ∧
      (s.next cfg i).msgCounterF = s.msgCounterF ∧
      (s.next cfg i).buf0DestF = s.buf0DestF := by
  cases hs : s.stallBuf1 i <;> cases hs0 : s.stallBuf0 i <;>
    simp [Noc2.next, Noc2.nextBuf0, hs, hs0, hgo]

theorem Inv.step_of_not_go (h : Inv cfg t before cur)
    (hgo : t.regs.go i = false) : Inv cfg (t.step cfg i) before cur := by
  obtain ⟨hst, hcounter, hdest⟩ := next_of_not_go cfg hgo
  have hnone : t.regs.arrives i = [] := by simp [Noc2.arrives, hgo]
  have hheld := h.held_step (i := i)
    fun hgo' => Bool.noConfusion (hgo'.symm.trans hgo)
  rw [hnone, List.map_nil, List.append_nil] at hheld
  refine ⟨h.whole, ?_, ?_, h.next_buf0, hdest.trans h.dest, h.next_waits,
    h.next_there, ?_⟩
  · show t.accepted ++ t.regs.arrives i = _
    rw [hnone, h.accepted, List.append_nil]
  · show Parsed (t.regs.next cfg i).msgStateF _ _
    rw [hst]
    show Parsed _ (t.regs.next cfg i).msgCounterF _
    rw [hcounter]
    exact h.parsed
  · show t.sent ++ t.regs.taken i ++ _ = _
    rw [List.append_assoc, ← h.routed]
    exact congrArg (t.sent ++ ·) hheld

/-- The address gives the header and itself their destination. -/
theorem Inv.address (h : Inv cfg t before cur) (hgo : t.regs.go i = true)
    (haddr : t.regs.msgStateNext = .header1)
    (hdest : (t.regs.next cfg i).buf0DestF =
      destNext cfg i.uartBootEn i.noc2Data) :
    (t.regs.next cfg i).buf0DestF =
        destOf cfg (cur ++ [⟨i.noc2Data, i.uartBootEn⟩]) ∧
      t.sent ++ (t.regs.taken i ++ (t.regs.next cfg i).held) =
        MemIoSplitter.routed cfg before ++
          routePacket cfg (cur ++ [⟨i.noc2Data, i.uartBootEn⟩]) := by
  have hst : t.regs.msgStateF = .header0 := by
    rcases msgStateNext_cases t.regs with hn | ⟨hst, -⟩ | ⟨-, hn⟩ |
      ⟨-, -, hn⟩
    · exact absurd (hn.symm.trans haddr) MsgState.noConfusion
    · exact hst
    · exact absurd (hn.symm.trans haddr) MsgState.noConfusion
    · exact absurd (hn.symm.trans haddr) MsgState.noConfusion
  obtain ⟨pre, x, hheld, hnext⟩ := h.held_header1 hst hgo
  have hparsed := h.parsed
  rw [hst] at hparsed
  obtain ⟨b, rfl, -, -⟩ := hparsed
  refine ⟨hdest, ?_⟩
  have hrouted := h.routed
  rw [hheld, ← List.append_assoc] at hrouted
  obtain ⟨hpre, hx⟩ := List.append_inj' hrouted rfl
  have hxb : x = b.data := congrArg Prod.snd (List.cons.inj hx).1
  rw [hnext, ← List.append_assoc, hpre, hxb]
  rfl

/-- The flits behind the address go where the address says. -/
theorem Inv.payload_flit (h : Inv cfg t before cur)
    (hgo : t.regs.go i = true) (hhead : t.regs.msgStateNext ≠ .header0)
    (haddr : t.regs.msgStateNext ≠ .header1)
    (hdest : (t.regs.next cfg i).buf0DestF = t.regs.buf0DestF) :
    (t.regs.next cfg i).buf0DestF =
        destOf cfg (cur ++ [⟨i.noc2Data, i.uartBootEn⟩]) ∧
      t.sent ++ (t.regs.taken i ++ (t.regs.next cfg i).held) =
        MemIoSplitter.routed cfg before ++
          routePacket cfg (cur ++ [⟨i.noc2Data, i.uartBootEn⟩]) := by
  obtain ⟨b, a, bs, rfl⟩ : ∃ b a bs, cur = b :: a :: bs := by
    have hparsed := h.parsed
    unfold Parsed at hparsed
    rcases msgStateNext_cases t.regs with hn | ⟨-, hn⟩ | ⟨hst, -⟩ |
      ⟨hst | hst, -, -⟩
    · exact absurd hn hhead
    · exact absurd hn haddr
    · rw [hst] at hparsed
      obtain ⟨b, a, rfl, -⟩ := hparsed
      exact ⟨b, a, [], rfl⟩
    · rw [hst] at hparsed
      obtain ⟨b, a, b', rfl, -⟩ := hparsed
      exact ⟨b, a, [b'], rfl⟩
    · rw [hst] at hparsed
      obtain ⟨b, a, b', bs, rfl, -⟩ := hparsed
      exact ⟨b, a, b' :: bs, rfl⟩
  have hheld := h.held_step (i := i) fun _ => haddr
  have hone : t.regs.arrives i = [⟨i.noc2Data, i.uartBootEn⟩] := by
    simp [Noc2.arrives, hgo]
  refine ⟨hdest.trans h.dest, ?_⟩
  rw [hheld, ← List.append_assoc, h.routed, hone, hdest, h.dest]
  simp [routePacket, destOf]

/-- What a flit that comes in does to the packets. -/
theorem Inv.step_of_go (h : Inv cfg t before cur)
    (hgo : t.regs.go i = true)
    (hlen : Framing.Whole Beat.payload t.accepted → t.regs.go i = true →
      2 ≤ payload i.noc2Data) :
    ∃ before' cur', Inv cfg (t.step cfg i) before' cur' := by
  obtain ⟨hst, hcounter, hdest⟩ := next_of_go cfg hgo
  have hone : t.regs.arrives i = [⟨i.noc2Data, i.uartBootEn⟩] := by
    simp [Noc2.arrives, hgo]
  by_cases hhead : t.regs.msgStateNext = .header0
  · have hw : Framing.Whole Beat.payload (before ++ cur) := by
      rcases h.parsed.whole hhead with rfl | ⟨b, bs, rfl, hbs⟩
      · rw [List.append_nil]
        exact h.whole
      · exact h.whole.append (.packet hbs)
    have htwo := hlen (h.accepted ▸ hw) hgo
    rw [if_pos hhead] at hcounter hdest
    have hheld := h.held_step (i := i) fun _ => by
      rw [hhead]
      exact MsgState.noConfusion
    rw [hone, hdest] at hheld
    refine ⟨before ++ cur, [⟨i.noc2Data, i.uartBootEn⟩], hw, ?_, ?_,
      h.next_buf0, hdest, h.next_waits, h.next_there, ?_⟩
    · show t.accepted ++ t.regs.arrives i = _
      rw [hone, h.accepted]
    · show Parsed (t.regs.next cfg i).msgStateF
        (t.regs.next cfg i).msgCounterF _
      rw [hst, hhead, hcounter]
      exact ⟨_, rfl, rfl, htwo⟩
    · show t.sent ++ t.regs.taken i ++ _ = _
      rw [List.append_assoc, show (t.step cfg i).regs.held = _ from rfl]
      have hbefore : MemIoSplitter.routed cfg (before ++ cur) =
          t.sent ++ t.regs.held := by
        rw [← h.accepted]
        exact h.routed_eq
      rw [hbefore]
      exact (congrArg (t.sent ++ ·) hheld).trans
        (List.append_assoc _ _ _).symm
  · have hparsed := h.parsed.next ⟨i.noc2Data, i.uartBootEn⟩ hhead
    rw [if_neg hhead] at hcounter hdest
    obtain ⟨hdest', hrouted⟩ : (t.regs.next cfg i).buf0DestF =
          destOf cfg (cur ++ [⟨i.noc2Data, i.uartBootEn⟩]) ∧
        t.sent ++ (t.regs.taken i ++ (t.regs.next cfg i).held) =
          MemIoSplitter.routed cfg before ++
            routePacket cfg (cur ++ [⟨i.noc2Data, i.uartBootEn⟩]) := by
      by_cases haddr : t.regs.msgStateNext = .header1
      · rw [if_pos haddr] at hdest
        exact h.address hgo haddr hdest
      · rw [if_neg haddr] at hdest
        exact h.payload_flit hgo hhead haddr hdest
    refine ⟨before, cur ++ [(⟨i.noc2Data, i.uartBootEn⟩ : Beat)], h.whole,
      ?_, ?_, h.next_buf0, hdest', h.next_waits, h.next_there, ?_⟩
    · show t.accepted ++ t.regs.arrives i = _
      rw [hone, h.accepted, List.append_assoc]
    · show Parsed (t.regs.next cfg i).msgStateF
        (t.regs.next cfg i).msgCounterF _
      rw [hst, hcounter]
      exact hparsed
    · exact (List.append_assoc _ _ _).trans hrouted

theorem Inv.step (h : Inv cfg t before cur)
    (hlen : Framing.Whole Beat.payload t.accepted → t.regs.go i = true →
      2 ≤ payload i.noc2Data) :
    ∃ before' cur', Inv cfg (t.step cfg i) before' cur' := by
  cases hgo : t.regs.go i with
  | true => exact h.step_of_go hgo hlen
  | false => exact ⟨before, cur, h.step_of_not_go hgo⟩

end Requests

end ArianeSoc.Chipset.MemIoSplitter
