import ArianeSoc.Chipset.PacketFilter

/-!
# What the packet filter hands on

`portAt` is the port of an address in terms of the ranges of the devices,
`passed` the flits that a stream of packets should leave behind the filter.
`passed_eq` compares them with what has come out, in every state of a run:
what is missing is what the filter still `held`s.  `accepting_again` is
about unbounded runs.

Both leave out two inputs.  A packet of one flit goes out in the cycle in
which it comes in, if the crossbar is ready, and then it is the old content
of the buffer that goes out (`Fits.ready`); and the number of flits of a
packet of 256 flits overflows `flits_sent_reg` (`Fits.short`).
-/

namespace ArianeSoc.Chipset.PacketFilter

open Noc (Flit)

/-! ## The port of an address -/

/-- The address is in the range of the device. -/
def Device.Contains (d : Device) (a : BitVec 40) : Prop :=
  d.base.toNat ≤ a.toNat ∧ a.toNat < d.base.toNat + d.length.toNat

instance (d : Device) (a : BitVec 40) : Decidable (d.Contains a) :=
  inferInstanceAs (Decidable (_ ∧ _))

/-- The device answers to the address.  While the UART loads the memory only
some devices do. -/
def Device.Answers (uartBootEn : Bool) (a : BitVec 40) (d : Device) : Prop :=
  d.isOwn = true ∧ d.Contains a ∧
    (d.streamAccessible = true ∨ uartBootEn = false)

instance (uartBootEn : Bool) (a : BitVec 40) (d : Device) :
    Decidable (d.Answers uartBootEn a) :=
  inferInstanceAs (Decidable (_ ∧ _ ∧ _))

namespace AddrMap

variable (m : AddrMap)

/-- An address of no device belongs to the memory, on an FPGA only in the
ranges of the memory and of the virtual devices or while the UART loads
it. -/
def BelongsToMem (uartBootEn : Bool) (a : BitVec 40) : Prop :=
  m.strict = false ∨ uartBootEn = true ∨
    ∃ d ∈ m.devices, d.isOwn = false ∧ d.Contains a

instance (uartBootEn : Bool) (a : BitVec 40) :
    Decidable (m.BelongsToMem uartBootEn a) :=
  inferInstanceAs (Decidable (_ ∨ _ ∨ _))

/-- The port of the first device that answers, else that of the memory. -/
def portAt (uartBootEn : Bool) (a : BitVec 40) : Option (BitVec 8) :=
  match m.devices.find? fun d => d.Answers uartBootEn a with
  | some d => some d.portnum
  | none => if m.BelongsToMem uartBootEn a then some m.memPort else none

end AddrMap

variable {m : AddrMap} {uartBootEn : Bool} {a : BitVec 40}

theorem Device.inRange_iff (d : Device) :
    d.inRange a = true ↔ d.Contains a := by
  have hsum : (d.base + d.length).toNat = d.base.toNat + d.length.toNat := by
    rw [BitVec.toNat_add, Nat.mod_eq_of_lt d.fits]
  unfold Device.inRange Device.Contains
  rw [Bool.and_eq_true, decide_eq_true_iff, decide_eq_true_iff,
    BitVec.le_def, BitVec.lt_def, hsum]

theorem AddrMap.ownPort_eq : m.ownPort uartBootEn a =
    (m.devices.find? fun d => d.Answers uartBootEn a).map fun d =>
      d.portnum := by
  have hpred : ∀ d : Device, (d.isOwn &&
      (d.inRange a && (d.streamAccessible || !uartBootEn))) =
      decide (d.Answers uartBootEn a) := by
    intro d
    rw [Bool.eq_iff_iff, decide_eq_true_iff]
    simp only [Bool.and_eq_true, Bool.or_eq_true, Bool.not_eq_true',
      Device.inRange_iff, Device.Answers]
  unfold ownPort
  rw [List.find?_filter]
  congr 2
  funext d
  simpa using hpred d

theorem AddrMap.memAddrRange_iff : m.memAddrRange a = true ↔
    ∃ d ∈ m.devices, d.isOwn = false ∧ d.Contains a := by
  unfold memAddrRange
  simp only [List.any_eq_true, List.mem_filter, Bool.not_eq_true',
    Device.inRange_iff, and_assoc]

/-- The header that the filter makes of a request for memory. -/
theorem readdress_eq (flit0 data : Flit) :
    (readdress m uartBootEn flit0 data).1 =
      if isMemRequest flit0 then
        match m.portAt uartBootEn (MSG_ADDR_.get data) with
        | some portnum => MSG_DST_X.set portnum flit0
        | none => flit0
      else flit0 := by
  unfold readdress AddrMap.portAt
  rw [AddrMap.ownPort_eq]
  split
  · cases m.devices.find? _ with
    | some d => rfl
    | none =>
      have hmem : m.BelongsToMem uartBootEn (MSG_ADDR_.get data) ↔
          m.strict = false ∨
            (m.memAddrRange (MSG_ADDR_.get data) || uartBootEn) = true := by
        unfold AddrMap.BelongsToMem
        rw [Bool.or_eq_true, AddrMap.memAddrRange_iff, or_comm (b := _ = true)]
      dsimp only [Option.map_none]
      by_cases hb : m.BelongsToMem uartBootEn (MSG_ADDR_.get data)
      · rw [if_pos hb]
        rcases hmem.mp hb with hs | hr
        · rw [hs]
          rfl
        · rw [if_pos hr]
          split <;> rfl
      · rw [if_neg hb]
        have hnot := mt hmem.mpr hb
        rw [not_or] at hnot
        rw [if_pos (Bool.of_not_eq_false hnot.1), if_neg hnot.2]
  · rfl

/-- Where the UART does not load the memory, and the ranges do not overlap,
the port of an address is that of the device it belongs to. -/
theorem AddrMap.portAt_of_contains {d : Device} (hd : d ∈ m.devices)
    (hown : d.isOwn = true) (ha : d.Contains a)
    (honly : ∀ d' ∈ m.devices, d'.isOwn = true → d'.Contains a → d' = d) :
    m.portAt false a = some d.portnum := by
  unfold portAt
  cases hfind : m.devices.find? fun d => d.Answers false a with
  | none =>
    have hnot := List.find?_eq_none.mp hfind d hd
    have hans : d.Answers false a := ⟨hown, ha, .inr rfl⟩
    exact absurd hans (by simpa using hnot)
  | some d' =>
    have hans : d'.Answers false a := by
      simpa using List.find?_some hfind
    rw [honly d' (List.mem_of_find?_eq_some hfind) hans.1 hans.2.1]

/-! ## What should come out -/

section Passed

variable (m : AddrMap)

/-- The header `h` of a packet with the flit `b` behind it. -/
def readdressed (h b : Beat) : Flit :=
  if isMemRequest h.data then
    match m.portAt b.uartBootEn (MSG_ADDR_.get b.data) with
    | some portnum => MSG_DST_X.set portnum h.data
    | none => h.data
  else h.data

def passPacket : List Beat → List Flit
  | h :: b :: bs => readdressed m h b :: b.data :: bs.map Beat.data
  | p => p.map Beat.data

/-- The flits of a stream of packets behind the filter. -/
def passed (accepted : List Beat) : List Flit :=
  (Framing.packets Beat.payload accepted).flatMap (passPacket m)

end Passed

/-- The flits in the buffers that are still to go out. -/
def Regs.held (s : Regs) : List Flit :=
  match s.stateReg with
  | .IDLE => []
  | .ONLYHEADERFLIT | .ONEFLIT | .DRAINONE => [s.flitBuffer0Reg]
  | .TWOFLITS | .SENDING | .DRAINTWO =>
    [s.flitBuffer0Reg, s.flitBuffer1Reg]

/-- The filter with all that has come in and gone out. -/
structure Track where
  filter : Regs
  accepted : List Beat
  sent : List Flit

def Track.reset : Track := ⟨PacketFilter.reset, [], []⟩

def Track.step (m : AddrMap) (t : Track) (i : In) : Track where
  filter := (comb m t.filter i).next
  accepted := t.accepted ++
    if accepts m t.filter i then [⟨i.noc2FilterData, i.uartBootEn⟩] else []
  sent := t.sent ++
    if sends m t.filter i then [(comb m t.filter i).filterXbarData] else []

/-- The header that comes in, if one does, is none of those that the filter
does not pass on. -/
structure Fits (s : Regs) (i : In) : Prop where
  short : atHeader s i = true → i.noc2FilterVal = true →
    MSG_LENGTH.get i.noc2FilterData ≠ 255#8
  ready : atHeader s i = true → i.noc2FilterVal = true →
    MSG_LENGTH.get i.noc2FilterData = 0#8 → i.xbarFilterRdy = false

/-! ## The invariant -/

variable {t : Track} {i : In} {s : Regs}

theorem passed_append {xs : List Beat}
    (hw : Framing.Whole Beat.payload xs) (ys : List Beat) :
    passed m (xs ++ ys) = passed m xs ++ passed m ys := by
  unfold passed
  rw [Framing.packets_append hw, List.flatMap_append]

/-- A header and not more flits than it says. -/
theorem passed_of_le {h : Beat} {bs : List Beat}
    (hle : bs.length ≤ h.payload) :
    passed m (h :: bs) = passPacket m (h :: bs) := by
  unfold passed
  rw [Framing.packets_of_le hle, List.flatMap_singleton]

/-- The packet that is coming in, as far as it has. -/
def Shape (s : Regs) (cur : List Beat) : Prop :=
  match s.stateReg with
  | .IDLE => cur = []
  | .ONLYHEADERFLIT => ∃ h, cur = [h] ∧ h.payload = 0
  | .ONEFLIT => ∃ h, cur = [h] ∧ h.data = s.flitBuffer0Reg ∧
      h.payload = s.numFlitsReg.toNat ∧ 1 ≤ h.payload ∧ h.payload < 255
  | .TWOFLITS => ∃ h b, cur = [h, b] ∧
      h.payload = s.numFlitsReg.toNat ∧ 1 ≤ h.payload ∧ h.payload < 255
  | .SENDING => ∃ h b bs, cur = h :: b :: bs ∧
      h.payload = s.numFlitsReg.toNat ∧ h.payload < 255 ∧
      bs.length = s.flitsSentReg.toNat ∧ bs.length + 2 ≤ h.payload
  | .DRAINTWO | .DRAINONE => ∃ h b bs, cur = h :: b :: bs ∧
      bs.length + 1 = h.payload

/-- What has come in is a whole number of packets and the one that is
coming in; of what that makes, the buffers hold the end. -/
structure Inv (m : AddrMap) (t : Track) (before cur : List Beat) : Prop where
  whole : Framing.Whole Beat.payload before
  accepted : t.accepted = before ++ cur
  shape : Shape t.filter cur
  sent : t.sent ++ t.filter.held = passed m before ++ passPacket m cur

theorem Shape.length_le (h : Shape s cur) :
    cur = [] ∨ ∃ h bs, cur = h :: bs ∧ bs.length ≤ Beat.payload h := by
  unfold Shape at h
  cases hs : s.stateReg with
  | IDLE =>
    rw [hs] at h
    exact .inl h
  | ONLYHEADERFLIT =>
    rw [hs] at h
    obtain ⟨b, rfl, -⟩ := h
    exact .inr ⟨b, [], rfl, Nat.zero_le _⟩
  | ONEFLIT =>
    rw [hs] at h
    obtain ⟨b, rfl, -⟩ := h
    exact .inr ⟨b, [], rfl, Nat.zero_le _⟩
  | TWOFLITS =>
    rw [hs] at h
    obtain ⟨b, b', rfl, -, hone, -⟩ := h
    exact .inr ⟨b, [b'], rfl, hone⟩
  | SENDING =>
    rw [hs] at h
    obtain ⟨b, b', bs, rfl, -, -, -, hle⟩ := h
    refine .inr ⟨b, b' :: bs, rfl, ?_⟩
    rw [List.length_cons]
    omega
  | DRAINTWO | DRAINONE =>
    rw [hs] at h
    obtain ⟨b, b', bs, rfl, hle⟩ := h
    exact .inr ⟨b, b' :: bs, rfl, Nat.le_of_eq hle⟩

theorem Inv.passed_eq (h : Inv m t before cur) :
    passed m t.accepted = t.sent ++ t.filter.held := by
  rw [h.accepted, passed_append h.whole, h.sent]
  rcases h.shape.length_le with rfl | ⟨b, bs, rfl, hle⟩
  · rfl
  · rw [passed_of_le hle]

/-! ## One cycle -/

/-- What comes in. -/
def beats (m : AddrMap) (s : Regs) (i : In) : List Beat :=
  if accepts m s i then [⟨i.noc2FilterData, i.uartBootEn⟩] else []

/-- What goes out. -/
def flits (m : AddrMap) (s : Regs) (i : In) : List Flit :=
  if sends m s i then [(comb m s i).filterXbarData] else []

/-- The registers behind a header, or where none comes in. -/
theorem inv_takeHeader {w : List Beat} (hw : Framing.Whole Beat.payload w)
    (stateNext : State) {sent : List Flit} (hsent : sent = passed m w)
    (hidle : i.noc2FilterVal = false → stateNext = .IDLE)
    (hzero : i.noc2FilterVal = true →
      MSG_LENGTH.get i.noc2FilterData = 0#8 → stateNext = .ONLYHEADERFLIT)
    (hpos : i.noc2FilterVal = true →
      MSG_LENGTH.get i.noc2FilterData ≠ 0#8 → stateNext = .ONEFLIT)
    (hshort : i.noc2FilterVal = true →
      MSG_LENGTH.get i.noc2FilterData ≠ 255#8) :
    ∃ cur, Inv m ⟨takeHeader s i stateNext, w ++
      (if i.noc2FilterVal then [⟨i.noc2FilterData, i.uartBootEn⟩] else []),
      sent⟩ w cur := by
  cases hval : i.noc2FilterVal with
  | false =>
    rw [hidle hval]
    exact ⟨[], hw, rfl, rfl, by simpa [Regs.held, takeHeader, passPacket]⟩
  | true =>
    by_cases hz : MSG_LENGTH.get i.noc2FilterData = 0#8
    · rw [hzero hval hz]
      refine ⟨[⟨i.noc2FilterData, i.uartBootEn⟩], hw, rfl, ⟨_, rfl, ?_⟩, ?_⟩
      · show (MSG_LENGTH.get i.noc2FilterData).toNat = 0
        rw [hz]
        rfl
      · simp [Regs.held, takeHeader, passPacket, hsent, hval]
    · rw [hpos hval hz]
      have hne : (MSG_LENGTH.get i.noc2FilterData).toNat ≠ 0 :=
        fun h0 => hz (BitVec.eq_of_toNat_eq h0)
      have hne' : (MSG_LENGTH.get i.noc2FilterData).toNat ≠ 255 :=
        fun h0 => hshort hval (BitVec.eq_of_toNat_eq h0)
      have hlt := (MSG_LENGTH.get i.noc2FilterData).isLt
      refine ⟨[⟨i.noc2FilterData, i.uartBootEn⟩], hw, rfl,
        ⟨_, rfl, ?_, ?_, Nat.pos_of_ne_zero hne, ?_⟩, ?_⟩
      · simp [takeHeader, hval]
      · simp [takeHeader, hval, Beat.payload, payload]
      · show (MSG_LENGTH.get i.noc2FilterData).toNat < 255
        omega
      · simp [Regs.held, takeHeader, passPacket, hsent, hval]

theorem Inv.step_IDLE (h : Inv m t before cur)
    (hs : t.filter.stateReg = .IDLE) (hf : Fits t.filter i) :
    ∃ cur', Inv m (t.step m i) before cur' := by
  have hat : atHeader t.filter i = true := by
    unfold atHeader
    rw [hs]
  have hcur : cur = [] := by
    have hshape := h.shape
    unfold Shape at hshape
    rwa [hs] at hshape
  have hsent : t.sent = passed m before := by
    have hsent := h.sent
    unfold Regs.held at hsent
    rw [hs, hcur] at hsent
    simpa [passPacket] using hsent
  have haccepted : t.accepted = before := by
    rw [h.accepted, hcur, List.append_nil]
  have hready := hf.ready hat
  have hrdy : (comb m t.filter i).filterNoc2Rdy = true := by
    unfold comb
    rw [hs]
    dsimp only
    split <;> rfl
  have hsends : sends m t.filter i = false := by
    unfold sends comb
    rw [hs]
    dsimp only
    split
    · next hz =>
      simp only [Bool.and_eq_true, decide_eq_true_iff] at hz
      rw [hready hz.1 hz.2, Bool.and_false]
    · rfl
  obtain ⟨st, hnext, hidle, hzero, hpos⟩ : ∃ st,
      (comb m t.filter i).next = takeHeader t.filter i st ∧
        (i.noc2FilterVal = false → st = .IDLE) ∧
        (i.noc2FilterVal = true →
          MSG_LENGTH.get i.noc2FilterData = 0#8 → st = .ONLYHEADERFLIT) ∧
        (i.noc2FilterVal = true →
          MSG_LENGTH.get i.noc2FilterData ≠ 0#8 → st = .ONEFLIT) := by
    unfold comb
    rw [hs]
    dsimp only
    split
    · next hz =>
      simp only [Bool.and_eq_true, decide_eq_true_iff] at hz
      exact ⟨_, rfl, fun h0 => absurd (hz.1.symm.trans h0) Bool.noConfusion,
        fun _ _ => by rw [hready hz.1 hz.2]; rfl, fun _ h0 => absurd hz.2 h0⟩
    · next hz =>
      simp only [Bool.and_eq_true, decide_eq_true_iff, not_and] at hz
      exact ⟨_, rfl, fun h0 => by rw [h0]; rfl,
        fun h0 h1 => absurd h1 (hz h0), fun h0 _ => by rw [h0]; rfl⟩
  obtain ⟨cur', hinv⟩ := inv_takeHeader (s := t.filter) h.whole st hsent
    hidle hzero hpos (hf.short hat)
  refine ⟨cur', ?_⟩
  unfold Track.step accepts
  rw [hsends, hrdy, hnext, haccepted, Bool.and_true]
  simpa using hinv

/-- A packet that is whole goes to those before it. -/
theorem Inv.finish (h : Inv m t before cur) {b : Beat} {bs : List Beat}
    (hcur : cur = b :: bs) (hlen : bs.length = b.payload) :
    Framing.Whole Beat.payload (before ++ cur) ∧
      passed m (before ++ cur) = passed m before ++ passPacket m cur := by
  subst hcur
  refine ⟨h.whole.append (.packet hlen), ?_⟩
  rw [passed_append h.whole, passed_of_le (Nat.le_of_eq hlen)]

/-- A cycle in which the flits that come in go into the buffers behind what
is there, and those that go out come from the front. -/
theorem Inv.advance (h : Inv m t before cur)
    (hlen : 2 ≤ cur.length ∨ beats m t.filter i = [])
    (hshape : Shape (comb m t.filter i).next (cur ++ beats m t.filter i))
    (hheld : t.filter.held ++ (beats m t.filter i).map Beat.data =
      flits m t.filter i ++ (comb m t.filter i).next.held) :
    Inv m (t.step m i) before (cur ++ beats m t.filter i) := by
  have hpass : passPacket m (cur ++ beats m t.filter i) =
      passPacket m cur ++ (beats m t.filter i).map Beat.data := by
    rcases hlen with hlen | hnil
    · obtain ⟨b, cur, rfl⟩ := List.exists_cons_of_length_pos
        (Nat.zero_lt_of_lt hlen)
      obtain ⟨b', cur, rfl⟩ := List.exists_cons_of_length_pos
        (Nat.lt_of_succ_lt_succ hlen)
      simp [passPacket]
    · rw [hnil, List.append_nil, List.map_nil, List.append_nil]
  refine ⟨h.whole, ?_, hshape, ?_⟩
  · show t.accepted ++ beats m t.filter i = _
    rw [h.accepted, List.append_assoc]
  · show t.sent ++ flits m t.filter i ++ _ = _
    rw [hpass, ← List.append_assoc, ← h.sent, List.append_assoc,
      List.append_assoc, hheld]
    rfl

theorem Inv.step_ONLYHEADERFLIT (h : Inv m t before cur)
    (hs : t.filter.stateReg = .ONLYHEADERFLIT) (hf : Fits t.filter i) :
    ∃ before' cur', Inv m (t.step m i) before' cur' := by
  obtain ⟨b, hcur, hzero⟩ : ∃ b, cur = [b] ∧ b.payload = 0 := by
    have hshape := h.shape
    unfold Shape at hshape
    rwa [hs] at hshape
  have hheld : t.filter.held = [t.filter.flitBuffer0Reg] := by
    unfold Regs.held
    rw [hs]
  cases hr : i.xbarFilterRdy with
  | false =>
    have hcomb : comb m t.filter i = ⟨true, t.filter.flitBuffer0Reg, false,
        { t.filter with flitBuffer1Reg := 0#64, flitsSentReg := 0#8 }⟩ := by
      simp [comb, hs, hr]
    have hbeats : beats m t.filter i = [] := by simp [beats, accepts, hcomb]
    have hflits : flits m t.filter i = [] := by
      simp [flits, sends, hcomb, hr]
    refine ⟨before, _, h.advance (.inr hbeats) ?_ ?_⟩
    · rw [hcomb, hbeats, List.append_nil]
      unfold Shape
      dsimp only
      rw [hs]
      exact ⟨b, hcur, hzero⟩
    · rw [hbeats, hflits, hcomb, hheld]
      simp [Regs.held, hs]
  | true =>
    have hat : atHeader t.filter i = true := by
      unfold atHeader
      rw [hs]
      exact hr
    have hnot : i.noc2FilterVal = true →
        MSG_LENGTH.get i.noc2FilterData ≠ 0#8 := by
      intro hv hz
      exact absurd (hr.symm.trans (hf.ready hat hv hz)) Bool.noConfusion
    have hcomb : comb m t.filter i = ⟨true, t.filter.flitBuffer0Reg, true,
        takeHeader t.filter i
          (if i.noc2FilterVal then .ONEFLIT else .IDLE)⟩ := by
      unfold comb
      rw [hs]
      simp only [hr, if_true]
      rw [if_neg (c := (_ && _) = true)]
      simpa using hnot
    obtain ⟨hwhole, hpassed⟩ := h.finish hcur (by simpa using hzero.symm)
    have hsent : t.sent ++ [t.filter.flitBuffer0Reg] =
        passed m (before ++ cur) := by
      rw [hpassed, ← h.sent, hheld]
    obtain ⟨cur', hinv⟩ := inv_takeHeader (s := t.filter) hwhole
      (if i.noc2FilterVal then .ONEFLIT else .IDLE) hsent
      (fun hv => by rw [hv]; rfl) (fun hv hz => absurd hz (hnot hv))
      (fun hv _ => by rw [hv]; rfl) (hf.short hat)
    refine ⟨before ++ cur, cur', ?_⟩
    unfold Track.step accepts sends
    rw [hcomb, h.accepted]
    simpa [hr] using hinv

theorem Inv.step_ONEFLIT (h : Inv m t before cur)
    (hs : t.filter.stateReg = .ONEFLIT) :
    ∃ cur', Inv m (t.step m i) before cur' := by
  obtain ⟨b, hcur, hdata, hnum, hpos, hlt⟩ : ∃ b, cur = [b] ∧
      b.data = t.filter.flitBuffer0Reg ∧
      b.payload = t.filter.numFlitsReg.toNat ∧ 1 ≤ b.payload ∧
      b.payload < 255 := by
    have hshape := h.shape
    unfold Shape at hshape
    rwa [hs] at hshape
  have hheld : t.filter.held = [t.filter.flitBuffer0Reg] := by
    unfold Regs.held
    rw [hs]
  have hsent := h.sent
  rw [hheld, hcur] at hsent
  have hnone : t.sent = passed m before := by
    rw [← hdata] at hsent
    exact List.append_cancel_right hsent
  cases hv : i.noc2FilterVal with
  | false =>
    have hbeats : beats m t.filter i = [] := by simp [beats, accepts, hv]
    have hflits : flits m t.filter i = [] := by
      simp [flits, sends, comb, hs]
    refine ⟨_, h.advance (.inr hbeats) ?_ ?_⟩
    · rw [hbeats, List.append_nil]
      simp only [Shape, comb, hs, hv]
      exact ⟨b, hcur, hdata, hnum, hpos, hlt⟩
    · rw [hbeats, hflits, hheld]
      simp [Regs.held, comb, hs, hv]
  | true =>
    refine ⟨[b, ⟨i.noc2FilterData, i.uartBootEn⟩], h.whole, ?_, ?_, ?_⟩
    · simp [Track.step, accepts, comb, hs, hv, h.accepted, hcur]
    · simp only [Shape, Track.step, comb, hs, hv, if_true]
      exact ⟨_, _, rfl, hnum, hpos, hlt⟩
    · have hread : (readdress m i.uartBootEn t.filter.flitBuffer0Reg
          i.noc2FilterData).1 = _ := readdress_eq _ _
      simp [Track.step, sends, comb, hs, hv, Regs.held, passPacket,
        readdressed, hnone, hdata, hread]

theorem Inv.step_TWOFLITS (h : Inv m t before cur)
    (hs : t.filter.stateReg = .TWOFLITS) :
    ∃ cur', Inv m (t.step m i) before cur' := by
  obtain ⟨b, b', hcur, hnum, hpos, hlt⟩ : ∃ b b', cur = [b, b'] ∧
      b.payload = t.filter.numFlitsReg.toNat ∧ 1 ≤ b.payload ∧
      b.payload < 255 := by
    have hshape := h.shape
    unfold Shape at hshape
    rwa [hs] at hshape
  have hheld : t.filter.held =
      [t.filter.flitBuffer0Reg, t.filter.flitBuffer1Reg] := by
    unfold Regs.held
    rw [hs]
  have htwo : 2 ≤ cur.length := by
    rw [hcur]
    exact Nat.le_refl 2
  have hgo := h.advance (i := i) (.inl htwo)
  refine ⟨_, hgo ?_ ?_⟩
  · by_cases hone : t.filter.numFlitsReg = 1#8
    · have hbeats : beats m t.filter i = [] := by
        cases hr : i.xbarFilterRdy <;>
          simp [beats, accepts, comb, hs, hone, hr]
      have hb : b.payload = 1 := by
        rw [hnum, hone]
        rfl
      rw [hbeats, List.append_nil]
      cases hr : i.xbarFilterRdy with
      | false =>
        simp only [Shape, comb, hs, hone, hr]
        exact ⟨_, _, hcur, hb, hpos, hlt⟩
      | true =>
        simp only [Shape, comb, hs, hone, hr, shift, if_true]
        exact ⟨_, _, [], hcur, hb.symm⟩
    · have hne : b.payload ≠ 1 := fun h1 =>
        hone (BitVec.eq_of_toNat_eq (hnum.symm.trans h1))
      cases hrv : i.xbarFilterRdy && i.noc2FilterVal with
      | false =>
        have hbeats : beats m t.filter i = [] := by
          simp [beats, accepts, comb, hs, hone, hrv]
        rw [hbeats, List.append_nil]
        simp only [Shape, comb, hs, hone, hrv, if_false, Bool.false_eq_true]
        exact ⟨_, _, hcur, hnum, hpos, hlt⟩
      | true =>
        obtain ⟨hr, hval⟩ : i.xbarFilterRdy = true ∧
            i.noc2FilterVal = true := by
          simpa only [Bool.and_eq_true] using hrv
        have hbeats : beats m t.filter i =
            [⟨i.noc2FilterData, i.uartBootEn⟩] := by
          simp [beats, accepts, comb, hs, hone, hr, hval]
        rw [hbeats, hcur]
        by_cases htwo' : t.filter.numFlitsReg = 2#8
        · simp only [Shape, comb, hs, hrv, if_true, shift, htwo']
          refine ⟨_, _, [_], rfl, ?_⟩
          rw [hnum, htwo']
          rfl
        · simp only [Shape, comb, hs, hone, hrv, if_false, if_true, shift,
            htwo']
          have hne' : b.payload ≠ 2 := fun h2 =>
            htwo' (BitVec.eq_of_toNat_eq (hnum.symm.trans h2))
          refine ⟨_, _, [_], rfl, hnum, hlt, rfl, ?_⟩
          show 1 + 2 ≤ _
          omega
  · rw [hheld]
    by_cases hone : t.filter.numFlitsReg = 1#8
    · cases hr : i.xbarFilterRdy <;>
        simp [beats, flits, accepts, sends, comb, hs, hone, hr, shift,
          Regs.held]
    · cases hr : i.xbarFilterRdy <;> cases hv : i.noc2FilterVal <;>
        by_cases htwo' : t.filter.numFlitsReg = 2#8 <;>
          simp [beats, flits, accepts, sends, comb, hs, hone, hr, hv, shift,
            Regs.held, htwo']

/-- Below 255 flits behind the header, none of the sums and differences of
the counters wraps. -/
theorem sending_words {b : Beat} {bs : List Beat}
    (hnum : b.payload = s.numFlitsReg.toNat) (hlt : b.payload < 255)
    (hlen : bs.length = s.flitsSentReg.toNat)
    (hle : bs.length + 2 ≤ b.payload) :
    s.flitsSentReg < s.numFlitsReg + 1#8 ∧
      (s.flitsSentReg = s.numFlitsReg - 2#8 ↔ bs.length + 2 = b.payload) ∧
      (s.flitsSentReg + 1#8).toNat = bs.length + 1 := by
  refine ⟨?_, ?_, ?_⟩
  · rw [BitVec.lt_def, BitVec.toNat_add]
    show _ < (_ + 1) % 256
    omega
  · have hsub : (s.numFlitsReg - 2#8).toNat = s.numFlitsReg.toNat - 2 := by
      rw [BitVec.toNat_sub]
      show (256 - 2 + _) % 256 = _
      omega
    constructor
    · intro heq
      rw [heq, hsub] at hlen
      omega
    · intro heq
      apply BitVec.eq_of_toNat_eq
      omega
  · rw [BitVec.toNat_add, ← hlen]
    show (_ + 1) % 256 = _
    omega

theorem Inv.step_SENDING (h : Inv m t before cur)
    (hs : t.filter.stateReg = .SENDING) :
    ∃ cur', Inv m (t.step m i) before cur' := by
  obtain ⟨b, b', bs, hcur, hnum, hlt, hlen, hle⟩ : ∃ b b' bs,
      cur = b :: b' :: bs ∧ b.payload = t.filter.numFlitsReg.toNat ∧
      b.payload < 255 ∧ bs.length = t.filter.flitsSentReg.toNat ∧
      bs.length + 2 ≤ b.payload := by
    have hshape := h.shape
    unfold Shape at hshape
    rwa [hs] at hshape
  have hheld : t.filter.held =
      [t.filter.flitBuffer0Reg, t.filter.flitBuffer1Reg] := by
    unfold Regs.held
    rw [hs]
  have htwo : 2 ≤ cur.length := by
    rw [hcur]
    exact Nat.le_add_left 2 _
  obtain ⟨hroom, hlast, hsucc⟩ := sending_words hnum hlt hlen hle
  refine ⟨_, h.advance (i := i) (.inl htwo) ?_ ?_⟩
  · cases hrv : i.xbarFilterRdy && i.noc2FilterVal with
    | false =>
      have hbeats : beats m t.filter i = [] := by
        simp [beats, accepts, comb, hs, hrv]
      rw [hbeats, List.append_nil]
      simp only [Shape, comb, hs, hrv, Bool.false_and, Bool.false_eq_true,
        if_false]
      exact ⟨_, _, bs, hcur, hnum, hlt, hlen, hle⟩
    | true =>
      obtain ⟨hr, hval⟩ : i.xbarFilterRdy = true ∧
          i.noc2FilterVal = true := by
        simpa only [Bool.and_eq_true] using hrv
      have hbeats : beats m t.filter i =
          [⟨i.noc2FilterData, i.uartBootEn⟩] := by
        simp [beats, accepts, comb, hs, hr, hval, hroom]
      rw [hbeats, hcur]
      by_cases heq : t.filter.flitsSentReg = t.filter.numFlitsReg - 2#8
      · simp only [Shape, comb, hs, hrv, hroom, decide_true, Bool.and_true,
          if_true, shift, if_pos heq]
        refine ⟨_, _, bs ++ [_], rfl, ?_⟩
        rw [List.length_append]
        exact hlast.mp heq
      · simp only [Shape, comb, hs, hrv, hroom, decide_true, Bool.and_true,
          if_true, shift, if_neg heq]
        have hne := mt hlast.mpr heq
        refine ⟨_, _, bs ++ [_], rfl, hnum, hlt, ?_, ?_⟩
        · rw [hsucc, List.length_append]
          rfl
        · rw [List.length_append, List.length_singleton]
          omega
  · rw [hheld]
    by_cases heq : t.filter.flitsSentReg = t.filter.numFlitsReg - 2#8 <;>
      cases hr : i.xbarFilterRdy <;> cases hv : i.noc2FilterVal <;>
        simp only [beats, flits, accepts, sends, comb, hs, hr, hv, hroom,
          shift, Regs.held] <;> simp [heq, hs]

theorem Inv.step_DRAINTWO (h : Inv m t before cur)
    (hs : t.filter.stateReg = .DRAINTWO) :
    Inv m (t.step m i) before cur := by
  have hbeats : beats m t.filter i = [] := by
    cases hr : i.xbarFilterRdy <;> simp [beats, accepts, comb, hs, hr]
  have hshape := h.shape
  unfold Shape at hshape
  rw [hs] at hshape
  have hgo := h.advance (i := i) (.inr hbeats)
  rw [hbeats, List.append_nil] at hgo
  refine hgo ?_ ?_
  · cases hr : i.xbarFilterRdy <;>
      simp only [Shape, comb, hs, hr, Bool.false_eq_true, if_false, if_true] <;>
      exact hshape
  · cases hr : i.xbarFilterRdy <;>
      simp [flits, sends, comb, hs, hr, Regs.held]

theorem Inv.step_DRAINONE (h : Inv m t before cur)
    (hs : t.filter.stateReg = .DRAINONE) :
    ∃ before' cur', Inv m (t.step m i) before' cur' := by
  obtain ⟨b, b', bs, hcur, hlen⟩ : ∃ b b' bs, cur = b :: b' :: bs ∧
      bs.length + 1 = b.payload := by
    have hshape := h.shape
    unfold Shape at hshape
    rwa [hs] at hshape
  have hbeats : beats m t.filter i = [] := by
    cases hr : i.xbarFilterRdy <;> simp [beats, accepts, comb, hs, hr]
  cases hr : i.xbarFilterRdy with
  | false =>
    have hgo := h.advance (i := i) (.inr hbeats)
    rw [hbeats, List.append_nil] at hgo
    refine ⟨before, cur, hgo ?_ ?_⟩
    · simp only [Shape, comb, hs, hr, Bool.false_eq_true, if_false]
      exact ⟨b, b', bs, hcur, hlen⟩
    · simp [flits, sends, comb, hs, hr, Regs.held]
  | true =>
    obtain ⟨hwhole, hpassed⟩ := h.finish hcur hlen
    refine ⟨before ++ cur, [], hwhole, ?_, ?_, ?_⟩
    · show t.accepted ++ beats m t.filter i = _
      rw [hbeats, h.accepted]
    · simp [Shape, Track.step, comb, hs, hr]
    · rw [hpassed, ← h.sent]
      simp [Track.step, sends, comb, hs, hr, Regs.held, passPacket]

/-- What one cycle keeps. -/
theorem Inv.step (h : Inv m t before cur) (hf : Fits t.filter i) :
    ∃ before' cur', Inv m (t.step m i) before' cur' := by
  cases hs : t.filter.stateReg with
  | IDLE => exact ⟨before, h.step_IDLE hs hf⟩
  | ONLYHEADERFLIT => exact h.step_ONLYHEADERFLIT hs hf
  | ONEFLIT => exact ⟨before, h.step_ONEFLIT hs⟩
  | TWOFLITS => exact ⟨before, h.step_TWOFLITS hs⟩
  | SENDING => exact ⟨before, h.step_SENDING hs⟩
  | DRAINTWO => exact ⟨before, cur, h.step_DRAINTWO hs⟩
  | DRAINONE => exact h.step_DRAINONE hs

theorem Inv.reset : Inv m Track.reset [] [] :=
  ⟨.nil, rfl, rfl, rfl⟩

/-! ## Back to the next packet -/

/-- The flits of the packet that are still to come in and to go out. -/
def Regs.rank (s : Regs) : ℕ :=
  match s.stateReg with
  | .IDLE => 0
  | .ONLYHEADERFLIT | .DRAINONE => 1
  | .ONEFLIT => 2 * s.numFlitsReg.toNat + 1
  | .TWOFLITS => 2 * s.numFlitsReg.toNat
  | .SENDING => 2 * s.numFlitsReg.toNat - 2 * s.flitsSentReg.toNat
  | .DRAINTWO => 2

/-- Every flit that comes in or goes out counts. -/
theorem Inv.rank_step (h : Inv m t before cur)
    (hat : atHeader t.filter i = false) :
    (t.step m i).filter.rank + (accepts m t.filter i).toNat +
      (sends m t.filter i).toNat = t.filter.rank := by
  have hshape := h.shape
  unfold Shape at hshape
  show (comb m t.filter i).next.rank + _ + _ = _
  cases hs : t.filter.stateReg with
  | IDLE => simp [atHeader, hs] at hat
  | ONLYHEADERFLIT =>
    have hr : i.xbarFilterRdy = false := by simpa [atHeader, hs] using hat
    simp [Regs.rank, accepts, sends, comb, hs, hr]
  | ONEFLIT =>
    cases hv : i.noc2FilterVal <;>
      simp [Regs.rank, accepts, sends, comb, hs, hv]
  | TWOFLITS =>
    rw [hs] at hshape
    obtain ⟨b, b', -, hnum, hpos, -⟩ := hshape
    by_cases hone : t.filter.numFlitsReg = 1#8
    · cases hr : i.xbarFilterRdy <;>
        simp [Regs.rank, accepts, sends, comb, hs, hone, hr, shift]
    · have hne : t.filter.numFlitsReg.toNat ≠ 1 :=
        fun h1 => hone (BitVec.eq_of_toNat_eq h1)
      cases hr : i.xbarFilterRdy with
      | false => simp [Regs.rank, accepts, sends, comb, hs, hone, hr]
      | true =>
        cases hv : i.noc2FilterVal with
        | false => simp [Regs.rank, accepts, sends, comb, hs, hone, hr, hv]
        | true =>
          by_cases htwo : t.filter.numFlitsReg = 2#8
          · simp [Regs.rank, accepts, sends, comb, hs, hr, hv, shift, htwo]
          · simp [Regs.rank, accepts, sends, comb, hs, hone, hr, hv, shift,
              htwo]
            omega
  | SENDING =>
    rw [hs] at hshape
    obtain ⟨b, b', bs, -, hnum, hlt, hlen, hle⟩ := hshape
    cases hr : i.xbarFilterRdy with
    | false => simp [Regs.rank, accepts, sends, comb, hs, hr]
    | true =>
      cases hv : i.noc2FilterVal with
      | false => simp [Regs.rank, accepts, sends, comb, hs, hr, hv]
      | true =>
        obtain ⟨hroom, hlast, hsucc⟩ := sending_words hnum hlt hlen hle
        by_cases heq : t.filter.flitsSentReg = t.filter.numFlitsReg - 2#8
        · have hend := hlast.mp heq
          simp only [Regs.rank, accepts, sends, comb, hs, hr, hv, hroom,
            decide_true, Bool.and_self, if_true, shift, if_pos heq,
            Bool.toNat_true]
          omega
        · have hend := mt hlast.mpr heq
          simp only [Regs.rank, accepts, sends, comb, hs, hr, hv, hroom,
            decide_true, Bool.and_self, if_true, shift, if_neg heq,
            Bool.toNat_true]
          omega
  | DRAINTWO =>
    cases hr : i.xbarFilterRdy <;>
      simp [Regs.rank, accepts, sends, comb, hs, hr]
  | DRAINONE =>
    cases hr : i.xbarFilterRdy <;>
      simp [Regs.rank, accepts, sends, comb, hs, hr]

/-- With a flit before it and the crossbar ready, the filter never waits. -/
theorem Inv.moves (h : Inv m t before cur)
    (hat : atHeader t.filter i = false) (hv : i.noc2FilterVal = true)
    (hr : i.xbarFilterRdy = true) :
    accepts m t.filter i = true ∨ sends m t.filter i = true := by
  have hshape := h.shape
  unfold Shape at hshape
  cases hs : t.filter.stateReg with
  | IDLE => simp [atHeader, hs] at hat
  | ONLYHEADERFLIT => simp [atHeader, hs, hr] at hat
  | ONEFLIT => exact .inl (by simp [accepts, comb, hs, hv])
  | TWOFLITS =>
    refine .inr ?_
    by_cases hone : t.filter.numFlitsReg = 1#8 <;>
      simp [sends, comb, hs, hv, hr, hone]
  | SENDING =>
    rw [hs] at hshape
    obtain ⟨b, b', bs, -, hnum, hlt, hlen, hle⟩ := hshape
    have hroom := (sending_words hnum hlt hlen hle).1
    exact .inl (by simp [accepts, comb, hs, hv, hr, hroom])
  | DRAINTWO | DRAINONE => exact .inr (by simp [sends, comb, hs, hr])

/-- The filter is ready for a flit, and takes it for a header. -/
def accepting (m : AddrMap) (s : Regs) (i : In) : Prop :=
  atHeader s i = true ∧ (comb m s i).filterNoc2Rdy = true

theorem accepting_iff : accepting m s i ↔ atHeader s i = true := by
  refine ⟨And.left, fun hat => ⟨hat, ?_⟩⟩
  cases hs : s.stateReg <;> simp [atHeader, hs] at hat
  · unfold comb
    rw [hs]
    dsimp only
    split <;> rfl
  · simp [comb, hs, hat]

/-- Unbounded inputs: NoC2 does not take an offer back, and both sides go on
for ever. -/
structure Lively (m : AddrMap) (js : ℕ → In) : Prop where
  fits : ∀ n,
    Fits (Sync.stateAt (Track.step m) Track.reset js n).filter (js n)
  keeps : ∀ n, (js n).noc2FilterVal = true →
    accepts m (Sync.stateAt (Track.step m) Track.reset js n).filter (js n) =
      false → (js (n + 1)).noc2FilterVal = true
  offers : ∀ n, ∃ k, n ≤ k ∧ (js k).noc2FilterVal = true
  takes : ∀ n, ∃ k, n ≤ k ∧ (js k).xbarFilterRdy = true

theorem Lively.inv {js : ℕ → In} (hj : Lively m js) (n : ℕ) :
    ∃ before cur,
      Inv m (Sync.stateAt (Track.step m) Track.reset js n) before cur :=
  Sync.stateAt_invariant (P := fun t => ∃ before cur, Inv m t before cur)
    (fun _ _ hf ⟨_, _, h⟩ => h.step hf) hj.fits ⟨_, _, .reset⟩ n

theorem accepting_again {js : ℕ → In} (hj : Lively m js) (n : ℕ) :
    ∃ k, n ≤ k ∧ accepting m
      (Sync.stateAt (Track.step m) Track.reset js k).filter (js k) := by
  simp only [accepting_iff]
  have hrank : ∀ k, ¬ atHeader
      (Sync.stateAt (Track.step m) Track.reset js k).filter (js k) = true →
      (Sync.stateAt (Track.step m) Track.reset js (k + 1)).filter.rank +
        (accepts m (Sync.stateAt (Track.step m) Track.reset js k).filter
          (js k)).toNat +
        (sends m (Sync.stateAt (Track.step m) Track.reset js k).filter
          (js k)).toNat =
        (Sync.stateAt (Track.step m) Track.reset js k).filter.rank := by
    intro k hk
    obtain ⟨before, cur, h⟩ := hj.inv k
    exact h.rank_step (Bool.not_eq_true _ ▸ hk)
  refine Sync.eventually_of_rank (fun k =>
    (Sync.stateAt (Track.step m) Track.reset js k).filter.rank)
    (fun k hk => ?_) (fun k hstuck => ?_) n
  · have hsum := hrank k hk
    omega
  · -- from `k` on nothing moves
    have hstill : ∀ j, k ≤ j →
        accepts m (Sync.stateAt (Track.step m) Track.reset js j).filter
          (js j) = false ∧
        sends m (Sync.stateAt (Track.step m) Track.reset js j).filter
          (js j) = false := by
      intro j hj'
      have hsum := hrank j (hstuck j hj').1
      have heq := (hstuck j hj').2
      have heq' := (hstuck (j + 1) (Nat.le_succ_of_le hj')).2
      refine ⟨?_, ?_⟩ <;> refine Bool.eq_false_iff.mpr fun ht => ?_ <;>
        rw [ht, Bool.toNat_true] at hsum <;> omega
    obtain ⟨v, hv, hval⟩ := hj.offers k
    have hkeeps : ∀ d, (js (v + d)).noc2FilterVal = true := by
      intro d
      induction d with
      | zero => exact hval
      | succ d ih =>
        exact hj.keeps _ ih (hstill _ (Nat.le_trans hv
          (Nat.le_add_right v d))).1
    obtain ⟨r, hr, hrdy⟩ := hj.takes v
    have hvr := hkeeps (r - v)
    rw [Nat.add_sub_cancel' hr] at hvr
    have hkr := Nat.le_trans hv hr
    obtain ⟨before, cur, h⟩ := hj.inv r
    rcases h.moves (Bool.not_eq_true _ ▸ (hstuck r hkr).1) hvr hrdy with
      hmove | hmove
    · exact absurd (hmove.symm.trans (hstill r hkr).1) Bool.noConfusion
    · exact absurd (hmove.symm.trans (hstill r hkr).2) Bool.noConfusion

/-- What has come out is what should have, but for what the buffers hold; and
the filter gets back to the next packet. -/
theorem transparent (m : AddrMap) :
    (∀ is, Sync.Along (Track.step m) (fun t i => Fits t.filter i)
        Track.reset is →
      Sync.Always (Track.step m)
        (fun t => passed m t.accepted = t.sent ++ t.filter.held)
        Track.reset is) ∧
      ∀ js, Lively m js → ∀ n, ∃ k, n ≤ k ∧ accepting m
        (Sync.stateAt (Track.step m) Track.reset js k).filter (js k) := by
  refine ⟨fun is his => ?_, fun js hj n => accepting_again hj n⟩
  have hinv := his.always (P := fun t => ∃ before cur, Inv m t before cur)
    (fun _ _ hf ⟨_, _, h⟩ => h.step hf) ⟨_, _, .reset⟩
  exact hinv.mono fun _ ⟨_, _, h⟩ => h.passed_eq

/-! ## An address map

The memory and the SD card of `devices_ariane.xml` for the Genesys 2. -/

theorem mem_fits :
    (0x80000000#40).toNat + (0x40000000#40).toNat < 2 ^ 40 := by
  decide

theorem sd_fits :
    (0xf000000000#40).toNat + (0xff0300000#40).toNat < 2 ^ 40 := by
  decide

def mem : Device :=
  ⟨true, false, false, 0x80000000#40, 0x40000000#40, 1#8, mem_fits⟩

def sd : Device :=
  ⟨false, false, false, 0xf000000000#40, 0xff0300000#40, 3#8, sd_fits⟩

def genesys2 : AddrMap := ⟨[mem, sd], true⟩

/-- The header of an uncached load with one flit behind it. -/
def ncLoad : Flit :=
  MSG_LENGTH.set 1#8 (MSG_TYPE.set MSG_TYPE_NC_LOAD_REQ 0#64)

/-- The flit with an address of the SD card. -/
def sdAddr : Flit := MSG_ADDR_.set 0xf000001000#40 0#64

/-- A load from the SD card through the filter. -/
def sdLoad (uartBootEn : Bool) : List In :=
  [⟨true, ncLoad, true, uartBootEn⟩, ⟨true, sdAddr, true, uartBootEn⟩,
    ⟨false, 0#64, true, uartBootEn⟩, ⟨false, 0#64, true, uartBootEn⟩]

/-- A load from the SD card, and one offered for ever. -/
theorem transparent_sdLoad :
    Sync.Always (Track.step genesys2)
      (fun t => passed genesys2 t.accepted = t.sent ++ t.filter.held)
      Track.reset (sdLoad false) ∧
    ∀ n, ∃ k, n ≤ k ∧ accepting genesys2
      (Sync.stateAt (Track.step genesys2) Track.reset
        (fun _ => ⟨true, ncLoad, true, false⟩) k).filter
      ⟨true, ncLoad, true, false⟩ := by
  have hone : MSG_LENGTH.get ncLoad = 1#8 := by decide +kernel
  refine ⟨(transparent genesys2).1 (sdLoad false) ?_,
    (transparent genesys2).2 _ ⟨fun n => ⟨fun _ _ => ?_, fun _ _ hz => ?_⟩,
      fun _ _ _ => rfl, fun n => ⟨n, Nat.le_refl n, rfl⟩,
      fun n => ⟨n, Nat.le_refl n, rfl⟩⟩⟩
  · exact ⟨⟨by decide +kernel, by decide +kernel⟩,
      ⟨by decide +kernel, by decide +kernel⟩,
      ⟨by decide +kernel, by decide +kernel⟩,
      ⟨by decide +kernel, by decide +kernel⟩, trivial⟩
  · show MSG_LENGTH.get ncLoad ≠ _
    rw [hone]
    decide
  · rw [show MSG_LENGTH.get ncLoad = _ from hone] at hz
    exact absurd hz (by decide)

/-- While the UART loads the memory, the filter sends a load from the SD card
to the memory. -/
theorem uartBoot_to_mem :
    let t := Sync.run (Track.step genesys2) Track.reset (sdLoad true)
    isMemRequest ncLoad = true ∧ sd ∈ genesys2.devices ∧
      sd.Contains (MSG_ADDR_.get sdAddr) ∧
      ¬ mem.Contains (MSG_ADDR_.get sdAddr) ∧
      t.accepted.map Beat.data = [ncLoad, sdAddr] ∧
      t.sent ≠ [MSG_DST_X.set sd.portnum ncLoad, sdAddr] := by
  refine ⟨by decide +kernel, ?_, by decide +kernel, by decide +kernel,
    by decide +kernel, by decide +kernel⟩
  exact List.mem_cons_of_mem _ List.mem_cons_self

end ArianeSoc.Chipset.PacketFilter
