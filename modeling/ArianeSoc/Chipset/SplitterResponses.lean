import ArianeSoc.Chipset.MemIoSplitter
import ArianeSoc.Chipset.SplitterRequests
import ArianeSoc.Framing

/-!
# What the splitter does with responses

The parser in front of the buffers holds on to one side until the packet of
that side is through.  `Inv` says that the packets behind it are a merge of
the packets that the two sides have handed over.
-/

namespace ArianeSoc.Chipset.MemIoSplitter

open Noc (Flit)

variable {s : Noc3} {i : In} {cur before : List Flit}

/-! ## The buffers -/

/-- What the buffers hold, oldest first. -/
def Noc3.held (s : Noc3) : List Flit :=
  (if s.buf1Val then [s.buf1DataF] else []) ++
    if s.buf0StateF ≠ .inval then [s.buf0DataF] else []

/-- The flit that NoC3 takes. -/
def Noc3.leaves (s : Noc3) (i : In) : List Flit :=
  if s.buf1Val && i.noc3Rdy then [s.buf1DataF] else []

/-- The flit that a side hands over. -/
def Noc3.handed (s : Noc3) (i : In) : Side → List Flit
  | .io => if i.ioVal && s.ioRdy i then [i.ioData] else []
  | .mem => if i.memVal && s.memRdy i then [i.memData] else []
  | .inval => []

/-- The flit that goes into the first buffer. -/
def Noc3.arrives (s : Noc3) (i : In) : List Flit :=
  if s.go i then [s.dataMuxOut i] else []

/-- A flit that comes in comes from one of the sides, inside a packet from
the one that the header came from. -/
theorem Noc3.go_sel (hgo : s.go i = true)
    (hsrc : s.msgStateNext ≠ .header0 → s.msgSrcF ≠ .inval) :
    s.inputMuxSel i ≠ .inval := by
  intro hsel
  have hval : i.memVal = true := by
    simp only [Noc3.go, Noc3.val, hsel, Bool.and_eq_true] at hgo
    simpa using hgo.1
  by_cases hnext : s.msgStateNext = .header0
  · cases hio : i.ioVal <;> simp [Noc3.inputMuxSel, hnext, hval, hio] at hsel
    by_cases hmem : s.msgSrcF = .mem <;> simp [hmem] at hsel
  · exact hsrc hnext (by simpa [Noc3.inputMuxSel, hnext] using hsel)

theorem Noc3.handed_eq
    (hsel : s.go i = true → s.inputMuxSel i ≠ .inval) (d : Side) :
    s.handed i d = if d = s.inputMuxSel i then s.arrives i else [] := by
  unfold Noc3.arrives
  cases hs : s.stall i with
  | true =>
    cases d <;> simp [Noc3.handed, Noc3.ioRdy, Noc3.memRdy, Noc3.go, hs]
  | false =>
    cases hd : s.inputMuxSel i with
    | inval =>
      have hnot : s.go i = false :=
        Bool.eq_false_iff.mpr fun hgo => hsel hgo hd
      have hval : i.memVal = false := by
        simpa [Noc3.go, Noc3.val, hs, hd] using hnot
      cases d <;>
        simp [Noc3.handed, Noc3.ioRdy, Noc3.memRdy, hd, hs, hnot, hval]
    | io | mem =>
      cases d <;>
        simp [Noc3.handed, Noc3.ioRdy, Noc3.memRdy, Noc3.go, Noc3.val,
          Noc3.dataMuxOut, hd, hs]

/-- What comes in goes behind what the buffers hold. -/
theorem Noc3.held_next (hnext : s.msgStateNext ≠ .inval) :
    s.leaves i ++ (s.next i).held = s.held ++ s.arrives i := by
  cases hs : s.stall i with
  | true =>
    have hstall : s.buf1StateF ≠ .inval ∧ i.noc3Rdy = false := by
      simpa [Noc3.stall, Noc3.buf1Val] using hs
    simp [Noc3.leaves, Noc3.arrives, Noc3.next, Noc3.go, hs, hstall.2]
  | false =>
    have hleaves : s.leaves i =
        if s.buf1Val then [s.buf1DataF] else [] := by
      unfold Noc3.stall at hs
      unfold Noc3.leaves
      cases hv : s.buf1Val with
      | false => rfl
      | true =>
        rw [hv] at hs
        have hrdy : i.noc3Rdy = true := by simpa using hs
        rw [hrdy]
        rfl
    rw [hleaves]
    cases hgo : s.go i <;> by_cases hempty : s.buf0StateF = .inval <;>
      simp [Noc3.held, Noc3.arrives, Noc3.next, Noc3.buf1Val, hs, hgo,
        hempty, hnext]

/-! ## Runs -/

/-- The responses with all that has come in and gone out. -/
structure Responses where
  regs : Noc3
  taken : Side → List Flit
  sent : List Flit

namespace Responses

def reset : Responses := ⟨Noc3.reset, fun _ => [], []⟩

def step (t : Responses) (i : In) : Responses where
  regs := t.regs.next i
  taken := fun d => t.taken d ++ t.regs.handed i d
  sent := t.sent ++ t.regs.leaves i

/-- The parser is behind the flits `cur` of a packet. -/
def Parsed (s : Noc3) (cur : List Flit) : Prop :=
  s.msgStateF = .inval ∧ cur = [] ∨
    (s.msgStateF = .header0 ∨ s.msgStateF = .data) ∧
      s.msgSrcF ≠ .inval ∧
      ∃ h ps, cur = h :: ps ∧ payload h = s.msgCounterF.toNat + ps.length

/-- The packets before the one that is coming in are whole and merged. -/
structure Inv (t : Responses) (w : Side → List Flit)
    (before cur : List Flit) : Prop where
  whole : Framing.Whole payload before
  wholes : ∀ d, Framing.Whole payload (w d)
  merges : Framing.Merges (fun d => Framing.packets payload (w d))
    (Framing.packets payload before)
  parsed : Parsed t.regs cur
  taken : ∀ d, t.taken d = w d ++ if d = t.regs.msgSrcF then cur else []
  sent : t.sent ++ t.regs.held = before ++ cur

variable {t : Responses} {w : Side → List Flit}

theorem Inv.reset : Inv Responses.reset (fun _ => []) [] [] where
  whole := .nil
  wholes := fun _ => .nil
  merges := .nil
  parsed := .inl ⟨rfl, rfl⟩
  taken := fun d => by cases d <;> rfl
  sent := rfl

/-- The packet that is coming in is the last one of its side and of all. -/
theorem Inv.merges_taken (h : Inv t w before cur) :
    Framing.Merges (fun d => Framing.packets payload (t.taken d))
      (Framing.packets payload (t.sent ++ t.regs.held)) := by
  rw [h.sent]
  rcases h.parsed with ⟨-, rfl⟩ | ⟨-, -, b, bs, rfl, hlen⟩
  · have htaken : t.taken = w := funext fun d => by simpa using h.taken d
    rw [htaken, List.append_nil]
    exact h.merges
  · have hcur : Framing.packets payload (b :: bs) = [b :: bs] :=
      Framing.packets_of_le (hlen ▸ Nat.le_add_left _ _)
    rw [Framing.packets_append h.whole, hcur]
    refine h.merges.snoc (b :: bs) (i := t.regs.msgSrcF) ?_ fun d hd => ?_
    · rw [h.taken, if_pos rfl, Framing.packets_append (h.wholes _), hcur]
    · rw [h.taken, if_neg hd, List.append_nil]

/-- What has left and what is still held grows by what comes in. -/
theorem Inv.sent_step (h : Inv t w before cur) :
    (t.step i).sent ++ (t.step i).regs.held =
      t.sent ++ t.regs.held ++ t.regs.arrives i := by
  have hnext : t.regs.msgStateNext ≠ .inval := by
    unfold Noc3.msgStateNext
    rcases h.parsed with ⟨hst, -⟩ | ⟨hst | hst, -, -⟩ <;> rw [hst] <;>
      by_cases hz : t.regs.msgCounterF = 0#8 <;> simp [hz]
  show t.sent ++ t.regs.leaves i ++ (t.regs.next i).held = _
  rw [List.append_assoc, Noc3.held_next hnext, List.append_assoc]

/-- A flit that comes in comes from a side. -/
theorem Inv.go_sel (h : Inv t w before cur) (hgo : t.regs.go i = true) :
    t.regs.inputMuxSel i ≠ .inval := by
  refine Noc3.go_sel hgo fun hn => ?_
  rcases h.parsed with ⟨hst, -⟩ | ⟨-, hsrc, -⟩
  · exact absurd (by simp [Noc3.msgStateNext, hst]) hn
  · exact hsrc

theorem Inv.taken_step (h : Inv t w before cur) (d : Side) :
    (t.step i).taken d = t.taken d ++
      if d = t.regs.inputMuxSel i then t.regs.arrives i else [] := by
  show t.taken d ++ t.regs.handed i d = _
  rw [Noc3.handed_eq h.go_sel]

/-- A cycle in which no flit comes in. -/
theorem Inv.step_wait (h : Inv t w before cur) (hgo : t.regs.go i = false) :
    Inv (t.step i) w before cur := by
  have hnone : t.regs.arrives i = [] := by simp [Noc3.arrives, hgo]
  obtain ⟨hst, hcounter, hsrc⟩ :
      (t.regs.next i).msgStateF = t.regs.msgStateF ∧
      (t.regs.next i).msgCounterF = t.regs.msgCounterF ∧
      (t.regs.next i).msgSrcF = t.regs.msgSrcF := by
    cases hs : t.regs.stall i <;> simp [Noc3.next, hs, hgo]
  refine ⟨h.whole, h.wholes, h.merges, ?_, fun d => ?_, ?_⟩
  · show Parsed (t.regs.next i) cur
    unfold Parsed
    rw [hst, hcounter, hsrc]
    exact h.parsed
  · rw [h.taken_step, hnone, h.taken, show (t.step i).regs.msgSrcF = _ from hsrc]
    simp
  · rw [h.sent_step, hnone, h.sent, List.append_nil]

/-- What the parser becomes when a flit comes in. -/
theorem next_of_go {q : Noc3} (hgo : q.go i = true) :
    (q.next i).msgStateF = q.msgStateNext ∧
      (q.next i).msgCounterF =
        (if q.msgStateNext = .header0 then MSG_LENGTH.get (q.dataMuxOut i)
        else q.msgCounterF - 1#8) ∧
      (q.next i).msgSrcF =
        (if q.msgStateNext = .header0 then q.inputMuxSel i
        else q.msgSrcF) := by
  have hs : q.stall i = false := by
    simp only [Noc3.go, Bool.and_eq_true, Bool.not_eq_true'] at hgo
    exact hgo.2
  simp [Noc3.next, hs, hgo]

/-- The flit that comes in is a header; the packet before it is whole. -/
theorem Inv.step_header (h : Inv t w before cur) (hgo : t.regs.go i = true)
    (hhead : t.regs.msgStateNext = .header0) :
    Inv (t.step i) t.taken (before ++ cur) [t.regs.dataMuxOut i] := by
  have hone : t.regs.arrives i = [t.regs.dataMuxOut i] := by
    simp [Noc3.arrives, hgo]
  obtain ⟨hst, hcounter, hsrc⟩ := next_of_go hgo
  rw [if_pos hhead] at hcounter hsrc
  have hcur : Framing.Whole payload cur := by
    rcases h.parsed with ⟨-, rfl⟩ | ⟨hst', -, b, bs, rfl, hlen⟩
    · exact .nil
    · have hzero : t.regs.msgCounterF = 0#8 := by
        by_contra hz
        unfold Noc3.msgStateNext at hhead
        rcases hst' with hst' | hst' <;> simp [hst', hz] at hhead
      refine .packet ?_
      rw [hlen, hzero]
      exact (Nat.zero_add _).symm
  refine ⟨h.whole.append hcur, fun d => ?_, ?_, ?_, fun d => ?_, ?_⟩
  · rw [h.taken]
    split_ifs
    · exact (h.wholes d).append hcur
    · rw [List.append_nil]
      exact h.wholes d
  · rw [← h.sent]
    exact h.merges_taken
  · refine .inr ⟨.inl (hst.trans hhead), ?_, _, [], rfl, ?_⟩
    · show (t.regs.next i).msgSrcF ≠ _
      rw [hsrc]
      exact h.go_sel hgo
    · show _ = (t.regs.next i).msgCounterF.toNat + 0
      rw [hcounter]
      rfl
  · rw [h.taken_step, hone, show (t.step i).regs.msgSrcF = _ from hsrc]
  · rw [h.sent_step, hone, h.sent]

/-- The flit that comes in belongs to the packet of the last header. -/
theorem Inv.step_body (h : Inv t w before cur) (hgo : t.regs.go i = true)
    (hhead : t.regs.msgStateNext ≠ .header0) :
    Inv (t.step i) w before (cur ++ [t.regs.dataMuxOut i]) := by
  have hone : t.regs.arrives i = [t.regs.dataMuxOut i] := by
    simp [Noc3.arrives, hgo]
  obtain ⟨hst, hcounter, hsrc⟩ := next_of_go hgo
  rw [if_neg hhead] at hcounter hsrc
  have hmux : t.regs.inputMuxSel i = t.regs.msgSrcF := by
    simp [Noc3.inputMuxSel, hhead]
  obtain ⟨hst', hsrc', b, bs, rfl, hlen⟩ :=
    h.parsed.resolve_left fun ⟨hst', _⟩ =>
      hhead (by simp [Noc3.msgStateNext, hst'])
  have hpos : t.regs.msgCounterF ≠ 0#8 := by
    intro hz
    unfold Noc3.msgStateNext at hhead
    rcases hst' with hst' | hst' <;> simp [hst', hz] at hhead
  have hdata : t.regs.msgStateNext = .data := by
    unfold Noc3.msgStateNext
    rcases hst' with hst' | hst' <;> simp [hst', hpos]
  have hne : t.regs.msgCounterF.toNat ≠ 0 :=
    fun h0 => hpos (BitVec.eq_of_toNat_eq h0)
  have hpred := toNat_pred (Nat.pos_of_ne_zero hne)
  refine ⟨h.whole, h.wholes, h.merges, .inr ⟨.inr (hst.trans hdata), ?_, b,
    bs ++ [t.regs.dataMuxOut i], rfl, ?_⟩, fun d => ?_, ?_⟩
  · show (t.regs.next i).msgSrcF ≠ _
    rw [hsrc]
    exact hsrc'
  · show _ = (t.regs.next i).msgCounterF.toNat + _
    rw [hcounter, hlen, List.length_append, List.length_singleton]
    omega
  · rw [h.taken_step, h.taken, hone, hmux,
      show (t.step i).regs.msgSrcF = _ from hsrc]
    split_ifs
    · exact List.append_assoc _ _ _
    · rw [List.append_nil]
  · rw [h.sent_step, hone, h.sent, List.append_assoc]

theorem Inv.step (h : Inv t w before cur) :
    ∃ w' before' cur', Inv (t.step i) w' before' cur' := by
  cases hgo : t.regs.go i with
  | false => exact ⟨w, before, cur, h.step_wait hgo⟩
  | true =>
    by_cases hhead : t.regs.msgStateNext = .header0
    · exact ⟨_, _, _, h.step_header hgo hhead⟩
    · exact ⟨_, _, _, h.step_body hgo hhead⟩

end Responses

end ArianeSoc.Chipset.MemIoSplitter
