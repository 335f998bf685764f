import ArianeSoc.Lsu.Bypass
import ArianeSoc.Sync

/-!
# Every request goes through the queue once

The queue is watched by a record of the requests that it has accepted and of
those that it has delivered since the last flush.  A request is accepted in
the cycle in which it arrives, and the one on `lsu_ctrl_o` is delivered in a
cycle in which a unit pops it.  A request arrives only if the queue is ready
or was so one cycle earlier, as the issue stage registers it.

The counter is not guarded.  A pop without a request takes it below zero,
and of two pops in one cycle the second takes a request that no unit has
seen.

* `buffered_push`, `buffered_pop`: the two steps on the list of requests.
* `popsRequest_of_inOrder`: the number of requests alone says that there was
  at most one pop, and that of a request.
* `inOrder_iff`: in every run, the requests accepted are those delivered and
  those in the queue, of which there are two at most, if and only if every
  pop is one unit's and takes a valid request.
-/

namespace ArianeSoc.Bypass

open Lsu Sync

variable {q d : State} {i : In}

/-! ## The requests in the queue -/

/-- The requests from the head on. -/
def buffered (q : State) : List LsuCtrl :=
  (List.range q.statusCnt.toNat).map fun k =>
    q.mem (q.readPointer + BitVec.ofNat 1 k)

theorem length_buffered (q : State) :
    (buffered q).length = q.statusCnt.toNat := by
  rw [buffered, List.length_map, List.length_range]

theorem buffered_of_zero (h : q.statusCnt = 0#2) : buffered q = [] := by
  rw [buffered, h]
  rfl

theorem buffered_of_one (h : q.statusCnt = 1#2) :
    buffered q = [q.mem q.readPointer] := by
  simp [buffered, h]

theorem buffered_of_two (h : q.statusCnt = 2#2) :
    buffered q = [q.mem q.readPointer, q.mem (q.readPointer + 1#1)] := by
  simp [buffered, h, List.range_succ]

/-- The request that a cycle accepts. -/
def accepted (i : In) : List LsuCtrl :=
  if i.lsuReq.valid then [i.lsuReq] else []

/-- A new request goes to the end of the queue. -/
theorem buffered_push (ha : Aligned q) (hc : q.statusCnt.toNat ≤ 2)
    (hv : i.lsuReq.valid = true → q.statusCnt.toNat ≤ 1) :
    buffered (push q i) = buffered q ++ accepted i := by
  unfold push accepted
  cases hreq : i.lsuReq.valid with
  | false => simp
  | true =>
    have hle := hv hreq
    unfold Aligned at ha
    rw [if_pos rfl, if_pos rfl]
    rcases count_cases q.statusCnt with h | h | h | h
    · have hwr : q.writePointer = q.readPointer := by simpa [h] using ha
      rw [buffered_of_zero h, buffered_of_one (by rw [h]; rfl), hwr]
      simp
    · have hwr : q.writePointer = q.readPointer + 1#1 := by simpa [h] using ha
      rw [buffered_of_one h, buffered_of_two (by rw [h]; rfl), hwr]
      simp
    · rw [h] at hle
      exact absurd hle (by decide)
    · rw [h] at hc
      exact absurd hc (by decide)

/-- A pop takes the head off. -/
theorem buffered_pop (hrd : d.readPointer = q.readPointer)
    (h0 : d.statusCnt ≠ 0#2) (hc : d.statusCnt.toNat ≤ 2) :
    buffered d = d.mem q.readPointer :: buffered (pop q true d) := by
  have hcnt : (pop q true d).statusCnt = d.statusCnt - 1#2 := rfl
  rcases count_cases d.statusCnt with h | h | h | h
  · exact absurd h h0
  · rw [buffered_of_one h, buffered_of_zero (by rw [hcnt, h]; rfl), hrd]
  · rw [buffered_of_two h, buffered_of_one (by rw [hcnt, h]; rfl), hrd]
    simp [pop, hrd]
  · rw [h] at hc
    exact absurd hc (by decide)

/-! ## The record -/

/-- A unit pops. -/
def pops (i : In) : Bool := i.popLd || i.popSt

/-- The request that a cycle delivers. -/
def delivered (q : State) (i : In) : List LsuCtrl :=
  if pops i && (lsuCtrlO q i.lsuReq).valid then [lsuCtrlO q i.lsuReq] else []

/-- The queue with what it has accepted and delivered since the last flush,
and whether it was ready in the cycle before. -/
structure Record where
  queue : State
  wasReady : Bool
  accepted : List LsuCtrl
  delivered : List LsuCtrl

namespace Record

def reset : Record := ⟨Bypass.reset, true, [], []⟩

def step (t : Record) (i : In) : Record where
  queue := Bypass.step t.queue i
  wasReady := readyO t.queue
  accepted := if i.flush then [] else t.accepted ++ Bypass.accepted i
  delivered :=
    if i.flush then [] else t.delivered ++ Bypass.delivered t.queue i

end Record

/-- A request comes only when ready was given. -/
def Offered (t : Record) (i : In) : Prop :=
  i.lsuReq.valid = true → t.wasReady = true ∨ readyO t.queue = true

/-- Outside a flush, at most one unit pops, and it pops a valid request. -/
def PopsRequest (t : Record) (i : In) : Prop :=
  i.flush = false → pops i = true →
    (lsuCtrlO t.queue i.lsuReq).valid = true ∧
      (i.popLd && i.popSt) = false

/-- The requests accepted are the ones delivered, in order, and those in the
queue, of which there are two at most. -/
structure InOrder (t : Record) : Prop where
  order : t.accepted = t.delivered ++ buffered t.queue
  bound : t.queue.statusCnt.toNat ≤ 2

instance (t : Record) (i : In) : Decidable (Offered t i) :=
  inferInstanceAs (Decidable (_ → _ ∨ _))

/-! ## What holds whoever pops -/

structure Inv (t : Record) : Prop where
  aligned : Aligned t.queue
  valid : ∀ l ∈ t.accepted, l.valid = true
  /-- Two cells can fill up at once only by two pops of an empty queue. -/
  ready : t.wasReady = true → t.queue.statusCnt = 2#2 →
    ∀ k, (t.queue.mem k).valid = false

theorem inv_reset : Inv Record.reset where
  aligned := aligned_reset
  valid l hl := absurd hl List.not_mem_nil
  ready _ h := absurd h (by decide)

variable {t : Record}

theorem inv_step (h : Inv t) : Inv (t.step i) where
  aligned := aligned_step t.queue i h.aligned
  valid := by
    intro l hl
    cases hf : i.flush with
    | true =>
      rw [Record.step, hf] at hl
      exact absurd hl List.not_mem_nil
    | false =>
      have hl' : l ∈ t.accepted ++ accepted i := by
        rw [Record.step, hf] at hl
        exact hl
      rcases List.mem_append.mp hl' with hold | hnew
      · exact h.valid l hold
      · unfold accepted at hnew
        split_ifs at hnew with hv
        · rw [List.mem_singleton.mp hnew]
          exact hv
        · exact absurd hnew List.not_mem_nil
  ready := by
    intro hwas htwo
    have hzero : t.queue.statusCnt = 0#2 := of_decide_eq_true hwas
    have hcount : (step t.queue i).statusCnt = 2#2 := htwo
    have hf : i.flush = false := by
      by_contra hf
      rw [step, if_pos (Bool.not_eq_false _ ▸ hf)] at hcount
      exact absurd hcount (by decide)
    rw [statusCnt_step hf, hzero] at hcount
    have hboth : i.popLd = true ∧ i.popSt = true := by
      revert hcount
      cases i.lsuReq.valid <;> cases i.popLd <;> cases i.popSt <;> decide
    exact fun k => mem_step_of_pops hf hboth.1 hboth.2 k

/-- The requests in the queue are valid. -/
theorem InOrder.valid (h : InOrder t) (hi : Inv t) :
    ∀ l ∈ buffered t.queue, l.valid = true := by
  intro l hl
  apply hi.valid l
  rw [h.order]
  exact List.mem_append_right _ hl

theorem InOrder.headValid (h : InOrder t) (hi : Inv t)
    (h0 : t.queue.statusCnt ≠ 0#2) :
    (t.queue.mem t.queue.readPointer).valid = true := by
  apply h.valid hi
  rcases count_cases t.queue.statusCnt with hc | hc | hc | hc
  · exact absurd hc h0
  · rw [buffered_of_one hc]
    exact List.mem_cons_self
  · rw [buffered_of_two hc]
    exact List.mem_cons_self
  · have hbound := h.bound
    rw [hc] at hbound
    exact absurd hbound (by decide)

/-- A request that comes finds a cell. -/
theorem InOrder.room (h : InOrder t) (hi : Inv t) (ho : Offered t i)
    (hv : i.lsuReq.valid = true) : t.queue.statusCnt.toNat ≤ 1 := by
  rcases count_cases t.queue.statusCnt with hc | hc | hc | hc
  · rw [hc]
    decide
  · rw [hc]
    decide
  · have hmem := h.headValid hi (by rw [hc]; decide)
    rcases ho hv with hwas | hnow
    · rw [hi.ready hwas hc] at hmem
      exact absurd hmem Bool.false_ne_true
    · have hzero : t.queue.statusCnt = 0#2 := of_decide_eq_true hnow
      exact absurd (hc.symm.trans hzero) (by decide)
  · have hbound := h.bound
    rw [hc] at hbound
    exact absurd hbound (by decide)

/-! ## One cycle -/

/-- The counter as a number. -/
theorem toNat_statusCnt_step (hf : i.flush = false) :
    (step q i).statusCnt.toNat =
      (q.statusCnt.toNat + i.lsuReq.valid.toNat + 4 - i.popLd.toNat -
        i.popSt.toNat) % 4 := by
  have hall : ∀ (c : BitVec 2) (v l s : Bool),
      (c + (BitVec.ofBool v).setWidth 2 - (BitVec.ofBool l).setWidth 2 -
        (BitVec.ofBool s).setWidth 2).toNat =
        (c.toNat + v.toNat + 4 - l.toNat - s.toNat) % 4 := by decide
  rw [statusCnt_step hf]
  exact hall _ _ _ _

theorem length_accepted (i : In) :
    (accepted i).length = i.lsuReq.valid.toNat := by
  unfold accepted
  cases i.lsuReq.valid <;> rfl

theorem length_delivered (q : State) (i : In) :
    (delivered q i).length =
      (pops i && (lsuCtrlO q i.lsuReq).valid).toNat := by
  unfold delivered
  cases pops i && (lsuCtrlO q i.lsuReq).valid <;> rfl

/-- If the order is kept, then at most one unit has popped, and a request. -/
theorem popsRequest_of_inOrder (h : InOrder t) (hi : Inv t)
    (ho : Offered t i) (h' : InOrder (t.step i)) : PopsRequest t i := by
  intro hf hp
  have hroom := h.room hi ho
  have hbound := h.bound
  have horder := congrArg List.length h.order
  have horder' : (t.accepted ++ accepted i).length =
      (t.delivered ++ delivered t.queue i ++
        buffered (step t.queue i)).length := by
    have hlen := congrArg List.length h'.order
    rwa [Record.step, hf] at hlen
  have hbound' : (step t.queue i).statusCnt.toNat ≤ 2 := h'.bound
  simp only [List.length_append, length_buffered, length_accepted,
    length_delivered, toNat_statusCnt_step hf] at horder horder' hbound'
  rw [hp, Bool.true_and] at horder'
  have hpop : 1 ≤ i.popLd.toNat + i.popSt.toNat := by
    unfold pops at hp
    cases hl : i.popLd <;> cases hs : i.popSt <;> simp_all
  have hvalid := Bool.toNat_le i.lsuReq.valid
  have hhead := Bool.toNat_le (lsuCtrlO t.queue i.lsuReq).valid
  have hld := Bool.toNat_le i.popLd
  have hst := Bool.toNat_le i.popSt
  have hfull : i.lsuReq.valid.toNat = 1 → t.queue.statusCnt.toNat ≤ 1 :=
    fun hv => hroom (Bool.toNat_eq_one.mp hv)
  -- the requests that are counted off are the ones that are delivered
  have hcount : (lsuCtrlO t.queue i.lsuReq).valid.toNat = 1 ∧
      i.popLd.toNat + i.popSt.toNat ≤ 1 := by omega
  refine ⟨Bool.toNat_eq_one.mp hcount.1, ?_⟩
  refine Bool.eq_false_iff.mpr fun hboth => ?_
  obtain ⟨hl, hs⟩ := Bool.and_eq_true_iff.mp hboth
  rw [hl, hs] at hcount
  exact absurd hcount.2 (by decide)

/-- The head of the queue with the new request is what is on the output. -/
theorem mem_push_head (h : InOrder t) (hi : Inv t) (ho : Offered t i)
    (hv : (lsuCtrlO t.queue i.lsuReq).valid = true) :
    (push t.queue i).mem t.queue.readPointer = lsuCtrlO t.queue i.lsuReq ∧
      (push t.queue i).statusCnt ≠ 0#2 := by
  have ha := hi.aligned
  unfold Aligned at ha
  unfold lsuCtrlO at hv ⊢
  unfold push
  by_cases h0 : t.queue.statusCnt = 0#2
  · rw [if_pos h0] at hv ⊢
    have hwr : t.queue.writePointer = t.queue.readPointer := by
      simpa [h0] using ha
    have hcnt : 0#2 + 1#2 ≠ 0#2 := by decide
    rw [if_pos hv, hwr, h0]
    exact ⟨Function.update_self _ _ _, hcnt⟩
  · rw [if_neg h0]
    split_ifs with hreq
    · have hle := h.room hi ho hreq
      have hone : t.queue.statusCnt = 1#2 := by
        rcases count_cases t.queue.statusCnt with hc | hc | hc | hc
        · exact absurd hc h0
        · exact hc
        · rw [hc] at hle
          exact absurd hle (by decide)
        · rw [hc] at hle
          exact absurd hle (by decide)
      have hne : t.queue.readPointer ≠ t.queue.writePointer := by
        rw [ha, hone]
        exact (by decide : ∀ r : BitVec 1, r ≠ r + (1#2).setWidth 1) _
      have hcnt : 1#2 + 1#2 ≠ 0#2 := by decide
      rw [hone]
      exact ⟨Function.update_of_ne hne _ _, hcnt⟩
    · exact ⟨rfl, h0⟩

/-- A cycle with at most one pop, and that of a request, keeps the order. -/
theorem inOrder_of_popsRequest (h : InOrder t) (hi : Inv t)
    (ho : Offered t i) (hp : PopsRequest t i) : InOrder (t.step i) := by
  cases hf : i.flush with
  | true =>
    have hreset : step t.queue i = reset := by rw [step, if_pos hf]
    constructor
    · show (if i.flush then [] else _) =
        (if i.flush then [] else _) ++ buffered (step t.queue i)
      rw [hf, hreset]
      rfl
    · show (step t.queue i).statusCnt.toNat ≤ 2
      rw [hreset]
      decide
  | false =>
    have hpush := buffered_push hi.aligned h.bound (h.room hi ho)
    have hlen : (push t.queue i).statusCnt.toNat ≤ 2 := by
      rw [← length_buffered, hpush, List.length_append, length_buffered,
        length_accepted]
      have hbound := h.bound
      have hroom := h.room hi ho
      cases hv : i.lsuReq.valid with
      | false => exact hbound
      | true =>
        have hone := hroom hv
        show _ + 1 ≤ 2
        omega
    -- what is delivered and what stays make up the queue after the push
    have hsplit : delivered t.queue i ++ buffered (step t.queue i) =
        buffered (push t.queue i) := by
      cases hpop : pops i with
      | false =>
        have hnone : i.popLd = false ∧ i.popSt = false := by
          simpa [pops] using hpop
        have hstep : step t.queue i = push t.queue i := by
          simp [step, clear, pop, hf, hnone.1, hnone.2]
        rw [hstep, delivered, hpop]
        rfl
      | true =>
        obtain ⟨hv, hone⟩ := hp hf hpop
        have hstep : step t.queue i = pop t.queue true (push t.queue i) := by
          cases hl : i.popLd <;> cases hs : i.popSt <;>
            simp_all [pops, step, clear, pop]
        obtain ⟨hhead, hne⟩ := mem_push_head h hi ho hv
        have hrd : (push t.queue i).readPointer = t.queue.readPointer := by
          unfold push
          split_ifs <;> rfl
        rw [buffered_pop hrd hne hlen, hhead, hstep, delivered, hpop, hv]
        rfl
    constructor
    · show (if i.flush then [] else t.accepted ++ accepted i) =
        (if i.flush then [] else t.delivered ++ delivered t.queue i) ++
          buffered (step t.queue i)
      rw [hf, if_neg Bool.false_ne_true, if_neg Bool.false_ne_true,
        List.append_assoc, hsplit, hpush, h.order, List.append_assoc]
    · have hcount := congrArg List.length hsplit
      rw [List.length_append, length_buffered, length_buffered] at hcount
      show (step t.queue i).statusCnt.toNat ≤ 2
      omega

/-! ## Every run -/

/-- In every run in which requests come only when ready was given, the
requests accepted since the last flush are, in every state, those delivered,
in order and each once, and those in the queue, of which there are two at
most, if and only if outside the flushes every pop is one unit's and takes a
valid request. -/
theorem inOrder_iff (is : List In)
    (ho : Along Record.step Offered Record.reset is) :
    Always Record.step InOrder Record.reset is ↔
      Along Record.step PopsRequest Record.reset is := by
  have hinv : Along Record.step (fun t _ => Inv t) Record.reset is :=
    along_of_invariant (fun _ _ h => inv_step h) inv_reset is
  refine (ho.and hinv).always_iff (fun t i hq h => ?_) ⟨rfl, by decide⟩
  exact ⟨popsRequest_of_inOrder h hq.2 hq.1,
    inOrder_of_popsRequest h hq.2 hq.1⟩

/-- A cycle with a request at most. -/
def In.quiet (l : LsuCtrl) : In := ⟨false, l, false, false⟩

/-- The request number `n`, a load. -/
def loadRequest (n : BitVec 3) : LsuCtrl :=
  { LsuCtrl.zero with valid := true, fu := .LOAD, operator := .LD, transId := n }

/-- Two requests are kept and popped one after the other. -/
theorem inOrder_iff_two :
    let is := [In.quiet (loadRequest 0#3), In.quiet (loadRequest 1#3),
      { In.quiet LsuCtrl.zero with popLd := true },
      { In.quiet LsuCtrl.zero with popSt := true }]
    Always Record.step InOrder Record.reset is ↔
      Along Record.step PopsRequest Record.reset is :=
  inOrder_iff _ (by decide)

/-- Of two requests that are kept, both units pop in one cycle, and the
second is never delivered; and a pop without a request takes the counter to
three. -/
theorem not_inOrder_pops :
    let kept := [In.quiet (loadRequest 0#3), In.quiet (loadRequest 1#3),
      { In.quiet LsuCtrl.zero with popLd := true, popSt := true }]
    let empty := [{ In.quiet LsuCtrl.zero with popLd := true }]
    Along Record.step Offered Record.reset kept ∧
      ¬ Always Record.step InOrder Record.reset kept ∧
      Along Record.step Offered Record.reset empty ∧
      ¬ Always Record.step InOrder Record.reset empty := by
  intro kept empty
  refine ⟨by decide, fun h => ?_, by decide, fun h => ?_⟩
  · exact absurd (h 3).order (by decide)
  · exact absurd (h 1).bound (by decide)

end ArianeSoc.Bypass
