import ArianeSoc.CommitStage
import ArianeSoc.Issue.Queue
import ArianeSoc.Issue.Window
import Mathlib.Data.List.Nodup

/-!
# The scoreboard commits in order

The array of the scoreboard refines the queue of `Issue.Queue`: the cell
`j` places behind commit pointer 0 holds the instruction `j` places behind
the front.  `Refines` is the relation, `refines_step` the simulation of a
cycle and `committing_eq` what the commit ports show of the front.

The commit stage then closes the loop: its acknowledges are those that the
scoreboard expects, whatever its other inputs do.
-/

namespace ArianeSoc.Scoreboard

open Ring

variable {b : ℕ} {s : State b} {i : In b} {g : Queue b}

/-- The cell of an instruction in flight. -/
def cellOf (r : Rec b) : Slot :=
  ⟨true, isRdFpr r.entry.op, offered r⟩

/-- The array holds the queue. -/
structure Refines (s : State b) (g : Queue b) : Prop where
  windowed : Windowed s
  count : s.issueCnt.toNat = g.q.inflight.length
  next : s.issuePointer = g.nextId
  cell : ∀ j r, g.q.inflight[j]? = some r →
    r.name = slot s.commitPointer0 j ∧
      s.mem (slot s.commitPointer0 j) = cellOf r

theorem refines_reset : Refines (reset b) Queue.empty where
  windowed := windowed_reset
  count := by simp [reset, Queue.empty, RetireQueue.Queue.empty]
  next := rfl
  cell j r h := by simp [Queue.empty, RetireQueue.Queue.empty] at h

/-! ## The simulation of a cycle -/

/-- An instruction is issued exactly if the queue accepts it. -/
theorem issueEn_eq (h : Refines s g) : issueEn s i = accepts g i := by
  have hlt := s.issueCnt.isLt
  have hfull : issueFull s = false ↔ g.q.inflight.length + 1 < 2 ^ b := by
    rw [← h.count, issueFull, decide_eq_false_iff_not]
    refine ⟨fun hne => ?_, fun hlt' heq => ?_⟩
    · have hne' : s.issueCnt.toNat ≠ 2 ^ b - 1 := fun heq =>
        hne (BitVec.eq_of_toNat_eq (by rw [heq, BitVec.toNat_allOnes]))
      omega
    · rw [heq, BitVec.toNat_allOnes] at hlt'
      omega
  have hroom : (!issueFull s) =
      decide (g.q.inflight.length + 1 < 2 ^ b) := by
    rw [Bool.eq_iff_iff, Bool.not_eq_true', hfull, decide_eq_true_eq]
  unfold issueEn decodedInstrAckO accepts
  rw [hroom]

/-- A cell that stays in flight receives the effects of the cycle. -/
theorem cell_of_staying (h : Refines s g) (hi : AckOk s i)
    (hf : i.flush = false) {j : ℕ} {r : Rec b}
    (hj : g.q.inflight[numCommit i + j]? = some r) :
    issueFifo s i (slot s.commitPointer0 (numCommit i + j)) =
      cellOf (r.receive (effectsOf i)) := by
  obtain ⟨hname, hmem⟩ := h.cell _ r hj
  obtain ⟨-, hacked⟩ := acked_iff h.windowed hi
  have hlen : numCommit i + j < s.issueCnt.toNat := by
    rw [h.count]
    exact (List.getElem?_eq_some_iff.mp hj).1
  have hlt := s.issueCnt.isLt
  have hna : ¬ acked s i (slot s.commitPointer0 (numCommit i + j)) := by
    rw [hacked, slot_mem_window (by omega)]
    omega
  have hni : ¬ (issueEn s i = true ∧
      slot s.commitPointer0 (numCommit i + j) = s.issuePointer) := by
    rw [h.windowed.pointer, slot_eq_iff (by omega) hlt]
    omega
  have hiss : (s.mem (slot s.commitPointer0 (numCommit i + j))).issued =
      true := by rw [hmem]; rfl
  rw [issueFifo_cell]
  dsimp only
  rw [if_neg (Bool.eq_false_iff.mp hf), if_neg hna, if_pos hiss,
    if_neg hni, hmem, ← hname]
  unfold cellOf
  dsimp only
  rw [offered_receive, offered_fu]
  rfl

/-- The cell at the issue pointer takes the new instruction. -/
theorem cell_of_entering (h : Refines s g) (hi : AckOk s i)
    (hf : i.flush = false) (hen : issueEn s i = true) :
    issueFifo s i s.issuePointer = issuedSlot i := by
  obtain ⟨hn, hacked⟩ := acked_iff h.windowed hi
  have hlt := s.issueCnt.isLt
  have hna : ¬ acked s i s.issuePointer := by
    rw [hacked, h.windowed.pointer, slot_mem_window hlt]
    omega
  have hiss : ¬ (s.mem s.issuePointer).issued = true := by
    rw [h.windowed.issued, h.windowed.pointer, slot_mem_window hlt]
    omega
  rw [issueFifo_cell]
  dsimp only
  rw [if_neg (Bool.eq_false_iff.mp hf), if_neg hna, if_neg hiss,
    if_pos ⟨hen, rfl⟩]

theorem length_staying (h : Refines s g) :
    ((g.q.inflight.drop (numCommit i)).map
      (RetireQueue.Rec.receive (effectsOf i))).length =
        s.issueCnt.toNat - numCommit i := by
  rw [List.length_map, List.length_drop, h.count]

/-- The cells of the instructions in flight after a cycle. -/
theorem cell_step (hi : AckOk s i) (h : Refines s g) (hf : i.flush = false)
    {j : ℕ} {r : Rec b} (hj : (g.step i).q.inflight[j]? = some r) :
    r.name = slot s.commitPointer0 (numCommit i + j) ∧
      issueFifo s i (slot s.commitPointer0 (numCommit i + j)) = cellOf r := by
  have hen := issueEn_eq (i := i) h
  obtain ⟨hn, -⟩ := acked_iff h.windowed hi
  rw [inflight_step hf, List.getElem?_append, length_staying h] at hj
  by_cases hlt : j < s.issueCnt.toNat - numCommit i
  · -- an instruction that was in flight before
    rw [if_pos hlt, List.getElem?_map, List.getElem?_drop] at hj
    obtain ⟨r', hr', rfl⟩ := Option.map_eq_some_iff.mp hj
    exact ⟨(h.cell _ r' hr').1, cell_of_staying h hi hf hr'⟩
  · -- the instruction that enters
    rw [if_neg hlt] at hj
    cases hacc : accepts g i with
    | false => simp [hacc] at hj
    | true =>
      rw [hacc, if_pos rfl, List.getElem?_singleton] at hj
      split_ifs at hj with hlast
      obtain rfl := Option.some.inj hj
      have hj' : numCommit i + j = s.issueCnt.toNat := by omega
      rw [hj', ← h.windowed.pointer]
      exact ⟨h.next.symm, cell_of_entering h hi hf (hen.trans hacc)⟩

theorem refines_step (hi : AckOk s i) (h : Refines s g) :
    Refines (step s i) (g.step i) := by
  have hen := issueEn_eq (i := i) h
  have hw := windowed_step hi h.windowed
  cases hf : i.flush with
  | true =>
    have hq : (g.step i).q.inflight = [] := if_pos hf
    refine ⟨hw, ?_, ?_, fun j r hj => ?_⟩
    · rw [hq]
      simp [step, issueCntN, hf]
    · simp [step, issuePointerN, Queue.step, hf]
    · rw [hq] at hj
      simp at hj
  | false =>
    obtain ⟨hn, -⟩ := acked_iff h.windowed hi
    have hcp : commitPointerN0 s i = slot s.commitPointer0 (numCommit i) :=
      if_neg (Bool.eq_false_iff.mp hf)
    refine ⟨hw, ?_, ?_, fun j r hj => ?_⟩
    · show (issueCntN s i).toNat = _
      rw [issueCntN_toNat hf hn, inflight_step hf, List.length_append,
        length_staying h, hen]
      cases accepts g i <;> simp
      omega
    · simp [step, issuePointerN, Queue.step, hf, hen, h.next]
    · show r.name = slot (commitPointerN0 s i) j ∧
        issueFifo s i (slot (commitPointerN0 s i) j) = cellOf r
      rw [hcp, slot_add]
      exact cell_step hi h hf hj

/-! ## What is issued and what commits -/

/-- The instruction that a cycle issues. -/
def issuing (s : State b) (i : In b) : List ScoreboardEntry :=
  if issueEn s i then [i.decodedInstr] else []

/-- The instructions that the commit ports offer and have acknowledged, in
program order. -/
def committing (s : State b) (i : In b) : List ScoreboardEntry :=
  (if i.commitAck0 then [commitInstr0 s] else []) ++
    if i.commitAck1 then [commitInstr1 s] else []

/-- An instruction that commits is one of the two that the ports offer. -/
theorem committing_cases {o : ScoreboardEntry} (h : o ∈ committing s i) :
    i.commitAck0 = true ∧ o = commitInstr0 s ∨
      i.commitAck1 = true ∧ o = commitInstr1 s := by
  rcases List.mem_append.mp h with h | h
  · split_ifs at h with h0
    · exact Or.inl ⟨h0, List.mem_singleton.mp h⟩
    · exact absurd h List.not_mem_nil
  · split_ifs at h with h1
    · exact Or.inr ⟨h1, List.mem_singleton.mp h⟩
    · exact absurd h List.not_mem_nil

/-- What commits was offered valid. -/
theorem valid_of_committing (hi : AckOk s i) {o : ScoreboardEntry}
    (h : o ∈ committing s i) : o.valid = true := by
  rcases committing_cases h with ⟨h0, rfl⟩ | ⟨h1, rfl⟩
  · exact hi.valid0 h0
  · exact hi.valid1 h1

theorem issued_step (h : Refines s g) :
    (g.step i).q.issued = g.q.issued ++ issuing s i := by
  show g.q.issued ++ _ = _
  unfold issuing event
  rw [issueEn_eq h]
  dsimp only
  split_ifs <;> rfl

/-- The instruction `j` places behind the front, as a commit port with the
pointer of its cell shows it. -/
theorem retired_of_cell (h : Refines s g) {j : ℕ} {r : Rec b}
    (hj : g.q.inflight[j]? = some r) :
    retired r = { (s.mem (slot s.commitPointer0 j)).sbe with
      transId := (slot s.commitPointer0 j).setWidth 3 } := by
  obtain ⟨hname, hmem⟩ := h.cell j r hj
  rw [hmem, ← hname]
  rfl

/-- The acknowledged instructions are the front of the queue. -/
theorem committing_eq (hi : AckOk s i) (h : Refines s g) :
    committing s i = (g.q.inflight.take (numCommit i)).map retired := by
  obtain ⟨hn, -⟩ := acked_iff h.windowed hi
  rw [h.count] at hn
  unfold committing numCommit at *
  cases h0 : i.commitAck0 with
  | false =>
    have h1 : i.commitAck1 = false :=
      Bool.eq_false_iff.mpr fun h1 => by simp [hi.first h1] at h0
    simp [h1]
  | true =>
    have hfront : ∀ j, j < g.q.inflight.length →
        ∃ r, g.q.inflight[j]? = some r :=
      fun j hj => ⟨_, List.getElem?_eq_getElem hj⟩
    have hadd : i.commitAck0.toNat = 1 := by rw [h0]; rfl
    obtain ⟨r0, hr0⟩ := hfront 0 (by omega)
    have hc0 : commitInstr0 s = retired r0 := by
      rw [retired_of_cell h hr0, slot_zero]
      rfl
    cases h1 : i.commitAck1 with
    | false =>
      rw [hc0]
      simp [List.take_add_one, hr0]
    | true =>
      rw [h0, h1] at hn
      obtain ⟨r1, hr1⟩ := hfront 1 hn
      have hptr : s.commitPointer1 = slot s.commitPointer0 1 := by
        refine h.windowed.second.resolve_right fun hz => ?_
        have hc := h.count
        rw [hz] at hc
        simp only [BitVec.toNat_ofNat, Nat.zero_mod] at hc
        rw [← hc] at hn
        exact absurd hn (by decide)
      have hc1 : commitInstr1 s = retired r1 := by
        rw [retired_of_cell h hr1, ← hptr]
        rfl
      rw [hc0, hc1]
      simp [List.take_add_one, hr0, hr1]

/-- The cell of an instruction in flight. -/
theorem mem_of_inflight (h : Refines s g) {r : Rec b}
    (hr : r ∈ g.q.inflight) : s.mem r.name = cellOf r := by
  obtain ⟨j, hj, rfl⟩ := List.getElem_of_mem hr
  obtain ⟨hname, hmem⟩ := h.cell j _ (List.getElem?_eq_getElem hj)
  rw [hname, hmem]

/-- An issued cell is the cell of an instruction in flight. -/
theorem inflight_of_issued (h : Refines s g) {k : BitVec b}
    (hk : (s.mem k).issued = true) : ∃ r ∈ g.q.inflight, r.name = k := by
  obtain ⟨j, hj, -, rfl⟩ := exists_slot ((h.windowed.issued k).1 hk)
  rw [h.count] at hj
  exact ⟨_, List.getElem_mem hj,
    (h.cell j _ (List.getElem?_eq_getElem hj)).1⟩

/-- The instruction that port 0 offers is at the front. -/
theorem front_of_valid (h : Refines s g)
    (hv : (commitInstr0 s).valid = true) :
    ∃ r l, g.q.inflight = r :: l ∧ retired r = commitInstr0 s := by
  have hin : s.commitPointer0 ∈ window s.commitPointer0 s.issueCnt.toNat :=
    (h.windowed.issued _).1 (h.windowed.valid _ hv)
  have hpos : 0 < g.q.inflight.length := by
    rw [← h.count]
    simpa [mem_window] using hin
  obtain ⟨r, l, heq⟩ := List.exists_cons_of_length_pos hpos
  refine ⟨r, l, heq, ?_⟩
  have hr : g.q.inflight[0]? = some r := by rw [heq]; rfl
  rw [retired_of_cell h hr, slot_zero]
  rfl

theorem committed_step (hi : AckOk s i) (h : Refines s g) :
    (g.step i).q.committed.map retired =
      g.q.committed.map retired ++ committing s i := by
  show (g.q.committed ++ g.q.inflight.take (numCommit i)).map retired = _
  rw [List.map_append, committing_eq hi h]

/-- No two instructions in flight share a transaction id. -/
theorem names_nodup (h : Refines s g) :
    (g.q.inflight.map RetireQueue.Rec.name).Nodup := by
  have hlt := s.issueCnt.isLt
  have hcount := h.count
  rw [List.nodup_iff_getElem?_ne_getElem?]
  intro j j' hjj hj' heq
  rw [List.length_map] at hj'
  have hr := List.getElem?_eq_getElem (l := g.q.inflight) (i := j) (by omega)
  have hr' := List.getElem?_eq_getElem hj'
  rw [List.getElem?_map, List.getElem?_map, hr, hr'] at heq
  have hname := Option.some.inj heq
  rw [(h.cell _ _ hr).1, (h.cell _ _ hr').1, slot_eq_iff (by omega)
    (by omega)] at hname
  omega

/-! ## The commit stage closes the loop -/

/-- The inputs of a cycle, those of the commit stage included. -/
structure Env (b : ℕ) where
  sb : In b
  cs : CommitStage.In

/-- The commit stage looks at the two commit ports. -/
def commitStageIn (s : State b) (e : Env b) : CommitStage.In :=
  { e.cs with
    commitInstr0 := commitInstr0 s
    commitInstr1 := commitInstr1 s }

/-- The acknowledges come from the commit stage. -/
def wire (s : State b) (e : Env b) : In b :=
  { e.sb with
    commitAck0 := CommitStage.commitAck0 (commitStageIn s e)
    commitAck1 := CommitStage.commitAck1 (commitStageIn s e) }

/-- The commit stage acknowledges what the scoreboard expects. -/
theorem ackOk_of_commitStage {c : CommitStage.In}
    (h0 : c.commitInstr0 = commitInstr0 s)
    (h1 : c.commitInstr1 = commitInstr1 s)
    (ha0 : i.commitAck0 = CommitStage.commitAck0 c)
    (ha1 : i.commitAck1 = CommitStage.commitAck1 c) : AckOk s i := by
  have hack1 : CommitStage.commitAck1 c = true →
      CommitStage.commitAck0 c = true ∧ c.commitInstr1.valid = true := by
    intro h
    simp only [CommitStage.commitAck1, Bool.and_eq_true] at h
    exact ⟨h.1.1.1.1.1.1.1.1, h.1.1.1.1.1.1.1.2⟩
  rw [← ha0, ← ha1, h1] at hack1
  refine ⟨fun h => (hack1 h).1, fun h => ?_, fun h => (hack1 h).2⟩
  have hc : CommitStage.commits0 c = true := by
    rw [ha0] at h
    simp only [CommitStage.commitAck0, Bool.and_eq_true] at h
    exact h.1
  rw [← h0]
  exact (CommitStage.commits0_iff.mp hc).1

theorem ackOk_wire (s : State b) (e : Env b) : AckOk s (wire s e) :=
  ackOk_of_commitStage (c := commitStageIn s e) rfl rfl rfl rfl

/-- Whatever the environment does, the commit ports put out the committed
instructions of the queue: in the order in which they were issued, each
issued instruction committed, flushed or in flight and only once, and each
one with the write-backs under its own transaction id. -/
theorem commits_in_order (es : List (Env b)) :
    let is := Sync.feed step wire (reset b) es
    let g := Sync.run Queue.step Queue.empty is
    Sync.outputs step committing (reset b) is =
        g.q.committed.map retired ∧
      Sync.outputs step issuing (reset b) is = g.q.issued ∧
      RetireQueue.Lawful g.q ∧
      RetireQueue.Received Effect.Own g.q ∧
      (g.q.inflight.map RetireQueue.Rec.name).Nodup ∧
      ∀ r ∈ g.q.committed, r.entry.valid = true ∨ r.entry.fu = .NONE ∨
        ∃ t p, Effect.write t p ∈ r.effects := by
  intro is g
  have hack : Sync.Along step AckOk (reset b) is :=
    Sync.along_feed ackOk_wire (reset b) es
  have hsim : ∀ (s : State b) (g : Queue b) i, AckOk s i → Refines s g →
      Refines (step s i) (g.step i) := fun _ _ _ hi h => refines_step hi h
  have hcommitted : Sync.outputs step committing (reset b) is =
      g.q.committed.map retired :=
    (hack.outputs_eq (f := fun g : Queue b => g.q.committed.map retired)
      hsim (fun _ _ _ hi h => committed_step hi h) refines_reset).symm
  have hissued : Sync.outputs step issuing (reset b) is = g.q.issued :=
    (hack.outputs_eq (f := fun g : Queue b => g.q.issued) hsim
      (fun _ _ _ _ h => issued_step h) refines_reset).symm
  have hvalid : ∀ o ∈ Sync.outputs step committing (reset b) is,
      o.valid = true := by
    exact hack.forall_outputs
      (Q := fun o : ScoreboardEntry => o.valid = true)
      fun s i hi o ho => valid_of_committing hi ho
  refine ⟨hcommitted, hissued, lawful_run is, received_run is,
    names_nodup (hack.run_relates hsim refines_reset), fun r hr => ?_⟩
  apply valid_cases
  exact hvalid (retired r) (hcommitted ▸ List.mem_map_of_mem hr)

end ArianeSoc.Scoreboard
