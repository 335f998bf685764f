import ArianeSoc.Frontend.Frontend

/-!
# Fetch faults

A word that the instruction cache returns with a page fault has no
meaningful data.  Every instruction that the re-aligner takes out of it
carries the fault into the queue.  The re-aligner may also take nothing out
of it: a word that starts in the upper half, with the two lowest bits set,
looks like the first half of an instruction, which is kept for the next
word.  Nothing then carries the fault, and the next word completes an
instruction without one (`fault_lost`).

`Undeferred` excludes that word, and `faults_kept` is what holds of all
runs without it.
-/

namespace ArianeSoc.Frontend

open InstrQueue (Carries Located Item stored offered)

/-- The entry in the place of the instruction carries the fault and the
instruction's address, in the queue and on its way out. -/
def Trace.Kept (r : Trace) (f : Fault) : Prop :=
  (r.pushed[f.position]?).map (fun x => (x.data.ex, x.addr)) =
      some (true, f.addr) ∧
    ∀ e ∈ r.delivered[f.position]?, e.exValid = true ∧ e.address = f.addr

def FaultsKept (r : Trace) : Prop := ∀ f ∈ r.faults, r.Kept f

instance (r : Trace) (f : Fault) : Decidable (r.Kept f) := by
  unfold Trace.Kept
  infer_instance

instance (r : Trace) : Decidable (FaultsKept r) :=
  inferInstanceAs (Decidable (∀ f ∈ r.faults, r.Kept f))

/-- A word with a fault is not kept back. -/
def Undeferred (r : Trace) : Prop :=
  ¬(r.front.icacheValid = true ∧ r.front.icacheExValid = true ∧
    r.front.icacheVaddr.getLsbD 1 = true ∧
    r.front.icacheData.extractLsb' 0 2 = 3#2)

instance (r : Trace) : Decidable (Undeferred r) := by
  unfold Undeferred
  infer_instance

/-! ## A cycle -/

section Cycle

variable {r : Trace} {i : In} {d : BitVec 1} {gone xs : List Item}

/-- The first instruction of a word with a fault is valid. -/
theorem slot0_of_undeferred (h : Undeferred r)
    (hv : r.front.icacheValid = true)
    (hex : r.front.icacheExValid = true) :
    (slot r.front 0#1).valid = true := by
  have hdef : InstrRealign.deferred (realignIn r.front false) = false := by
    rw [← Bool.not_eq_true]
    intro hdef
    rw [InstrRealign.deferred, Bool.and_eq_true, Bool.and_eq_true,
      Bool.not_eq_true', isCompressed, bne_eq_false_iff_eq] at hdef
    refine h ⟨hv, hex, hdef.1.2, ?_⟩
    rw [← hdef.2]
    refine BitVec.eq_of_getLsbD_eq fun k hk => ?_
    rw [BitVec.getLsbD_extractLsb', BitVec.getLsbD_extractLsb',
      InstrRealign.In.low, BitVec.getLsbD_extractLsb']
    simp [hk, realignIn]
    omega
  show (r.front.icacheValid && !InstrRealign.deferred _) = true
  rw [hv, hdef]
  rfl

/-- What a word with a fault puts into the queue, unless it is fetched
again. -/
theorem stored_fault (h : Linked r) (he : r.Env i)
    (hi : Carries r.queue d gone xs) (hu : Undeferred r)
    (hv : r.front.icacheValid = true) (hex : r.front.icacheExValid = true)
    (hre : refetched r.front i = false) :
    (stored r.front.queue (queueIn r.front i)).head? =
      some (InstrQueue.item (queueIn r.front i) 0#1) := by
  have hoff : InstrQueue.offers (queueIn r.front i) 0#1 = true := by
    rw [InstrQueue.offers_zero, Linked.bit_valid]
    exact slot0_of_undeferred hu hv hex
  have hshape := h.shape he
  have hstored : stored r.front.queue (queueIn r.front i) = _ :=
    InstrQueue.stored_eq hshape.1 hi.keeps.level
  rw [hstored]
  rcases hs : InstrQueue.stores r.front.queue (queueIn r.front i) 0#1
    with _ | _
  · exfalso
    have hnil : stored r.front.queue (queueIn r.front i) = [] :=
      (InstrQueue.Located.stored_eq_nil_iff hi hshape).mpr hs
    have hcons := InstrQueue.offered_eq hshape.1
    rw [hoff, if_pos rfl] at hcons
    have hreplay : replay r.front i = true := by
      refine (InstrQueue.replayO_iff hshape.1 hi.keeps.level).mpr ?_
      rw [show stored r.queue.queue (queueIn r.front i) = [] from hnil, hcons]
      exact (List.cons_ne_nil _ _).symm
    have haddr := InstrQueue.replayAddrO_eq hshape.1 hi.keeps.level hreplay
    rw [show stored r.queue.queue (queueIn r.front i) = [] from hnil,
      hcons] at haddr
    have hsame : instrAddr r.front = replayAddr r.front i :=
      Option.some.inj haddr
    rw [refetched, hreplay, hsame, Bool.true_and, beq_self_eq_true] at hre
    exact Bool.false_ne_true hre.symm
  · rfl

/-- The faults that are known have their entries in the queue. -/
def Noted (r : Trace) : Prop :=
  ∀ f ∈ r.faults, (r.pushed[f.position]?).map
    (fun x => (x.data.ex, x.addr)) = some (true, f.addr)

theorem Noted.step (hn : Noted r) (h : Linked r) (he : r.Env i)
    (hi : Carries r.queue d gone xs) (hu : Undeferred r) :
    Noted (r.step i) := by
  intro f hf
  rcases hflush : i.flush with _ | _
  · have hpushed : (r.step i).pushed =
        r.pushed ++ stored r.front.queue (queueIn r.front i) :=
      if_neg (by simp [queueIn, hflush])
    have hfaults : (r.step i).faults = r.faults ++ newFault r i :=
      if_neg (by simp [hflush])
    rw [hpushed]
    rw [hfaults, List.mem_append] at hf
    rcases hf with hf | hf
    · have hold := hn f hf
      have hlt : f.position < r.pushed.length := by
        rw [Option.map_eq_some_iff] at hold
        obtain ⟨x, hx, -⟩ := hold
        exact (List.getElem?_eq_some_iff.mp hx).1
      rw [List.getElem?_append_left hlt]
      exact hold
    · rw [newFault] at hf
      split_ifs at hf with hc
      · rw [Bool.and_eq_true, Bool.and_eq_true, Bool.not_eq_true'] at hc
        obtain ⟨⟨hv, hex⟩, hre⟩ := hc
        rw [List.mem_singleton.mp hf,
          List.getElem?_append_right (Nat.le_refl _), Nat.sub_self,
          ← List.head?_eq_getElem?, stored_fault h he hi hu hv hex hre]
        show some (r.front.icacheExValid, instrAddr r.front) = _
        rw [hex]
      · exact absurd hf List.not_mem_nil
  · have hfaults : (r.step i).faults = [] := if_pos hflush
    rw [hfaults] at hf
    exact absurd hf List.not_mem_nil

/-- What leaves is what was put in. -/
theorem Noted.kept (hn : Noted r) (hi : Carries r.queue d gone xs)
    (hl : Located r.queue gone xs) : FaultsKept r := by
  intro f hf
  refine ⟨hn f hf, fun e he => ?_⟩
  have hin := hn f hf
  have hview : (r.delivered.map InstrQueue.FetchEntry.view)[f.position]? =
      some (InstrQueue.FetchEntry.view e) := by
    rw [List.getElem?_map, he]
    rfl
  have haddr : (r.delivered.map FetchEntry.address)[f.position]? =
      some e.address := by
    rw [List.getElem?_map, he]
    rfl
  rw [show r.delivered.map InstrQueue.FetchEntry.view =
    gone.map Item.view from hi.delivered, List.getElem?_map,
    Option.map_eq_some_iff] at hview
  rw [show r.delivered.map FetchEntry.address =
    gone.map Item.addr from hl.address, List.getElem?_map,
    Option.map_eq_some_iff] at haddr
  obtain ⟨x, hx, hxv⟩ := hview
  obtain ⟨y, hy, hya⟩ := haddr
  have hxy : y = x := Option.some.inj (hy.symm.trans hx)
  subst hxy
  have hpushed : r.pushed[f.position]? = some y := by
    rw [show r.pushed = gone ++ xs from hi.pushed,
      List.getElem?_append_left (List.getElem?_eq_some_iff.mp hx).1]
    exact hx
  rw [hpushed, Option.map_some] at hin
  have hboth := Prod.mk.inj (Option.some.inj hin)
  have hex : y.data.ex = e.exValid := congrArg (fun v => v.2.1) hxv
  exact ⟨hex.symm.trans hboth.1, hya.symm.trans hboth.2⟩

end Cycle

/-! ## Runs -/

/-- The front-end follows its packets. -/
structure Sound (r : Trace) : Prop where
  linked : Linked r
  noted : Noted r
  queue : ∃ d gone xs, Carries r.queue d gone xs ∧ Located r.queue gone xs

theorem Sound.init : Sound Trace.init where
  linked := Linked.init
  noted f hf := by simp [Trace.init] at hf
  queue := ⟨_, _, _, Carries.init, Located.init⟩

theorem Sound.step {r : Trace} {i : In} (h : Sound r) (he : r.Env i)
    (hu : Undeferred r) : Sound (r.step i) := by
  obtain ⟨hlinked, hnoted, d, gone, xs, hi, hl⟩ := h
  have hshape := hlinked.shape he
  refine ⟨hlinked.step he hi hl, hnoted.step hlinked he hi hu, ?_⟩
  rcases hflush : i.flush with _ | _
  · exact ⟨_, _, _, hi.step hshape hflush,
      hl.step hi hshape hlinked.continues hflush⟩
  · exact ⟨_, _, _, hi.step_flush hflush, Located.step_flush (r := r.queue) (i := queueIn r.front i) hflush⟩

/-- In a run in which no word with a fault is kept back, every fault reaches
the decoder at its instruction's address, in the place of the first
instruction with bytes of that word. -/
theorem faults_kept (is : List In)
    (h : Sync.Along Trace.step (fun r i => r.Env i ∧ Undeferred r)
      Trace.init is) :
    Sync.Always Trace.step FaultsKept Trace.init is := by
  refine (h.always (P := Sound) ?_ Sound.init).mono ?_
  · intro r i hr hs
    exact hs.step hr.1 hr.2
  · rintro r ⟨-, hnoted, d, gone, xs, hi, hl⟩
    exact hnoted.kept hi hl

/-- A cycle with a word from the cache. -/
def sampleIn (vaddr : BitVec 64) (data : BitVec 32) (valid ex ready : Bool) :
    In where
  flush := false
  isMispredict := false
  dreq := ⟨valid, vaddr, data, ex⟩
  predict := fun _ => .NoCF
  predictAddress := 0#64
  fetchEntryReady := ready

/-- The last half-word of a page with a fault, its data a compressed
instruction. -/
def keptRun : List In :=
  [sampleIn 0xffe#64 0x45010000#32 true true false,
    sampleIn 0#64 0#32 false false false,
    sampleIn 0#64 0#32 false false true]

theorem faults_kept_sample :
    Sync.Always Trace.step FaultsKept Trace.init keptRun :=
  faults_kept keptRun (by decide +kernel)

/-- The same half-word with the two lowest bits set, then the next page. -/
def lostRun : List In :=
  [sampleIn 0xffe#64 0x00030000#32 true true false,
    sampleIn 0x1000#64 0x00010001#32 true false false,
    sampleIn 0#64 0#32 false false false,
    sampleIn 0#64 0#32 false false true]

/-- The decoder gets an instruction made of the faulting word, without the
fault. -/
theorem fault_lost :
    Sync.Along Trace.step Trace.Env Trace.init lostRun ∧
      (Sync.run Trace.step Trace.init lostRun).faults = [⟨0, 0xffe#64⟩] ∧
      (Sync.run Trace.step Trace.init lostRun).delivered.map
        (fun e => (e.address, e.instruction, e.exValid)) =
          [(0xffe#64, 0x00010003#32, false)] ∧
      ¬FaultsKept (Sync.run Trace.step Trace.init lostRun) := by
  decide +kernel

end ArianeSoc.Frontend
