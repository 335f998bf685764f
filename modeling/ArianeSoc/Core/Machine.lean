import ArianeSoc.Core.Speculation
import ArianeSoc.Frontend.Prediction
import ArianeSoc.Frontend.Stream

/-!
# From the instruction cache to the registers

The front end, the register between the decoder and the issue stage of
`id_stage.sv`, and the pipeline behind it, wired as in `ariane.sv`.  The
instruction cache answers from outside, the branch predictors say what they
like, and the other units are those that `Backend.Served` speaks of.

The decoder is a function of its inputs, so that the register keeps these
and the pipeline decodes them.

* `Inv` is what holds in every state: the front end is linked, its items
  are foretold, and the instruction in the register is the last one that
  left the queue.
* `fetches` is what the pipeline needs of a front end: the next instruction
  of the predicted path, with a prediction that can be checked.
-/

namespace ArianeSoc.Machine

open Backend (Flow FlowEnv)
open Frontend (Trace IcacheDreq Predictors FetchEntry Cf Linked Starts
  Foretold)
open Frontend.InstrQueue (Item Carries Located)
open Rv64Int

/-! ## The machine -/

/-- `issue_q` -/
structure Issue where
  valid : Bool
  dec : Decoder.In
  cf : Cf

/-- The registers.  `resume` is the address of the last change of the control
flow, where the fetch begins again. -/
structure State where
  fetch : Trace
  resume : BitVec 64
  issue : Issue
  flow : Flow

def reset (bootAddr : BitVec 64) : State where
  fetch := Trace.init
  resume := bootAddr
  issue := ⟨false, (IssueStage.Env.fetched (b := 3) 0#32).dec, .NoCF⟩
  flow := Flow.reset bootAddr

/-- The inputs of one cycle.  Of the inputs of the decoder in `flow` those
count that come from the CSR file and from outside. -/
structure Env where
  flow : FlowEnv
  dreq : IcacheDreq
  predictors : Predictors

variable (wtDcache : Bool) (q : State) (e : Env)

/-- The inputs of the pipeline. -/
def flowEnv : FlowEnv :=
  { e.flow with
    core :=
      { stage :=
          { e.flow.core.stage with
            dec := q.issue.dec
            decodedInstrValid := q.issue.valid }
        cf := q.issue.cf } }

/-- `flush_if_o` of the controller. -/
def flushIf : Bool :=
  (Controller.flushCtrl wtDcache (IssueStage.controllerIn q.flow.core.stage.st
    (Backend.env wtDcache q.flow.core (flowEnv q e).core))).flushIf

/-- `issue_instr_ack_i` -/
def issueAck : Bool :=
  Scoreboard.decodedInstrAckO q.flow.core.stage.st.sb
    (Backend.sbIn wtDcache q.flow.core (flowEnv q e).core)

/-- `fetch_entry_ready_o` -/
def fetchEntryReady : Bool :=
  (!q.issue.valid || issueAck wtDcache q e) &&
    Frontend.InstrQueue.fetchEntryValidO q.fetch.front.queue

/-- The inputs of the front end. -/
def frontIn : Frontend.In :=
  Frontend.In.speculate q.fetch.front e.predictors
    { flush := flushIf wtDcache q e
      isMispredict := (Backend.resolvedBranch q.flow.core).valid &&
        (Backend.resolvedBranch q.flow.core).isMispredict
      dreq := e.dreq
      predict := fun _ => .NoCF
      predictAddress := 0#64
      fetchEntryReady := fetchEntryReady wtDcache q e }

/-- The entry in front of the decoder. -/
def entry : FetchEntry := Frontend.InstrQueue.fetchEntryO q.fetch.front.queue

/-- The inputs of the decoder. -/
def decoderIn : Decoder.In :=
  Decoder.idStage
    { e.flow.core.stage.dec with
      pc := (entry q).address
      predictAddress := (entry q).predictAddress
      ex := ⟨INSTR_PAGE_FAULT, (entry q).exTval, (entry q).exValid⟩ }
    (entry q).instruction

/-- `issue_n` -/
def issueN : Issue :=
  let n :=
    if fetchEntryReady wtDcache q e then ⟨true, decoderIn q e, (entry q).cf⟩
    else if issueAck wtDcache q e then { q.issue with valid := false }
    else q.issue
  if flushIf wtDcache q e then { n with valid := false } else n

/-- One cycle. -/
def step : State where
  fetch := q.fetch.step (frontIn wtDcache q e)
  resume :=
    if flushIf wtDcache q e then Backend.redirect wtDcache q.flow (flowEnv q e)
    else q.resume
  issue := issueN wtDcache q e
  flow := q.flow.step wtDcache (flowEnv q e)

/-- What surrounds the core.  The units outside keep to `Served`.  The cache
does not answer a killed request, it answers at even addresses, with the word
that was asked for, which is the one at `resume` behind a redirection. -/
structure Surrounds (q : State) (e : Env) : Prop where
  served : Backend.Served wtDcache q.flow.core (flowEnv q e).core
  killed : e.dreq.valid = true →
    Frontend.killS2 q.fetch.front (frontIn wtDcache q e) = false
  even : e.dreq.valid = true → e.dreq.vaddr.getLsbD 0 = false
  addr : e.dreq.valid = true → e.dreq.vaddr = q.fetch.expect.getD q.resume

/-! ## The wires between the parts -/

section Wires

variable {wtDcache q e}

theorem isMispredict_eq :
    (frontIn wtDcache q e).isMispredict =
      (Backend.resolvedBranch q.flow.core).isMispredict := by
  show ((Backend.op q.flow.core).branchValid &&
    ((Backend.op q.flow.core).branchValid && _)) =
      ((Backend.op q.flow.core).branchValid && _)
  rw [← Bool.and_assoc, Bool.and_self]

theorem flushIf_eq : flushIf wtDcache q e =
    (Backend.flushes wtDcache q.flow.core (flowEnv q e).core ||
      (Backend.resolvedBranch q.flow.core).isMispredict) :=
  Controller.flushIf_eq

/-- The front end is surrounded as its lemmas need it. -/
theorem Surrounds.front (h : Surrounds wtDcache q e) :
    q.fetch.Env (frontIn wtDcache q e) where
  mispredict hm := by
    rw [isMispredict_eq] at hm
    have hflush : flushIf wtDcache q e = true := by
      rw [flushIf_eq, hm, Bool.or_true]
    exact hflush
  ready hr := by
    have hready : ((!q.issue.valid || issueAck wtDcache q e) &&
      Frontend.InstrQueue.fetchEntryValidO q.fetch.front.queue) = true := hr
    rw [Bool.and_eq_true] at hready
    exact hready.2
  killed := h.killed
  even := h.even
  addr hv a ha := by
    have haddr : e.dreq.vaddr = q.fetch.expect.getD q.resume := h.addr hv
    rw [Option.mem_def.mp ha, Option.getD_some] at haddr
    exact haddr

/-- Without a flush an instruction that is acknowledged is issued. -/
theorem issues_eq (hf : flushIf wtDcache q e = false) :
    Backend.issues wtDcache q.flow.core (flowEnv q e).core =
      (q.issue.valid && issueAck wtDcache q e) := by
  have hun : (Backend.sbIn wtDcache q.flow.core
      (flowEnv q e).core).flushUnissuedInstr = false :=
    Controller.flushUnissued_eq_flushIf.trans hf
  show (q.issue.valid && issueAck wtDcache q e &&
    !(Backend.sbIn wtDcache q.flow.core
      (flowEnv q e).core).flushUnissuedInstr) = _
  rw [hun, Bool.not_false, Bool.and_true]

end Wires

/-! ## The instruction in the register -/

section Built

open Decoder (compressedDecoder opcode)

/-- The register holds the item `x`. -/
structure Built (n : Issue) (x : Item) : Prop where
  pc : n.dec.pc = x.addr
  instruction : n.dec.instruction = (compressedDecoder x.data.instr).instr
  isCompressed :
    n.dec.isCompressed = (compressedDecoder x.data.instr).isCompressed
  isIllegal : n.dec.isIllegal = (compressedDecoder x.data.instr).illegalInstr
  ex : n.dec.ex.valid = x.data.ex
  cf : n.cf = x.data.cf
  predictAddress : x.data.cf ≠ .NoCF → n.dec.predictAddress = x.target

variable {q e} {n : Issue} {x : Item} {d : BitVec 1} {gone xs : List Item}

/-- The entry that leaves the queue is built from its first item. -/
theorem built_entry (hi : Carries q.fetch.queue d gone (x :: xs))
    (hl : Located q.fetch.queue gone (x :: xs)) :
    Built ⟨true, decoderIn q e, (entry q).cf⟩ x := by
  have hview := hi.keeps.view_eq
  obtain ⟨hinstr, hview⟩ := Prod.mk.inj hview
  obtain ⟨hex, hview⟩ := Prod.mk.inj hview
  obtain ⟨hcf, htarget⟩ := Prod.mk.inj hview
  have hinstr' : (entry q).instruction = x.data.instr := hinstr
  have hpc : (entry q).address = x.addr := by
    have haddr := hl.pc x rfl
    show (Frontend.InstrQueue.fetchEntryO q.fetch.queue.queue).address = _
    rw [hi.keeps.fetchEntryO_eq]
    exact haddr
  refine ⟨hpc, ?_, ?_, ?_, hex, hcf, fun hne => ?_⟩
  · show (compressedDecoder (entry q).instruction).instr = _
    rw [hinstr']
  · show (compressedDecoder (entry q).instruction).isCompressed = _
    rw [hinstr']
  · show (compressedDecoder (entry q).instruction).illegalInstr = _
    rw [hinstr']
  · have htaken : x.taken = true := bne_iff_ne.mpr hne
    have hne' : ((entry q).cf != .NoCF) = true := by
      rw [show (entry q).cf = x.data.cf from hcf]
      exact htaken
    have htarget' : (if (entry q).cf != .NoCF then
        some (entry q).predictAddress else none) =
          if x.taken then some x.target else none := htarget
    rw [hne', if_pos rfl, htaken, if_pos rfl] at htarget'
    exact Option.some.inj htarget'

theorem isCompressed_expand (w : BitVec 32) :
    (compressedDecoder w).isCompressed = (w.extractLsb 1 0 != 3#2) := by
  have hlt := (w.extractLsb 1 0).isLt
  have hbne : (w.extractLsb 1 0 != 3#2) =
      decide ((w.extractLsb 1 0).toNat ≠ 3) := by
    rw [Bool.eq_iff_iff, bne_iff_ne, decide_eq_true_iff]
    exact not_congr BitVec.toNat_inj.symm
  rw [hbne]
  unfold compressedDecoder
  generalize (w.extractLsb 1 0).toNat = k at hlt ⊢
  interval_cases k <;> rfl

/-- The predicted path goes on at the next item. -/
theorem Built.predicted (h : Built n x) :
    Backend.predicted n.cf n.dec = x.next := by
  rw [Backend.predicted, Item.next, Item.taken, h.cf]
  by_cases hcf : x.data.cf = .NoCF
  · rw [if_pos hcf, hcf, if_neg (by decide), h.pc, Execute.len,
      h.isCompressed, isCompressed_expand]
    rfl
  · rw [if_neg hcf, if_pos (bne_iff_ne.mpr hcf), h.predictAddress hcf]

/-! ### The prediction can be checked -/

/-- The opcode of the word of an instruction, and its offset. -/
def Encodes (w : BitVec 32) : Instr → Prop
  | .branch _ _ _ half => opcode w = Decoder.OpcodeBranch ∧
      Decoder.immediate w .SBIMM = (half ++ 0#1).signExtend 64
  | .jal _ half => opcode w = Decoder.OpcodeJal ∧
      Decoder.immediate w .JIMM = (half ++ 0#1).signExtend 64
  | .jalr .. => opcode w = Decoder.OpcodeJalr
  | .op .. | .opImm .. | .lui .. | .auipc .. | .mul .. | .div .. =>
    opcode w ∉ Frontend.flowOpcodes

theorem of_map {α : Type} {o : Option α} {f : α → Instr} {instr : Instr}
    {P : Instr → Prop} (h : o.map f = some instr) (hf : ∀ a, P (f a)) :
    P instr := by
  obtain ⟨a, -, rfl⟩ := Option.map_eq_some_iff.mp h
  exact hf a

theorem encodes_of_decode {w : BitVec 32} {instr : Instr}
    (h : decode w = some instr) : Encodes w instr := by
  have hno : ∀ o : BitVec 7, opcode w = o → o ∉ Frontend.flowOpcodes →
      opcode w ∉ Frontend.flowOpcodes := by
    rintro o rfl hn
    exact hn
  have hmul : ∀ {rd rs1 rs2 m}, opcode w ∉ Frontend.flowOpcodes →
      Encodes w (.mulDiv rd rs1 rs2 m) := by
    intro rd rs1 rs2 m hn
    cases m <;> exact hn
  unfold decode at h
  dsimp only at h
  split_ifs at h with h1 _ h2 _ h3 _ h4 _ _ h5 h6 h7 h8 h9
  · obtain rfl := Option.some.inj h
    exact hmul (hno _ h1 (by decide))
  · exact of_map h fun _ => hno _ h1 (by decide)
  · exact of_map h fun _ => hmul (hno _ h2 (by decide))
  · exact of_map h fun _ => hno _ h2 (by decide)
  · exact of_map h fun _ => hno _ h3 (by decide)
  · exact of_map h fun _ => hno _ h3 (by decide)
  · exact of_map h fun _ => hno _ h4 (by decide)
  · obtain rfl := Option.some.inj h
    exact hno _ h4 (by decide)
  · obtain rfl := Option.some.inj h
    exact hno _ h5 (by decide)
  · obtain rfl := Option.some.inj h
    exact hno _ h6 (by decide)
  · exact of_map h fun _ => ⟨h7, rfl⟩
  · obtain rfl := Option.some.inj h
    exact ⟨h8, rfl⟩
  · obtain rfl := Option.some.inj h
    exact h9

/-- The decoder gives these opcodes to the branch unit. -/
theorem fu_of_opcode {j : Decoder.In} (hex : j.ex.valid = false)
    (ho : opcode j.instruction ∈ Frontend.flowOpcodes) :
    (Decoder.decodeInstr j).fu = .CTRL_FLOW := by
  simp only [Frontend.flowOpcodes, List.mem_cons, List.not_mem_nil,
    or_false] at ho
  rcases ho with ho | ho | ho
  · have hd : Decoder.decodeInstr j = Decoder.decodeBranch j.instruction := by
      simp only [Decoder.decodeInstr, hex, ho, Decoder.decodeUnit]
      rfl
    rw [hd, Decoder.decodeBranch, Decoder.select_fu]
  · have hd : Decoder.decodeInstr j = Decoder.decodeJal j.instruction := by
      simp only [Decoder.decodeInstr, hex, ho, Decoder.decodeUnit]
      rfl
    rw [hd]
    rfl
  · have hd : Decoder.decodeInstr j = Decoder.decodeJalr j.instruction := by
      simp only [Decoder.decodeInstr, hex, ho, Decoder.decodeUnit]
      rfl
    rw [hd]
    rfl

theorem isIllegal_of_ex {j : Decoder.In}
    (hex : (Decoder.decoder j).ex.valid = false) : j.isIllegal = false := by
  obtain ⟨-, hown, -⟩ := Decoder.exception_valid_eq_false.mp hex
  rw [Decoder.instrException_valid] at hown
  simp only [Bool.or_eq_false_iff] at hown
  exact hown.1.1.2

/-- An instruction that was foretold has a prediction that the branch unit
can check. -/
theorem Built.checkable (h : Built n x) (hx : Foretold x)
    (hex : (Decoder.decoder n.dec).ex.valid = false) :
    Backend.Checkable n.cf n.dec := by
  obtain ⟨hfetch, hlegal⟩ := Backend.legal_of_ex hex
  have hexp := isIllegal_of_ex hex
  rw [h.isIllegal] at hexp
  obtain ⟨hbranch, hjal, hplain⟩ := hx hexp
  rw [← h.instruction, ← h.cf, ← h.pc] at hbranch hjal
  rw [← h.instruction, ← h.cf] at hplain
  have hpredict : n.cf ≠ .NoCF → n.dec.predictAddress = x.target :=
    fun hne => h.predictAddress (h.cf ▸ hne)
  have hagrees := Execute.agrees hfetch
  unfold Backend.Checkable
  cases hdec : decode n.dec.instruction with
  | none =>
    rw [hdec] at hagrees
    dsimp only
    by_contra hne
    have hfu := fu_of_opcode hfetch (hplain hne)
    rcases hagrees with hill | hother
    · rw [hlegal] at hill
      cases hill
    · rw [hfu] at hother
      cases hother
  | some instr =>
    have henc := encodes_of_decode hdec
    dsimp only
    cases instr with
    | branch c rs1 rs2 half =>
      obtain ⟨ho, himm⟩ := henc
      refine ⟨(hbranch ho).imp_right fun ⟨hcf, ht⟩ => ⟨hcf, ?_⟩, nofun⟩
      rw [hpredict (by rw [hcf]; exact Cf.noConfusion), ht, himm]
    | jal rd half =>
      obtain ⟨ho, himm⟩ := henc
      obtain ⟨hcf, ht⟩ := hjal ho
      exact ⟨⟨hcf, by rw [hpredict hcf, ht, himm]⟩, nofun⟩
    | jalr rd rs1 imm => exact ⟨trivial, nofun⟩
    | op | opImm | lui | auipc | mul | div =>
      refine ⟨trivial, fun _ => ?_⟩
      by_contra hne
      exact henc (hplain hne)

end Built

/-! ## The invariant -/

/-- Where the instruction behind the items `l` is. -/
def goes (q : State) (l : List Item) : BitVec 64 :=
  (l.getLast?).elim q.resume Item.next

/-- The items that the pipeline has got. -/
def handed (q : State) (gone : List Item) : List Item :=
  if q.issue.valid then gone.dropLast else gone

/-- The register holds the last item that left the queue, the pipeline has
got the ones in front of it; if there was a fault among them, it is in
flight. -/
structure Hands (q : State) (gone : List Item) : Prop where
  holds : q.issue.valid = true → ∃ l x, gone = l ++ [x] ∧
    Built q.issue x ∧ x.addr = q.flow.pcNext
  empty : q.issue.valid = false → q.flow.pcNext = goes q gone
  sound : (∀ r ∈ q.flow.core.stage.inflight, r.entry.ex.valid = false) →
    ∀ x ∈ handed q gone, Frontend.sound x = true

/-- The invariant. -/
structure Inv (q : State) : Prop where
  flow : q.flow.Inv
  linked : Linked q.fetch
  starts : Starts q.fetch q.resume
  foretold : ∀ x ∈ q.fetch.pushed, Foretold x
  queue : ∃ d gone xs, Carries q.fetch.queue d gone xs ∧
    Located q.fetch.queue gone xs ∧ Hands q gone

section Steps

variable {wtDcache q e} {d : BitVec 1} {gone xs : List Item} {y : Item}

/-- The front end delivers the instruction at the address where the program
goes on, as it was predicted. -/
theorem fetches (h : Inv q) :
    Backend.Fetches wtDcache q.flow (flowEnv q e) := by
  obtain ⟨d, gone, xs, hi, -, hh⟩ := h.queue
  have hbuilt : Backend.issues wtDcache q.flow.core (flowEnv q e).core = true →
      ∃ x ∈ q.fetch.pushed, Built q.issue x ∧ x.addr = q.flow.pcNext := by
    intro hissues
    have hvalid : (q.issue.valid && _ && _) = true := hissues
    rw [Bool.and_eq_true, Bool.and_eq_true] at hvalid
    obtain ⟨l, x, hgone, hx, haddr⟩ := hh.holds hvalid.1.1
    have hpushed : q.fetch.pushed = gone ++ xs := hi.pushed
    refine ⟨x, ?_, hx, haddr⟩
    rw [hpushed, hgone]
    simp
  refine ⟨fun hissues => ?_, fun hissues hex => ?_⟩
  · obtain ⟨x, -, hx, haddr⟩ := hbuilt hissues
    exact hx.pc.trans haddr
  · obtain ⟨x, hmem, hx, -⟩ := hbuilt hissues
    exact hx.checkable (h.foretold x hmem) hex

/-- The first item in the queue goes on where the last one ended. -/
theorem addr_head (h : Starts q.fetch q.resume)
    (hi : Carries q.fetch.queue d gone (y :: xs))
    (hl : Located q.fetch.queue gone (y :: xs)) : y.addr = goes q gone := by
  have hpushed : q.fetch.pushed = gone ++ y :: xs := hi.pushed
  rcases List.eq_nil_or_concat' gone with rfl | ⟨l, x, rfl⟩
  · refine h.first y ?_
    rw [hpushed]
    rfl
  · have hchain : q.fetch.pushed.IsChain fun x y => y.addr = x.next := hl.chain
    rw [hpushed] at hchain
    have hrel := (List.isChain_append.mp hchain).2.2 x
      (by simp) y rfl
    rw [goes, List.getLast?_concat]
    exact hrel

/-- Where the program goes on, without a flush. -/
theorem pcNext_step (hf : flushIf wtDcache q e = false) :
    (step wtDcache q e).flow.pcNext =
      if q.issue.valid && issueAck wtDcache q e then
        Backend.predicted q.issue.cf q.issue.dec
      else q.flow.pcNext := by
  show Backend.pcNextD wtDcache q.flow (flowEnv q e) = _
  rw [Backend.pcNextD, ← flushIf_eq, hf, issues_eq hf,
    if_neg Bool.false_ne_true]
  rfl

/-- When the register gets free, the program goes on behind the items that
have left the queue. -/
theorem pcNext_of_free (hh : Hands q gone) (hf : flushIf wtDcache q e = false)
    (hfree : q.issue.valid = true → issueAck wtDcache q e = true) :
    (step wtDcache q e).flow.pcNext = goes q gone := by
  rw [pcNext_step hf]
  cases hv : q.issue.valid with
  | true =>
    obtain ⟨l, x, rfl, hx, -⟩ := hh.holds hv
    rw [hfree hv, Bool.true_and, if_pos rfl, hx.predicted, goes,
      List.getLast?_concat]
    rfl
  | false =>
    rw [Bool.false_and, if_neg Bool.false_ne_true]
    exact hh.empty hv

theorem resume_step (hf : flushIf wtDcache q e = false) :
    (step wtDcache q e).resume = q.resume := by
  show (if flushIf wtDcache q e then _ else _) = _
  rw [hf, if_neg Bool.false_ne_true]

theorem goes_step (hf : flushIf wtDcache q e = false) (l : List Item) :
    goes (step wtDcache q e) l = goes q l := by
  rw [goes, resume_step hf, goes]

theorem issueN_eq (hf : flushIf wtDcache q e = false) :
    (step wtDcache q e).issue =
      if fetchEntryReady wtDcache q e then
        ⟨true, decoderIn q e, (entry q).cf⟩
      else if issueAck wtDcache q e then { q.issue with valid := false }
      else q.issue := by
  show issueN wtDcache q e = _
  unfold issueN
  dsimp only
  rw [hf, if_neg Bool.false_ne_true]

/-- The instructions in flight before a cycle were issued without an
exception, if those after it were. -/
theorem sound_inflight (h : Inv q) (hf : flushIf wtDcache q e = false)
    (hall : ∀ r ∈ (step wtDcache q e).flow.core.stage.inflight,
      r.entry.ex.valid = false) :
    (∀ r ∈ q.flow.core.stage.inflight, r.entry.ex.valid = false) ∧
      (Backend.issues wtDcache q.flow.core (flowEnv q e).core = true →
        (Decoder.decoder q.issue.dec).ex.valid = false) := by
  have hflush : Backend.flushes wtDcache q.flow.core (flowEnv q e).core =
      false := by
    rw [flushIf_eq, Bool.or_eq_false_iff] at hf
    exact hf.1
  have hinflight : (step wtDcache q e).flow.core.stage.inflight = _ :=
    Backend.inflight_step h.flow.core hflush
  rw [hinflight] at hall
  refine ⟨fun r hr => ?_, fun hissues => ?_⟩
  · rw [← Backend.leaving_append_remaining wtDcache q.flow.core
      (flowEnv q e).core] at hr
    rcases List.mem_append.mp hr with hr | hr
    · exact IssueStage.acked_sound h.flow.core.stage hr
    · have hin := List.mem_map_of_mem
        (f := Backend.received wtDcache q.flow.core (flowEnv q e).core) hr
      exact hall (Backend.received wtDcache q.flow.core (flowEnv q e).core r)
        (List.mem_append_left _ hin)
  · have hin : Backend.entering wtDcache q.flow.core (flowEnv q e).core ∈
        (step wtDcache q e).flow.core.stage.inflight := by
      rw [hinflight]
      refine List.mem_append_right _ ?_
      rw [if_pos hissues]
      exact List.mem_singleton_self _
    rw [hinflight] at hin
    have hex : (Backend.entering wtDcache q.flow.core
        (flowEnv q e).core).entry.ex.valid = false := hall _ hin
    exact hex

/-- No item that has left the queue carries a fault, if the register gets
free and what is in flight was issued without an exception. -/
theorem sound_of_free (h : Inv q) (hh : Hands q gone)
    (hf : flushIf wtDcache q e = false)
    (hfree : q.issue.valid = true → issueAck wtDcache q e = true)
    (hall : ∀ r ∈ (step wtDcache q e).flow.core.stage.inflight,
      r.entry.ex.valid = false) :
    ∀ x ∈ gone, Frontend.sound x = true := by
  obtain ⟨hold, hnew⟩ := sound_inflight h hf hall
  have hhanded := hh.sound hold
  rw [handed] at hhanded
  cases hv : q.issue.valid with
  | false =>
    rw [hv, if_neg Bool.false_ne_true] at hhanded
    exact hhanded
  | true =>
    obtain ⟨l, x, rfl, hx, -⟩ := hh.holds hv
    rw [hv, if_pos rfl, List.dropLast_concat] at hhanded
    intro y hy
    rcases List.mem_append.mp hy with hy | hy
    · exact hhanded y hy
    · obtain rfl := List.mem_singleton.mp hy
      have hex := hnew (by rw [issues_eq hf, hv, hfree hv]; rfl)
      rw [Frontend.sound, ← hx.ex, (Backend.legal_of_ex hex).1]
      rfl

/-- What the register and the pipeline have got after a cycle without a
flush. -/
theorem Hands.step (h : Inv q) (hh : Hands q gone)
    (hi : Carries q.fetch.queue d gone xs)
    (hl : Located q.fetch.queue gone xs)
    (hf : flushIf wtDcache q e = false) :
    Hands (step wtDcache q e) (gone ++ Carries.leaving
      (Frontend.queueIn q.fetch.front (frontIn wtDcache q e)) xs) := by
  have hready : (Frontend.queueIn q.fetch.front
      (frontIn wtDcache q e)).fetchEntryReady =
        fetchEntryReady wtDcache q e := rfl
  have hissue := issueN_eq hf
  rw [Carries.leaving, hready]
  cases hr : fetchEntryReady wtDcache q e with
  | true =>
    rw [hr, if_pos rfl] at hissue
    have hr' := hr
    rw [fetchEntryReady, Bool.and_eq_true, Bool.or_eq_true,
      Bool.not_eq_true'] at hr'
    have hfree : q.issue.valid = true → issueAck wtDcache q e = true := by
      intro hv
      rw [hv] at hr'
      exact hr'.1.resolve_left Bool.false_ne_true.symm
    obtain ⟨y, ys, rfl⟩ := List.exists_cons_of_ne_nil
      (hi.keeps.fetchEntryValidO_iff.mp hr'.2)
    have hpc := pcNext_of_free hh hf hfree
    rw [if_pos rfl, List.take_succ_cons, List.take_zero]
    refine ⟨fun _ => ⟨gone, y, rfl, ?_, ?_⟩, fun hv => ?_, fun hall => ?_⟩
    · rw [hissue]
      exact built_entry hi hl
    · rw [hpc]
      exact addr_head h.starts hi hl
    · rw [hissue] at hv
      cases hv
    · rw [handed, hissue, if_pos rfl, List.dropLast_concat]
      exact sound_of_free h hh hf hfree hall
  | false =>
    rw [hr, if_neg Bool.false_ne_true] at hissue
    rw [if_neg Bool.false_ne_true, List.append_nil]
    cases ha : issueAck wtDcache q e with
    | true =>
      rw [ha, if_pos rfl] at hissue
      refine ⟨fun hv => ?_, fun _ => ?_, fun hall => ?_⟩
      · rw [hissue] at hv
        cases hv
      · rw [goes_step hf]
        exact pcNext_of_free hh hf fun _ => ha
      · rw [handed, hissue, if_neg Bool.false_ne_true]
        exact sound_of_free h hh hf (fun _ => ha) hall
    | false =>
      rw [ha, if_neg Bool.false_ne_true] at hissue
      have hpc : (Machine.step wtDcache q e).flow.pcNext = q.flow.pcNext := by
        rw [pcNext_step hf, ha, Bool.and_false, if_neg Bool.false_ne_true]
      refine ⟨fun hv => ?_, fun hv => ?_, fun hall => ?_⟩
      · rw [hissue] at hv ⊢
        rw [hpc]
        exact hh.holds hv
      · rw [hissue] at hv
        rw [hpc, goes_step hf]
        exact hh.empty hv
      · rw [handed, hissue]
        exact hh.sound (sound_inflight h hf hall).1

theorem Hands.flush (hf : flushIf wtDcache q e = true) :
    Hands (Machine.step wtDcache q e) [] := by
  have hissue : (Machine.step wtDcache q e).issue.valid = false := by
    show (issueN wtDcache q e).valid = false
    unfold issueN
    dsimp only
    rw [hf, if_pos rfl]
  refine ⟨fun hv => ?_, fun _ => ?_, fun _ x hx => ?_⟩
  · rw [hissue] at hv
    cases hv
  · show Backend.pcNextD wtDcache q.flow (flowEnv q e) =
      if flushIf wtDcache q e then _ else _
    rw [Backend.pcNextD, ← flushIf_eq, hf]
    rfl
  · rw [handed, hissue, if_neg Bool.false_ne_true] at hx
    cases hx

theorem foretold_step (h : Inv q) :
    ∀ x ∈ (step wtDcache q e).fetch.pushed, Foretold x := by
  intro x hx
  cases hf : flushIf wtDcache q e with
  | true =>
    have hpushed : (step wtDcache q e).fetch.pushed = [] :=
      Frontend.pushed_flush hf
    rw [hpushed] at hx
    cases hx
  | false =>
    have hpushed : (step wtDcache q e).fetch.pushed = _ :=
      Frontend.pushed_step hf
    rw [hpushed] at hx
    rcases List.mem_append.mp hx with hx | hx
    · exact h.foretold x hx
    · exact Frontend.foretold_of_offered (List.mem_of_mem_take hx)

theorem inv_reset (bootAddr : BitVec 64) : Inv (reset bootAddr) where
  flow := Flow.inv_reset bootAddr
  linked := Linked.init
  starts := ⟨fun x hx => (by cases hx), fun _ => rfl⟩
  foretold x hx := by cases hx
  queue := ⟨_, _, _, Carries.init, Located.init,
    fun hv => (by cases hv), fun _ => rfl, fun _ x hx => (by cases hx)⟩

theorem inv_step (h : Inv q) (hs : Surrounds wtDcache q e) :
    Inv (step wtDcache q e) := by
  obtain ⟨d, gone, xs, hi, hl, hh⟩ := h.queue
  have henv := hs.front
  have hshape := h.linked.shape henv
  refine ⟨Flow.inv_step h.flow hs.served (fetches h),
    h.linked.step henv hi hl, ?_, foretold_step h, ?_⟩
  · cases hf : flushIf wtDcache q e with
    | true => exact Starts.flush henv hf _
    | false =>
      rw [resume_step hf]
      exact h.starts.step h.linked henv hi hf hs.addr
  · have hqueue : (step wtDcache q e).fetch.queue = q.fetch.queue.step
        (Frontend.queueIn q.fetch.front (frontIn wtDcache q e)) := rfl
    rw [hqueue]
    have hflush : (Frontend.queueIn q.fetch.front
        (frontIn wtDcache q e)).flush = flushIf wtDcache q e := rfl
    cases hf : flushIf wtDcache q e with
    | true =>
      rw [hf] at hflush
      exact ⟨_, _, _, hi.step_flush hflush, Located.step_flush hflush,
        Hands.flush hf⟩
    | false =>
      rw [hf] at hflush
      exact ⟨_, _, _, hi.step hshape hflush,
        hl.step hi hshape h.linked.continues hflush, hh.step h hi hl hf⟩

end Steps

end ArianeSoc.Machine
