import ArianeSoc.Core.Machine

/-!
# The program text that commits

The instruction cache loads the words of a program text, and the machine
runs: each instruction that commits is the one that the text has at its
address, and the next one commits at the address to which it leads.
-/

namespace ArianeSoc.Machine

open Backend (FlowEnv Leads Event Steady seen gpr)
open RegWindow
open Frontend (Text Predictors isCompressed)
open Frontend.InstrQueue (Item Carries Located)
open Rv64Int

/-! ## The instruction at an address -/

/-- The instruction that the text has at the address, expanded. -/
def instrAt (t : Text) (a : BitVec 64) : Option (BitVec 32) :=
  if isCompressed (t a) then (Decoder.rvc (t a)).map Decoder.Base.encode
  else some (t (a + 2#64) ++ t a)

/-- The decoder works on the instruction of the text at its address. -/
structure FromText (t : Text) (j : Decoder.In) : Prop where
  instruction : instrAt t j.pc = some j.instruction
  isCompressed : j.isCompressed = isCompressed (t j.pc)

section Built

open Decoder (compressedDecoder half)

variable {t : Text} {n : Issue} {x : Item}

theorem read_low (a : BitVec 64) (w : BitVec 32) :
    (Frontend.Instr.read a w).bits.extractLsb' 0 16 = half w := by
  rw [Frontend.Instr.read]
  split_ifs
  · exact Frontend.InstrRealign.low_append _ _
  · rfl

theorem instr_low (t : Text) (a : BitVec 64) :
    (t.instr a).bits.extractLsb' 0 16 = t a := by
  rw [Text.instr]
  split_ifs <;> exact Frontend.InstrRealign.low_append _ _

theorem isCompressed_half (w : BitVec 32) :
    isCompressed (half w) = (w.extractLsb 1 0 != 3#2) := by
  rw [isCompressed, Decoder.half_field w (by decide)]
  rfl

/-- A word that is not compressed stays as it is. -/
theorem compressedDecoder_whole {w : BitVec 32}
    (h : w.extractLsb 1 0 = 3#2) : (compressedDecoder w).instr = w := by
  rw [compressedDecoder, h]
  rfl

/-- An item of the text is decoded as the instruction at its address. -/
theorem fromText_of_built (h : Built n x) (hx : Frontend.OfText t x)
    (hex : (Decoder.decoder n.dec).ex.valid = false) :
    FromText t n.dec := by
  have hbits := congrArg Frontend.Instr.bits hx
  have hlow : half x.data.instr = t x.addr := by
    rw [← read_low x.addr, hbits, instr_low]
  have hcompressed := isCompressed_expand x.data.instr
  rw [← isCompressed_half, hlow] at hcompressed
  refine ⟨?_, by rw [h.isCompressed, hcompressed, h.pc]⟩
  have hlegal := isIllegal_of_ex hex
  rw [h.isIllegal] at hlegal
  rw [h.pc, h.instruction, instrAt]
  split_ifs with hc
  · rw [← hlow, isCompressed_half, bne_iff_ne] at hc
    obtain ⟨-, hm⟩ := Decoder.compressedDecoder_matches x.data.instr hc
    rw [← hlow]
    cases hr : Decoder.rvc (half x.data.instr) with
    | none =>
      rw [hr] at hm
      have hill : (compressedDecoder x.data.instr).illegalInstr = true := hm
      rw [hlegal] at hill
      cases hill
    | some b =>
      rw [hr] at hm
      exact congrArg some hm.2.symm
  · rw [Frontend.Instr.read, Text.instr, if_neg hc] at hbits
    have hwhole : ¬ isCompressed (half x.data.instr) = true := by
      rwa [hlow]
    rw [show isCompressed (x.data.instr.extractLsb' 0 16) =
      isCompressed (half x.data.instr) from rfl, if_neg hwhole] at hbits
    rw [isCompressed_half, bne_iff_ne, not_not] at hwhole
    rw [compressedDecoder_whole hwhole]
    exact congrArg some hbits.symm

end Built

/-! ## The instructions in flight -/

/-- The instruction in flight is one of the text, if it was issued without an
exception. -/
def Shown (t : Text) (q : State) (r : Scoreboard.Rec 3) : Prop :=
  ∀ j, q.flow.core.fetched[r.serial]? = some j →
    r.entry.ex.valid = false → FromText t j

theorem monotone_shown (t : Text) (q : State) :
    Monotone fun (_ : Backend.Known) r => Shown t q r :=
  fun _ _ _ _ hr => hr

/-- The front end shows the text, and what may retire is of the text. -/
structure Follows (t : Text) (q : State) : Prop where
  shows : Frontend.Shows t q.fetch
  inflight : Explained seen Steady (fun _ r => Shown t q r)
    (start (gpr q.flow.core)) q.flow.core.stage.inflight
  committed : ∀ j, .commit j ∈ q.flow.log → FromText t j

section Steps

variable {wtDcache : Bool} {t : Text} {q : State} {e : Env}
  {r : Scoreboard.Rec 3}

/-- The items in front of a sound one that has left the queue are those of
the text. -/
theorem ofText_of_sound {d : BitVec 1} {gone xs l : List Item} {x : Item}
    (h : Frontend.Shows t q.fetch) (hi : Carries q.fetch.queue d gone xs)
    (hgone : gone = l ++ [x])
    (hsound : ∀ y ∈ gone, Frontend.sound y = true) :
    Frontend.OfText t x := by
  refine h.items x ?_
  have hpushed : q.fetch.pushed = gone ++ xs := hi.pushed
  rw [hpushed, List.takeWhile_append_of_pos hsound, hgone]
  simp

theorem not_flushIf_of_issues
    (hen : Backend.issues wtDcache q.flow.core (flowEnv q e).core = true) :
    flushIf wtDcache q e = false := by
  refine Bool.eq_false_iff.mpr fun hf => ?_
  have hun : (Backend.readIn wtDcache q.flow.core
      (flowEnv q e).core).flush = true :=
    Controller.flushUnissued_eq_flushIf.trans hf
  rw [Backend.not_issues_of_flushUnissued hun] at hen
  cases hen

/-- What enters is of the text, if all that is in front of it may retire. -/
theorem shown_entering (h : Inv q) (ht : Follows t q)
    (hen : Backend.issues wtDcache q.flow.core (flowEnv q e).core = true)
    (hsteady : ∀ r ∈ Backend.remaining wtDcache q.flow.core
      (flowEnv q e).core,
        Steady (Backend.received wtDcache q.flow.core (flowEnv q e).core r)) :
    Shown t (step wtDcache q e)
      (Backend.entering wtDcache q.flow.core (flowEnv q e).core) := by
  intro j hj hex
  obtain ⟨hserial, hfetched⟩ := Backend.fetched_entering h.flow.core hen
  have hj' : (Backend.step wtDcache q.flow.core (flowEnv q e).core).fetched[
      (Backend.entering wtDcache q.flow.core
        (flowEnv q e).core).serial]? = some j := hj
  rw [hserial, hfetched, List.getElem?_concat_length] at hj'
  obtain rfl := Option.some.inj hj'
  have hf := not_flushIf_of_issues hen
  have hissues := hen
  rw [issues_eq hf, Bool.and_eq_true] at hissues
  obtain ⟨d, gone, xs, hi, -, hh⟩ := h.queue
  obtain ⟨l, x, hgone, hx, -⟩ := hh.holds hissues.1
  have hflush : Backend.flushes wtDcache q.flow.core (flowEnv q e).core =
      false := by
    rw [flushIf_eq, Bool.or_eq_false_iff] at hf
    exact hf.1
  -- all that is in flight was issued without an exception
  have hall : ∀ r ∈ (step wtDcache q e).flow.core.stage.inflight,
      r.entry.ex.valid = false := by
    intro r hr
    have hinflight : (step wtDcache q e).flow.core.stage.inflight = _ :=
      Backend.inflight_step h.flow.core hflush
    rw [hinflight, if_pos hen] at hr
    rcases List.mem_append.mp hr with hr | hr
    · obtain ⟨r', hr', rfl⟩ := List.mem_map.mp hr
      refine Bool.eq_false_iff.mpr fun hrx => ?_
      have hno := (hsteady r' hr').ex
      rw [Scoreboard.offered_ex hrx] at hno
      cases hno
    · rw [List.mem_singleton.mp hr]
      exact hex
  have hsound := sound_of_free h hh hf (fun _ => hissues.2) hall
  exact fromText_of_built hx (ofText_of_sound ht.shows hi hgone hsound) hex

theorem shown_received (h : Inv q) (hr : r ∈ q.flow.core.stage.inflight)
    (hx : Shown t q r) :
    Shown t (step wtDcache q e)
      (Backend.received wtDcache q.flow.core (flowEnv q e).core r) := by
  intro j hj hex
  obtain ⟨j', hj', -⟩ :=
    h.flow.core.fetched_of (Backend.mem_all_of_inflight hr)
  have hlt := (List.getElem?_eq_some_iff.mp hj').1
  have hsame : (Backend.step wtDcache q.flow.core
      (flowEnv q e).core).fetched[r.serial]? = some j' := by
    rw [Backend.fetched_step_eq, List.getElem?_append_left hlt]
    exact hj'
  obtain rfl := Option.some.inj (hsame.symm.trans hj)
  exact hx j' hj' hex

/-- What retires is of the text. -/
theorem fromText_of_steps {l : List (Scoreboard.Rec 3)}
    {x y : Backend.RegFile}
    (hsteps : Steps (fun r x y => Backend.Retires r x y ∧ Shown t q r) l x y) :
    ∀ j ∈ Backend.wordsOf q.flow.core l, FromText t j := by
  induction l generalizing x with
  | nil => exact fun j hj => absurd hj List.not_mem_nil
  | cons r l ih =>
    obtain ⟨z, ⟨hret, hshown⟩, hrest⟩ := hsteps
    intro j hj
    rw [Backend.wordsOf, List.filterMap_cons] at hj
    split at hj
    · exact ih hrest j hj
    · rename_i j' hj'
      rcases List.mem_cons.mp hj with rfl | hj
      · exact hshown j hj' hret.sound
      · exact ih hrest j hj

theorem Follows.step (h : Inv q) (ht : Follows t q)
    (hs : Surrounds wtDcache q e)
    (hl : Frontend.Loads t (frontIn wtDcache q e))
    (hu : Frontend.Undeferred q.fetch) :
    Follows t (step wtDcache q e) := by
  obtain ⟨d, gone, xs, hi, -, -⟩ := h.queue
  refine ⟨ht.shows.step h.linked hs.front hi hu hl, ?_, ?_⟩
  · exact Backend.explained_of_step h.flow.core hs.served (monotone_shown t q)
      (monotone_shown t (Machine.step wtDcache q e)) ht.inflight
      (fun _ _ _ hr hx => shown_received h hr hx)
      (fun _ hen hsteady => shown_entering h ht hen hsteady)
  · intro j hj
    have hlog : (Machine.step wtDcache q e).flow.log = q.flow.log ++
      ((Backend.wordsOf q.flow.core (Backend.leaving wtDcache q.flow.core
        (flowEnv q e).core)).map .commit ++
          if Backend.flushes wtDcache q.flow.core (flowEnv q e).core then
            [.redirect (Backend.redirect wtDcache q.flow (flowEnv q e))]
          else []) := rfl
    rw [hlog, List.mem_append, List.mem_append] at hj
    rcases hj with hj | hj | hj
    · exact ht.committed j hj
    · obtain ⟨j', hj', heq⟩ := List.mem_map.mp hj
      obtain rfl := Event.commit.inj heq
      exact fromText_of_steps (Backend.retires_with h.flow.core hs.served
        (monotone_shown t q) ht.inflight).1 j' hj'
    · split_ifs at hj
      · cases List.mem_singleton.mp hj
      · cases hj

end Steps

/-! ## Runs -/

theorem Follows.init (t : Text) (bootAddr : BitVec 64) :
    Follows t (reset bootAddr) where
  shows := Frontend.Shows.init t
  inflight := trivial
  committed j hj := by cases hj

/-- The cache keeps to its part, and the other units are silent. -/
def Quiet (wtDcache : Bool) (t : Text) (q : State) (e : Env) : Prop :=
  (flowEnv q e).core.Silent ∧
    (e.dreq.valid = true →
      Frontend.killS2 q.fetch.front (frontIn wtDcache q e) = false ∧
        e.dreq.vaddr.getLsbD 0 = false ∧
        e.dreq.vaddr = q.fetch.expect.getD q.resume) ∧
    Frontend.Loads t (frontIn wtDcache q e) ∧ Frontend.Undeferred q.fetch

instance (wtDcache : Bool) (t : Text) (q : State) (e : Env) :
    Decidable (Quiet wtDcache t q e) :=
  inferInstanceAs (Decidable (_ ∧ (_ → _ ∧ _ ∧ _) ∧ _ ∧ _))

/-- No predictor has an entry. -/
def cold : Predictors :=
  ⟨fun _ => ⟨false, false⟩, fun _ => ⟨false, 0#64⟩, 0#64⟩

/-- The cache answers with the word `w` at the address `a`, or it does not
answer. -/
def Env.loads (a : BitVec 64) (w : BitVec 32) : Env :=
  ⟨FlowEnv.idle, ⟨true, a, w, false⟩, cold⟩

def Env.idle : Env := ⟨FlowEnv.idle, ⟨false, 0#64, 0#32, false⟩, cold⟩

end ArianeSoc.Machine
