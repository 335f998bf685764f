import ArianeSoc.Issue.Scoreboard
import ArianeSoc.RetireQueue

/-!
# The scoreboard as a queue

The abstract scoreboard is a queue that retires in order.  An instruction
in flight goes by its transaction id; a cycle has an effect on it of its
own and one for each write-back under its id.  The ids count up and start
over with a flush.
-/

namespace ArianeSoc.Scoreboard

variable {b : ℕ}

/-- What an instruction in flight can see. -/
inductive Effect (b : ℕ)
  | cycle
  | write (targetAddress : BitVec 64) (p : WbPort b)

/-- The entry after an effect.  An instruction without a unit is valid
after one cycle. -/
def Effect.apply (fu : FuT) (e : ScoreboardEntry) :
    Effect b → ScoreboardEntry
  | .cycle => if fu = .NONE then { e with valid := true } else e
  | .write targetAddress p => written targetAddress fu p e

abbrev Rec (b : ℕ) := RetireQueue.Rec (BitVec b) ScoreboardEntry (Effect b)

/-- The entry as issued, with the effects replayed over it. -/
def offered (r : Rec b) : ScoreboardEntry :=
  r.effects.foldl (Effect.apply r.entry.fu) r.entry

/-- What a commit port shows of an instruction. -/
def retired (r : Rec b) : ScoreboardEntry :=
  { offered r with transId := r.name.setWidth 3 }

/-- The queue with the id of the next instruction. -/
structure Queue (b : ℕ) where
  q : RetireQueue.Queue (BitVec b) ScoreboardEntry (Effect b)
  nextId : BitVec b

def Queue.empty : Queue b := ⟨RetireQueue.Queue.empty, 0#b⟩

/-- An instruction enters if there is room for one more than it. -/
def accepts (g : Queue b) (i : In b) : Bool :=
  i.decodedInstrValid && (i.issueAck && g.q.inflight.length + 1 < 2 ^ b) &&
    !i.flushUnissuedInstr

/-- The effects of a cycle on the instruction with an id. -/
def effectsOf (i : In b) (id : BitVec b) : List (Effect b) :=
  .cycle :: (portsOf i id).map (.write i.targetAddress)

def event (g : Queue b) (i : In b) :
    RetireQueue.Event (BitVec b) ScoreboardEntry (Effect b) where
  pops := numCommit i
  effects := effectsOf i
  push := if accepts g i then some (g.nextId, i.decodedInstr) else none
  flush := i.flush

def Queue.step (g : Queue b) (i : In b) : Queue b where
  q := g.q.step (event g i)
  nextId := if i.flush then 0#b
    else g.nextId + BitVec.ofNat b (accepts g i).toNat

/-- What is in flight after a cycle without a flush. -/
theorem inflight_step {g : Queue b} {i : In b} (hf : i.flush = false) :
    (g.step i).q.inflight =
      (g.q.inflight.drop (numCommit i)).map
          (RetireQueue.Rec.receive (effectsOf i)) ++
        if accepts g i then
          [⟨g.q.issued.length, g.nextId, i.decodedInstr, []⟩]
        else [] := by
  have hstay : (g.step i).q.inflight = g.q.staying (event g i) :=
    if_neg (by simp [event, hf])
  rw [hstay, RetireQueue.Queue.staying, RetireQueue.Event.entering]
  refine congrArg₂ _ rfl ?_
  unfold event
  dsimp only
  split_ifs <;> rfl

/-! ## The entry of an instruction in flight -/

/-- What holds of an instruction as it is issued and is kept by its
effects. -/
theorem offered_invariant {P : ScoreboardEntry → Prop} {r : Rec b}
    (h : P r.entry)
    (hstep : ∀ w ∈ r.effects, ∀ e, P e → P (w.apply r.entry.fu e)) :
    P (offered r) :=
  List.foldlRecOn (motive := P) r.effects _ h fun e he w hw => hstep w hw e he

/-- A field that no effect changes. -/
theorem offered_frame {α : Type*} {f : ScoreboardEntry → α}
    (hf : ∀ fu e (w : Effect b), f (w.apply fu e) = f e) (r : Rec b) :
    f (offered r) = f r.entry := by
  refine offered_invariant (P := fun e => f e = f r.entry) rfl ?_
  exact fun w _ e he => (hf _ e w).trans he

/-- The effects write the value, the exception and the valid flag. -/
theorem apply_frame (fu : FuT) (e : ScoreboardEntry) (w : Effect b) :
    (w.apply fu e).fu = e.fu ∧ (w.apply fu e).op = e.op ∧
      (w.apply fu e).rd = e.rd := by
  cases w with
  | cycle =>
    unfold Effect.apply
    dsimp only
    split_ifs <;> exact ⟨rfl, rfl, rfl⟩
  | write targetAddress p => exact ⟨rfl, rfl, rfl⟩

@[simp] theorem offered_fu (r : Rec b) : (offered r).fu = r.entry.fu :=
  offered_frame (f := ScoreboardEntry.fu)
    (fun fu e w => (apply_frame fu e w).1) r

@[simp] theorem offered_op (r : Rec b) : (offered r).op = r.entry.op :=
  offered_frame (f := ScoreboardEntry.op)
    (fun fu e w => (apply_frame fu e w).2.1) r

@[simp] theorem offered_rd (r : Rec b) : (offered r).rd = r.entry.rd :=
  offered_frame (f := ScoreboardEntry.rd)
    (fun fu e w => (apply_frame fu e w).2.2) r

/-- An exception stays. -/
theorem offered_ex {r : Rec b} (h : r.entry.ex.valid = true) :
    (offered r).ex.valid = true := by
  refine offered_invariant (P := fun e => e.ex.valid = true) h ?_
  intro w _ e he
  cases w <;> simp only [Effect.apply, written] <;> split_ifs <;> assumption

/-- The effects of a cycle do to an entry what the process does to its
cell. -/
theorem offered_receive (i : In b) (r : Rec b) :
    offered (r.receive (effectsOf i)) =
      entryAfter i r.name r.entry.fu (offered r) := by
  unfold offered RetireQueue.Rec.receive effectsOf entryAfter
  rw [List.foldl_append, List.foldl_cons, List.foldl_map]
  rfl

/-- A valid entry was valid when it was issued, has no unit or was written
back. -/
theorem valid_cases {r : Rec b} (h : (offered r).valid = true) :
    r.entry.valid = true ∨ r.entry.fu = .NONE ∨
      ∃ t p, Effect.write t p ∈ r.effects := by
  refine offered_invariant (P := fun e => e.valid = true →
    r.entry.valid = true ∨ r.entry.fu = .NONE ∨
      ∃ t p, Effect.write t p ∈ r.effects) Or.inl ?_ h
  intro w hw e he hv
  cases w with
  | cycle =>
    by_cases hfu : r.entry.fu = .NONE
    · exact Or.inr (Or.inl hfu)
    · rw [Effect.apply, if_neg hfu] at hv
      exact he hv
  | write t p => exact Or.inr (Or.inr ⟨t, p, hw⟩)

/-! ## The laws of the queue, over a run -/

/-- A write-back is for an instruction if it carries its id. -/
def Effect.Own (id : BitVec b) : Effect b → Prop
  | .cycle => True
  | .write _ p => p.valid = true ∧ p.transId = id

theorem effectsOf_own (i : In b) (id : BitVec b) :
    ∀ w ∈ effectsOf i id, w.Own id := by
  intro w hw
  rcases List.mem_cons.mp hw with rfl | hw
  · trivial
  · obtain ⟨p, hp, rfl⟩ := List.mem_map.mp hw
    show p.valid = true ∧ p.transId = id
    simpa [portsOf] using (List.mem_filter.mp hp).2

theorem lawful_run (is : List (In b)) :
    RetireQueue.Lawful (Sync.run Queue.step Queue.empty is).q :=
  Sync.run_invariant (P := fun g : Queue b => RetireQueue.Lawful g.q)
    (fun g i h => h.step (event g i)) RetireQueue.lawful_empty is

theorem received_run (is : List (In b)) :
    RetireQueue.Received Effect.Own
      (Sync.run Queue.step Queue.empty is).q := by
  refine Sync.run_invariant
    (P := fun g : Queue b => RetireQueue.Received Effect.Own g.q)
    (fun g i h => h.step (effectsOf_own i)) ?_ is
  intro r hr
  simp [RetireQueue.Queue.all, Queue.empty, RetireQueue.Queue.empty] at hr

end ArianeSoc.Scoreboard
