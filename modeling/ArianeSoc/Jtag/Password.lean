import ArianeSoc.Jtag.DmiJtag

/-!
# The password of the JTAG interface

`Tracked` adds to the interface the bit that it ought to have: whether the
password was found right since the last reset.

* `write_gated_iff`: the writes of a run are all behind that bit exactly if
  the run accepts no `DTM_PASS`, because `DTM_PASS` is itself carried out as
  a write, of any data to any address.
* `request_never_accepted`: no `DTM_READ` and no `DTM_WRITE` is accepted,
  in any run from any state, the one that has just found the password right
  included.  `pass_check` lasts for the one cycle that finds it.

`locked_step` has the reason for both: from a reset on, the state machine
is in `Idle` or in `Write`.
-/

namespace ArianeSoc.Jtag

open Sync

/-- The password check succeeds. -/
def PasswordRight (s : State) (i : In) : Prop :=
  s.state = .PassChkValid ∧ i.hashValid = true ∧ i.jtagHash = i.passHash

instance (s : State) (i : In) : Decidable (PasswordRight s i) :=
  inferInstanceAs (Decidable (_ ∧ _ ∧ _))

/-- A write request is issued. -/
def IssuesWrite (s : State) (i : In) : Prop :=
  dmiReqValid s i = true ∧ dmiReqOp s = DTM_WRITE

/-- An update with `DTM_PASS` is accepted. -/
def PassUpdate (s : State) (i : In) : Prop :=
  i.trstNi = true ∧ s.state = .Idle ∧ dmiUpdate s i = true ∧
    (Dmi.ofBits s.dr).op = DTM_PASS

instance (s : State) (i : In) : Decidable (IssuesWrite s i) :=
  inferInstanceAs (Decidable (_ ∧ _))

instance (s : State) (i : In) : Decidable (PassUpdate s i) :=
  inferInstanceAs (Decidable (_ ∧ _ ∧ _ ∧ _))

/-- The interface and whether the password was right since the reset. -/
structure Tracked where
  jtag : State
  passed : Bool

def track (t : Tracked) (i : In) : Tracked where
  jtag := step t.jtag i
  passed := i.trstNi && (t.passed || decide (PasswordRight t.jtag i))

def trackReset (s : State) : Tracked := ⟨reset s, false⟩

variable {s : State} {t : Tracked} {i : In} {is : List In}

/-! ## The states after a reset -/

/-- Nobody has passed, and the state machine reads nothing and checks
nothing. -/
structure Locked (t : Tracked) : Prop where
  state : t.jtag.state = .Idle ∨ t.jtag.state = .Write
  passed : t.passed = false

theorem locked_reset (s : State) : Locked (trackReset s) :=
  ⟨Or.inl rfl, rfl⟩

theorem not_passwordRight (h : s.state = .Idle ∨ s.state = .Write) :
    ¬ PasswordRight s i := by
  rintro ⟨hs, -⟩
  rw [hs] at h
  rcases h with h | h <;> exact FsmState.noConfusion h

theorem locked_step (t : Tracked) (i : In) (h : Locked t) :
    Locked (track t i) := by
  refine ⟨?_, ?_⟩
  · show (step t.jtag i).state = .Idle ∨ (step t.jtag i).state = .Write
    by_cases hr : i.trstNi = true
    · rw [state_step hr]
      rcases h.state with hs | hs
      · rw [comb_idle hs]
        split_ifs
        · exact Or.inr rfl
        · exact Or.inl rfl
      · rw [comb_write hs]
        split_ifs
        · exact Or.inl rfl
        · exact Or.inr rfl
    · rw [Bool.not_eq_true] at hr
      exact Or.inl (state_step_reset hr)
  · simp [track, h.passed, not_passwordRight h.state]

/-- From a reset on, `jtag_unlock_o` stays low. -/
theorem jtagUnlockO_run (s : State) (is : List In) (i : In) :
    jtagUnlockO (run track (trackReset s) is).jtag i = false := by
  have hlocked := run_invariant locked_step (locked_reset s) is
  rw [jtagUnlockO, Bool.eq_false_iff]
  intro h
  exact not_passwordRight hlocked.state (passCheck_comb.mp h)

/-! ## The gate of the writes -/

/-- A state that issues a write has passed. -/
def Gated (t : Tracked) : Prop :=
  ∀ i, IssuesWrite t.jtag i → t.passed = true

theorem Locked.gated_iff (h : Locked t) :
    Gated t ↔ t.jtag.state = .Idle := by
  constructor
  · intro hg
    rcases h.state with hs | hs
    · exact hs
    · have hpassed := hg In.quiet (writeRequest_iff.mpr hs)
      rw [h.passed] at hpassed
      exact Bool.noConfusion hpassed
  · intro hs i hw
    rw [writeRequest_iff.mp hw] at hs
    exact FsmState.noConfusion hs

/-- From `Idle` the gate is kept unless `DTM_PASS` is accepted. -/
theorem idle_step_iff (hs : s.state = .Idle) :
    (step s i).state = .Idle ↔ ¬ PassUpdate s i := by
  by_cases hr : i.trstNi = true
  · rw [state_step hr, comb_idle hs]
    simp [PassUpdate, hr, hs]
  · have hr' := hr
    rw [Bool.not_eq_true] at hr'
    simp [state_step_reset hr', PassUpdate, hr']

theorem always_gated_iff (h : Locked t) (hs : t.jtag.state = .Idle) :
    Always track Gated t is ↔
      Along track (fun t i => ¬ PassUpdate t.jtag i) t is := by
  have hlocked := along_of_invariant locked_step h is
  refine hlocked.always_iff (fun t i ht hg => ?_) (h.gated_iff.mpr hs)
  rw [(locked_step t i ht).gated_iff]
  exact idle_step_iff (ht.gated_iff.mp hg)

/-- In a run from a reset every write request comes after the password was
found right, exactly if the run accepts no `DTM_PASS`. -/
theorem write_gated_iff (s : State) (is : List In) :
    Always track Gated (trackReset s) is ↔
      Along track (fun t i => ¬ PassUpdate t.jtag i) (trackReset s) is :=
  always_gated_iff (locked_reset s) rfl

/-- Shifts `w` into the DMI register. -/
def shiftIn (w : BitVec 41) : List In :=
  (List.range 41).map fun k =>
    { In.quiet with shiftDr := true, dmiAccess := true, dmiTdi := w.getLsbD k }

/-- Hands the shift register to the debug module interface. -/
def update : In := { In.quiet with updateDr := true, dmiAccess := true }

/-- The word of an operation. -/
def dmiWord (address : BitVec 7) (data : BitVec 32) (op : BitVec 2) :
    BitVec 41 :=
  address ++ data ++ op

/-- The registers with nothing in them. -/
def cleared : State :=
  reset
    { dr := 0#41, state := .Idle, address := 0#7, data := 0#32,
      error := .DMINoError, startHash := false, passData := 0#512 }

/-- Whoever shifts in `DTM_PASS` writes to `dmcontrol` without a password
having been looked at. -/
theorem pass_writes :
    let is := shiftIn (dmiWord 0x10#7 0x80000001#32 DTM_PASS) ++ [update]
    let t := run track (trackReset cleared) is
    IssuesWrite t.jtag In.quiet ∧ t.jtag.address = 0x10#7 ∧
      t.jtag.data = 0x80000001#32 ∧ t.passed = false ∧ ¬ Gated t := by
  intro is t
  have hw : IssuesWrite t.jtag In.quiet := by decide +kernel
  have hp : t.passed = false := by decide +kernel
  refine ⟨hw, by decide +kernel, by decide +kernel, hp, fun hg => ?_⟩
  rw [hg In.quiet hw] at hp
  exact Bool.noConfusion hp

/-! ## The lifetime of the unlock -/

/-- An update with `DTM_READ` or `DTM_WRITE` and no error pending. -/
def RequestUpdate (s : State) (i : In) : Prop :=
  i.trstNi = true ∧ dmiUpdate s i = true ∧
    ((Dmi.ofBits s.dr).op = DTM_READ ∨ (Dmi.ofBits s.dr).op = DTM_WRITE)

/-- The update starts the request that it asks for. -/
def Accepted (s : State) (i : In) : Prop :=
  s.state = .Idle ∧
    (step s i).state =
      if (Dmi.ofBits s.dr).op = DTM_WRITE then .Write else .Read

instance (s : State) (i : In) : Decidable (RequestUpdate s i) :=
  inferInstanceAs (Decidable (_ ∧ _ ∧ _))

instance (s : State) (i : In) : Decidable (Accepted s i) :=
  inferInstanceAs (Decidable (_ ∧ _))

/-- In `Idle` a read or a write is dropped. -/
theorem RequestUpdate.dropped (h : RequestUpdate s i)
    (hs : s.state = .Idle) : (step s i).state = .Idle := by
  refine (idle_step_iff hs).mpr ?_
  rintro ⟨-, -, -, hpass⟩
  rcases h.2.2 with hop | hop
  all_goals
    rw [hop] at hpass
    exact absurd hpass (by decide)

/-- No read and no write is accepted after any run, from any state. -/
theorem request_never_accepted (s : State) (is : List In) (i : In)
    (h : RequestUpdate (run step s is) i) :
    ¬ Accepted (run step s is) i := by
  rintro ⟨hs, hacc⟩
  rw [h.dropped hs] at hacc
  split_ifs at hacc

/-- The state that has just found the password right, with a read in the
shift register. -/
def unlocking (op : BitVec 2) : State :=
  { cleared with state := .PassChkValid, dr := dmiWord 0x11#7 0#32 op }

/-- The cycle that finds the password right. -/
def rightHash : In := { In.quiet with hashValid := true }

theorem request_never_accepted_after_unlock :
    let s := run step (unlocking DTM_READ) [rightHash]
    jtagUnlockO (unlocking DTM_READ) rightHash = true ∧
      RequestUpdate s update ∧ ¬ Accepted s update := by
  intro s
  have hreq : RequestUpdate s update := by decide +kernel
  exact ⟨by decide +kernel, hreq,
    request_never_accepted (unlocking DTM_READ) [rightHash] update hreq⟩

/-- A password handed over from a reset, with every answer of the HMAC
engine in its favour. -/
def handOver : List In :=
  shiftIn (dmiWord 0x10#7 0x12345678#32 DTM_PASS) ++
    [update, { rightHash with dmiReqReady := true, dmiRespValid := true },
      { rightHash with hmacReady := true }, rightHash, rightHash]

/-- Right after the password check, and after a password handed over from a
reset, a read and a write are dropped. -/
theorem unlock_is_lost :
    (∀ op ∈ [DTM_READ, DTM_WRITE],
      PasswordRight (unlocking op) rightHash ∧
        RequestUpdate (step (unlocking op) rightHash) update ∧
        ¬ Accepted (step (unlocking op) rightHash) update) ∧
      ∀ op ∈ [DTM_READ, DTM_WRITE],
        let s := run step cleared (handOver ++ shiftIn (dmiWord 0x11#7 0#32 op))
        RequestUpdate s update ∧ ¬ Accepted s update := by
  decide +kernel

end ArianeSoc.Jtag
