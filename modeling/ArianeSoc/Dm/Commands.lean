import ArianeSoc.Dm.Top

/-!
# Abstract commands

A request that starts a command raises `cmd_valid` for the next cycle, in
which `dm_mem` hands the command to the hart or reports an error.  `Trace`
keeps an account beside the module: the command that was just started, the
one that the hart is to take, and the one that it executes, each with the
registers as the request left them.  Stores of the harts to the data words
reach them too.

`Kept` says that every command that is started is handed over or sets an
error, that the hart takes what it is owed and nothing else, and that none
is started while an error is set.  The module does not always keep that.
A command is started whatever `cmderr` is; a request in the cycle of
`cmd_valid` still finds the module idle; a resume request takes the place
of a command; and a store of a hart to the data words undoes a write of the
debugger.  `commands_kept` says that these are the only ways.
-/

namespace ArianeSoc.Dm

/-! ## The requests -/

/-- A write to `dmcontrol`. -/
def DmiReq.controls (r : DmiReq) : Bool :=
  r.op == DTM_WRITE && r.csr == DMControl

/-- A write to the command register. -/
def DmiReq.commands (r : DmiReq) : Bool :=
  r.op == DTM_WRITE && r.csr == Command

/-- A write to a register that a command reads. -/
def DmiReq.touches (r : DmiReq) : Bool :=
  r.op == DTM_WRITE && (r.isData || r.isProgBuf || r.csr == Command)

/-- What a command is executed with. -/
structure Args where
  hart : BitVec 20
  command : BitVec 32
  data : BitVec 64
  progbuf : BitVec 256
  deriving DecidableEq, Repr

def Csrs.args (c : Csrs) : Args :=
  ⟨c.dmcontrol.hartsel, c.command, c.data, c.progbuf⟩

/-- A write of a hart to the data words. -/
def stores (bus : Option HartWrite) : Bool := bus.any HartWrite.isData

/-- The arguments after a write of a hart. -/
def Args.patch (a : Args) (bus : Option HartWrite) : Args :=
  match bus with
  | some w => if w.isData then { a with data := w.patch a.data } else a
  | none => a

section Access

variable {c : Csrs} {busy : Bool} {r : DmiReq} {req : Option DmiReq}

theorem isData_of_csr {a : BitVec 8} (h : r.csr = a) :
    r.isData = (Data0 ≤ a && a ≤ DataEnd) := by rw [DmiReq.isData, h]

/-- A write to `dmcontrol` changes nothing else. -/
theorem access_controls (h : r.controls = true) :
    c.access busy (some r) =
      { c with cmdValid := false, dmcontrol := DmControl.ofBits r.data } := by
  rw [DmiReq.controls, Bool.and_eq_true, beq_iff_eq, beq_iff_eq] at h
  have hdata : r.isData = false := by
    rw [isData_of_csr h.2]
    decide
  rw [Csrs.access, h.1, if_neg (by decide), if_pos rfl, Csrs.write, hdata,
    if_neg Bool.false_ne_true, if_pos h.2]

theorem read_dmcontrol : (c.read busy r).dmcontrol = c.dmcontrol := by
  rw [Csrs.read]
  split_ifs <;> rfl

theorem write_dmcontrol (h : r.csr ≠ DMControl) :
    (c.write busy r).dmcontrol = c.dmcontrol := by
  rw [Csrs.write]
  split_ifs <;> rfl

theorem access_dmcontrol (h : ∀ r, req = some r → r.controls = false) :
    (c.access busy req).dmcontrol = c.dmcontrol := by
  cases req with
  | none => rfl
  | some r =>
    rw [Csrs.access]
    split_ifs with hread hwrite
    · exact read_dmcontrol
    · refine write_dmcontrol fun hcsr => ?_
      have hnot := h r rfl
      rw [DmiReq.controls, hwrite, hcsr] at hnot
      exact absurd hnot (by decide)
    · rfl

/-- What a command reads, the hart apart. -/
def Csrs.SameRegs (d c : Csrs) : Prop :=
  d.command = c.command ∧ d.data = c.data ∧ d.progbuf = c.progbuf

theorem sameRegs_args {d : Csrs} (h : d.SameRegs c)
    (hd : d.dmcontrol.hartsel = c.dmcontrol.hartsel) : d.args = c.args := by
  rw [Csrs.args, Csrs.args, h.1, h.2.1, h.2.2, hd]

/-- A busy module starts nothing and keeps what a command reads. -/
theorem access_busy :
    (c.access true req).cmdValid = false ∧ (c.access true req).SameRegs c := by
  cases req with
  | none => exact ⟨rfl, rfl, rfl, rfl⟩
  | some r =>
    simp only [Csrs.access, Csrs.read, Csrs.write, reduceIte]
    split_ifs <;> exact ⟨rfl, rfl, rfl, rfl⟩

/-- A request that does not write what a command reads. -/
theorem access_sameRegs (h : ∀ r, req = some r → r.touches = false) :
    (c.access busy req).SameRegs c := by
  cases req with
  | none => exact ⟨rfl, rfl, rfl⟩
  | some r =>
    have hnot := h r rfl
    rw [Csrs.access]
    split_ifs with hread hwrite
    · rw [Csrs.read]
      split_ifs <;> exact ⟨rfl, rfl, rfl⟩
    · have hparts : r.isData = false ∧ r.isProgBuf = false ∧
          r.csr ≠ Command := by
        simpa [DmiReq.touches, hwrite, and_assoc] using hnot
      rw [Csrs.write, hparts.1, hparts.2.1, if_neg Bool.false_ne_true,
        if_neg Bool.false_ne_true, if_neg hparts.2.2]
      split_ifs <;> exact ⟨rfl, rfl, rfl⟩
    · exact ⟨rfl, rfl, rfl⟩

/-- A write to `command` starts one, or is refused with an error. -/
theorem access_command {b : Bool} (h : r.commands = true) :
    if b then (c.access b (some r)).cmderr ≠ CmdErrNone
    else (c.access b (some r)).cmdValid = true := by
  rw [DmiReq.commands, Bool.and_eq_true, beq_iff_eq, beq_iff_eq] at h
  have hdata : r.isData = false := by
    rw [isData_of_csr h.2]
    decide
  have hwrite : ¬DTM_WRITE = DTM_READ := by decide
  have hcontrol : ¬Command = DMControl := by decide
  have hcs : ¬Command = AbstractCS := by decide
  cases b with
  | true =>
    rw [if_pos rfl, Csrs.access, h.1, if_neg hwrite, if_pos rfl, Csrs.write,
      hdata, if_neg Bool.false_ne_true, h.2, if_neg hcontrol, if_neg hcs,
      if_pos rfl, if_pos rfl]
    show (if c.cmderr = CmdErrNone then CmdErrBusy else c.cmderr) ≠ _
    split_ifs with hnone
    · decide
    · exact hnone
  | false =>
    rw [if_neg Bool.false_ne_true, Csrs.access, h.1, if_neg hwrite,
      if_pos rfl, Csrs.write, hdata, if_neg Bool.false_ne_true, h.2,
      if_neg hcontrol, if_neg hcs, if_pos rfl, if_neg Bool.false_ne_true]

end Access

/-! ## The account -/

section Account

variable (cfg : Config) (s : State) (i : In)

/-- The registers as the request leaves them. -/
def State.written : Csrs := s.csrs.access s.mem.cmdbusy i.req

/-- The request starts a command. -/
def State.starts : Bool := (s.written i).cmdValid

/-- The selected hart is to resume. -/
def State.resumes : Bool := s.mem.takesResume (s.memIn cfg i)

/-- A command that was started is handed to the hart. -/
def State.hands : Bool :=
  s.mem.state == .Idle && !s.resumes cfg i && s.csrs.cmdValid &&
    s.mem.halted s.csrs.dmcontrol.hartsel.toNat

/-- The hart takes the command that it is handed. -/
def State.executes : Bool :=
  s.mem.state == .Go && (s.memIn cfg i).going

/-- The hart has executed the command. -/
def State.leaves : Bool :=
  s.mem.state == .CmdExecuting &&
    (s.memIn cfg i).halts cfg (s.memIn cfg i).hart

/-- A command is started and not yet executed. -/
def State.inFlight : Bool :=
  s.csrs.cmdValid || s.mem.state == .Go || s.mem.state == .CmdExecuting

end Account

/-- The module with the account. -/
structure Trace where
  dm : State
  issued : Option Args
  owed : Option Args
  running : Option Args

def Trace.reset (cmdValid : Bool) : Trace :=
  ⟨State.reset cmdValid, none, none, none⟩

def Trace.step (cfg : Config) (t : Trace) (i : In) : Trace where
  dm := Dm.step cfg t.dm i
  issued :=
    if t.dm.starts i then some ((t.dm.written i).args.patch i.bus) else none
  owed :=
    if t.dm.hands cfg i then t.issued.map (·.patch i.bus)
    else if t.dm.executes cfg i then none
    else t.owed.map (·.patch i.bus)
  running :=
    if t.dm.executes cfg i then t.owed.map (·.patch i.bus)
    else if t.dm.leaves cfg i then none
    else t.running.map (·.patch i.bus)

/-- What the module owes in one cycle. -/
structure Kept (cfg : Config) (t : Trace) (i : In) : Prop where
  /-- a command that was started is handed over or sets an error -/
  answered : t.issued.isSome →
    t.dm.hands cfg i = true ∨ (step cfg t.dm i).csrs.cmderr ≠ CmdErrNone
  /-- what the hart is owed it is handed until it takes it -/
  offered : t.owed.isSome → t.dm.mem.state = .Go
  /-- the hart takes what it is owed, with its arguments -/
  taken : t.dm.executes cfg i = true → t.owed = some t.dm.csrs.args
  /-- and works with these -/
  running : t.dm.mem.state = .CmdExecuting → t.running = some t.dm.csrs.args
  /-- no command is started while an error is set -/
  quiet : t.dm.csrs.cmderr ≠ CmdErrNone → t.dm.starts i = false
  /-- a command write that starts nothing sets an error -/
  refused : ∀ r, i.req = some r → r.commands = true →
    t.dm.starts i = false → (step cfg t.dm i).csrs.cmderr ≠ CmdErrNone

/-! ## When it is kept -/

/-- What the requests are about: `dmcontrol` is written first, and later
only for halt and resume requests while a command is in flight. -/
structure Scope (s : State) (i : In) : Prop where
  active : ∀ r, i.req = some r →
    r.controls = true ∨ s.csrs.dmcontrol.dmactive = true
  steady : ∀ r, i.req = some r → r.controls = true → s.inFlight = true →
    (DmControl.ofBits r.data).dmactive = true ∧
      (DmControl.ofBits r.data).hartsel = s.csrs.dmcontrol.hartsel

/-- The cycle does none of what the module cannot cope with. -/
structure Good (cfg : Config) (s : State) (i : In) : Prop where
  /-- nothing starts a command while an error is set -/
  clean : s.csrs.cmderr ≠ CmdErrNone → s.starts i = false
  /-- nothing that a command reads is written, and nothing is started, in
  the cycle in which one is handed to the hart -/
  apart : s.hands cfg i = true →
    s.starts i = false ∧ ∀ r, i.req = some r → r.touches = false
  /-- the hart is not resumed when a command is started or handed over -/
  still : s.resumes cfg i = true →
    (s.starts i = true → unsupportedCommand (s.written i).command = true) ∧
      (s.csrs.cmdValid = true → unsupportedCommand s.csrs.command = true)
  /-- a store of a hart to the data words is not in the cycle of a write to
  them that starts one, or leaves nothing of it -/
  alone : s.starts i = true → stores i.bus = true →
    (s.written i).args.patch i.bus =
      { (s.written i).args with data := s.csrs.data }.patch i.bus

instance forallReqDecidable {p : DmiReq → Prop} [DecidablePred p]
    (req : Option DmiReq) : Decidable (∀ r, req = some r → p r) :=
  match req with
  | none => isTrue fun _ h => nomatch h
  | some r => decidable_of_iff (p r) ⟨fun h _ hr => Option.some.inj hr ▸ h,
      fun h => h r rfl⟩

instance (s : State) (i : In) : Decidable (Scope s i) :=
  decidable_of_iff (_ ∧ _) ⟨fun h => ⟨h.1, h.2⟩, fun h => ⟨h.1, h.2⟩⟩

instance (cfg : Config) (s : State) (i : In) : Decidable (Good cfg s i) :=
  decidable_of_iff (_ ∧ _ ∧ _ ∧ _)
    ⟨fun h => ⟨h.1, h.2.1, h.2.2.1, h.2.2.2⟩,
      fun h => ⟨h.1, h.2, h.3, h.4⟩⟩

instance (cfg : Config) (t : Trace) (i : In) : Decidable (Kept cfg t i) :=
  decidable_of_iff (_ ∧ _ ∧ _ ∧ _ ∧ _ ∧ _)
    ⟨fun h => ⟨h.1, h.2.1, h.2.2.1, h.2.2.2.1, h.2.2.2.2.1, h.2.2.2.2.2⟩,
      fun h => ⟨h.1, h.2, h.3, h.4, h.5, h.6⟩⟩

/-- What every cycle keeps.  Before the first cycle `cmd_valid` may be set,
but no hart is halted. -/
structure Trace.Inv (t : Trace) : Prop where
  valid : t.dm.csrs.cmdValid = true → t.dm.mem.state = .Idle ∨
    (t.dm.mem.state = .Resume ∧
      unsupportedCommand t.dm.csrs.command = true)
  issued : t.issued =
    if t.dm.csrs.dmcontrol.dmactive && t.dm.csrs.cmdValid then
      some t.dm.csrs.args
    else none
  asleep : t.dm.csrs.dmcontrol.dmactive = false →
    (t.dm.mem.state ≠ .Go ∧ t.dm.mem.state ≠ .CmdExecuting) ∧
      (t.dm.csrs.cmdValid = true → ∀ k, t.dm.mem.halted k = false)
  owed : t.owed =
    if t.dm.mem.state = .Go then some t.dm.csrs.args else none
  running : t.running =
    if t.dm.mem.state = .CmdExecuting then some t.dm.csrs.args else none

section Step

variable {cfg : Config} {s : State} {i : In}

theorem starts_idle (h : s.starts i = true) : s.mem.state = .Idle := by
  by_contra hne
  have hbusy : s.mem.cmdbusy = true := by
    rw [Mem.cmdbusy, bne_iff_ne]
    exact hne
  rw [State.starts, State.written, hbusy, access_busy.1] at h
  exact absurd h Bool.false_ne_true

theorem hands_iff : s.hands cfg i = true ↔
    s.mem.state = .Idle ∧ s.resumes cfg i = false ∧
      s.csrs.cmdValid = true ∧
      s.mem.halted s.csrs.dmcontrol.hartsel.toNat = true := by
  simp [State.hands, and_assoc]

theorem cmderror_ne {m : Mem} {j : MemIn} {x : BitVec 3}
    (h : m.cmderror j = some x) : x ≠ CmdErrNone := by
  rw [Mem.cmderror] at h
  split_ifs at h <;> rw [← Option.some.inj h] <;> decide

theorem not_executes (h : s.mem.state ≠ .Go) : s.executes cfg i = false := by
  rw [State.executes, beq_eq_false_iff_ne.mpr h, Bool.false_and]

theorem not_hands (h : s.mem.state ≠ .Idle) : s.hands cfg i = false :=
  Bool.eq_false_iff.mpr fun hh => h (hands_iff.mp hh).1

/-- The next state of the queue by what happens in the cycle. -/
theorem nextState_eq : (step cfg s i).mem.state =
    match s.mem.state with
    | .Idle =>
      if s.resumes cfg i then .Resume
      else if s.hands cfg i then .Go else .Idle
    | .Go => if s.executes cfg i then .CmdExecuting else .Go
    | .Resume =>
      if s.mem.resuming s.csrs.dmcontrol.hartsel.toNat then .Idle
      else .Resume
    | .CmdExecuting => if s.leaves cfg i then .Idle else .CmdExecuting := by
  show s.mem.nextState cfg (s.memIn cfg i) = _
  rw [Mem.nextState]
  cases hs : s.mem.state with
  | Idle =>
    simp only [State.hands, hs]
    cases hr : s.resumes cfg i with
    | true =>
      rw [State.resumes] at hr
      rw [hr]
      rfl
    | false =>
      rw [State.resumes] at hr
      rw [hr]
      rfl
  | Go =>
    simp only [State.executes, hs]
    rfl
  | Resume => rfl
  | CmdExecuting =>
    simp only [State.leaves, hs]
    rfl

/-- The hart is to execute a command from the hand-over on. -/
theorem next_go : (step cfg s i).mem.state = .Go ↔
    s.hands cfg i = true ∨
      (s.mem.state = .Go ∧ s.executes cfg i = false) := by
  rw [nextState_eq]
  cases hs : s.mem.state with
  | Idle =>
    cases hr : s.resumes cfg i with
    | true => simp [State.hands, hr]
    | false => simp
  | Go => simp [not_hands (s := s) (i := i) (by rw [hs]; decide)]
  | Resume =>
    simp only [not_hands (s := s) (i := i) (by rw [hs]; decide)]
    split_ifs <;> simp
  | CmdExecuting =>
    simp only [not_hands (s := s) (i := i) (by rw [hs]; decide)]
    split_ifs <;> simp

/-- It executes one from taking it until it is halted again. -/
theorem next_executing : (step cfg s i).mem.state = .CmdExecuting ↔
    s.executes cfg i = true ∨
      (s.mem.state = .CmdExecuting ∧ s.leaves cfg i = false) := by
  rw [nextState_eq]
  cases hs : s.mem.state with
  | Idle =>
    simp only [not_executes (s := s) (i := i) (by rw [hs]; decide)]
    split_ifs <;> simp
  | Go => simp
  | Resume =>
    simp only [not_executes (s := s) (i := i) (by rw [hs]; decide)]
    split_ifs <;> simp
  | CmdExecuting => simp [not_executes (s := s) (i := i) (by rw [hs]; decide)]

theorem csrs_step (h : s.csrs.dmcontrol.dmactive = true) :
    (step cfg s i).csrs = s.csrs.comb (s.csrsIn cfg i) := by
  rw [step, Csrs.step, if_pos h]

theorem csrs_asleep (h : s.csrs.dmcontrol.dmactive = false) :
    (step cfg s i).csrs.cmdValid = false := by
  rw [step, Csrs.step, h]
  rfl

theorem cmderr_step (h : s.csrs.dmcontrol.dmactive = true)
    (he : (s.mem.cmderror (s.memIn cfg i)).isSome) :
    (step cfg s i).csrs.cmderr ≠ CmdErrNone := by
  obtain ⟨x, hx⟩ := Option.isSome_iff_exists.mp he
  rw [csrs_step h]
  show ((s.mem.cmderror (s.memIn cfg i)).getD _) ≠ _
  rw [hx]
  exact cmderror_ne hx

theorem cmderror_unsupported
    (hu : unsupportedCommand s.csrs.command = true)
    (hv : s.csrs.cmdValid = true) :
    (s.mem.cmderror (s.memIn cfg i)).isSome := by
  have hboth : (unsupportedCommand (s.memIn cfg i).cmd &&
      (s.memIn cfg i).cmdValid) = true := by
    rw [Bool.and_eq_true]
    exact ⟨hu, hv⟩
  rw [Mem.cmderror, if_pos hboth]
  split_ifs <;> rfl

theorem cmderror_running (hs : s.mem.state = .Idle)
    (hv : s.csrs.cmdValid = true)
    (hh : s.mem.halted s.csrs.dmcontrol.hartsel.toNat = false) :
    (s.mem.cmderror (s.memIn cfg i)).isSome := by
  have hall : (s.mem.state == .Idle && (s.memIn cfg i).cmdValid &&
      !s.mem.halted (s.memIn cfg i).hart) = true := by
    rw [Bool.and_eq_true, Bool.and_eq_true, beq_iff_eq, Bool.not_eq_true']
    exact ⟨⟨hs, hv⟩, hh⟩
  rw [Mem.cmderror, if_pos hall]
  split_ifs <;> rfl

/-- The arguments in the next cycle. -/
theorem step_args (h : s.csrs.dmcontrol.dmactive = true)
    (hstore : stores i.bus = true → (s.written i).args.patch i.bus =
      { (s.written i).args with data := s.csrs.data }.patch i.bus) :
    (step cfg s i).csrs.args = (s.written i).args.patch i.bus := by
  have hout : (s.memIn cfg i).dataOut = match i.bus with
      | some w => if w.isData then some (w.patch s.csrs.data) else none
      | none => none := rfl
  rw [csrs_step h]
  show Args.mk (s.written i).dmcontrol.hartsel (s.written i).command
    ((s.memIn cfg i).dataOut.getD (s.written i).data)
    (s.written i).progbuf = _
  cases hbus : i.bus with
  | none =>
    rw [hbus] at hout
    rw [hout]
    rfl
  | some w =>
    rw [hbus] at hout hstore
    have hout' : (s.memIn cfg i).dataOut =
        if w.isData then some (w.patch s.csrs.data) else none := hout
    by_cases hw : w.isData = true
    · rw [hout', if_pos hw, hstore hw]
      simp only [Args.patch, if_pos hw]
      rfl
    · rw [hout', if_neg hw]
      simp only [Args.patch, if_neg hw]
      rfl

/-- The arguments stay, a store of a hart apart. -/
theorem step_args_same (h : s.csrs.dmcontrol.dmactive = true)
    (hsame : (s.written i).SameRegs s.csrs)
    (hart : (s.written i).dmcontrol.hartsel = s.csrs.dmcontrol.hartsel) :
    (step cfg s i).csrs.args = s.csrs.args.patch i.bus := by
  have hargs := sameRegs_args hsame hart
  rw [step_args h fun _ => by rw [hargs]; rfl, hargs]

/-- While a command is in flight the selected hart stays, and so does
`dmactive`. -/
theorem written_inFlight (hs : Scope s i) (hfly : s.inFlight = true)
    (h : s.csrs.dmcontrol.dmactive = true) :
    (s.written i).dmcontrol.hartsel = s.csrs.dmcontrol.hartsel ∧
      (s.written i).dmcontrol.dmactive = true := by
  rw [State.written]
  cases hreq : i.req with
  | none => exact ⟨rfl, h⟩
  | some r =>
    cases hc : r.controls with
    | true =>
      rw [access_controls hc]
      exact (hs.steady r hreq hc hfly).symm
    | false =>
      have hsame : (s.csrs.access s.mem.cmdbusy (some r)).dmcontrol =
          s.csrs.dmcontrol := by
        refine access_dmcontrol fun r' hr' => ?_
        rw [← Option.some.inj hr']
        exact hc
      rw [hsame]
      exact ⟨rfl, h⟩

/-- A request that starts a command leaves `dmcontrol` alone. -/
theorem written_starts (h : s.starts i = true) :
    (s.written i).dmcontrol = s.csrs.dmcontrol := by
  refine access_dmcontrol fun r hr => ?_
  refine Bool.eq_false_iff.mpr fun hc => ?_
  rw [State.starts, State.written, hr, access_controls hc] at h
  exact absurd h Bool.false_ne_true

/-- Only an active module starts commands. -/
theorem starts_active (hs : Scope s i) (h : s.starts i = true) :
    s.csrs.dmcontrol.dmactive = true := by
  cases hreq : i.req with
  | none =>
    rw [State.starts, State.written, hreq] at h
    exact absurd h Bool.false_ne_true
  | some r =>
    rcases hs.active r hreq with hc | hactive
    · rw [State.starts, State.written, hreq, access_controls hc] at h
      exact absurd h Bool.false_ne_true
    · exact hactive

/-- The arguments of a command stay from the hand-over to its end. -/
theorem args_kept (hs : Scope s i) (hg : Good cfg s i)
    (h : s.csrs.dmcontrol.dmactive = true)
    (hfly : s.hands cfg i = true ∨ s.mem.state = .Go ∨
      s.mem.state = .CmdExecuting) :
    (step cfg s i).csrs.args = s.csrs.args.patch i.bus := by
  have hin : s.inFlight = true := by
    rw [State.inFlight, Bool.or_eq_true, Bool.or_eq_true, beq_iff_eq,
      beq_iff_eq]
    rcases hfly with hh | hgo | hrun
    · exact Or.inl (Or.inl (hands_iff.mp hh).2.2.1)
    · exact Or.inl (Or.inr hgo)
    · exact Or.inr hrun
  have hbusy : s.mem.state ≠ .Idle → (s.written i).SameRegs s.csrs := by
    intro hne
    have hb : s.mem.cmdbusy = true := by
      rw [Mem.cmdbusy, bne_iff_ne]
      exact hne
    rw [State.written, hb]
    exact access_busy.2
  refine step_args_same h ?_ (written_inFlight hs hin h).1
  rcases hfly with hh | hgo | hrun
  · exact access_sameRegs (hg.apart hh).2
  · exact hbusy (by rw [hgo]; decide)
  · exact hbusy (by rw [hrun]; decide)

theorem cmdValid_step (h : s.csrs.dmcontrol.dmactive = true) :
    (step cfg s i).csrs.cmdValid = s.starts i := by
  rw [csrs_step h]
  rfl

theorem dmactive_step (h : s.csrs.dmcontrol.dmactive = true) :
    (step cfg s i).csrs.dmcontrol.dmactive =
      (s.written i).dmcontrol.dmactive := by
  rw [csrs_step h]
  rfl

end Step

/-! ## The invariant -/

section Invariant

variable {cfg : Config} {t : Trace} {i : In}

theorem Trace.inv_reset (cmdValid : Bool) : (Trace.reset cmdValid).Inv where
  valid _ := Or.inl rfl
  issued := rfl
  asleep _ := ⟨⟨MemState.noConfusion, MemState.noConfusion⟩, fun _ _ => rfl⟩
  owed := rfl
  running := rfl

/-- A module with a command in hand is active. -/
theorem Trace.Inv.active (h : t.Inv)
    (hst : t.dm.mem.state = .Go ∨ t.dm.mem.state = .CmdExecuting) :
    t.dm.csrs.dmcontrol.dmactive = true := by
  by_contra hd
  obtain ⟨⟨hgo, hrun⟩, -⟩ := h.asleep (Bool.eq_false_iff.mpr hd)
  exact hst.elim hgo hrun

theorem Trace.Inv.active_hands (h : t.Inv)
    (hh : t.dm.hands cfg i = true) :
    t.dm.csrs.dmcontrol.dmactive = true := by
  by_contra hd
  obtain ⟨-, -, hv, hhalt⟩ := hands_iff.mp hh
  rw [(h.asleep (Bool.eq_false_iff.mpr hd)).2 hv] at hhalt
  exact absurd hhalt Bool.false_ne_true

/-- What is handed over is what was started. -/
theorem Trace.Inv.issued_hands (h : t.Inv) (hh : t.dm.hands cfg i = true) :
    t.issued = some t.dm.csrs.args := by
  rw [h.issued, h.active_hands hh, (hands_iff.mp hh).2.2.1]
  rfl

variable (h : t.Inv) (hs : Scope t.dm i) (hg : Good cfg t.dm i)
include h hs hg

/-- The hart is owed a command from the hand-over until it takes it. -/
theorem Trace.Inv.owed_step : (t.step cfg i).owed =
    if (t.step cfg i).dm.mem.state = .Go then
      some (t.step cfg i).dm.csrs.args
    else none := by
  have hgo := @next_go cfg t.dm i
  show (if t.dm.hands cfg i then t.issued.map (·.patch i.bus)
    else if t.dm.executes cfg i then none
    else t.owed.map (·.patch i.bus)) =
    if (Dm.step cfg t.dm i).mem.state = .Go then
      some (Dm.step cfg t.dm i).csrs.args else none
  by_cases hh : t.dm.hands cfg i = true
  · rw [if_pos hh, if_pos (hgo.mpr (Or.inl hh)), h.issued_hands hh,
      args_kept hs hg (h.active_hands hh) (Or.inl hh)]
    rfl
  rw [if_neg hh]
  by_cases he : t.dm.executes cfg i = true
  · have hnext : ¬(Dm.step cfg t.dm i).mem.state = .Go := by
      rw [hgo, he]
      simp [hh]
    rw [if_pos he, if_neg hnext]
  rw [if_neg he, h.owed]
  have he' : t.dm.executes cfg i = false := Bool.eq_false_iff.mpr he
  by_cases hst : t.dm.mem.state = .Go
  · rw [if_pos hst, if_pos (hgo.mpr (Or.inr ⟨hst, he'⟩)),
      args_kept hs hg (h.active (Or.inl hst)) (Or.inr (Or.inl hst))]
    rfl
  · have hnext : ¬(Dm.step cfg t.dm i).mem.state = .Go := by
      rw [hgo]
      simp [hh, hst]
    rw [if_neg hst, if_neg hnext]
    rfl

/-- The hart executes a command from taking it until it is halted again. -/
theorem Trace.Inv.running_step : (t.step cfg i).running =
    if (t.step cfg i).dm.mem.state = .CmdExecuting then
      some (t.step cfg i).dm.csrs.args
    else none := by
  have hrun := @next_executing cfg t.dm i
  show (if t.dm.executes cfg i then t.owed.map (·.patch i.bus)
    else if t.dm.leaves cfg i then none
    else t.running.map (·.patch i.bus)) =
    if (Dm.step cfg t.dm i).mem.state = .CmdExecuting then
      some (Dm.step cfg t.dm i).csrs.args else none
  by_cases he : t.dm.executes cfg i = true
  · have hst : t.dm.mem.state = .Go := by
      by_contra hne
      rw [not_executes hne] at he
      exact absurd he Bool.false_ne_true
    rw [if_pos he, if_pos (hrun.mpr (Or.inl he)), h.owed, if_pos hst,
      args_kept hs hg (h.active (Or.inl hst)) (Or.inr (Or.inl hst))]
    rfl
  rw [if_neg he]
  by_cases hl : t.dm.leaves cfg i = true
  · have hnext : ¬(Dm.step cfg t.dm i).mem.state = .CmdExecuting := by
      rw [hrun, hl]
      simp [he]
    rw [if_pos hl, if_neg hnext]
  rw [if_neg hl, h.running]
  have hl' : t.dm.leaves cfg i = false := Bool.eq_false_iff.mpr hl
  by_cases hst : t.dm.mem.state = .CmdExecuting
  · rw [if_pos hst, if_pos (hrun.mpr (Or.inr ⟨hst, hl'⟩)),
      args_kept hs hg (h.active (Or.inr hst)) (Or.inr (Or.inr hst))]
    rfl
  · have hnext : ¬(Dm.step cfg t.dm i).mem.state = .CmdExecuting := by
      rw [hrun]
      simp [he, hst]
    rw [if_neg hst, if_neg hnext]
    rfl

omit h hs in
/-- A command that was just started finds the queue idle. -/
theorem Trace.valid_step
    (hv : (t.step cfg i).dm.csrs.cmdValid = true) :
    (t.step cfg i).dm.mem.state = .Idle ∨
      ((t.step cfg i).dm.mem.state = .Resume ∧
        unsupportedCommand (t.step cfg i).dm.csrs.command = true) := by
  have hactive : t.dm.csrs.dmcontrol.dmactive = true := by
    by_contra hd
    have hoff : (t.step cfg i).dm.csrs.cmdValid = false :=
      csrs_asleep (Bool.eq_false_iff.mpr hd)
    rw [hoff] at hv
    exact absurd hv Bool.false_ne_true
  have hstart : t.dm.starts i = true := (cmdValid_step hactive).symm.trans hv
  have hnohand : t.dm.hands cfg i = false := by
    refine Bool.eq_false_iff.mpr fun hh => ?_
    rw [(hg.apart hh).1] at hstart
    exact absurd hstart Bool.false_ne_true
  have hcommand : (t.step cfg i).dm.csrs.command =
      (t.dm.written i).command := by
    show (Dm.step cfg t.dm i).csrs.command = _
    rw [csrs_step hactive]
    rfl
  have hnext := @nextState_eq cfg t.dm i
  rw [starts_idle hstart, hnohand] at hnext
  show (Dm.step cfg t.dm i).mem.state = _ ∨ _
  cases hr : t.dm.resumes cfg i with
  | true =>
    rw [hr] at hnext
    refine Or.inr ⟨hnext, ?_⟩
    rw [hcommand]
    exact (hg.still hr).1 hstart
  | false =>
    rw [hr] at hnext
    exact Or.inl hnext

omit h in
theorem Trace.issued_step : (t.step cfg i).issued =
    if (t.step cfg i).dm.csrs.dmcontrol.dmactive &&
      (t.step cfg i).dm.csrs.cmdValid then
      some (t.step cfg i).dm.csrs.args
    else none := by
  show (if t.dm.starts i then some ((t.dm.written i).args.patch i.bus)
    else none) = if (Dm.step cfg t.dm i).csrs.dmcontrol.dmactive &&
      (Dm.step cfg t.dm i).csrs.cmdValid then
      some (Dm.step cfg t.dm i).csrs.args else none
  cases hst : t.dm.starts i with
  | true =>
    have hactive := starts_active hs hst
    rw [dmactive_step hactive, written_starts hst, hactive,
      cmdValid_step hactive, hst, step_args hactive (hg.alone hst)]
    rfl
  | false =>
    have hoff : (Dm.step cfg t.dm i).csrs.cmdValid = false := by
      cases hd : t.dm.csrs.dmcontrol.dmactive with
      | true => rw [cmdValid_step hd, hst]
      | false => exact csrs_asleep hd
    rw [hoff, Bool.and_false]
    rfl

omit hg in
/-- The module is deactivated without a command in flight. -/
theorem Trace.Inv.asleep_step
    (hoff : (t.step cfg i).dm.csrs.dmcontrol.dmactive = false) :
    ((t.step cfg i).dm.mem.state ≠ .Go ∧
      (t.step cfg i).dm.mem.state ≠ .CmdExecuting) ∧
        (t.step cfg i).dm.csrs.cmdValid = false := by
  have hoff' : (Dm.step cfg t.dm i).csrs.dmcontrol.dmactive = false := hoff
  have hquiet : t.dm.hands cfg i = false ∧ t.dm.mem.state ≠ .Go ∧
      t.dm.mem.state ≠ .CmdExecuting := by
    cases hd : t.dm.csrs.dmcontrol.dmactive with
    | false =>
      refine ⟨Bool.eq_false_iff.mpr fun hh => ?_, (h.asleep hd).1⟩
      rw [h.active_hands hh] at hd
      exact absurd hd (by decide)
    | true =>
      rw [dmactive_step hd] at hoff'
      have hfly : t.dm.inFlight = false := by
        refine Bool.eq_false_iff.mpr fun hfly => ?_
        rw [(written_inFlight hs hfly hd).2] at hoff'
        exact absurd hoff' (by decide)
      simp only [State.inFlight, Bool.or_eq_false_iff,
        beq_eq_false_iff_ne] at hfly
      refine ⟨Bool.eq_false_iff.mpr fun hh => ?_, hfly.1.2, hfly.2⟩
      rw [(hands_iff.mp hh).2.2.1] at hfly
      exact absurd hfly.1.1 (by decide)
  have hexec := @not_executes cfg t.dm i hquiet.2.1
  refine ⟨⟨fun hgo => ?_, fun hrun => ?_⟩, ?_⟩
  · rcases next_go.mp hgo with hh | ⟨hst, -⟩
    · rw [hquiet.1] at hh
      exact absurd hh Bool.false_ne_true
    · exact hquiet.2.1 hst
  · rcases next_executing.mp hrun with he | ⟨hst, -⟩
    · rw [hexec] at he
      exact absurd he Bool.false_ne_true
    · exact hquiet.2.2 hst
  · show (Dm.step cfg t.dm i).csrs.cmdValid = false
    cases hd : t.dm.csrs.dmcontrol.dmactive with
    | false => exact csrs_asleep hd
    | true =>
      rw [cmdValid_step hd]
      refine Bool.eq_false_iff.mpr fun hst => ?_
      rw [dmactive_step hd, written_starts hst, hd] at hoff'
      exact absurd hoff' (by decide)

theorem Trace.Inv.step : (t.step cfg i).Inv where
  valid hv := Trace.valid_step hg hv
  issued := Trace.issued_step hs hg
  asleep hoff := by
    obtain ⟨hstate, hv⟩ := h.asleep_step hs hoff
    refine ⟨hstate, fun hv' => ?_⟩
    rw [hv] at hv'
    exact absurd hv' Bool.false_ne_true
  owed := h.owed_step hs hg
  running := h.running_step hs hg

omit hs in
/-- A command is handed over, or the queue reports an error. -/
theorem Trace.Inv.answered (hissued : t.issued.isSome) :
    t.dm.hands cfg i = true ∨
      (Dm.step cfg t.dm i).csrs.cmderr ≠ CmdErrNone := by
  rw [h.issued] at hissued
  split_ifs at hissued with hlive
  swap
  · exact absurd hissued Bool.false_ne_true
  obtain ⟨hactive, hvalid⟩ := (Bool.and_eq_true _ _).mp hlive
  have hunsupported : unsupportedCommand t.dm.csrs.command = true →
      (Dm.step cfg t.dm i).csrs.cmderr ≠ CmdErrNone := fun hu =>
    cmderr_step hactive (cmderror_unsupported hu hvalid)
  rcases h.valid hvalid with hidle | ⟨-, hu⟩
  · cases hr : t.dm.resumes cfg i with
    | true => exact Or.inr (hunsupported ((hg.still hr).2 hvalid))
    | false =>
      cases hhalt : t.dm.mem.halted t.dm.csrs.dmcontrol.hartsel.toNat with
      | true => exact Or.inl (hands_iff.mpr ⟨hidle, hr, hvalid, hhalt⟩)
      | false =>
        exact Or.inr
          (cmderr_step hactive (cmderror_running hidle hvalid hhalt))
  · exact Or.inr (hunsupported hu)

theorem Trace.Inv.kept : Kept cfg t i where
  answered := h.answered hg
  offered howed := by
    rw [h.owed] at howed
    split_ifs at howed with hst
    · exact hst
    · exact absurd howed Bool.false_ne_true
  taken he := by
    have hst : t.dm.mem.state = .Go := by
      by_contra hne
      rw [not_executes hne] at he
      exact absurd he Bool.false_ne_true
    rw [h.owed, if_pos hst]
  running hst := by rw [h.running, if_pos hst]
  quiet := hg.clean
  refused r hr hc hst := by
    have hnot : r.controls = false := by
      rw [DmiReq.commands, Bool.and_eq_true, beq_iff_eq, beq_iff_eq] at hc
      rw [DmiReq.controls, hc.2, Bool.and_eq_false_iff]
      exact Or.inr (by decide)
    have hactive := (hs.active r hr).resolve_left (by rw [hnot]; decide)
    have hwritten : (t.dm.written i).cmderr ≠ CmdErrNone := by
      have haccess := access_command (c := t.dm.csrs)
        (b := t.dm.mem.cmdbusy) hc
      rw [State.starts, State.written, hr] at hst
      rw [State.written, hr]
      cases hb : t.dm.mem.cmdbusy with
      | true =>
        rw [hb] at haccess
        exact haccess
      | false =>
        rw [hb] at haccess hst
        rw [if_neg Bool.false_ne_true, hst] at haccess
        exact absurd haccess Bool.false_ne_true
    cases he : t.dm.mem.cmderror (t.dm.memIn cfg i) with
    | some x => exact cmderr_step hactive (by rw [he]; rfl)
    | none =>
      rw [csrs_step hactive]
      show ((t.dm.mem.cmderror (t.dm.memIn cfg i)).getD
        (t.dm.written i).cmderr) ≠ _
      rw [he]
      exact hwritten

end Invariant

/-- In every run from reset whose cycles do none of what the module cannot
cope with, every command that is started is handed to the hart or sets an
error, the hart executes each command that it is handed once and with the
arguments it was started with, none is started while an error is set, and a
command write that starts nothing sets one. -/
theorem commands_kept (cfg : Config) (cmdValid : Bool) {is : List In}
    (hscope : Sync.Along (Trace.step cfg) (fun t i => Scope t.dm i)
      (Trace.reset cmdValid) is)
    (hgood : Sync.Along (Trace.step cfg) (fun t i => Good cfg t.dm i)
      (Trace.reset cmdValid) is) :
    Sync.Along (Trace.step cfg) (Kept cfg) (Trace.reset cmdValid) is := by
  refine ((hscope.and hgood).along (P := Trace.Inv) ?_
    (Trace.inv_reset cmdValid)).mono ?_
  · rintro t i ⟨hs, hg⟩ h
    exact h.step hs hg
  · rintro t i ⟨⟨hs, hg⟩, h⟩
    exact h.kept hs hg

/-! ## Where it is not -/

/-- A write of the debugger, and one of a hart. -/
def In.write (csr : BitVec 7) (data : BitVec 32) : In :=
  ⟨some ⟨csr, DTM_WRITE, data⟩, none⟩

def In.hart (addr wdata : BitVec 64) : In := ⟨none, some ⟨addr, wdata, 0xff#8⟩⟩

/-- Two commands, one after the other, each executed once. -/
theorem commands_kept_sample :
    let cfg : Config := ⟨1, fun _ => true⟩
    Sync.Along (Trace.step cfg) (Kept cfg) (Trace.reset true)
      [.write 0x10#7 1#32, .hart 0x100#64 0#64, .write 0x17#7 0x221008#32,
        ⟨none, none⟩, .hart 0x104#64 0#64, .hart 0x100#64 0#64,
        .write 0x17#7 0x231009#32, ⟨none, none⟩, .hart 0x104#64 0#64,
        .hart 0x100#64 0#64] :=
  commands_kept ⟨1, fun _ => true⟩ true (by decide +kernel)
    (by decide +kernel)

/-- A command is started and executed while an error is set, a second one
replaces the first, a resume request takes the place of a command, and a
store of a hart undoes the write that starts one. -/
theorem command_lost :
    let cfg : Config := ⟨1, fun _ => true⟩
    let broken := fun is : List In =>
      Sync.Along (Trace.step cfg) (fun t i => Scope t.dm i)
        (Trace.reset false) is ∧
      ¬Sync.Along (Trace.step cfg) (Kept cfg) (Trace.reset false) is
    broken [.write 0x10#7 1#32, .write 0x17#7 0x221008#32, ⟨none, none⟩,
      .hart 0x100#64 0#64, .write 0x17#7 0x221008#32, ⟨none, none⟩,
      .hart 0x104#64 0#64] ∧
    broken [.write 0x10#7 1#32, .hart 0x100#64 0#64,
      .write 0x17#7 0x221008#32, .write 0x17#7 0x221009#32,
      .hart 0x104#64 0#64] ∧
    broken [.write 0x10#7 1#32, .hart 0x100#64 0#64,
      .write 0x10#7 0x40000001#32, .write 0x17#7 0x221008#32,
      ⟨none, none⟩] ∧
    broken [.write 0x10#7 1#32, .hart 0x100#64 0#64, .write 0x18#7 1#32,
      ⟨some ⟨0x04#7, DTM_WRITE, 7#32⟩, some ⟨0x380#64, 0#64, 0xf0#8⟩⟩,
      ⟨none, none⟩, .hart 0x104#64 0#64] := by
  decide +kernel

end ArianeSoc.Dm
