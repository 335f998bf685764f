import ArianeSoc.Controller
import ArianeSoc.Decoder.Units
import ArianeSoc.Issue.InOrder
import ArianeSoc.Issue.ReadOperands

/-!
# The issue stage in the pipeline

The scoreboard, the operand read, the commit stage and the controller,
wired as in `issue_stage.sv` and `ariane.sv`.  Instructions come from the
decoder through `reName`.  What the functional units, the CSR file and the
caches answer is left to the environment.

Beside the registers, `Tracked` carries the abstract queue of the
scoreboard, which names the instructions in flight in program order.
-/

namespace ArianeSoc.IssueStage

open Scoreboard (Rec Queue Refines AckOk)

variable {b : ℕ}

/-- The registers. -/
structure State (b : ℕ) where
  sb : Scoreboard.State b
  iro : ReadOperands.State
  /-- `fence_active_q` and `flush_dcache_o` of the controller. -/
  fenceActive : Bool
  flushDcache : Bool

def reset (b : ℕ) : State b where
  sb := Scoreboard.reset b
  iro := ReadOperands.reset
  fenceActive := false
  flushDcache := false

/-- The inputs of one cycle.  Of the inputs of the commit stage and of the
controller only those count that come from outside. -/
structure Env (b : ℕ) where
  dec : Decoder.In
  decodedInstrValid : Bool
  wb : List (Scoreboard.WbPort b)
  targetAddress : BitVec 64
  fluReady : Bool
  lsuReady : Bool
  fpuReady : Bool
  haltCsr : Bool
  commit : CommitStage.In
  amoResult : BitVec 64
  csrRdata : BitVec 64
  ctrl : Controller.In

/-! ## The wires -/

/-- The inputs of the commit stage. -/
def commitIn (s : State b) (e : Env b) : CommitStage.In :=
  { e.commit with
    halt := e.haltCsr || s.fenceActive
    flushDcache := s.flushDcache
    commitInstr0 := Scoreboard.commitInstr0 s.sb
    commitInstr1 := Scoreboard.commitInstr1 s.sb }

/-- The inputs of the controller. -/
def controllerIn (s : State b) (e : Env b) : Controller.In :=
  let c := commitIn s e
  { e.ctrl with
    fenceActive := s.fenceActive
    exValid := (CommitStage.exceptionO c).valid
    fenceI := CommitStage.fenceIO c
    fence := CommitStage.fenceO c
    sfenceVma := CommitStage.sfenceVmaO c
    flushCommit := CommitStage.flushCommitO c }

/-- The outputs of the controller. -/
def controllerOut (wtDcache : Bool) (s : State b) (e : Env b) :
    Controller.Out :=
  Controller.flushCtrl wtDcache (controllerIn s e)

/-- The inputs of the scoreboard for an acknowledge of the issue.  There
is no unresolved branch in the issue stage. -/
def scoreboardInWith (wtDcache : Bool) (s : State b) (e : Env b)
    (issueAck : Bool) : Scoreboard.In b where
  flushUnissuedInstr := (controllerOut wtDcache s e).flushUnissuedInstr
  flush := (controllerOut wtDcache s e).flushId
  unresolvedBranch := false
  decodedInstr := ReadOperands.reName (Decoder.decoder e.dec)
  decodedInstrValid := e.decodedInstrValid
  issueAck := issueAck
  wb := e.wb
  targetAddress := e.targetAddress
  commitAck0 := CommitStage.commitAck0 (commitIn s e)
  commitAck1 := CommitStage.commitAck1 (commitIn s e)

/-- The inputs of the operand read.  The outputs of the scoreboard that
they depend on do not depend on the acknowledge. -/
def readIn (wtDcache : Bool) (s : State b) (e : Env b) : ReadOperands.In :=
  let i := scoreboardInWith wtDcache s e false
  let c := commitIn s e
  { flush := (controllerOut wtDcache s e).flushUnissuedInstr
    issueInstr := Scoreboard.issueInstrO s.sb i
    issueInstrValid := Scoreboard.issueInstrValidO s.sb i
    rs := Scoreboard.rsO s.sb i
    rsValid := Scoreboard.rsValidO s.sb i
    rdClobber := Scoreboard.rdClobberO s.sb
    fluReady := e.fluReady
    lsuReady := e.lsuReady
    fpuReady := e.fpuReady
    commit0 :=
      { waddr := c.commitInstr0.rd.setWidth 5
        wdata := CommitStage.wdataO0 c e.amoResult e.csrRdata
        weGpr := CommitStage.weGpr0 c
        weFpr := CommitStage.weFpr0 c }
    commit1 :=
      { waddr := c.commitInstr1.rd.setWidth 5
        wdata := c.commitInstr1.result
        weGpr := CommitStage.weGpr1 c
        weFpr := CommitStage.weFpr1 c } }

/-- The inputs of the scoreboard. -/
def scoreboardIn (wtDcache : Bool) (s : State b) (e : Env b) :
    Scoreboard.In b :=
  scoreboardInWith wtDcache s e
    (ReadOperands.issueAck s.iro (readIn wtDcache s e))

/-- One cycle. -/
def step (wtDcache : Bool) (s : State b) (e : Env b) : State b where
  sb := Scoreboard.step s.sb (scoreboardIn wtDcache s e)
  iro := ReadOperands.step s.iro (readIn wtDcache s e)
  fenceActive := (controllerOut wtDcache s e).fenceActive
  flushDcache := (controllerOut wtDcache s e).flushDcache

/-- The registers with the queue of the instructions in flight. -/
structure Tracked (b : ℕ) where
  st : State b
  queue : Queue b

def Tracked.reset (b : ℕ) : Tracked b := ⟨IssueStage.reset b, Queue.empty⟩

def track (wtDcache : Bool) (t : Tracked b) (e : Env b) : Tracked b where
  st := step wtDcache t.st e
  queue := t.queue.step (scoreboardIn wtDcache t.st e)

variable {wtDcache : Bool}

theorem ackOk_scoreboardIn (wtDcache : Bool) (s : State b) (e : Env b) :
    AckOk s.sb (scoreboardIn wtDcache s e) :=
  Scoreboard.ackOk_of_commitStage (c := commitIn s e) rfl rfl rfl rfl

/-- The scoreboard of the stage holds its queue. -/
theorem refines_track {t : Tracked b} (e : Env b)
    (h : Refines t.st.sb t.queue) :
    Refines (track wtDcache t e).st.sb (track wtDcache t e).queue :=
  Scoreboard.refines_step (ackOk_scoreboardIn wtDcache t.st e) h

end ArianeSoc.IssueStage
