import ArianeSoc.Sync

/-!
# The AXI-Lite interface

`axi_lite_interface` serves one request at a time.  It takes the address of a
write or a read, with a write first where both are offered, waits for the
data of a write, and answers.  The device behind it sees an enable with the
address that was latched; the data of a write pass by in the cycle of their
handshake, those of a read in the cycle of the response.

`Event` is what can be seen at the ports and `Request.events` what one
request makes there.  `Served` says that a run has made the events of whole
requests, one after the other, and of at most one that is under way; the
step lemma is `Served.step`.  A read keeps its enable up until its response
is taken (`read_enabled_twice`), a write enables the device once.
-/

namespace ArianeSoc.AxiLite

variable {p r : ℕ}

/-- What the interface reads of the AW and AR channels. -/
structure AddrChan (p : ℕ) where
  id : BitVec p
  addr : BitVec 64
  deriving DecidableEq

/-- `axi_req_i` and, with `dataI`, the read data of the device. -/
structure Input (p : ℕ) where
  awValid : Bool
  aw : AddrChan p
  wValid : Bool
  wData : BitVec 64
  bReady : Bool
  arValid : Bool
  ar : AddrChan p
  rReady : Bool
  dataI : BitVec 64

/-- `state_q`. -/
inductive Phase
  | IDLE | READ | WRITE | WRITE_B
  deriving DecidableEq

/-- The registers; the one of the id has a width of its own. -/
structure State (r : ℕ) where
  stateQ : Phase
  transIdQ : BitVec r
  addressQ : BitVec 64

def init : State r := ⟨.IDLE, 0#r, 0#64⟩

/-! ## One cycle -/

section Cycle

variable (s : State r) (x : Input p)

def awReady : Bool := s.stateQ = .IDLE && x.awValid

def arReady : Bool := s.stateQ = .IDLE && !x.awValid && x.arValid

def wReady : Bool := s.stateQ = .WRITE && x.wValid

def bValid : Bool := s.stateQ = .WRITE_B

def rValid : Bool := s.stateQ = .READ

/-- The id of both response channels. -/
def respId (p : ℕ) : BitVec p := s.transIdQ.setWidth p

def enO : Bool := s.stateQ = .READ || s.stateQ = .WRITE && x.wValid

def weO : Bool := s.stateQ = .WRITE && x.wValid

def addressO : BitVec 64 := if enO s x then s.addressQ else 0#64

def dataO : BitVec 64 := x.wData

/-- The registers after the cycle. -/
def step : State r :=
  match s.stateQ with
  | .IDLE =>
    if x.awValid then ⟨.WRITE, x.aw.id.setWidth r, x.aw.addr⟩
    else if x.arValid then ⟨.READ, x.ar.id.setWidth r, x.ar.addr⟩
    else s
  | .READ => if x.rReady then { s with stateQ := .IDLE } else s
  | .WRITE => if x.wValid then { s with stateQ := .WRITE_B } else s
  | .WRITE_B => if x.bReady then { s with stateQ := .IDLE } else s

end Cycle

/-! ## What happens at the ports -/

/-- A handshake of one of the five channels, or a cycle in which the device
is enabled. -/
inductive Event (p : ℕ)
  | aw (c : AddrChan p)
  | w (data : BitVec 64)
  | ar (c : AddrChan p)
  | write (addr data : BitVec 64)
  | read (addr : BitVec 64)
  | b (id : BitVec p)
  | r (id : BitVec p) (data : BitVec 64)
  deriving DecidableEq

/-- The events of one cycle. -/
def events (s : State r) (x : Input p) : List (Event p) :=
  (if awReady s x && x.awValid then [.aw x.aw] else []) ++
  (if arReady s x && x.arValid then [.ar x.ar] else []) ++
  (if wReady s x && x.wValid then [.w x.wData] else []) ++
  (if enO s x && weO s x then [.write (addressO s x) (dataO x)] else []) ++
  (if enO s x && !weO s x then [.read (addressO s x)] else []) ++
  (if bValid s && x.bReady then [.b (respId s p)] else []) ++
  (if rValid s && x.rReady then [.r (respId s p) x.dataI] else [])

/-- A request as the interface serves it; `waits` is the number of cycles in
which the response of a read waits to be taken. -/
inductive Request (p : ℕ)
  | write (aw : AddrChan p) (data : BitVec 64)
  | read (ar : AddrChan p) (waits : ℕ) (data : BitVec 64)

/-- The id that a response carries: as much of it as the register holds. -/
def reflected (r : ℕ) (id : BitVec p) : BitVec p := (id.setWidth r).setWidth p

/-- The events of a request, in order. -/
def Request.events (r : ℕ) : Request p → List (Event p)
  | .write aw data =>
    [.aw aw, .w data, .write aw.addr data, .b (reflected r aw.id)]
  | .read ar waits data =>
    .ar ar :: List.replicate (waits + 1) (.read ar.addr) ++
      [.r (reflected r ar.id) data]

/-- The registers hold what is left of a request. -/
def State.Holds (s : State r) (phase : Phase) (c : AddrChan p) : Prop :=
  s = ⟨phase, c.id.setWidth r, c.addr⟩

/-- The events of the request that is under way. -/
inductive Open (s : State r) : List (Event p) → Prop
  | idle (h : s.stateQ = .IDLE) : Open s []
  | address (aw : AddrChan p) (h : s.Holds .WRITE aw) : Open s [.aw aw]
  | written (aw : AddrChan p) (data : BitVec 64) (h : s.Holds .WRITE_B aw) :
    Open s [.aw aw, .w data, .write aw.addr data]
  | reading (ar : AddrChan p) (waits : ℕ) (h : s.Holds .READ ar) :
    Open s (.ar ar :: List.replicate waits (.read ar.addr))

/-- The log of a run consists of whole requests and of one under way. -/
def Served (s : State r) (log : List (Event p)) : Prop :=
  ∃ (done : List (Request p)) (rest : List (Event p)),
    log = done.flatMap (Request.events r) ++ rest ∧ Open s rest

/-! ## Every request is served once -/

section Phases

variable {s : State r} {x : Input p} {c : AddrChan p}

theorem events_idle (h : s.stateQ = .IDLE) :
    events s x =
      if x.awValid then [.aw x.aw] else if x.arValid then [.ar x.ar] else [] := by
  simp only [events, awReady, arReady, wReady, enO, weO, bValid, rValid, h]
  cases x.awValid <;> cases x.arValid <;> rfl

theorem events_write (h : s.Holds .WRITE c) :
    events s x =
      if x.wValid then [.w x.wData, .write c.addr x.wData] else [] := by
  obtain rfl := h
  simp only [events, awReady, arReady, wReady, enO, weO, bValid, rValid,
    addressO, dataO]
  cases x.wValid <;> rfl

theorem events_writeB (h : s.Holds .WRITE_B c) :
    events s x = if x.bReady then [.b (reflected r c.id)] else [] := by
  obtain rfl := h
  simp only [events, awReady, arReady, wReady, enO, weO, bValid, rValid, respId]
  cases x.bReady <;> rfl

theorem events_read (h : s.Holds .READ c) :
    events s x = .read c.addr ::
      if x.rReady then [.r (reflected r c.id) x.dataI] else [] := by
  obtain rfl := h
  simp only [events, awReady, arReady, wReady, enO, weO, bValid, rValid,
    addressO, respId]
  cases x.rReady <;> rfl

end Phases

variable {s : State r} {x : Input p} {log rest : List (Event p)}

/-- A cycle adds to the request under way, or ends it. -/
theorem Open.step (h : Open s rest) :
    Open (step s x) (rest ++ events s x) ∨
      ∃ t : Request p, rest ++ events s x = t.events r ∧
        (AxiLite.step s x).stateQ = .IDLE := by
  cases h with
  | idle h =>
    left
    rw [events_idle h, AxiLite.step, h]
    simp only
    split_ifs with haw har
    · exact .address x.aw rfl
    · exact .reading x.ar 0 rfl
    · exact .idle h
  | address aw h =>
    left
    rw [events_write h, AxiLite.step]
    obtain rfl := h
    simp only
    split_ifs
    · exact .written aw x.wData rfl
    · exact .address aw rfl
  | written aw data h =>
    rw [events_writeB h, AxiLite.step]
    obtain rfl := h
    simp only
    split_ifs
    · exact Or.inr ⟨.write aw data, rfl, rfl⟩
    · exact Or.inl (.written aw data rfl)
  | reading ar waits h =>
    have hreads : Event.ar ar :: List.replicate waits (.read ar.addr) ++ [.read ar.addr] =
        Event.ar ar :: List.replicate (waits + 1) (.read ar.addr) := by
      rw [List.cons_append, List.replicate_succ']
    rw [events_read h, List.append_cons, hreads, AxiLite.step]
    obtain rfl := h
    simp only
    split_ifs
    · exact Or.inr ⟨.read ar waits x.dataI, rfl, rfl⟩
    · rw [List.append_nil]
      exact Or.inl (.reading ar (waits + 1) rfl)

theorem Served.step (h : Served s log) :
    Served (step s x) (log ++ events s x) := by
  obtain ⟨done, rest, rfl, hopen⟩ := h
  rw [List.append_assoc]
  rcases hopen.step (x := x) with hstep | ⟨t, ht, hidle⟩
  · exact ⟨done, _, rfl, hstep⟩
  · refine ⟨done ++ [t], [], ?_, .idle hidle⟩
    rw [ht, List.flatMap_append, List.flatMap_singleton, List.append_nil]

theorem Served.run (h : Served s log) (xs : List (Input p)) :
    Served (Sync.run AxiLite.step s xs)
      (log ++ Sync.outputs AxiLite.step events s xs) := by
  induction xs generalizing s log with
  | nil =>
    rw [Sync.outputs, List.append_nil]
    exact h
  | cons x xs ih =>
    rw [Sync.run_cons, Sync.outputs, ← List.append_assoc]
    exact ih h.step

/-! ## Every request is answered -/

/-- The handshake that the interface waits for takes place. -/
def moves (s : State r) (x : Input p) : Bool :=
  match s.stateQ with
  | .IDLE => true
  | .READ => x.rReady
  | .WRITE => x.wValid
  | .WRITE_B => x.bReady

/-- The master brings the data of a write and takes each response, some
time. -/
def Obliging (s : State r) (xs : ℕ → Input p) : Prop :=
  ∀ n, ∃ k, n ≤ k ∧ moves (Sync.stateAt step s xs k) (xs k) = true

/-- The number of handshakes until the interface is idle. -/
def Phase.left : Phase → ℕ
  | .IDLE => 0
  | .READ | .WRITE_B => 1
  | .WRITE => 2

theorem left_step (h : s.stateQ ≠ .IDLE) :
    (step s x).stateQ.left + (moves s x).toNat = s.stateQ.left := by
  obtain ⟨phase, id, addr⟩ := s
  cases phase with
  | IDLE => exact absurd rfl h
  | READ => cases hx : x.rReady <;> simp [step, moves, hx, Phase.left]
  | WRITE => cases hx : x.wValid <;> simp [step, moves, hx, Phase.left]
  | WRITE_B => cases hx : x.bReady <;> simp [step, moves, hx, Phase.left]

/-- With such a master the interface comes to rest again and again. -/
theorem Obliging.idle {xs : ℕ → Input p} (h : Obliging s xs) (n : ℕ) :
    ∃ k, n ≤ k ∧ (Sync.stateAt step s xs k).stateQ = .IDLE := by
  refine Sync.eventually_of_rank (fun k => (Sync.stateAt step s xs k).stateQ.left)
    (fun k hk => ?_) (fun k hall => ?_) n
  · have hleft := left_step (x := xs k) hk
    show (step (Sync.stateAt step s xs k) (xs k)).stateQ.left ≤ _
    omega
  · obtain ⟨j, hj, hmoves⟩ := h k
    have hleft := left_step (x := xs j) (hall j hj).1
    have hsame := (hall (j + 1) (Nat.le_succ_of_le hj)).2
    have hnow := (hall j hj).2
    rw [hmoves] at hleft
    simp only [Sync.stateAt, Bool.toNat_true] at hsame hleft
    omega

/-- In every run from reset each accepted request makes its events once, a
write one enable with the address and the data of the request and one
response, a read enables until its one response is taken, and a request is
answered before the next one is accepted.  With a master that brings its data
and takes its responses every request is answered. -/
theorem serves_once (p r : ℕ) :
    (∀ xs : List (Input p), Served (Sync.run step (init : State r) xs)
      (Sync.outputs step events (init : State r) xs)) ∧
    ∀ xs : ℕ → Input p, Obliging (init : State r) xs →
      ∀ n, ∃ k, n ≤ k ∧
        (Sync.stateAt step (init : State r) xs k).stateQ = .IDLE := by
  refine ⟨fun xs => ?_, fun xs h => h.idle⟩
  have hinit : Served (init : State r) ([] : List (Event p)) :=
    ⟨[], [], rfl, .idle rfl⟩
  exact hinit.run xs

/-- A master that offers and takes everything in every cycle. -/
theorem serves_once_ready (n : ℕ) :
    ∃ k, n ≤ k ∧ (Sync.stateAt step (init : State 4) (fun _ => (⟨true, ⟨1#4, 0#64⟩,
      true, 7#64, true, true, ⟨2#4, 8#64⟩, true, 0#64⟩ : Input 4)) k).stateQ = .IDLE := by
  refine (serves_once 4 4).2 _ (fun n => ⟨n, Nat.le_refl n, ?_⟩) n
  unfold moves
  cases (Sync.stateAt step _ _ n).stateQ <;> rfl

/-- A read whose response waits for one cycle. -/
def slowRead : List (Input 4) :=
  let idle : Input 4 :=
    ⟨false, ⟨0#4, 0#64⟩, false, 0#64, false, false, ⟨0#4, 0#64⟩, false, 0#64⟩
  [{ idle with arValid := true, ar := ⟨3#4, 0xbff8#64⟩ }, idle,
    { idle with rReady := true }]

/-- One read that is accepted and answered enables the device twice. -/
theorem read_enabled_twice :
    let log := Sync.outputs step events (init : State 4) slowRead
    log.count (.ar ⟨3#4, 0xbff8#64⟩) = 1 ∧ log.count (.read 0xbff8#64) = 2 ∧
      log.count (.r 3#4 0#64) = 1 := by
  decide

end ArianeSoc.AxiLite
