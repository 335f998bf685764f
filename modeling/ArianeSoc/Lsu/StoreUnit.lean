import ArianeSoc.Lsu.StoreBuffer

/-!
# The store unit

`store_unit.sv` takes a store from the head of the load/store unit as soon
as its translation hits and there is room, and posts it to the store buffer
one cycle later, in the state `VALID_STORE`, with the address that the
translation has given by then.  An atomic goes to the atomics buffer
instead, whose `ready_o` is the input `amoBufferReady`.

The registers `stData`, `stBe` and `stDataSize` carry the realigned data
over that cycle.
-/

namespace ArianeSoc.StoreUnit

open Lsu

/-- The states of the machine. -/
inductive Fsm
  | IDLE | VALID_STORE | WAIT_TRANSLATION | WAIT_STORE_READY
  deriving DecidableEq, Repr

/-- The registers, with those of the store buffer. -/
structure State (s c : Nat) where
  state : Fsm
  stData : BitVec 64
  stBe : BitVec 8
  stDataSize : BitVec 2
  amoOp : AmoT
  transId : BitVec 3
  buffer : StoreBuffer.State s c

/-- The registers after a reset. -/
def reset (s c : Nat) : State s c where
  state := .IDLE
  stData := 0#64
  stBe := 0#8
  stDataSize := 0#2
  amoOp := .AMO_NONE
  transId := 0#3
  buffer := StoreBuffer.reset s c

/-- The inputs of one cycle. -/
structure In where
  flush : Bool
  valid : Bool
  lsuCtrl : LsuCtrl
  commit : Bool
  paddr : BitVec 56
  ex : ExceptionT
  dtlbHit : Bool
  dataGnt : Bool
  amoBufferReady : Bool
  deriving DecidableEq

variable {s c : Nat} (q : State s c) (i : In)

/-! ## The control -/

/-- `st_ready`. -/
def stReady : Bool :=
  StoreBuffer.readyO q.buffer i.commit && i.amoBufferReady

/-- A new store is looked at; an atomic waits for the state `IDLE`. -/
def offered : Bool :=
  match q.state with
  | .IDLE => i.valid
  | .VALID_STORE => i.valid && !isAmo i.lsuCtrl.operator
  | _ => false

/-- A store is taken. -/
def accepts : Bool := offered q i && i.dtlbHit && stReady q i

/-- The translation or the posting of a store ends in an exception. -/
def excepts : Bool := i.ex.valid && q.state ≠ .IDLE

/-- `translation_req_o`. -/
def translationReqO : Bool :=
  match q.state with
  | .IDLE | .VALID_STORE => offered q i
  | .WAIT_TRANSLATION | .WAIT_STORE_READY => true

/-- `pop_st_o`. -/
def popStO : Bool := accepts q i || excepts q i

/-- `valid_o`. -/
def validO : Bool := q.state = .VALID_STORE || excepts q i

/-- `st_valid`: the store is posted. -/
def stValid : Bool := q.state = .VALID_STORE && !i.flush && !excepts q i

/-- `st_valid_without_flush`. -/
def stValidWithoutFlush : Bool := q.state = .VALID_STORE

/-- The state after a store is looked at. -/
def offeredNext : Fsm :=
  if !stReady q i then .WAIT_STORE_READY
  else if !i.dtlbHit then .WAIT_TRANSLATION
  else .VALID_STORE

/-- The next state of the machine, but for exceptions and flushes. -/
def fsmNext : Fsm :=
  match q.state with
  | .IDLE | .VALID_STORE => if offered q i then offeredNext q i else .IDLE
  | .WAIT_STORE_READY =>
    if stReady q i ∧ i.dtlbHit then .IDLE else .WAIT_STORE_READY
  | .WAIT_TRANSLATION => if i.dtlbHit then .IDLE else .WAIT_TRANSLATION

/-- The next state of the machine. -/
def stateNext : Fsm :=
  if i.flush ∨ excepts q i then .IDLE else fsmNext q i

/-! ## The store buffer -/

/-- `store_buffer_valid`. -/
def storeBufferValid : Bool := stValid q i && q.amoOp = .AMO_NONE

/-- The inputs of the store buffer. -/
def bufferIn : StoreBuffer.In where
  flush := i.flush
  commit := i.commit
  valid := storeBufferValid q i
  paddr := i.paddr
  data := q.stData
  be := q.stBe
  dataSize := q.stDataSize
  dataGnt := i.dataGnt

/-- `page_offset_matches_o`. -/
def pageOffsetMatchesO (pageOffset : BitVec 12) : Bool :=
  StoreBuffer.pageOffsetMatchesO q.buffer pageOffset i.paddr
    (stValidWithoutFlush q)

/-! ## One cycle -/

/-- `st_data_n`: an atomic operates on the data as they are. -/
def stDataNext (l : LsuCtrl) : BitVec 64 :=
  if isAmo l.operator then l.data
  else dataAlign (l.vaddr.extractLsb' 0 3) l.data

def step : State s c where
  state := stateNext q i
  stData := stDataNext i.lsuCtrl
  stBe := i.lsuCtrl.be
  stDataSize := extractTransferSize i.lsuCtrl.operator
  amoOp := amoOp i.lsuCtrl.operator
  transId := i.lsuCtrl.transId
  buffer := StoreBuffer.step q.buffer (bufferIn q i)

/-! ## What a state says about the cycle before -/

variable {q i}

theorem accepts_of_offeredNext (ho : offered q i = true)
    (h : offeredNext q i = .VALID_STORE) : accepts q i = true := by
  unfold offeredNext at h
  split_ifs at h with hr hd
  simp only [Bool.not_eq_true', Bool.not_eq_false] at hr hd
  simp [accepts, ho, hr, hd]

theorem accepts_of_fsmNext (h : fsmNext q i = .VALID_STORE) :
    accepts q i = true := by
  have hoffer : (if offered q i then offeredNext q i else .IDLE) =
      Fsm.VALID_STORE → accepts q i = true := by
    intro h
    by_cases ho : offered q i = true
    · rw [if_pos ho] at h
      exact accepts_of_offeredNext ho h
    · rw [if_neg ho] at h
      cases h
  unfold fsmNext at h
  cases hq : q.state with
  | IDLE =>
    rw [hq] at h
    exact hoffer h
  | VALID_STORE =>
    rw [hq] at h
    exact hoffer h
  | WAIT_TRANSLATION =>
    simp only [hq] at h
    split_ifs at h
  | WAIT_STORE_READY =>
    simp only [hq] at h
    split_ifs at h

/-- The state `VALID_STORE` comes from a store that was taken. -/
theorem accepts_of_valid (h : stateNext q i = .VALID_STORE) :
    accepts q i = true ∧ i.flush = false ∧ excepts q i = false := by
  unfold stateNext at h
  by_cases hf : i.flush = true ∨ excepts q i = true
  · rw [if_pos hf] at h
    cases h
  · rw [if_neg hf] at h
    rw [not_or, Bool.not_eq_true, Bool.not_eq_true] at hf
    exact ⟨accepts_of_fsmNext h, hf⟩

/-- The store at the head waits in this state. -/
def waits : Fsm → Bool
  | .WAIT_TRANSLATION | .WAIT_STORE_READY => true
  | _ => false

/-- A store that waits in the next cycle is not popped in this one. -/
theorem waits_of_stateNext (h : waits (stateNext q i) = true) :
    i.flush = false ∧ popStO q i = false ∧
      (i.valid = true ∨ waits q.state = true) := by
  unfold stateNext at h
  split_ifs at h with hf
  · simp [waits] at h
  rw [not_or, Bool.not_eq_true, Bool.not_eq_true] at hf
  have hoffer : waits (if offered q i then offeredNext q i else .IDLE) =
      true → offered q i = true ∧ accepts q i = false := by
    intro h
    split_ifs at h with ho
    · refine ⟨ho, ?_⟩
      unfold offeredNext at h
      unfold accepts
      split_ifs at h with hr hd
      · simp [Bool.not_eq_true' _ ▸ hr]
      · simp [Bool.not_eq_true' _ ▸ hd]
      · simp [waits] at h
    · simp [waits] at h
  have hvalid : offered q i = true → i.valid = true := by
    intro ho
    unfold offered at ho
    split at ho
    · exact ho
    · exact (Bool.and_eq_true_iff.mp ho).1
    · exact absurd ho Bool.false_ne_true
  refine ⟨hf.1, ?_⟩
  unfold popStO
  rw [hf.2, Bool.or_false]
  unfold fsmNext at h
  cases hq : q.state
  case IDLE | VALID_STORE =>
    rw [hq] at h
    obtain ⟨ho, ha⟩ := hoffer h
    exact ⟨ha, Or.inl (hvalid ho)⟩
  all_goals exact ⟨by simp [accepts, offered, hq], Or.inr rfl⟩

/-- What is written back is the store of the state `VALID_STORE`, or an
exception of the store that waits at the head. -/
theorem validO_cases (h : validO q i = true) :
    q.state = .VALID_STORE ∨
      waits q.state = true ∧ excepts q i = true := by
  unfold validO at h
  simp only [Bool.or_eq_true, decide_eq_true_eq] at h
  rcases h with hs | hexc
  · exact Or.inl hs
  · have hne : q.state ≠ .IDLE := by
      simp only [excepts, Bool.and_eq_true, decide_eq_true_eq] at hexc
      exact hexc.2
    cases hq : q.state with
    | IDLE => exact absurd hq hne
    | VALID_STORE => exact Or.inl rfl
    | WAIT_TRANSLATION => exact Or.inr ⟨rfl, hexc⟩
    | WAIT_STORE_READY => exact Or.inr ⟨rfl, hexc⟩

/-- A store is taken in the states `IDLE` and `VALID_STORE` only. -/
theorem state_of_accepts (h : accepts q i = true) :
    i.valid = true ∧ (q.state = .IDLE ∨ q.state = .VALID_STORE) := by
  simp only [accepts, Bool.and_eq_true] at h
  have ho := h.1.1
  unfold offered at ho
  split at ho
  · exact ⟨ho, Or.inl ‹_›⟩
  · exact ⟨(Bool.and_eq_true_iff.mp ho).1, Or.inr ‹_›⟩
  · exact absurd ho Bool.false_ne_true

/-- A store is posted in the state `VALID_STORE` only. -/
theorem valid_of_storeBufferValid (h : storeBufferValid q i = true) :
    q.state = .VALID_STORE := by
  simp only [storeBufferValid, stValid, Bool.and_eq_true,
    decide_eq_true_eq] at h
  exact h.1.1.1

end ArianeSoc.StoreUnit
