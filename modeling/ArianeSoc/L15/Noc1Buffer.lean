import ArianeSoc.Ring
import ArianeSoc.Sync
import Mathlib.Data.List.Forall2

/-!
# The buffer between the L1.5 and the first network

`noc1buffer` takes the requests of the L1.5 pipeline and presents them to the
encoder of the network in order.  A request takes a slot of one ring of
commands and zero, one or two slots of a ring of data words, and its command
says where its first word lies.  The pipeline is not told to wait: it counts
the credits that come back when a request has been sent.

`Sys` is the buffer with its surroundings.  It logs the requests that the
pipeline has written and what the encoder has taken, and counts the credits.

* `shows`: what the encoder is shown is the oldest request that it has not
  taken.
* `stands_step`: a cycle within the credits keeps `Stands`.
* `pairs`: what that means for the encoder, and that every request is taken
  if the encoder and the home ids keep coming.
-/

namespace ArianeSoc.L15.Noc1Buffer

/-! ## Requests -/

/-- `NOC1_BUFFER_NUM_SLOTS`. -/
def NUM_SLOTS : ℕ := 8

/-- `NOC1_BUFFER_NUM_DATA_SLOTS`. -/
def NUM_DATA_SLOTS : ℕ := 2

/-- `PACKET_HOME_ID_WIDTH`. -/
abbrev HomeId := BitVec 30

/-- The number of one of the `L15_CSM_NUM_TICKETS` tickets. -/
abbrev Ticket := BitVec 3

abbrev ReqType := BitVec 5

def WRITETHROUGH_REQUEST : ReqType := 4#5
def CAS_REQUEST : ReqType := 7#5
def SWAP_REQUEST : ReqType := 8#5
def INTERRUPT_FWD : ReqType := 9#5
def AMO_ADD_REQUEST : ReqType := 10#5
def AMO_AND_REQUEST : ReqType := 11#5
def AMO_OR_REQUEST : ReqType := 12#5
def AMO_XOR_REQUEST : ReqType := 13#5
def AMO_MAX_REQUEST : ReqType := 14#5
def AMO_MAXU_REQUEST : ReqType := 15#5
def AMO_MIN_REQUEST : ReqType := 16#5
def AMO_MINU_REQUEST : ReqType := 17#5

def L15_MSHR_ID_LD : BitVec 2 := 2#2
def L15_MSHR_ID_ST : BitVec 2 := 3#2

def ACK_DATA_8B : BitVec 2 := 1#2
def ACK_DATA_16B : BitVec 2 := 2#2

/-- The fields of a request that the encoder gets as they are. -/
structure Fields where
  reqType : ReqType
  mshrid : BitVec 2
  threadid : BitVec 1
  address : BitVec 40
  nonCacheable : Bool
  size : BitVec 3
  prefetch : Bool
  csmSdid : BitVec 10
  csmLsid : BitVec 6
  deriving DecidableEq

/-- `l15_noc1buffer_req_*`. -/
structure Request where
  data0 : BitVec 64
  data1 : BitVec 64
  reqType : ReqType
  mshrid : BitVec 2
  threadid : BitVec 1
  address : BitVec 40
  nonCacheable : Bool
  size : BitVec 3
  prefetch : Bool
  csmTicket : Ticket
  homeid : HomeId
  homeidVal : Bool
  csmData : BitVec 33

/-- A line of `command_buffer`. -/
structure Command where
  fields : Fields
  dataIndex : BitVec 1
  csmTicket : Ticket
  homeid : HomeId
  homeidVal : Bool

/-- The types of a request that writes one data word. -/
def writesWord (t : ReqType) : Bool :=
  t == SWAP_REQUEST || t == AMO_ADD_REQUEST || t == AMO_AND_REQUEST ||
    t == AMO_OR_REQUEST || t == AMO_XOR_REQUEST || t == AMO_MAX_REQUEST ||
    t == AMO_MAXU_REQUEST || t == AMO_MIN_REQUEST || t == AMO_MINU_REQUEST ||
    t == INTERRUPT_FWD || t == WRITETHROUGH_REQUEST

/-- The credit for data that goes back with a request. -/
def dataSent (t : ReqType) : BitVec 2 :=
  if t == WRITETHROUGH_REQUEST || t == SWAP_REQUEST || t == AMO_ADD_REQUEST ||
      t == AMO_AND_REQUEST || t == AMO_OR_REQUEST || t == AMO_XOR_REQUEST ||
      t == AMO_MAX_REQUEST || t == AMO_MAXU_REQUEST || t == AMO_MIN_REQUEST ||
      t == AMO_MINU_REQUEST || t == INTERRUPT_FWD then ACK_DATA_8B
  else if t == CAS_REQUEST then ACK_DATA_16B
  else 0#2

namespace Request

variable (r : Request)

/-- `TLB_CSM_SDID` and `TLB_CSM_LSID` are the low half of the CSM data. -/
def fields : Fields where
  reqType := r.reqType
  mshrid := r.mshrid
  threadid := r.threadid
  address := r.address
  nonCacheable := r.nonCacheable
  size := r.size
  prefetch := r.prefetch
  csmSdid := r.csmData.extractLsb' 6 10
  csmLsid := r.csmData.extractLsb' 0 6

def command (dataWrindex : BitVec 1) : Command where
  fields := r.fields
  dataIndex := dataWrindex
  csmTicket := r.csmTicket
  homeid := r.homeid
  homeidVal := r.homeidVal

/-- The data words that the request takes slots for. -/
def words : List (BitVec 64) :=
  if r.reqType == CAS_REQUEST then [r.data0, r.data1]
  else if writesWord r.reqType then [r.data0]
  else []

end Request

/-! ## One cycle -/

structure State where
  commandBuffer : BitVec 3 → Command
  commandBufferVal : BitVec 3 → Bool
  dataBuffer : BitVec 1 → BitVec 64
  commandWrindex : BitVec 3
  commandRdindex : BitVec 3
  dataWrindex : BitVec 1

def init : State :=
  ⟨fun _ => ⟨⟨0, 0, 0, 0, false, 0, false, 0, 0⟩, 0, 0, 0, false⟩,
    fun _ => false, fun _ => 0, 0, 0, 0⟩

structure In where
  /-- The request of the pipeline, if `l15_noc1buffer_req_val`. -/
  req : Option Request
  reqAck : Bool
  readResVal : Bool
  readResData : HomeId

/-- `noc1buffer_noc1encoder_req_*`. -/
structure EncoderReq where
  fields : Fields
  data0 : BitVec 64
  data1 : BitVec 64
  homeid : HomeId

structure Out where
  reqVal : Bool
  req : EncoderReq
  csmReadTicket : Ticket
  csmClearTicket : Ticket
  csmClearTicketVal : Bool
  mshrHomeidWriteVal : Bool
  mshrHomeidWriteMshrid : BitVec 2
  mshrHomeidWriteThreadid : BitVec 1
  mshrHomeidWriteData : HomeId
  reqSent : Bool
  reqDataSent : BitVec 2

section Cycle

variable (s : State)

/-- `command_buffer[command_rdindex]`. -/
def head : Command := s.commandBuffer s.commandRdindex

def reqVal (readResVal : Bool) : Bool :=
  s.commandBufferVal s.commandRdindex && ((head s).homeidVal || readResVal)

variable (i : In)

def homeid : HomeId :=
  if (head s).homeidVal then (head s).homeid else i.readResData

def out : Out where
  reqVal := reqVal s i.readResVal
  req :=
    { fields := (head s).fields
      data0 := s.dataBuffer (head s).dataIndex
      data1 := s.dataBuffer ((head s).dataIndex + 1)
      homeid := homeid s i }
  csmReadTicket := (head s).csmTicket
  csmClearTicket := (head s).csmTicket
  csmClearTicketVal := i.reqAck
  mshrHomeidWriteVal :=
    ((head s).fields.mshrid == L15_MSHR_ID_LD ||
      (head s).fields.mshrid == L15_MSHR_ID_ST) && i.reqAck
  mshrHomeidWriteMshrid := (head s).fields.mshrid
  mshrHomeidWriteThreadid := (head s).fields.threadid
  mshrHomeidWriteData := homeid s i
  reqSent := i.reqAck
  reqDataSent := if i.reqAck then dataSent (head s).fields.reqType else 0#2

/-- `data_buffer_next` where a request comes in. -/
def dataBufferNext (r : Request) : BitVec 1 → BitVec 64 :=
  if r.reqType == CAS_REQUEST then
    Function.update (Function.update s.dataBuffer s.dataWrindex r.data0)
      (s.dataWrindex + 1) r.data1
  else if writesWord r.reqType then
    Function.update s.dataBuffer s.dataWrindex r.data0
  else s.dataBuffer

/-- `data_wrindex_next` where a request comes in. -/
def dataWrindexNext (r : Request) : BitVec 1 :=
  if r.reqType == CAS_REQUEST then s.dataWrindex + 2
  else if writesWord r.reqType then s.dataWrindex + 1
  else s.dataWrindex

def next : State where
  commandBuffer :=
    match i.req with
    | some r =>
      Function.update s.commandBuffer s.commandWrindex (r.command s.dataWrindex)
    | none => s.commandBuffer
  commandBufferVal := fun k =>
    if i.req.isSome && s.commandWrindex == k then true
    else if i.reqAck && s.commandRdindex == k then false
    else s.commandBufferVal k
  dataBuffer :=
    match i.req with
    | some r => dataBufferNext s r
    | none => s.dataBuffer
  commandWrindex :=
    if i.req.isSome then s.commandWrindex + 1 else s.commandWrindex
  commandRdindex :=
    if i.reqAck then s.commandRdindex + 1 else s.commandRdindex
  dataWrindex :=
    match i.req with
    | some r => dataWrindexNext s r
    | none => s.dataWrindex

end Cycle

/-! ## The buffer with its surroundings -/

/-- What happens around the buffer in a cycle: the request of the pipeline,
whether the encoder takes what it is shown, and the home ids that the CSM
module has for its tickets. -/
structure Cycle where
  req : Option Request
  ready : Bool
  csmVal : Ticket → Bool
  csmData : Ticket → HomeId

/-- The buffer, the requests that have been written, what the encoder has
taken in which cycle, and the credits that have come back. -/
structure Sys where
  s : State
  pushed : List Request
  sent : List (Cycle × Out)
  credits : ℕ
  dataCredits : ℕ

namespace Sys

def start : Sys := ⟨init, [], [], 0, 0⟩

variable (t : Sys) (c : Cycle)

/-- The encoder acknowledges only what it is shown. -/
def input : In where
  req := c.req
  reqAck := reqVal t.s (c.csmVal (head t.s).csmTicket) && c.ready
  readResVal := c.csmVal (head t.s).csmTicket
  readResData := c.csmData (head t.s).csmTicket

def output : Out := out t.s (input t c)

def step : Sys where
  s := next t.s (input t c)
  pushed := t.pushed ++ c.req.toList
  sent := t.sent ++ if (output t c).reqSent then [(c, output t c)] else []
  credits := t.credits + (output t c).reqSent.toNat
  dataCredits := t.dataCredits + (output t c).reqDataSent.toNat

end Sys

/-- The data words of all requests, in order. -/
def allWords (rs : List Request) : List (BitVec 64) := rs.flatMap Request.words

/-- No more is outstanding than there are slots, as the credits count. -/
structure Within (t : Sys) : Prop where
  commands : t.pushed.length ≤ t.credits + NUM_SLOTS
  data : (allWords t.pushed).length ≤ t.dataCredits + NUM_DATA_SLOTS

/-! ## What the encoder is owed -/

/-- What is shown in the cycle `c` is the request: its fields, its words and
its home id, which it has brought or the CSM module has for its ticket. -/
structure Shows (r : Request) (c : Cycle) (o : Out) : Prop where
  reqVal : o.reqVal = true
  fields : o.req.fields = r.fields
  words : [o.req.data0, o.req.data1].take r.words.length = r.words
  homeidVal : r.homeidVal = true ∨ c.csmVal r.csmTicket = true
  homeid : o.req.homeid = if r.homeidVal then r.homeid else c.csmData r.csmTicket
  readTicket : o.csmReadTicket = r.csmTicket

/-- What is taken is the request, its ticket is given up, its home id goes
where it belongs, and its data slots come back as credits. -/
structure Serves (r : Request) (x : Cycle × Out) : Prop extends
    Shows r x.1 x.2 where
  clearTicket : x.2.csmClearTicketVal = true ∧ x.2.csmClearTicket = r.csmTicket
  mshrVal : x.2.mshrHomeidWriteVal =
    (r.mshrid == L15_MSHR_ID_LD || r.mshrid == L15_MSHR_ID_ST)
  mshrid : x.2.mshrHomeidWriteMshrid = r.mshrid
  threadid : x.2.mshrHomeidWriteThreadid = r.threadid
  mshrData : x.2.mshrHomeidWriteData = x.2.req.homeid
  dataSent : x.2.reqDataSent.toNat = r.words.length

/-! ## Words and commands in order -/

theorem allWords_append (rs rs' : List Request) :
    allWords (rs ++ rs') = allWords rs ++ allWords rs' :=
  List.flatMap_append

theorem allWords_singleton (r : Request) : allWords [r] = r.words :=
  List.flatMap_singleton Request.words r

/-- A request takes as many data slots as its credit says. -/
theorem dataSent_toNat (r : Request) :
    (dataSent r.reqType).toNat = r.words.length := by
  have hall : ∀ t : ReqType, (dataSent t).toNat =
      if t == CAS_REQUEST then 2 else if writesWord t then 1 else 0 := by
    decide
  rw [hall, Request.words]
  split
  · rfl
  split <;> rfl

/-- The commands of requests of which the first takes the data slot `n`. -/
def commands : ℕ → List Request → List Command
  | _, [] => []
  | n, r :: rs =>
    r.command (BitVec.ofNat 1 n) :: commands (n + r.words.length) rs

variable {n i j : ℕ} {r : Request} {rs : List Request}

@[simp] theorem length_commands : (commands n rs).length = rs.length := by
  induction rs generalizing n with
  | nil => rfl
  | cons r rs ih => rw [commands, List.length_cons, List.length_cons, ih]

theorem commands_concat :
    commands n (rs ++ [r]) =
      commands n rs ++ [r.command (BitVec.ofNat 1 (n + (allWords rs).length))] := by
  induction rs generalizing n with
  | nil => rfl
  | cons x rs ih =>
    have hlen : (allWords (x :: rs)).length =
        x.words.length + (allWords rs).length := by
      rw [allWords, List.flatMap_cons, List.length_append, allWords]
    rw [List.cons_append, commands, commands, ih, hlen, Nat.add_assoc]
    rfl

theorem getElem?_commands (h : rs[i]? = some r) :
    (commands n rs)[i]? =
      some (r.command (BitVec.ofNat 1 (n + (allWords (rs.take i)).length))) := by
  induction rs generalizing n i with
  | nil => simp at h
  | cons x rs ih =>
    cases i with
    | zero =>
      obtain rfl := Option.some.inj h
      rfl
    | succ i =>
      have hlen : (allWords ((x :: rs).take (i + 1))).length =
          x.words.length + (allWords (rs.take i)).length := by
        rw [List.take_succ_cons, allWords, List.flatMap_cons,
          List.length_append, allWords]
      rw [List.getElem?_cons_succ] at h
      rw [commands, List.getElem?_cons_succ, ih h, hlen, Nat.add_assoc]

theorem allWords_take_succ (h : rs[i]? = some r) :
    allWords (rs.take (i + 1)) = allWords (rs.take i) ++ r.words := by
  rw [List.take_add_one, h, allWords_append]
  exact congrArg _ (allWords_singleton r)

/-- The words of a request among all words. -/
theorem getElem?_allWords (h : rs[i]? = some r) {w : BitVec 64}
    (hw : r.words[j]? = some w) :
    (allWords rs)[(allWords (rs.take i)).length + j]? = some w := by
  have hsplit : allWords rs =
      allWords (rs.take i) ++ r.words ++ allWords (rs.drop (i + 1)) := by
    rw [← allWords_take_succ h, ← allWords_append, List.take_append_drop]
  have hj := (List.getElem?_eq_some_iff.mp hw).1
  rw [hsplit, List.append_assoc, List.getElem?_append_right (by omega),
    Nat.add_sub_cancel_left, List.getElem?_append_left hj, hw]

/-! ## The slots -/

/-- The buffer holds every request that has not been taken, in the slots
that its number and the number of its first word name. -/
structure Stands (t : Sys) : Prop where
  credits : t.credits = t.sent.length
  dataCredits : t.dataCredits = (allWords (t.pushed.take t.sent.length)).length
  sent : List.Forall₂ Serves (t.pushed.take t.sent.length) t.sent
  commandWrindex : t.s.commandWrindex = BitVec.ofNat 3 t.pushed.length
  commandRdindex : t.s.commandRdindex = BitVec.ofNat 3 t.sent.length
  dataWrindex : t.s.dataWrindex = BitVec.ofNat 1 (allWords t.pushed).length
  vals : Ring.Flags t.s.commandBufferVal t.sent.length t.pushed.length
  cmds : Ring.Keeps t.s.commandBuffer (commands 0 t.pushed) t.sent.length
  words : Ring.Keeps t.s.dataBuffer (allWords t.pushed) t.dataCredits

theorem stands_start : Stands Sys.start where
  credits := rfl
  dataCredits := rfl
  sent := List.Forall₂.nil
  commandWrindex := rfl
  commandRdindex := rfl
  dataWrindex := rfl
  vals := Ring.Flags.clear fun _ => rfl
  cmds := Ring.Keeps.nil _
  words := Ring.Keeps.nil _

section Head

variable {t : Sys} {c : Cycle}

theorem Stands.val_iff (h : Stands t) :
    t.s.commandBufferVal t.s.commandRdindex = true ↔
      t.sent.length < t.pushed.length := by
  rw [h.commandRdindex]
  exact h.vals.first

/-- The command that is read is that of the oldest request. -/
theorem Stands.head_eq (h : Stands t) (hr : t.pushed[t.sent.length]? = some r) :
    head t.s = r.command (BitVec.ofNat 1 t.dataCredits) := by
  have hcell := h.cmds.cell t.sent.length _ (Nat.le_refl _)
    (getElem?_commands hr)
  rw [Nat.zero_add, ← h.dataCredits] at hcell
  rw [head, h.commandRdindex, hcell]

theorem Stands.word (h : Stands t) (hr : t.pushed[t.sent.length]? = some r)
    {w : BitVec 64} (hw : r.words[j]? = some w) :
    t.s.dataBuffer (BitVec.ofNat 1 (t.dataCredits + j)) = w := by
  apply h.words.cell _ _ (Nat.le_add_right _ _)
  rw [h.dataCredits]
  exact getElem?_allWords hr hw

/-- A request has at most two words, which the two data outputs show. -/
theorem words_take {d0 d1 : BitVec 64} (h0 : ∀ w, r.words[0]? = some w → d0 = w)
    (h1 : ∀ w, r.words[1]? = some w → d1 = w) :
    [d0, d1].take r.words.length = r.words := by
  unfold Request.words at h0 h1 ⊢
  split at h0
  · next hcas =>
    rw [if_pos hcas] at h1 ⊢
    rw [h0 _ rfl, h1 _ rfl]
    rfl
  · next hcas =>
    rw [if_neg hcas] at h1 ⊢
    split at h0
    · next hone =>
      rw [if_pos hone, h0 _ rfl]
      rfl
    · next hone =>
      rw [if_neg hone]
      rfl

/-- A request is shown if and only if one has not been taken and the home id
of the oldest is there. -/
theorem Stands.reqVal_iff (h : Stands t) :
    (Sys.output t c).reqVal = true ↔
      ∃ r, t.pushed[t.sent.length]? = some r ∧
        (r.homeidVal = true ∨ c.csmVal r.csmTicket = true) := by
  show reqVal t.s (c.csmVal (head t.s).csmTicket) = true ↔ _
  rw [reqVal, Bool.and_eq_true_iff, h.val_iff, Bool.or_eq_true_iff]
  constructor
  · rintro ⟨hlt, hid⟩
    have hr := List.getElem?_eq_getElem hlt
    rw [h.head_eq hr] at hid
    exact ⟨_, hr, hid⟩
  · rintro ⟨r, hr, hid⟩
    rw [h.head_eq hr]
    exact ⟨(List.getElem?_eq_some_iff.mp hr).1, hid⟩

/-- What the encoder is shown is the oldest request. -/
theorem shows (h : Stands t) (hr : t.pushed[t.sent.length]? = some r)
    (hid : r.homeidVal = true ∨ c.csmVal r.csmTicket = true) :
    Shows r c (Sys.output t c) where
  reqVal := h.reqVal_iff.2 ⟨r, hr, hid⟩
  fields := by
    show (head t.s).fields = _
    rw [h.head_eq hr]
    rfl
  words := by
    have hdata := fun j w => h.word (j := j) (w := w) hr
    refine words_take (fun w hw => ?_) (fun w hw => ?_)
    · show t.s.dataBuffer (head t.s).dataIndex = w
      rw [h.head_eq hr]
      exact hdata 0 w hw
    · show t.s.dataBuffer ((head t.s).dataIndex + 1) = w
      rw [h.head_eq hr, ← hdata 1 w hw, BitVec.ofNat_add]
      rfl
  homeidVal := hid
  homeid := by
    show (if (head t.s).homeidVal then _ else
      c.csmData (head t.s).csmTicket) = _
    rw [h.head_eq hr]
    rfl
  readTicket := by
    show (head t.s).csmTicket = _
    rw [h.head_eq hr]
    rfl

/-- What the encoder takes is the oldest request. -/
theorem Stands.serves (h : Stands t) (hsent : (Sys.output t c).reqSent = true) :
    ∃ r, t.pushed[t.sent.length]? = some r ∧ Serves r (c, Sys.output t c) := by
  have hval : (Sys.output t c).reqVal = true := (Bool.and_eq_true_iff.mp hsent).1
  obtain ⟨r, hr, hid⟩ := h.reqVal_iff.1 hval
  have hhead := h.head_eq hr
  refine ⟨r, hr, shows h hr hid, ⟨hsent, ?_⟩, ?_, ?_, ?_, rfl, ?_⟩
  · show (head t.s).csmTicket = _
    rw [hhead]
    rfl
  · show ((_ || _) && (Sys.output t c).reqSent) = _
    rw [hsent, Bool.and_true, hhead]
    rfl
  · show (head t.s).fields.mshrid = _
    rw [hhead]
    rfl
  · show (head t.s).fields.threadid = _
    rw [hhead]
    rfl
  · show (if (Sys.output t c).reqSent then
      dataSent (head t.s).fields.reqType else 0#2).toNat = _
    rw [hsent, if_pos rfl, hhead]
    exact dataSent_toNat r

end Head

/-! ## One cycle within the credits -/

section Step

variable {t : Sys} {c : Cycle}

theorem length_sent :
    (Sys.step t c).sent.length =
      t.sent.length + (Sys.output t c).reqSent.toNat := by
  show (t.sent ++ if (Sys.output t c).reqSent then _ else _).length = _
  cases (Sys.output t c).reqSent with
  | false => rw [if_neg Bool.false_ne_true, List.append_nil]; rfl
  | true => rw [if_pos rfl, List.length_append]; rfl

/-- The log of the encoder after a cycle, beside the requests before it. -/
theorem Stands.taken (h : Stands t) :
    (Sys.step t c).sent.length ≤ t.pushed.length ∧
      List.Forall₂ Serves (t.pushed.take (Sys.step t c).sent.length)
        (Sys.step t c).sent ∧
      (Sys.step t c).dataCredits =
        (allWords (t.pushed.take (Sys.step t c).sent.length)).length := by
  have hlen := length_sent (t := t) (c := c)
  cases hsent : (Sys.output t c).reqSent with
  | false =>
    have hlog : (Sys.step t c).sent = t.sent := by
      show (t.sent ++ if (Sys.output t c).reqSent then _ else _) = _
      rw [hsent, if_neg Bool.false_ne_true, List.append_nil]
    have hcredit : (Sys.step t c).dataCredits = t.dataCredits := by
      show t.dataCredits + (if (Sys.output t c).reqSent then
        dataSent (head t.s).fields.reqType else 0#2).toNat = _
      rw [hsent]
      rfl
    rw [hlog, hcredit]
    exact ⟨h.vals.lo_le, h.sent, h.dataCredits⟩
  | true =>
    obtain ⟨r, hr, hserves⟩ := h.serves hsent
    have hlt := (List.getElem?_eq_some_iff.mp hr).1
    have hlog : (Sys.step t c).sent = t.sent ++ [(c, Sys.output t c)] := by
      show (t.sent ++ if (Sys.output t c).reqSent then _ else _) = _
      rw [hsent, if_pos rfl]
    have hcredit : (Sys.step t c).dataCredits = t.dataCredits + r.words.length :=
      congrArg (t.dataCredits + ·) hserves.dataSent
    rw [hsent] at hlen
    rw [hlen, hcredit]
    refine ⟨hlt, ?_, ?_⟩
    · rw [hlog, Bool.toNat_true, List.take_add_one, hr]
      exact List.rel_append h.sent (List.Forall₂.cons hserves List.Forall₂.nil)
    · rw [Bool.toNat_true, allWords_take_succ hr, List.length_append,
        ← h.dataCredits]

/-- The valid bits after the slot of what is taken has been given up. -/
theorem Stands.popped (h : Stands t) :
    Ring.Flags
      (fun k => if (Sys.input t c).reqAck && t.s.commandRdindex == k then false
        else t.s.commandBufferVal k)
      (Sys.step t c).sent.length t.pushed.length := by
  rw [length_sent]
  show Ring.Flags (fun k => if (Sys.output t c).reqSent &&
    t.s.commandRdindex == k then false else t.s.commandBufferVal k) _ _
  cases hsent : (Sys.output t c).reqSent with
  | false => exact h.vals
  | true =>
    obtain ⟨r, hr, -⟩ := h.serves hsent
    have hpop := h.vals.pop (List.getElem?_eq_some_iff.mp hr).1
    have hvals : (fun k => if true && t.s.commandRdindex == k then false
        else t.s.commandBufferVal k) =
        Function.update t.s.commandBufferVal t.s.commandRdindex false := by
      funext k
      rw [Bool.true_and, Function.update_apply]
      exact if_congr (beq_iff_eq.trans eq_comm) rfl rfl
    rw [hvals, h.commandRdindex]
    exact hpop

/-- The words of a request take the next data slots. -/
theorem keeps_dataBufferNext {s : State} {ws : List (BitVec 64)} {lo : ℕ}
    (h : Ring.Keeps s.dataBuffer ws lo) (hlo : lo ≤ ws.length)
    (hlen : (ws ++ r.words).length ≤ lo + 2 ^ 1)
    (hwr : s.dataWrindex = BitVec.ofNat 1 ws.length) :
    Ring.Keeps (dataBufferNext s r) (ws ++ r.words) lo := by
  unfold dataBufferNext
  unfold Request.words at hlen ⊢
  rw [hwr]
  split at hlen
  · next hcas =>
    rw [if_pos hcas, if_pos hcas]
    rw [List.length_append] at hlen
    have hlen2 : ws.length + 2 ≤ lo + 2 ^ 1 := hlen
    have hone := h.push hlo (by omega) r.data0
    have htwo := hone.push (by rw [List.length_append]; omega)
      (by rw [List.length_append, List.length_singleton]; omega) r.data1
    rw [List.append_assoc, List.length_append, BitVec.ofNat_add] at htwo
    exact htwo
  · next hcas =>
    rw [if_neg hcas, if_neg hcas]
    split at hlen
    · next hone =>
      rw [if_pos hone, if_pos hone]
      rw [List.length_append, List.length_singleton] at hlen
      exact h.push hlo (by omega) r.data0
    · next hone =>
      rw [if_neg hone, if_neg hone, List.append_nil]
      exact h

theorem dataWrindexNext_eq {s : State} {n : ℕ}
    (hwr : s.dataWrindex = BitVec.ofNat 1 n) :
    dataWrindexNext s r = BitVec.ofNat 1 (n + r.words.length) := by
  rw [dataWrindexNext, Request.words, hwr, BitVec.ofNat_add]
  split
  · rfl
  split
  · rfl
  · exact (BitVec.add_zero _).symm

/-- The registers after a cycle whose requests find a free slot; `lo` and
`dlo` are the oldest that have not been taken then. -/
theorem next_req {s : State} {i : In} {lo dlo : ℕ}
    (hwr : s.commandWrindex = BitVec.ofNat 3 rs.length)
    (hdwr : s.dataWrindex = BitVec.ofNat 1 (allWords rs).length)
    (hv : Ring.Flags (fun k => if i.reqAck && s.commandRdindex == k then false
      else s.commandBufferVal k) lo rs.length)
    (hc : Ring.Keeps s.commandBuffer (commands 0 rs) lo)
    (hd : Ring.Keeps s.dataBuffer (allWords rs) dlo)
    (hdlo : dlo ≤ (allWords rs).length)
    (hroom : (rs ++ i.req.toList).length ≤ lo + 2 ^ 3)
    (hdroom : (allWords (rs ++ i.req.toList)).length ≤ dlo + 2 ^ 1) :
    (next s i).commandWrindex = BitVec.ofNat 3 (rs ++ i.req.toList).length ∧
      (next s i).dataWrindex =
        BitVec.ofNat 1 (allWords (rs ++ i.req.toList)).length ∧
      Ring.Flags (next s i).commandBufferVal lo (rs ++ i.req.toList).length ∧
      Ring.Keeps (next s i).commandBuffer (commands 0 (rs ++ i.req.toList)) lo ∧
      Ring.Keeps (next s i).dataBuffer (allWords (rs ++ i.req.toList)) dlo := by
  obtain ⟨req, reqAck, readResVal, readResData⟩ := i
  cases req with
  | none =>
    have hvals : (next s ⟨none, reqAck, readResVal, readResData⟩).commandBufferVal =
        fun k => if reqAck && s.commandRdindex == k then false
          else s.commandBufferVal k := by
      funext k
      simp only [next, Option.isSome_none, Bool.false_and, Bool.false_eq_true,
        if_false]
    rw [Option.toList_none, List.append_nil, hvals]
    exact ⟨hwr, hdwr, hv, hc, hd⟩
  | some r =>
    rw [Option.toList_some, allWords_append, allWords_singleton] at *
    rw [List.length_append, List.length_singleton] at hroom ⊢
    have hpush := hv.push hroom
    have hvals : (next s ⟨some r, reqAck, readResVal, readResData⟩).commandBufferVal =
        Function.update (fun k => if reqAck && s.commandRdindex == k then false
          else s.commandBufferVal k) (BitVec.ofNat 3 rs.length) true := by
      funext k
      rw [Function.update_apply, ← hwr]
      exact if_congr (beq_iff_eq.trans eq_comm) rfl rfl
    have hcmd := hc.push (by rw [length_commands]; exact hv.lo_le)
      (by rw [length_commands]; exact hroom) (r.command s.dataWrindex)
    rw [length_commands, ← hwr] at hcmd
    refine ⟨?_, ?_, hvals ▸ hpush, ?_, ?_⟩
    · rw [BitVec.ofNat_add, ← hwr]
      rfl
    · rw [List.length_append]
      exact dataWrindexNext_eq hdwr
    · rw [commands_concat, Nat.zero_add, ← hdwr]
      exact hcmd
    · exact keeps_dataBufferNext hd hdlo hdroom hdwr

/-- A cycle within the credits keeps the requests in their slots. -/
theorem stands_step (h : Stands t) (hw : Within (Sys.step t c)) :
    Stands (Sys.step t c) := by
  obtain ⟨hle, hsent, hdata⟩ := h.taken (c := c)
  have hlen := length_sent (t := t) (c := c)
  have hcredits : (Sys.step t c).credits = (Sys.step t c).sent.length := by
    rw [hlen, ← h.credits]
    rfl
  have htake : (Sys.step t c).pushed.take (Sys.step t c).sent.length =
      t.pushed.take (Sys.step t c).sent.length :=
    List.take_append_of_le_length hle
  have hrd : (Sys.step t c).s.commandRdindex =
      BitVec.ofNat 3 (Sys.step t c).sent.length := by
    rw [hlen, BitVec.ofNat_add, ← h.commandRdindex]
    show (if (Sys.output t c).reqSent then _ else _) = _
    cases (Sys.output t c).reqSent with
    | false => exact (BitVec.add_zero _).symm
    | true => rfl
  have hsentLe : t.sent.length ≤ (Sys.step t c).sent.length := by
    rw [hlen]
    exact Nat.le_add_right _ _
  have hwordsLe : (Sys.step t c).dataCredits ≤ (allWords t.pushed).length := by
    rw [hdata]
    conv_rhs => rw [← List.take_append_drop (Sys.step t c).sent.length t.pushed,
      allWords_append, List.length_append]
    exact Nat.le_add_right _ _
  have hroom := hw.commands
  rw [hcredits] at hroom
  obtain ⟨h1, h2, h3, h4, h5⟩ := next_req h.commandWrindex h.dataWrindex h.popped
    (h.cmds.mono hsentLe) (h.words.mono (Nat.le_add_right _ _)) hwordsLe hroom hw.data
  exact ⟨hcredits, htake ▸ hdata, htake ▸ hsent, h1, hrd, h2, h3, h4, h5⟩

end Step

/-! ## Whole runs -/

/-- The number of the first data word of a request. -/
def firstWord (t : Sys) (i : ℕ) : ℕ := (allWords (t.pushed.take i)).length

/-- The request of number `i` is whole in its slots. -/
structure Stored (t : Sys) (i : ℕ) (r : Request) : Prop where
  val : t.s.commandBufferVal (BitVec.ofNat 3 i) = true
  command : t.s.commandBuffer (BitVec.ofNat 3 i) =
    r.command (BitVec.ofNat 1 (firstWord t i))
  words : ∀ j w, r.words[j]? = some w →
    t.s.dataBuffer (BitVec.ofNat 1 (firstWord t i + j)) = w

/-- The encoder has taken the requests in order and each once, what it has
not taken is in the buffer, and the credits are those of the slots that what
it has taken had. -/
structure Paired (t : Sys) : Prop where
  sent : List.Forall₂ Serves (t.pushed.take t.sent.length) t.sent
  credits : t.credits = t.sent.length
  dataCredits : t.dataCredits = firstWord t t.sent.length
  stored : ∀ i r, t.sent.length ≤ i → t.pushed[i]? = some r → Stored t i r

/-- The command slot that the cycle writes. -/
def WritesCommand (t : Sys) (c : Cycle) (k : BitVec 3) : Prop :=
  c.req.isSome = true ∧ k = t.s.commandWrindex

/-- The data slots that the cycle writes. -/
def WritesData (t : Sys) (c : Cycle) (k : BitVec 1) : Prop :=
  ∃ r j, c.req = some r ∧ j < r.words.length ∧ k = Ring.slot t.s.dataWrindex j

/-- In the cycle the oldest request is shown if its home id is there, and no
slot is written of a request that stays behind. -/
structure Presents (t : Sys) (c : Cycle) : Prop where
  reqVal_iff : (Sys.output t c).reqVal = true ↔
    ∃ r, t.pushed[t.sent.length]? = some r ∧
      (r.homeidVal = true ∨ c.csmVal r.csmTicket = true)
  shows : ∀ r, t.pushed[t.sent.length]? = some r →
    (Sys.output t c).reqVal = true → Shows r c (Sys.output t c)
  untouched : ∀ i r, (Sys.step t c).sent.length ≤ i → t.pushed[i]? = some r →
    ¬ WritesCommand t c (BitVec.ofNat 3 i) ∧
      ∀ j < r.words.length, ¬ WritesData t c (BitVec.ofNat 1 (firstWord t i + j))

section Run

variable {t : Sys} {c : Cycle}

/-- The words of a request lie among those of all requests. -/
theorem firstWord_add_le (hr : t.pushed[i]? = some r) :
    firstWord t i + r.words.length ≤ (allWords t.pushed).length := by
  have htake := congrArg List.length (allWords_take_succ hr)
  have hall := congrArg List.length
    (allWords_append (t.pushed.take (i + 1)) (t.pushed.drop (i + 1)))
  rw [List.take_append_drop, List.length_append] at hall
  rw [List.length_append] at htake
  rw [firstWord]
  omega

theorem firstWord_mono (hij : i ≤ j) : firstWord t i ≤ firstWord t j := by
  have hall := congrArg List.length
    (allWords_append (t.pushed.take i) ((t.pushed.take j).drop i))
  have htake : t.pushed.take i = (t.pushed.take j).take i := by
    rw [List.take_take, Nat.min_eq_left hij]
  rw [htake, List.take_append_drop, List.length_append] at hall
  rw [firstWord, firstWord, htake]
  omega

theorem Stands.stored (h : Stands t) (hi : t.sent.length ≤ i)
    (hr : t.pushed[i]? = some r) : Stored t i r where
  val := by
    have hlt := (List.getElem?_eq_some_iff.mp hr).1
    have hle := h.vals.le_add
    obtain ⟨d, rfl⟩ := Nat.exists_eq_add_of_le hi
    rw [h.vals.flag_iff, ← Ring.slot_ofNat, Ring.slot_mem_window (by omega)]
    omega
  command := by
    have hcell := h.cmds.cell i _ hi (getElem?_commands hr)
    rwa [Nat.zero_add] at hcell
  words j w hw := by
    apply h.words.cell _ _ _ (getElem?_allWords hr hw)
    rw [h.dataCredits]
    exact Nat.le_trans (firstWord_mono hi) (Nat.le_add_right _ _)

theorem Stands.paired (h : Stands t) : Paired t where
  sent := h.sent
  credits := h.credits
  dataCredits := h.dataCredits
  stored _ _ hi hr := h.stored hi hr

theorem Stands.presents (h : Stands t) (hw : Within (Sys.step t c)) :
    Presents t c where
  reqVal_iff := h.reqVal_iff
  shows r hr hval := by
    obtain ⟨r', hr', hid⟩ := h.reqVal_iff.1 hval
    obtain rfl := Option.some.inj (hr'.symm.trans hr)
    exact shows h hr hid
  untouched i r hi hr := by
    have hroom := hw.commands
    have hroomData := hw.data
    have hcredits : (Sys.step t c).credits = (Sys.step t c).sent.length := by
      rw [length_sent, ← h.credits]
      rfl
    have hdata := (h.taken (c := c)).2.2
    have hlt := (List.getElem?_eq_some_iff.mp hr).1
    have hword := firstWord_add_le hr
    have hfirst : (Sys.step t c).dataCredits ≤ firstWord t i := by
      rw [hdata]
      exact firstWord_mono hi
    have hpushed : (Sys.step t c).pushed = t.pushed ++ c.req.toList := rfl
    rw [hcredits, hpushed, List.length_append] at hroom
    rw [hpushed, allWords_append, List.length_append] at hroomData
    constructor
    · rintro ⟨hreq, hk⟩
      obtain ⟨x, hx⟩ := Option.isSome_iff_exists.mp hreq
      have hone : c.req.toList.length = 1 := by rw [hx]; rfl
      rw [hone, NUM_SLOTS] at hroom
      rw [h.commandWrindex, Ring.ofNat_eq_iff hi (by omega) (by omega)
        (by omega)] at hk
      omega
    · rintro j hj ⟨x, d, hx, hd, hk⟩
      have hnew : (allWords c.req.toList).length = x.words.length := by
        rw [hx, Option.toList_some, allWords_singleton]
      rw [hnew, NUM_DATA_SLOTS] at hroomData
      rw [h.dataWrindex, Ring.slot_ofNat, Ring.ofNat_eq_iff
        (show (Sys.step t c).dataCredits ≤ firstWord t i + j by omega)
        (by omega) (by omega) (by omega)] at hk
      omega

end Run

section Run

open Sync

variable {js : ℕ → Cycle}

theorem stands_at (hwithin : ∀ n, Within (stateAt Sys.step Sys.start js n))
    (n : ℕ) : Stands (stateAt Sys.step Sys.start js n) := by
  induction n with
  | zero => exact stands_start
  | succ n ih => exact stands_step ih (hwithin (n + 1))

theorem pushed_mono {n k : ℕ} (hnk : n ≤ k) :
    (stateAt Sys.step Sys.start js n).pushed <+:
      (stateAt Sys.step Sys.start js k).pushed :=
  prefix_of_le (f := fun n => (stateAt Sys.step Sys.start js n).pushed)
    (fun _ => List.prefix_append _ _) hnk

theorem sent_mono {n k : ℕ} (hnk : n ≤ k) :
    (stateAt Sys.step Sys.start js n).sent <+:
      (stateAt Sys.step Sys.start js k).sent :=
  prefix_of_le (f := fun n => (stateAt Sys.step Sys.start js n).sent)
    (fun _ => List.prefix_append _ _) hnk

/-- From every cycle on with a request that has not been taken there is one
in which the encoder is ready and the home id of the oldest is there. -/
def Served (js : ℕ → Cycle) : Prop :=
  ∀ n r, (stateAt Sys.step Sys.start js n).pushed[
      (stateAt Sys.step Sys.start js n).sent.length]? = some r →
    ∃ k, n ≤ k ∧ (js k).ready = true ∧
      (r.homeidVal = true ∨ (js k).csmVal r.csmTicket = true)

/-- The oldest request is taken if the encoder and its home id come. -/
theorem taken_of_pending
    (hwithin : ∀ n, Within (stateAt Sys.step Sys.start js n))
    (hserved : Served js) {n m : ℕ}
    (hm : m < (stateAt Sys.step Sys.start js n).pushed.length)
    (hle : m ≤ (stateAt Sys.step Sys.start js n).sent.length) :
    ∃ k, n ≤ k ∧ m + 1 ≤ (stateAt Sys.step Sys.start js k).sent.length := by
  rcases Nat.lt_or_eq_of_le hle with hlt | rfl
  · exact ⟨n, Nat.le_refl n, hlt⟩
  have hr := List.getElem?_eq_getElem hm
  obtain ⟨k, hk, hgo, hid⟩ := hserved n _ hr
  have hmono : (stateAt Sys.step Sys.start js n).sent.length ≤
      (stateAt Sys.step Sys.start js k).sent.length := (sent_mono hk).length_le
  rcases Nat.lt_or_eq_of_le hmono with hlt | heq
  · exact ⟨k, hk, hlt⟩
  have hr' : (stateAt Sys.step Sys.start js k).pushed[
      (stateAt Sys.step Sys.start js k).sent.length]? =
        some (stateAt Sys.step Sys.start js n).pushed[
          (stateAt Sys.step Sys.start js n).sent.length] := by
    obtain ⟨new, hnew⟩ : (stateAt Sys.step Sys.start js n).pushed <+:
        (stateAt Sys.step Sys.start js k).pushed := pushed_mono hk
    rw [← heq, ← hnew, List.getElem?_append_left hm]
    exact hr
  have hval := (stands_at hwithin k).reqVal_iff.2 ⟨_, hr', hid⟩
  have hsent : (Sys.output (stateAt Sys.step Sys.start js k) (js k)).reqSent = true :=
    Bool.and_eq_true_iff.mpr ⟨hval, hgo⟩
  refine ⟨k + 1, Nat.le_succ_of_le hk, ?_⟩
  show _ ≤ (Sys.step (stateAt Sys.step Sys.start js k) (js k)).sent.length
  rw [length_sent, hsent, ← heq]
  exact Nat.le_refl _

/-- Within the credits the encoder takes the requests in order and each once,
with its own fields, words and home id, and every request is taken if the
encoder and the home ids keep coming. -/
theorem pairs (js : ℕ → Cycle)
    (hwithin : ∀ n, Within (stateAt Sys.step Sys.start js n)) :
    (∀ n, Paired (stateAt Sys.step Sys.start js n) ∧
      Presents (stateAt Sys.step Sys.start js n) (js n)) ∧
    (Served js → ∀ n, ∃ k, n ≤ k ∧
      (stateAt Sys.step Sys.start js n).pushed.length ≤
        (stateAt Sys.step Sys.start js k).sent.length) := by
  refine ⟨fun n => ⟨(stands_at hwithin n).paired,
    (stands_at hwithin n).presents (hwithin (n + 1))⟩, fun hserved n => ?_⟩
  have hall : ∀ m ≤ (stateAt Sys.step Sys.start js n).pushed.length,
      ∃ k, n ≤ k ∧ m ≤ (stateAt Sys.step Sys.start js k).sent.length := by
    intro m
    induction m with
    | zero => exact fun _ => ⟨n, Nat.le_refl n, Nat.zero_le _⟩
    | succ m ih =>
      intro hm
      obtain ⟨k, hk, hle⟩ := ih (Nat.le_of_succ_le hm)
      obtain ⟨k', hk', hle'⟩ := taken_of_pending hwithin hserved
        (Nat.lt_of_lt_of_le hm (pushed_mono hk).length_le) hle
      exact ⟨k', Nat.le_trans hk hk', hle'⟩
  exact hall _ (Nat.le_refl _)

/-- A compare-and-swap whose home id is not known yet. -/
def cas : Request :=
  ⟨7#64, 8#64, CAS_REQUEST, L15_MSHR_ID_ST, 0#1, 0x80000010#40, true, 3#3, false,
    5#3, 0#30, false, 0x41#33⟩

/-- The request comes first, its home id later. -/
def casFirst (n : ℕ) : Cycle where
  req := if n = 0 then some cas else none
  ready := true
  csmVal := fun _ => 3 ≤ n
  csmData := fun _ => 9#30

theorem pairs_casFirst :
    ∃ k, Paired (stateAt Sys.step Sys.start casFirst k) ∧
      1 ≤ (stateAt Sys.step Sys.start casFirst k).sent.length := by
  have hpushed : ∀ n,
      (stateAt Sys.step Sys.start casFirst (n + 1)).pushed = [cas] := by
    intro n
    induction n with
    | zero => rfl
    | succ n ih =>
      show (stateAt Sys.step Sys.start casFirst (n + 1)).pushed ++ [] = [cas]
      rw [ih, List.append_nil]
  have hwithin : ∀ n, Within (stateAt Sys.step Sys.start casFirst n) := by
    intro n
    cases n with
    | zero => exact ⟨Nat.zero_le _, Nat.zero_le _⟩
    | succ n =>
      constructor
      · rw [hpushed]
        exact Nat.le_add_left_of_le (show 1 ≤ 8 by decide)
      · rw [hpushed]
        exact Nat.le_add_left 2 _
  obtain ⟨hall, htaken⟩ := pairs casFirst hwithin
  obtain ⟨k, -, hk⟩ := htaken
    (fun n _ _ => ⟨n + 3, Nat.le_add_right n 3, rfl,
      Or.inr (decide_eq_true (Nat.le_add_left 3 n))⟩) 1
  rw [hpushed 0] at hk
  exact ⟨k, (hall k).1, hk⟩

end Run

end ArianeSoc.L15.Noc1Buffer
