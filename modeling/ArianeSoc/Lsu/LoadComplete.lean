import ArianeSoc.Ledger
import ArianeSoc.Lsu.LoadUnit
import ArianeSoc.Sync

/-!
# Every load is written back once

The load unit is watched by a `Ledger`: a load is owed a write-back from
the cycle in which it is popped.  A write-back is a load's own if it carries
its transaction id and either an exception that is about it or the data of
its own request (`Own`).

The data cache holds one request at a time.  It answers a request that has
got its tag, in order and once, and a killed one in the cycle of the kill;
it takes the next request only in a cycle in which it is free or answers a
request that is not killed (`Answers`).

* `Inv` says, for each state of the load unit, which request is outstanding
  and which load is owed.
* `loads_complete`: in every run in which exceptions come when the unit can
  tell whose they are (`Attributed`), no write-back is stray, every load
  popped is written back, flushed or owed, and the request of an owed load
  is outstanding.

The unit puts the exception of the MMU on its output whatever it writes
back.  `exception_misattributed` has two runs in which a write-back carries
another load's exception or belongs to no load.
-/

namespace ArianeSoc.LoadUnit

open Sync Lsu

/-- A load, with a number that tells it from others with the same fields. -/
structure Load where
  ctrl : LsuCtrl
  serial : Nat
  deriving DecidableEq

/-- The inputs of a cycle, with the number of the load at the head and the
load that the exception on `ex_i` is about. -/
structure Watched extends In where
  serial : Nat
  exOwner : Load

/-- The load at the head. -/
def Watched.head (w : Watched) : Load := ⟨w.lsuCtrl, w.serial⟩

/-- A write-back, with the load whose request is answered and the data of
the answer. -/
structure WriteBack where
  transId : BitVec 3
  result : BitVec 64
  ex : ExceptionT
  exOwner : Load
  response : Option Load
  rdata : BitVec 64
  deriving DecidableEq

/-! ## The result of a load -/

/-- What is kept of the load `l`. -/
def dataOf (l : LsuCtrl) : LoadData :=
  ⟨l.transId, l.vaddr.extractLsb' 0 3, l.operator⟩

/-- The result of a load whose double word is `rdata`. -/
def resultOf (d : LoadData) (rdata : BitVec 64) : BitVec 64 :=
  extend d.operator
    (isSigned d.operator && rdata.getLsbD (8 * (signIndex d).toNat + 7) ||
      isFpNarrow d.operator)
    (shiftedData d rdata)

/-- What a load of the operator makes of the bytes at its address. -/
def loadValue (operator : FuOp) (data : BitVec 64) : BitVec 64 :=
  match operator with
  | .LW => (data.extractLsb' 0 32).signExtend 64
  | .LH => (data.extractLsb' 0 16).signExtend 64
  | .LB => (data.extractLsb' 0 8).signExtend 64
  | .LWU => (data.extractLsb' 0 32).setWidth 64
  | .LHU => (data.extractLsb' 0 16).setWidth 64
  | .LBU => (data.extractLsb' 0 8).setWidth 64
  | .FLW => BitVec.allOnes 32 ++ data.extractLsb' 0 32
  | .FLH => BitVec.allOnes 48 ++ data.extractLsb' 0 16
  | .FLB => BitVec.allOnes 56 ++ data.extractLsb' 0 8
  | _ => data

/-- The bytes of the load lie in one double word. -/
def Fits (d : LoadData) : Prop :=
  match d.operator with
  | .LW => d.addressOffset.toNat < 5
  | .LH => d.addressOffset.toNat < 7
  | _ => True

/-- Copies of the sign above a value extend its sign. -/
theorem fill_append_msb {m n : Nat} (x : BitVec m) :
    (BitVec.fill n x.msb ++ x : BitVec (n + m)) = x.signExtend (n + m) := by
  ext k hk
  rw [BitVec.getElem_signExtend, BitVec.getElem_append]
  split_ifs
  · rfl
  · cases x.msb <;> simp [BitVec.fill, BitVec.neg_one_eq_allOnes]

theorem fill_append_false {m n : Nat} (x : BitVec m) :
    (BitVec.fill n false ++ x : BitVec (n + m)) = x.setWidth (n + m) := by
  ext k hk
  rw [BitVec.getElem_setWidth, BitVec.getElem_append]
  split_ifs with h
  · rw [BitVec.getLsbD_eq_getElem h]
  · rw [BitVec.getLsbD_of_ge x k (by omega)]
    simp [BitVec.fill]

/-- The byte with the sign holds the sign bit of the shifted data. -/
theorem msb_shiftedData {d : LoadData} {rdata : BitVec 64} {n : Nat}
    {idx : BitVec 3} (hn : 0 < n)
    (h : 8 * idx.toNat + 7 = 8 * d.addressOffset.toNat + (n - 1)) :
    ((shiftedData d rdata).extractLsb' 0 n).msb =
      rdata.getLsbD (8 * idx.toNat + 7) := by
  have hlast : n - 1 < n := by omega
  rw [h, BitVec.msb_eq_getLsbD_last, BitVec.getLsbD_extractLsb', shiftedData,
    BitVec.getLsbD_ushiftRight, Nat.zero_add]
  simp [hlast]

/-- The result is the value at the address of the load. -/
theorem resultOf_eq_loadValue {d : LoadData} {rdata : BitVec 64}
    (h : Fits d) :
    resultOf d rdata = loadValue d.operator (shiftedData d rdata) := by
  have hsign : ∀ {n : Nat} (idx : BitVec 3), 0 < n →
      8 * idx.toNat + 7 = 8 * d.addressOffset.toNat + (n - 1) →
        (rdata.getLsbD (8 * idx.toNat + 7) =
          ((shiftedData d rdata).extractLsb' 0 n).msb) :=
    fun idx hn hidx => (msb_shiftedData hn hidx).symm
  unfold resultOf loadValue extend
  cases hop : d.operator
  case LW =>
    simp only [Fits, hop] at h
    have hidx : (d.addressOffset + 3#3).toNat = d.addressOffset.toNat + 3 := by
      rw [BitVec.toNat_add]
      exact Nat.mod_eq_of_lt (by simp; omega)
    simp only [signIndex, hop, isSigned, isFpNarrow, Bool.true_and,
      Bool.or_false]
    rw [hsign (n := 32) _ (by omega) (by omega)]
    exact fill_append_msb _
  case LH =>
    simp only [Fits, hop] at h
    have hidx : (d.addressOffset + 1#3).toNat = d.addressOffset.toNat + 1 := by
      rw [BitVec.toNat_add]
      exact Nat.mod_eq_of_lt (by simp; omega)
    simp only [signIndex, hop, isSigned, isFpNarrow, Bool.true_and,
      Bool.or_false]
    rw [hsign (n := 16) _ (by omega) (by omega)]
    exact fill_append_msb _
  case LB =>
    simp only [signIndex, hop, isSigned, isFpNarrow, Bool.true_and,
      Bool.or_false]
    rw [hsign (n := 8) _ (by omega) (by omega)]
    exact fill_append_msb _
  case LWU | LHU | LBU => exact fill_append_false _
  case FLW | FLH | FLB => simp [isFpNarrow, BitVec.fill, BitVec.neg_one_eq_allOnes]
  all_goals rfl

/-! ## The watched load unit -/

/-- The write-back `w` is the load's own. -/
def Own (l : Load) (w : WriteBack) : Bool :=
  w.transId = l.ctrl.transId ∧
    if w.ex.valid then w.exOwner = l
    else w.response = some l ∧ w.result = resultOf (dataOf l.ctrl) w.rdata

/-- The request that the data cache holds, and whether it has its tag. -/
structure Request where
  load : Load
  tagged : Bool
  deriving DecidableEq

/-- The load unit beside the data cache and the ledger of its loads. -/
structure Track where
  unit : State
  port : Option Request
  ledger : Ledger Load WriteBack

namespace Track

def reset : Track := ⟨LoadUnit.reset, none, Ledger.empty⟩

variable (cfg : ArianeCfg) (t : Track) (w : Watched)

/-- What the unit writes back in a cycle. -/
def writeBack : Option WriteBack :=
  if validO t.unit w.toIn then
    some ⟨transIdO t.unit w.toIn, resultO t.unit w.toIn, exO w.toIn, w.exOwner,
      t.port.map Request.load, w.dataRdata⟩
  else none

/-- The load that is popped in a cycle. -/
def popped : List Load := if popLdO cfg t.unit w.toIn then [w.head] else []

/-- The request that the data cache holds after a cycle. -/
def portNext : Option Request :=
  if granted t.unit w.toIn then some ⟨w.head, false⟩
  else if w.dataRvalid then none
  else if tagValidO t.unit then t.port.map ({ · with tagged := true })
  else t.port

def step : Track where
  unit := LoadUnit.step cfg t.unit w.toIn
  port := t.portNext w
  ledger := t.ledger.step Own (t.popped cfg w) (t.writeBack w) w.flush

end Track

/-! ## The data cache and the exceptions -/

/-- The data cache grants and answers as it should. -/
structure Answers (t : Track) (w : Watched) : Prop where
  grant : granted t.unit w.toIn = true →
    t.port = none ∨ w.dataRvalid = true ∧ killReqO t.unit w.toIn = false
  answer : w.dataRvalid = true →
    ∃ r, t.port = some r ∧ (r.tagged = true ∨ tagValidO t.unit = true)
  kill : killReqO t.unit w.toIn = true → t.port ≠ none → w.dataRvalid = true

instance (t : Track) (w : Watched) : Decidable (Answers t w) :=
  decidable_of_iff
    ((granted t.unit w.toIn = true →
        t.port = none ∨ w.dataRvalid = true ∧ killReqO t.unit w.toIn = false) ∧
      (w.dataRvalid = true →
        (t.port.any fun r => r.tagged || tagValidO t.unit) = true) ∧
      (killReqO t.unit w.toIn = true → t.port ≠ none → w.dataRvalid = true))
    ⟨fun ⟨hg, ha, hk⟩ =>
      ⟨hg, fun hr => by simpa [Option.any_eq_true] using ha hr, hk⟩,
      fun h => ⟨h.grant,
        fun hr => by simpa [Option.any_eq_true] using h.answer hr, h.kill⟩⟩

/-- An exception in the tag cycle is about the load whose tag is sent.  In
every other cycle with an exception no data arrive, and the exception is
about the load at the head if there is one.  While a flush is waited for
data may arrive. -/
def Attributed (t : Track) (w : Watched) : Prop :=
  w.ex.valid = true →
    match t.unit.state with
    | .SEND_TAG => t.ledger.owed = [w.exOwner]
    | .WAIT_FLUSH =>
      w.dataRvalid = false → w.valid = true → w.exOwner = w.head
    | _ => w.dataRvalid = false ∧ (w.valid = true → w.exOwner = w.head)

instance (t : Track) (w : Watched) : Decidable (Attributed t w) := by
  unfold Attributed
  cases t.unit.state <;> infer_instance

/-- The load at the head stays there while it waits. -/
def Offered (t : Track) (w : Watched) : Prop :=
  waits t.unit.state = true → w.valid = true

instance (t : Track) (w : Watched) : Decidable (Offered t w) :=
  inferInstanceAs (Decidable (_ → _))

/-! ## The invariant -/

/-- The load whose data are awaited. -/
structure Awaits (t : Track) (r : Request) : Prop where
  port : t.port = some r
  owed : t.ledger.owed = [r.load]
  data : t.unit.loadData = dataOf r.load.ctrl

/-- No load is owed. -/
def Idle (t : Track) : Prop := t.ledger.owed = []

/-- A request with its tag is awaited, or none is. -/
def Looking (t : Track) : Prop :=
  (∃ l, Awaits t ⟨l, true⟩) ∨ Idle t ∧ ∀ r, t.port = some r → r.tagged = false

/-- The request that is outstanding in each state. -/
def Accounted (t : Track) : Prop :=
  match t.unit.state with
  | .SEND_TAG => ∃ l, Awaits t ⟨l, false⟩
  | .ABORT_TRANSACTION | .ABORT_TRANSACTION_NC => t.port ≠ none ∧ Idle t
  | .WAIT_FLUSH => Idle t
  | .WAIT_TRANSLATION | .WAIT_WB_EMPTY => t.port = none ∧ Idle t
  | .IDLE | .WAIT_GNT | .WAIT_PAGE_OFFSET => Looking t

/-- The registers of the result multiplexer belong to the load that is
kept. -/
structure Prepared (q : State) : Prop where
  idx : q.idx = signIndex q.loadData
  signed : q.signed = isSigned q.loadData.operator
  fpSign : q.fpSign = isFpNarrow q.loadData.operator

structure Inv (t : Track) : Prop where
  prepared : Prepared t.unit
  accounted : Accounted t
  stray : t.ledger.stray = []
  balanced : t.ledger.Balanced
  own : t.ledger.Own Own

theorem inv_reset : Inv Track.reset where
  prepared := ⟨rfl, rfl, rfl⟩
  accounted := Or.inr ⟨rfl, fun r hr => by cases hr⟩
  stray := rfl
  balanced := Ledger.balanced_empty
  own p hp := by cases hp

theorem prepared_step (cfg : ArianeCfg) (q : State) (i : In) :
    Prepared (step cfg q i) := ⟨rfl, rfl, rfl⟩

theorem resultO_eq {q : State} {i : In} (h : Prepared q) :
    resultO q i = resultOf q.loadData i.dataRdata := by
  unfold resultO resultOf signBit
  rw [h.idx, h.signed, h.fpSign]

variable {cfg : ArianeCfg} {t : Track} {w : Watched}

/-- A write-back is one load's own at most. -/
theorem own_unique {l l' : Load} {b : WriteBack} (h : Own l b = true)
    (h' : Own l' b = true) : l' = l := by
  simp only [Own, decide_eq_true_eq] at h h'
  obtain ⟨-, h⟩ := h
  obtain ⟨-, h'⟩ := h'
  split_ifs at h h'
  · exact h'.symm.trans h
  · exact Option.some.inj (h'.1.symm.trans h.1)

/-- The load that is owed in a state with a request outstanding. -/
theorem accounted_sendTag (h : Accounted t) (hq : t.unit.state = .SEND_TAG) :
    ∃ l, Awaits t ⟨l, false⟩ := by
  simpa only [Accounted, hq] using h

theorem accounted_open (hq : isOpen t.unit.state = true) :
    Accounted t ↔ Looking t := by
  unfold Accounted
  cases hs : t.unit.state
  case IDLE | WAIT_GNT | WAIT_PAGE_OFFSET => exact Iff.rfl
  all_goals simp [hs, isOpen] at hq

/-- An owed load is one whose request is outstanding. -/
theorem idle_or_awaits (h : Accounted t) : Idle t ∨ ∃ r, Awaits t r := by
  unfold Accounted at h
  cases hs : t.unit.state
  case IDLE | WAIT_GNT | WAIT_PAGE_OFFSET =>
    simp only [hs] at h
    rcases h with ⟨l, hl⟩ | ⟨hidle, -⟩
    · exact Or.inr ⟨_, hl⟩
    · exact Or.inl hidle
  case SEND_TAG =>
    simp only [hs] at h
    obtain ⟨l, hl⟩ := h
    exact Or.inr ⟨_, hl⟩
  case WAIT_FLUSH => simp only [hs] at h; exact Or.inl h
  all_goals
    simp only [hs] at h
    exact Or.inl h.2

theorem idle_of_port_none (h : Accounted t) (hp : t.port = none) : Idle t := by
  rcases idle_or_awaits h with hidle | ⟨r, hr⟩
  · exact hidle
  · exact absurd (hp.symm.trans hr.port) (by simp)

/-! ## What is written back -/

theorem writeBack_of_retires (h : exceptionRetires w.toIn = true)
    (ho : w.exOwner = w.head) :
    ∃ b, t.writeBack w = some b ∧ Own w.head b = true := by
  have hex : w.ex.valid = true := by
    simp only [exceptionRetires, excepts, Bool.and_eq_true] at h
    exact h.1.1
  refine ⟨_, if_pos (if_pos h), ?_⟩
  simp [Own, transIdO, h, exO, hex, ho, Watched.head]

/-- The answer to the request of the owed load. -/
theorem writeBack_of_answer {r : Request} (hp : Prepared t.unit)
    (hr : Awaits t r) (hret : exceptionRetires w.toIn = false)
    (hv : validO t.unit w.toIn = true)
    (ho : w.ex.valid = true → w.exOwner = r.load) :
    ∃ b, t.writeBack w = some b ∧ Own r.load b = true := by
  refine ⟨_, if_pos hv, ?_⟩
  simp only [Own, transIdO, hret, exO, resultO_eq hp, hr.data, hr.port,
    decide_eq_true_eq]
  refine ⟨rfl, ?_⟩
  split_ifs with hex
  · exact ho hex
  · simp

theorem validO_of_answer (hret : exceptionRetires w.toIn = false) :
    validO t.unit w.toIn = true ↔ t.unit.state ≠ .WAIT_TRANSLATION ∧
      w.dataRvalid = true ∧ t.unit.state ≠ .WAIT_FLUSH ∧
      (killReqO t.unit w.toIn = false ∨ w.ex.valid = true) := by
  unfold validO
  rw [hret, if_neg Bool.false_ne_true]
  by_cases hq : t.unit.state = .WAIT_TRANSLATION
  · simp [hq]
  · simp [hq, and_assoc]

/-- An exception that is written back at once is the head's. -/
theorem exOwner_of_retires (h : Accounted t) (ha : Answers t w)
    (hx : Attributed t w) (hret : exceptionRetires w.toIn = true) :
    w.exOwner = w.head := by
  obtain ⟨⟨hex, hv⟩, hr⟩ : (w.ex.valid = true ∧ w.valid = true) ∧
      w.dataRvalid = false := by
    simpa [exceptionRetires, excepts] using hret
  have hx' := hx hex
  cases hs : t.unit.state
  case SEND_TAG =>
    -- the exception kills the request, and the kill is answered at once
    obtain ⟨l, hl⟩ := accounted_sendTag h hs
    have hkill := ha.kill (by simpa [killReqO, hs] using hex)
      (by simp [hl.port])
    exact absurd (hr.symm.trans hkill) Bool.false_ne_true
  case WAIT_FLUSH =>
    simp only [hs] at hx'
    exact hx' hr hv
  all_goals
    simp only [hs] at hx'
    exact hx'.2 hv

/-- Outside of the tag cycle, and unless a flush is waited for, no exception
comes with the data. -/
theorem not_ex_of_answer (hx : Attributed t w) (hr : w.dataRvalid = true)
    (htag : t.unit.state ≠ .SEND_TAG) (hwf : t.unit.state ≠ .WAIT_FLUSH) :
    w.ex.valid = false := by
  refine Bool.eq_false_iff.mpr fun hex => ?_
  have hx' := hx hex
  cases hs : t.unit.state
  case SEND_TAG => exact htag hs
  case WAIT_FLUSH => exact hwf hs
  all_goals simp [hs, hr] at hx'

/-- A cycle writes back nothing, the owed load when its request is answered,
or the load at the head with its exception. -/
theorem writeBack_cases (h : Inv t) (ha : Answers t w) (hx : Attributed t w) :
    (t.writeBack w = none ∧ exceptionRetires w.toIn = false ∧
        (w.dataRvalid = true → Idle t)) ∨
      (∃ r b, Awaits t r ∧ w.dataRvalid = true ∧
        t.writeBack w = some b ∧ Own r.load b = true) ∨
      (∃ b, exceptionRetires w.toIn = true ∧
        t.writeBack w = some b ∧ Own w.head b = true) := by
  cases hret : exceptionRetires w.toIn with
  | true =>
    refine Or.inr (Or.inr ?_)
    obtain ⟨b, hb, hown⟩ := writeBack_of_retires hret
      (exOwner_of_retires h.accounted ha hx hret)
    exact ⟨b, rfl, hb, hown⟩
  | false =>
    cases hr : w.dataRvalid with
    | false =>
      refine Or.inl ⟨if_neg ?_, rfl, fun h => absurd h Bool.false_ne_true⟩
      rw [validO_of_answer hret, hr]
      simp
    | true =>
      obtain ⟨r, hport, htag⟩ := ha.answer hr
      have hlive : ∀ r, Awaits t r → killReqO t.unit w.toIn = false ∨
            w.ex.valid = true →
          t.unit.state ≠ .WAIT_TRANSLATION → t.unit.state ≠ .WAIT_FLUSH →
          (w.ex.valid = true → w.exOwner = r.load) →
          ∃ r b, Awaits t r ∧ true = true ∧
            t.writeBack w = some b ∧ Own r.load b = true := by
        intro r hawait hk hwt hwf ho
        obtain ⟨b, hb, hown⟩ := writeBack_of_answer h.prepared hawait hret
          ((validO_of_answer hret).mpr ⟨hwt, hr, hwf, hk⟩) ho
        exact ⟨r, b, hawait, rfl, hb, hown⟩
      have hacc := h.accounted
      cases hs : t.unit.state
      case SEND_TAG =>
        obtain ⟨l, hl⟩ := accounted_sendTag hacc hs
        refine Or.inr (Or.inl (hlive _ hl ?_ (by simp [hs]) (by simp [hs]) ?_))
        · cases hex : w.ex.valid <;> simp [killReqO, hs, hex]
        · intro hex
          have hx' := hx hex
          simp only [hs, hl.owed] at hx'
          exact (List.singleton_inj.mp hx').symm
      case ABORT_TRANSACTION | ABORT_TRANSACTION_NC =>
        have hex := not_ex_of_answer hx hr (by simp [hs]) (by simp [hs])
        simp only [Accounted, hs] at hacc
        refine Or.inl ⟨if_neg ?_, rfl, fun _ => hacc.2⟩
        rw [validO_of_answer hret]
        simp [killReqO, hs, hex]
      case WAIT_FLUSH =>
        simp only [Accounted, hs] at hacc
        refine Or.inl ⟨if_neg ?_, rfl, fun _ => hacc⟩
        rw [validO_of_answer hret]
        simp [hs]
      case WAIT_TRANSLATION | WAIT_WB_EMPTY =>
        simp only [Accounted, hs] at hacc
        exact absurd (hacc.1.symm.trans hport) (by simp)
      all_goals
        have hex := not_ex_of_answer hx hr (by simp [hs]) (by simp [hs])
        have hlook := (accounted_open (by rw [hs]; rfl)).mp hacc
        rcases hlook with ⟨l, hl⟩ | ⟨-, hno⟩
        · refine Or.inr (Or.inl (hlive _ hl (Or.inl ?_) (by simp [hs])
            (by simp [hs]) ?_))
          · simp [killReqO, hs]
          · simp [hex]
        · have hfalse := hno r hport
          simp [hfalse, tagValidO, hs] at htag

/-! ## One cycle -/

theorem stray_step (h : Inv t) (ha : Answers t w) (hx : Attributed t w) :
    (t.step cfg w).ledger.stray = t.ledger.stray := by
  apply Ledger.stray_step
  intro b hb
  rcases writeBack_cases h ha hx with ⟨hnone, -⟩ | ⟨r, b', hr, -, hb', hown⟩ |
    ⟨b', hret, hb', hown⟩
  · exact absurd (hnone.symm.trans hb) (by simp)
  · obtain rfl := Option.some.inj (hb'.symm.trans hb)
    exact ⟨r.load, by simp [hr.owed], hown⟩
  · obtain rfl := Option.some.inj (hb'.symm.trans hb)
    refine ⟨w.head, List.mem_append_right _ ?_, hown⟩
    have hpop : popLdO cfg t.unit w.toIn = true := by
      simp only [exceptionRetires] at hret
      simp [popLdO, hret]
    simp [Track.popped, hpop]

/-- When data arrive, nothing that was owed before is owed any more. -/
theorem owed_of_data (h : Inv t) (ha : Answers t w) (hx : Attributed t w)
    (hf : w.flush = false) (hr : w.dataRvalid = true) :
    (t.step cfg w).ledger.owed = t.popped cfg w := by
  show (Ledger.step _ _ _ _ _).owed = _
  rcases writeBack_cases h ha hx with ⟨hnone, -, hidle⟩ |
    ⟨r, b, hawait, -, hb, hown⟩ | ⟨b, hret, -⟩
  · have howed : t.ledger.owed = [] := hidle hr
    rw [hnone, Ledger.owed_step_none, hf, howed]
    simp
  · rw [hb, Ledger.owed_step_some (a := r.load) (by simp [hawait.owed]) hown
      (fun l' => own_unique hown), hf, hawait.owed]
    simp
  · simp [exceptionRetires, hr] at hret

/-- A grant comes in a state in which an exception is the head's. -/
theorem not_excepts_of_answered_grant (hx : Attributed t w)
    (hg : granted t.unit w.toIn = true) (hr : w.dataRvalid = true)
    (hk : killReqO t.unit w.toIn = false) : w.ex.valid = false := by
  by_cases htag : t.unit.state = .SEND_TAG
  · simpa [killReqO, htag] using hk
  · refine not_ex_of_answer hx hr htag fun hwf => ?_
    simp [granted, dataReqO, hwf] at hg

theorem not_answered_of_port_none (ha : Answers t w) (hp : t.port = none) :
    w.dataRvalid = false := by
  refine Bool.eq_false_iff.mpr fun hr => ?_
  obtain ⟨r, hsome, -⟩ := ha.answer hr
  exact absurd (hp.symm.trans hsome) (by simp)

/-- After a grant the load that is popped is owed, if it is popped without
an exception, and no other load is. -/
theorem owed_of_granted (cfg : ArianeCfg) (h : Inv t) (ha : Answers t w)
    (hx : Attributed t w) (hf : w.flush = false)
    (hg : granted t.unit w.toIn = true) :
    (t.step cfg w).ledger.owed =
      if accepts cfg t.unit w.toIn = true ∧ excepts w.toIn = false then
        [w.head] else [] := by
  show (Ledger.step _ _ _ _ _).owed = _
  rcases ha.grant hg with hport | ⟨hr, hk⟩
  · have howed : t.ledger.owed = [] := idle_of_port_none h.accounted hport
    have hr : w.dataRvalid = false := not_answered_of_port_none ha hport
    rcases writeBack_cases h ha hx with ⟨hnone, hret, -⟩ | ⟨r, -, -, hr', -⟩ |
      ⟨b, hret, hb, hown⟩
    · have he : excepts w.toIn = false := by
        simpa [exceptionRetires, hr] using hret
      rw [hnone, Ledger.owed_step_none, hf, howed]
      simp [Track.popped, popLdO, he]
    · exact absurd (hr.symm.trans hr') Bool.false_ne_true
    · have he : excepts w.toIn = true := by
        simpa [exceptionRetires, hr] using hret
      have hpop : t.popped cfg w = [w.head] := by
        simp [Track.popped, popLdO, he, hr]
      rw [hb, Ledger.owed_step_some (a := w.head) (by simp [hpop]) hown
        (fun l' => own_unique hown), hf, howed, hpop]
      simp [he]
  · have hex := not_excepts_of_answered_grant hx hg hr hk
    have he : excepts w.toIn = false := by simp [excepts, hex]
    show (t.step cfg w).ledger.owed = _
    rw [owed_of_data h ha hx hf hr]
    simp [Track.popped, popLdO, he]

theorem accepts_of_not_granted (cfg : ArianeCfg)
    (hg : granted t.unit w.toIn = false) :
    accepts cfg t.unit w.toIn = false := by
  simp [accepts, hg]

/-- An answer without a grant leaves nothing owed. -/
theorem owed_of_answered (h : Inv t) (ha : Answers t w) (hx : Attributed t w)
    (hf : w.flush = false) (hg : granted t.unit w.toIn = false)
    (hr : w.dataRvalid = true) : (t.step cfg w).ledger.owed = [] := by
  have hpop : t.popped cfg w = [] := by
    simp [Track.popped, popLdO, accepts_of_not_granted cfg hg, hr]
  rw [owed_of_data h ha hx hf hr, hpop]

/-- Without a grant and an answer what is owed stays, and so does what is
kept of it. -/
theorem owed_of_quiet (cfg : ArianeCfg) (h : Inv t) (ha : Answers t w)
    (hx : Attributed t w) (hf : w.flush = false)
    (hg : granted t.unit w.toIn = false)
    (hr : w.dataRvalid = false) :
    (t.step cfg w).ledger.owed = t.ledger.owed ∧
      (t.step cfg w).unit.loadData = t.unit.loadData := by
  have hacc := accepts_of_not_granted cfg hg
  constructor
  · show (Ledger.step _ _ _ _ _).owed = _
    rcases writeBack_cases h ha hx with ⟨hnone, hret, -⟩ | ⟨r, -, -, hr', -⟩ |
      ⟨b, hret, hb, hown⟩
    · have he : excepts w.toIn = false := by
        simpa [exceptionRetires, hr] using hret
      rw [hnone, Ledger.owed_step_none, hf]
      simp [Track.popped, popLdO, hacc, he]
    · exact absurd (hr.symm.trans hr') Bool.false_ne_true
    · have hpop : t.popped cfg w = [w.head] := by
        have he : excepts w.toIn = true := by
          simpa [exceptionRetires, hr] using hret
        simp [Track.popped, popLdO, he, hr]
      rw [hb, Ledger.owed_step_some (a := w.head) (by simp [hpop]) hown
        (fun l' => own_unique hown), hf, hpop]
      -- the load at the head comes and goes beside the owed one
      rcases idle_or_awaits h.accounted with hidle | ⟨r, hawait⟩
      · have howed : t.ledger.owed = [] := hidle
        simp [howed]
      · rw [hawait.owed]
        by_cases heq : r.load = w.head
        · simp [heq]
        · simp [heq]
  · show loadDataNext cfg t.unit w.toIn = _
    unfold loadDataNext popLdO
    rw [hacc, hr]
    refine if_neg ?_
    simp only [Bool.false_or, Bool.not_false, Bool.and_true, excepts]
    rintro ⟨he, hex⟩
    simp [hex] at he

theorem portNext_of_quiet (hg : granted t.unit w.toIn = false)
    (hr : w.dataRvalid = false) :
    t.portNext w = if tagValidO t.unit then
      t.port.map ({ · with tagged := true }) else t.port := by
  simp [Track.portNext, hg, hr]

/-- A killed request is answered. -/
theorem port_none_of_kill (ha : Answers t w)
    (hk : killReqO t.unit w.toIn = true) (hr : w.dataRvalid = false) :
    t.port = none := by
  by_contra hp
  exact absurd (hr.symm.trans (ha.kill hk hp)) Bool.false_ne_true

/-- After a grant the unit goes to the tag cycle or gives the load up. -/
theorem accounted_of_granted (h : Inv t) (ha : Answers t w)
    (hx : Attributed t w) (ho : Offered t w) (hf : w.flush = false)
    (hg : granted t.unit w.toIn = true) : Accounted (t.step cfg w) := by
  have howed := owed_of_granted cfg h ha hx hf hg
  have hport : (t.step cfg w).port = some ⟨w.head, false⟩ := if_pos hg
  have hstate : (t.step cfg w).unit.state = stateNext cfg t.unit w.toIn := rfl
  cases he : excepts w.toIn with
  | true =>
    have hidle : (t.step cfg w).unit.state = .IDLE := by
      rw [hstate, stateNext, hf, if_neg Bool.false_ne_true, if_pos he]
    rw [accounted_open (by rw [hidle]; rfl)]
    refine Or.inr ⟨howed.trans (by simp [he]), fun r hr => ?_⟩
    obtain rfl := Option.some.inj (hport.symm.trans hr)
    rfl
  | false =>
    have hnext : (t.step cfg w).unit.state = grantedNext cfg w.toIn := by
      rw [hstate, stateNext, hf, if_neg Bool.false_ne_true, he,
        if_neg Bool.false_ne_true, fsmNext_of_granted cfg hg]
    cases hacc : accepts cfg t.unit w.toIn with
    | true =>
      have htag : (t.step cfg w).unit.state = .SEND_TAG := by
        rw [hnext, grantedNext_eq_sendTag]
        exact (accepts_iff.mp hacc).2.2
      have hvalid : w.valid = true := by
        by_cases hw : waits t.unit.state = true
        · exact ho hw
        · have hreq := (accepts_iff.mp hacc).1
          unfold dataReqO at hreq
          revert hreq hw
          cases t.unit.state <;> simp +contextual [waits]
      have hex : w.ex.valid = false := by simpa [excepts, hvalid] using he
      simp only [Accounted, htag]
      refine ⟨w.head, hport, howed.trans (by simp [he, hacc]), ?_⟩
      show loadDataNext cfg t.unit w.toIn = _
      rw [loadDataNext, if_pos ⟨by simp [popLdO, hacc], hex⟩]
      rfl
    | false =>
      have hne : grantedNext cfg w.toIn ≠ .SEND_TAG := by
        intro htag
        have hst := fsmNext_eq_sendTag.mp
          ((fsmNext_of_granted cfg hg).trans htag)
        exact absurd (hacc.symm.trans hst) Bool.false_ne_true
      have hgive : (t.step cfg w).port ≠ none ∧ Idle (t.step cfg w) :=
        ⟨by simp [hport], howed.trans (by simp [hacc])⟩
      unfold grantedNext at hnext hne
      unfold Accounted
      split_ifs at hnext hne
      · simpa only [hnext] using hgive
      · simpa only [hnext] using hgive
      · exact absurd rfl hne

theorem looking_of_free (h : t.port = none ∧ Idle t) : Looking t :=
  Or.inr ⟨h.2, fun _ hr => absurd (h.1.symm.trans hr) (by simp)⟩

/-- An answer without a grant frees the port. -/
theorem free_of_answered (h : Inv t) (ha : Answers t w) (hx : Attributed t w)
    (hf : w.flush = false) (hg : granted t.unit w.toIn = false)
    (hr : w.dataRvalid = true) :
    (t.step cfg w).port = none ∧ Idle (t.step cfg w) := by
  refine ⟨?_, owed_of_answered h ha hx hf hg hr⟩
  show t.portNext w = none
  simp [Track.portNext, hg, hr]

/-- Without a grant and an answer a free port stays free. -/
theorem free_of_quiet (h : Inv t) (ha : Answers t w) (hx : Attributed t w)
    (hf : w.flush = false) (hg : granted t.unit w.toIn = false)
    (hr : w.dataRvalid = false) (hp : t.port = none) :
    (t.step cfg w).port = none ∧ Idle (t.step cfg w) := by
  refine ⟨?_, (owed_of_quiet cfg h ha hx hf hg hr).1.trans
    (idle_of_port_none h.accounted hp)⟩
  show t.portNext w = none
  rw [portNext_of_quiet hg hr, hp]
  simp

/-- A request that is neither granted nor answered keeps its load. -/
theorem looking_of_quiet (h : Inv t) (ha : Answers t w) (hx : Attributed t w)
    (hf : w.flush = false) (hg : granted t.unit w.toIn = false)
    (hr : w.dataRvalid = false)
    (hs : isOpen t.unit.state = true ∨ t.unit.state = .SEND_TAG ∨
      t.unit.state = .WAIT_FLUSH) : Looking (t.step cfg w) := by
  have hacc := h.accounted
  obtain ⟨howed, hdata⟩ := owed_of_quiet cfg h ha hx hf hg hr
  have hport := portNext_of_quiet hg hr
  rcases hs with hs | hs | hs
  · have htag : tagValidO t.unit = false := by
      revert hs
      unfold tagValidO
      cases t.unit.state <;> simp [isOpen]
    rw [htag, if_neg Bool.false_ne_true] at hport
    rcases (accounted_open hs).mp hacc with ⟨l, hl⟩ | ⟨hidle, hno⟩
    · exact Or.inl ⟨l, hport.trans hl.port, howed.trans hl.owed,
        hdata.trans hl.data⟩
    · exact Or.inr ⟨howed.trans hidle, fun r hr => hno r (hport.symm.trans hr)⟩
  · obtain ⟨l, hl⟩ := accounted_sendTag hacc hs
    refine Or.inl ⟨l, ?_, howed.trans hl.owed, hdata.trans hl.data⟩
    show t.portNext w = _
    rw [hport, hl.port]
    simp [tagValidO, hs]
  · refine looking_of_free (free_of_quiet h ha hx hf hg hr
      (port_none_of_kill ha ?_ hr))
    simp [killReqO, hs]

/-- Without a grant the outstanding request stays or is answered. -/
theorem accounted_of_not_granted (h : Inv t) (ha : Answers t w)
    (hx : Attributed t w) (hf : w.flush = false)
    (hg : granted t.unit w.toIn = false) : Accounted (t.step cfg w) := by
  have hacc := h.accounted
  by_cases hs : isOpen t.unit.state = true ∨ t.unit.state = .SEND_TAG ∨
      t.unit.state = .WAIT_FLUSH
  · rw [accounted_open (isOpen_stateNext hf hg hs)]
    cases hr : w.dataRvalid with
    | true => exact looking_of_free (free_of_answered h ha hx hf hg hr)
    | false => exact looking_of_quiet h ha hx hf hg hr hs
  · have hab : t.unit.state = .ABORT_TRANSACTION ∨
        t.unit.state = .ABORT_TRANSACTION_NC ∨
        t.unit.state = .WAIT_WB_EMPTY ∨ t.unit.state = .WAIT_TRANSLATION := by
      revert hs
      cases t.unit.state <;> simp [isOpen]
    have hnone : (t.step cfg w).port = none ∧ Idle (t.step cfg w) := by
      cases hr : w.dataRvalid with
      | true => exact free_of_answered h ha hx hf hg hr
      | false =>
        refine free_of_quiet h ha hx hf hg hr ?_
        rcases hab with hq | hq | hq | hq
        · exact port_none_of_kill ha (by simp [killReqO, hq]) hr
        · exact port_none_of_kill ha (by simp [killReqO, hq]) hr
        all_goals
          simp only [Accounted, hq] at hacc
          exact hacc.1
    rcases stateNext_of_aborted cfg hf hab with hn | hn | hn
    · exact (accounted_open hn).mpr (looking_of_free hnone)
    all_goals
      have hn' : (t.step cfg w).unit.state = _ := hn
      simpa only [Accounted, hn'] using hnone

theorem inv_step (h : Inv t) (ha : Answers t w) (ho : Offered t w)
    (hx : Attributed t w) : Inv (t.step cfg w) where
  prepared := prepared_step _ _ _
  accounted := by
    cases hf : w.flush with
    | true =>
      have hnext : (t.step cfg w).unit.state = .WAIT_FLUSH := if_pos hf
      simp only [Accounted, hnext]
      show (Ledger.step _ _ _ _ _).owed = []
      exact if_pos hf
    | false =>
      cases hg : granted t.unit w.toIn with
      | true => exact accounted_of_granted h ha hx ho hf hg
      | false => exact accounted_of_not_granted h ha hx hf hg
  stray := (stray_step h ha hx).trans h.stray
  balanced := Ledger.balanced_step h.balanced
  own := Ledger.own_step h.own

/-! ## Every run -/

/-- No write-back is stray, every load that was popped has been written back
once with what is its own, was flushed or is owed, and the request of a load
that is owed is outstanding. -/
structure Complete (t : Track) : Prop where
  stray : t.ledger.stray = []
  balanced : t.ledger.Balanced
  own : t.ledger.Own Own
  outstanding : ∀ l ∈ t.ledger.owed, ∃ tagged, t.port = some ⟨l, tagged⟩

theorem Inv.complete (h : Inv t) : Complete t where
  stray := h.stray
  balanced := h.balanced
  own := h.own
  outstanding l hl := by
    rcases idle_or_awaits h.accounted with hidle | ⟨r, hr⟩
    · have howed : t.ledger.owed = [] := hidle
      simp [howed] at hl
    · rw [hr.owed, List.mem_singleton] at hl
      exact ⟨r.tagged, hl ▸ hr.port⟩

/-- In every run with a data cache that answers one request at a time, in
order and once, with loads that stay at the head while they wait and with
exceptions that come when the unit can tell whose they are, every load that
the unit pops is written back exactly once, with its own id and its own data
or exception, unless it is flushed. -/
theorem loads_complete (cfg : ArianeCfg) (ws : List Watched)
    (hcache : Along (Track.step cfg) Answers Track.reset ws)
    (hoffer : Along (Track.step cfg) Offered Track.reset ws)
    (hex : Along (Track.step cfg) Attributed Track.reset ws) :
    Always (Track.step cfg) Complete Track.reset ws := by
  have hinv : Always (Track.step cfg) Inv Track.reset ws := by
    refine ((hcache.and hoffer).and hex).always ?_ inv_reset
    intro t w h ht
    exact inv_step ht h.1.1 h.1.2 h.2
  exact hinv.mono fun t ht => ht.complete

/-- A double-word load with a transaction id. -/
def loadOf (transId : BitVec 3) (vaddr : BitVec 64) : Load where
  ctrl :=
    { LsuCtrl.zero with
      valid := true
      vaddr := vaddr
      be := 0xFF#8
      fu := .LOAD
      operator := .LD
      transId := transId }
  serial := transId.toNat

/-- A cycle without a load at the head. -/
def Watched.idle : Watched where
  flush := false
  valid := false
  lsuCtrl := LsuCtrl.zero
  paddr := 0#56
  ex := ExceptionT.none
  dtlbHit := true
  pageOffsetMatches := false
  storeBufferEmpty := true
  commitTranId := 0#3
  dataGnt := false
  dataRvalid := false
  dataRdata := 0#64
  dcacheWbufferEmpty := true
  serial := 0
  exOwner := loadOf 0#3 0#64

/-- A load is at the head. -/
def Watched.offer (l : Load) : Watched :=
  { Watched.idle with valid := true, lsuCtrl := l.ctrl, serial := l.serial }

/-- An exception about the load `l` comes. -/
def Watched.fault (l : Load) (w : Watched) : Watched :=
  { w with ex := ⟨LD_ADDR_MISALIGNED, l.ctrl.vaddr, true⟩, exOwner := l }

/-- A load that misses the cache, one that faults and one that is
flushed. -/
def missFaultFlush : List Watched :=
  [{ Watched.offer (loadOf 1#3 0x1000#64) with dataGnt := true },
    Watched.offer (loadOf 2#3 0x1001#64),
    { Watched.offer (loadOf 2#3 0x1001#64) with
      dataGnt := true, dataRvalid := true, dataRdata := 0x55#64 },
    Watched.fault (loadOf 2#3 0x1001#64)
      { Watched.idle with dataRvalid := true },
    { Watched.offer (loadOf 3#3 0x1008#64) with dataGnt := true },
    { Watched.idle with flush := true },
    { Watched.idle with dataRvalid := true }]

theorem loads_complete_missFaultFlush :
    Always (Track.step ⟨[], [], []⟩) Complete Track.reset missFaultFlush :=
  loads_complete ⟨[], [], []⟩ missFaultFlush (by decide +kernel)
    (by decide +kernel) (by decide +kernel)

/-- The data of a load arrive in the cycle in which the next load faults. -/
def faultBesideAnswer : List Watched :=
  [{ Watched.offer (loadOf 1#3 0x1000#64) with dataGnt := true },
    Watched.offer (loadOf 2#3 0x1001#64),
    Watched.fault (loadOf 2#3 0x1001#64)
      { Watched.offer (loadOf 2#3 0x1001#64) with
        dataRvalid := true, dataRdata := 0x55#64 }]

/-- A load has been written back; the next one is misaligned and misses the
TLB, so that its request is killed. -/
def faultBesideKill : List Watched :=
  [{ Watched.offer (loadOf 1#3 0x1000#64) with dataGnt := true },
    { Watched.offer (loadOf 2#3 0x1001#64) with
      dataGnt := true, dtlbHit := false, dataRvalid := true,
      dataRdata := 0x55#64 },
    Watched.fault (loadOf 2#3 0x1001#64)
      { Watched.offer (loadOf 2#3 0x1001#64) with dataRvalid := true }]

/-- The load 1 is written back with the exception of the load 2, and, in
the second run, is written back once more with that exception. -/
theorem exception_misattributed :
    let step := Track.step ⟨[], [], []⟩
    let first := run step Track.reset faultBesideAnswer
    let second := run step Track.reset faultBesideKill
    Along step Answers Track.reset faultBesideAnswer ∧
      Along step Offered Track.reset faultBesideAnswer ∧
      first.ledger.stray = [⟨1#3, 0x55#64,
        ⟨LD_ADDR_MISALIGNED, 0x1001#64, true⟩, loadOf 2#3 0x1001#64,
        some (loadOf 1#3 0x1000#64), 0x55#64⟩] ∧
      Along step Answers Track.reset faultBesideKill ∧
      Along step Offered Track.reset faultBesideKill ∧
      second.ledger.settled.map Prod.fst = [loadOf 1#3 0x1000#64] ∧
      second.ledger.stray = [⟨1#3, 0#64,
        ⟨LD_ADDR_MISALIGNED, 0x1001#64, true⟩, loadOf 2#3 0x1001#64,
        some (loadOf 2#3 0x1001#64), 0#64⟩] := by
  decide +kernel

end ArianeSoc.LoadUnit
