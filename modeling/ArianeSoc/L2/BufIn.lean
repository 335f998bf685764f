import ArianeSoc.BitField
import ArianeSoc.Ring
import ArianeSoc.Sync
import Mathlib.Logic.Function.Basic

/-!
# The request input of the L2

`l2_pipe1_buf_in` takes the flits of the first network and cuts them into
headers of three flits and single data flits, which it hands over from two
circular buffers.  The header of an interrupt is one flit only; it is
buffered three times, and the network sees the last time alone.

`Message` is a well-formed message, and `Sys` the module with the stream
that is offered to it.  `Framed` says where in the stream the module stands
and what the buffers still hold of it.

* `Buf.Holds.next`: what a buffer holds after a cycle.
* `framed_step`: every cycle keeps `Framed`.
* `drains`: nothing stays behind if nobody stops to offer or to take.
-/

namespace ArianeSoc.L2.BufIn

abbrev Flit := BitVec 64

/-! ## A buffer -/

/-- The registers of a buffer of `2 ^ b` flits. -/
structure Buf (b : ℕ) where
  memF : BitVec b → Flit
  counterF : BitVec (b + 1)
  rdPtrF : BitVec b
  wrPtrF : BitVec b

namespace Buf

variable {b : ℕ}

def init : Buf b := ⟨fun _ => 0, 0, 0, 0⟩

variable (q : Buf b)

def full : Bool := q.counterF == BitVec.ofNat (b + 1) (2 ^ b)

/-- One cycle, in which a flit may come in and `flits` of them go out. -/
def next (flits : ℕ) (push : Option Flit) (pop : Bool) : Buf b where
  memF :=
    match push with
    | some x => Function.update q.memF q.wrPtrF x
    | none => q.memF
  counterF :=
    if push.isSome && pop then q.counterF + 1 - BitVec.ofNat (b + 1) flits
    else if push.isSome then q.counterF + 1
    else if pop then q.counterF - BitVec.ofNat (b + 1) flits
    else q.counterF
  rdPtrF := if pop then q.rdPtrF + BitVec.ofNat b flits else q.rdPtrF
  wrPtrF := if push.isSome then q.wrPtrF + 1 else q.wrPtrF

/-- The buffer holds `xs`, oldest flit first. -/
structure Holds (q : Buf b) (xs : List Flit) : Prop where
  length_le : xs.length ≤ 2 ^ b
  count : q.counterF.toNat = xs.length
  write : q.wrPtrF = Ring.slot q.rdPtrF xs.length
  mem : ∀ j x, xs[j]? = some x → q.memF (Ring.slot q.rdPtrF j) = x

variable {q} {xs : List Flit}

theorem holds_init : Holds (init : Buf b) [] where
  length_le := Nat.zero_le _
  count := BitVec.toNat_zero
  write := Ring.slot_zero.symm
  mem := fun j x h => by simp at h

theorem Holds.full_iff (h : Holds q xs) : q.full = true ↔ xs.length = 2 ^ b := by
  have hlt : 2 ^ b < 2 ^ (b + 1) := Nat.pow_lt_pow_succ (by decide)
  rw [full, beq_iff_eq, ← BitVec.toNat_inj, h.count, BitVec.toNat_ofNat,
    Nat.mod_eq_of_lt hlt]

/-- A flit comes in. -/
def push (q : Buf b) (x : Flit) : Buf b :=
  { q with memF := Function.update q.memF q.wrPtrF x
           counterF := q.counterF + 1
           wrPtrF := q.wrPtrF + 1 }

/-- `flits` of them go out. -/
def pop (q : Buf b) (flits : ℕ) : Buf b :=
  { q with counterF := q.counterF - BitVec.ofNat (b + 1) flits
           rdPtrF := q.rdPtrF + BitVec.ofNat b flits }

theorem Holds.push (h : Holds q xs) (hlen : xs.length < 2 ^ b) (x : Flit) :
    Holds (q.push x) (xs ++ [x]) where
  length_le := by
    rw [List.length_append, List.length_singleton]
    exact hlen
  count := by
    have hlt : xs.length + 1 < 2 ^ (b + 1) := by
      rw [Nat.pow_succ]
      omega
    have hone : (1 : BitVec (b + 1)).toNat = 1 :=
      Nat.mod_eq_of_lt (Nat.one_lt_two_pow (Nat.succ_ne_zero b))
    show (q.counterF + 1).toNat = _
    rw [BitVec.toNat_add, h.count, hone, Nat.mod_eq_of_lt hlt, List.length_append,
      List.length_singleton]
  write := by
    show q.wrPtrF + 1 = Ring.slot q.rdPtrF (xs ++ [x]).length
    rw [h.write, List.length_append, List.length_singleton, ← Ring.slot_add]
    rfl
  mem := by
    intro j y hy
    show Function.update q.memF q.wrPtrF x (Ring.slot q.rdPtrF j) = y
    rcases Nat.lt_or_ge j xs.length with hj | hj
    · have hne : Ring.slot q.rdPtrF j ≠ q.wrPtrF := by
        rw [h.write, Ne, Ring.slot_eq_iff (by omega) hlen]
        omega
      rw [Function.update_of_ne hne]
      rw [List.getElem?_append_left hj] at hy
      exact h.mem j y hy
    · have hlast : j = xs.length := by
        have hlt := (List.getElem?_eq_some_iff.mp hy).1
        rw [List.length_append, List.length_singleton] at hlt
        omega
      rw [hlast, ← h.write, Function.update_self]
      rw [hlast, List.getElem?_append_right (Nat.le_refl _), Nat.sub_self] at hy
      exact Option.some.inj hy

theorem Holds.pop (h : Holds q xs) {flits : ℕ} (hle : flits ≤ xs.length) :
    Holds (q.pop flits) (xs.drop flits) where
  length_le := by
    have hlen := h.length_le
    rw [List.length_drop]
    omega
  count := by
    have hlt : flits < 2 ^ (b + 1) := by
      have hlen := h.length_le
      have hpos := Nat.two_pow_pos b
      rw [Nat.pow_succ]
      omega
    have hflits : (BitVec.ofNat (b + 1) flits).toNat = flits :=
      Nat.mod_eq_of_lt hlt
    show (q.counterF - BitVec.ofNat (b + 1) flits).toNat = _
    rw [BitVec.toNat_sub_of_le (by rw [BitVec.le_def, h.count, hflits]; exact hle), hflits,
      h.count, List.length_drop]
  write := by
    show q.wrPtrF = Ring.slot (Ring.slot q.rdPtrF flits) (xs.drop flits).length
    rw [h.write, Ring.slot_add, List.length_drop, Nat.add_sub_cancel' hle]
  mem := by
    intro j y hy
    show q.memF (Ring.slot (Ring.slot q.rdPtrF flits) j) = y
    rw [Ring.slot_add]
    rw [List.getElem?_drop] at hy
    exact h.mem (flits + j) y hy

/-- What the buffer holds after a cycle. -/
theorem Holds.next (h : Holds q xs) {flits : ℕ} {new : Option Flit} {go : Bool}
    (hnew : new.isSome = true → q.full = false) (hgo : go = true → flits ≤ xs.length) :
    Holds (q.next flits new go)
      ((xs ++ new.toList).drop (if go then flits else 0)) := by
  have hpushed : Holds (new.elim q q.push) (xs ++ new.toList) := by
    cases new with
    | none => simpa using h
    | some x =>
      have hroom : xs.length ≠ 2 ^ b := by
        rw [Ne, ← h.full_iff, hnew rfl]
        exact Bool.false_ne_true
      exact h.push (Nat.lt_of_le_of_ne h.length_le hroom) x
  cases go with
  | false =>
    have hnext : q.next flits new false = new.elim q q.push := by
      cases new <;> rfl
    rw [hnext]
    exact hpushed
  | true =>
    have hnext : q.next flits new true = (new.elim q q.push).pop flits := by
      cases new <;> rfl
    rw [hnext]
    refine hpushed.pop ?_
    rw [List.length_append]
    exact Nat.le_add_right_of_le (hgo rfl)

end Buf

/-! ## One cycle -/

def MSG_TYPE : BitField 64 8 := ⟨14⟩

def MSG_LENGTH : BitField 64 8 := ⟨22⟩

def MSG_TYPE_INTERRUPT_FWD : BitVec 8 := 32#8

/-- `L2_P1_HEADER_BUF_IN_FLITS`. -/
def HEADER_FLITS : ℕ := 3

/-- `L2_P1_DATA_BUF_IN_FLITS`. -/
def DATA_FLITS : ℕ := 1

def interrupt (flit : Flit) : Bool := MSG_TYPE.get flit == MSG_TYPE_INTERRUPT_FWD

structure In where
  validIn : Bool
  dataIn : Flit
  msgHeaderReadyOut : Bool
  msgDataReadyOut : Bool

/-- The registers; the buffers have 8 and 4 flits. -/
structure State where
  msgStateF : BitVec 3
  msgDataStateF : BitVec 2
  msgIntStateF : BitVec 3
  header : Buf 3
  data : Buf 2

def init : State := ⟨0, 0, 0, Buf.init, Buf.init⟩

section Cycle

variable (s : State) (i : In)

/-- `msg_mux_sel` is `msg_mux_header`. -/
def muxHeader : Bool :=
  s.msgStateF == 0#3 || s.msgStateF == 1#3 || s.msgStateF == 2#3

def realReadyIn : Bool := if muxHeader s then !s.header.full else !s.data.full

def intStall : Bool :=
  i.validIn && interrupt i.dataIn && s.msgStateF == 0#3 || s.msgIntStateF == 1#3

def readyIn : Bool := realReadyIn s && !intStall s i

def msgDataStateNext : BitVec 2 :=
  if s.msgStateF == 0#3 && i.validIn then
    if interrupt i.dataIn then 1#2 else (MSG_LENGTH.get i.dataIn - 2#8).setWidth 2
  else s.msgDataStateF

def msgStateNext : BitVec 3 :=
  if i.validIn && realReadyIn s then
    if s.msgStateF == 2#3 && s.msgDataStateF == 0#2 then 0#3
    else if s.msgStateF == 3#3 && s.msgDataStateF == 1#2 then 0#3
    else if s.msgStateF == 4#3 then 0#3
    else s.msgStateF + 1#3
  else s.msgStateF

def msgIntStateNext : BitVec 3 :=
  if i.validIn && realReadyIn s && interrupt i.dataIn && s.msgStateF == 0#3 then 1#3
  else if i.validIn && realReadyIn s && s.msgIntStateF == 1#3 then 2#3
  else if i.validIn && realReadyIn s && s.msgIntStateF == 2#3 then 0#3
  else s.msgIntStateF

/-- The flit that goes into the header buffer. -/
def headerPush : Option Flit :=
  if muxHeader s && i.validIn && !s.header.full then some i.dataIn else none

/-- The flit that goes into the data buffer. -/
def dataPush : Option Flit :=
  if !muxHeader s && i.validIn && !s.data.full then some i.dataIn else none

def msgHeaderValidOut : Bool := 3#4 ≤ s.header.counterF

def msgHeaderOut : BitVec 192 :=
  s.header.memF (s.header.rdPtrF + 2#3) ++ s.header.memF (s.header.rdPtrF + 1#3) ++
    s.header.memF s.header.rdPtrF

def msgDataValidOut : Bool := s.data.counterF != 0#3

def msgDataOut : Flit := s.data.memF s.data.rdPtrF

/-- One clock cycle of `l2_pipe1_buf_in`. -/
def step : State where
  msgStateF := msgStateNext s i
  msgDataStateF := msgDataStateNext s i
  msgIntStateF := msgIntStateNext s i
  header := s.header.next HEADER_FLITS (headerPush s i)
    (msgHeaderValidOut s && i.msgHeaderReadyOut)
  data := s.data.next DATA_FLITS (dataPush s i)
    (msgDataValidOut s && i.msgDataReadyOut)

end Cycle

/-! ## Messages -/

/-- A well-formed message: an interrupt with its data flit, or a header of
three flits with as many data flits as its length says. -/
inductive Message
  | int (h d : Flit) (hint : interrupt h = true)
  | req (h x y : Flit) (ds : List Flit) (hint : interrupt h = false)
      (hlen : (MSG_LENGTH.get h).toNat = 2 + ds.length) (hle : ds.length ≤ 2)

namespace Message

/-- The flits on the network. -/
def flits : Message → List Flit
  | int h d _ => [h, d]
  | req h x y ds .. => h :: x :: y :: ds

def first : Message → Flit
  | int h .. => h
  | req h .. => h

/-- The three flits of the header. -/
def header : Message → List Flit
  | int h .. => [h, h, h]
  | req h x y .. => [h, x, y]

def data : Message → List Flit
  | int _ d _ => [d]
  | req _ _ _ ds .. => ds

/-- The header as it is handed over. -/
def headerOut : Message → BitVec 192
  | int h .. => h ++ h ++ h
  | req h x y .. => y ++ x ++ h

end Message

/-! ## The module with its environment -/

/-- What the environment does in a cycle: whether it offers the next flit,
what is on the lines if not, and what it takes. -/
structure Cycle where
  offer : Bool
  idle : Flit
  headerReady : Bool
  dataReady : Bool

/-- The module, the stream that has not been accepted yet and the part that
has, and what has been handed over. -/
structure Sys where
  s : State
  rest : List Flit
  accepted : List Flit
  headers : List (BitVec 192)
  datas : List Flit

namespace Sys

def start (stream : List Flit) : Sys := ⟨init, stream, [], [], []⟩

variable (t : Sys) (c : Cycle)

/-- A flit that is offered is offered until it is accepted. -/
def input : In where
  validIn := c.offer && !t.rest.isEmpty
  dataIn := if c.offer then t.rest.headD c.idle else c.idle
  msgHeaderReadyOut := c.headerReady
  msgDataReadyOut := c.dataReady

def accepts : Bool := (input t c).validIn && readyIn t.s (input t c)

def takesHeader : Bool := msgHeaderValidOut t.s && c.headerReady

def takesData : Bool := msgDataValidOut t.s && c.dataReady

def step : Sys where
  s := BufIn.step t.s (input t c)
  rest := if accepts t c then t.rest.tail else t.rest
  accepted := t.accepted ++ if accepts t c then [(input t c).dataIn] else []
  headers := t.headers ++ if takesHeader t c then [msgHeaderOut t.s] else []
  datas := t.datas ++ if takesData t c then [msgDataOut t.s] else []

end Sys

/-! ## The place in the stream -/

/-- The control registers stand at a place of the stream: what is left to be
offered, and the header and data flits that are left to be buffered. -/
inductive Stands (s : State) : List Flit → List Flit → List Flit → Prop
  | idle (ms : List Message) (hstate : s.msgStateF = 0#3) (hint : s.msgIntStateF = 0#3) :
      Stands s (ms.flatMap Message.flits) (ms.flatMap Message.header)
        (ms.flatMap Message.data)
  | int1 (h d : Flit) (ms : List Message) (hstate : s.msgStateF = 1#3)
      (hdata : s.msgDataStateF = 1#2) (hint : s.msgIntStateF = 1#3) :
      Stands s (h :: d :: ms.flatMap Message.flits) (h :: h :: ms.flatMap Message.header)
        (d :: ms.flatMap Message.data)
  | int2 (h d : Flit) (ms : List Message) (hstate : s.msgStateF = 2#3)
      (hdata : s.msgDataStateF = 1#2) (hint : s.msgIntStateF = 2#3) :
      Stands s (h :: d :: ms.flatMap Message.flits) (h :: ms.flatMap Message.header)
        (d :: ms.flatMap Message.data)
  | req1 (x y : Flit) (ds : List Flit) (ms : List Message) (hstate : s.msgStateF = 1#3)
      (hle : ds.length ≤ 2) (hdata : s.msgDataStateF = BitVec.ofNat 2 ds.length)
      (hint : s.msgIntStateF = 0#3) :
      Stands s (x :: y :: (ds ++ ms.flatMap Message.flits))
        (x :: y :: ms.flatMap Message.header) (ds ++ ms.flatMap Message.data)
  | req2 (y : Flit) (ds : List Flit) (ms : List Message) (hstate : s.msgStateF = 2#3)
      (hle : ds.length ≤ 2) (hdata : s.msgDataStateF = BitVec.ofNat 2 ds.length)
      (hint : s.msgIntStateF = 0#3) :
      Stands s (y :: (ds ++ ms.flatMap Message.flits))
        (y :: ms.flatMap Message.header) (ds ++ ms.flatMap Message.data)
  | data0 (d : Flit) (ds : List Flit) (ms : List Message) (hstate : s.msgStateF = 3#3)
      (hle : ds.length ≤ 1) (hdata : s.msgDataStateF = BitVec.ofNat 2 (ds.length + 1))
      (hint : s.msgIntStateF = 0#3) :
      Stands s (d :: (ds ++ ms.flatMap Message.flits))
        (ms.flatMap Message.header) (d :: (ds ++ ms.flatMap Message.data))
  | data1 (d : Flit) (ms : List Message) (hstate : s.msgStateF = 4#3)
      (hint : s.msgIntStateF = 0#3) :
      Stands s (d :: ms.flatMap Message.flits)
        (ms.flatMap Message.header) (d :: ms.flatMap Message.data)

section Control

variable {s s' : State} {i : In} {rest hs ds : List Flit}

/-- Nothing happens without a flit, or without room for it. -/
theorem stands_hold (h : Stands s rest hs ds)
    (hno : (i.validIn && realReadyIn s) = false) :
    Stands (step s i) rest hs ds := by
  have hstate : (step s i).msgStateF = s.msgStateF := by
    show msgStateNext s i = _
    rw [msgStateNext, hno, if_neg Bool.false_ne_true]
  have hint : (step s i).msgIntStateF = s.msgIntStateF := by
    show msgIntStateNext s i = _
    simp only [msgIntStateNext, hno, Bool.false_and, Bool.false_eq_true, if_false]
  have hdata : s.msgStateF ≠ 0#3 → (step s i).msgDataStateF = s.msgDataStateF := by
    intro hne
    show msgDataStateNext s i = _
    rw [msgDataStateNext, beq_eq_false_iff_ne.mpr hne, Bool.false_and,
      if_neg Bool.false_ne_true]
  cases h with
  | idle ms h0 hi => exact .idle ms (hstate.trans h0) (hint.trans hi)
  | int1 h d ms h0 hd hi =>
    exact .int1 h d ms (hstate.trans h0) ((hdata (by simp [h0])).trans hd) (hint.trans hi)
  | int2 h d ms h0 hd hi =>
    exact .int2 h d ms (hstate.trans h0) ((hdata (by simp [h0])).trans hd) (hint.trans hi)
  | req1 x y ds ms h0 hle hd hi =>
    exact .req1 x y ds ms (hstate.trans h0) hle ((hdata (by simp [h0])).trans hd)
      (hint.trans hi)
  | req2 y ds ms h0 hle hd hi =>
    exact .req2 y ds ms (hstate.trans h0) hle ((hdata (by simp [h0])).trans hd)
      (hint.trans hi)
  | data0 d ds ms h0 hle hd hi =>
    exact .data0 d ds ms (hstate.trans h0) hle ((hdata (by simp [h0])).trans hd)
      (hint.trans hi)
  | data1 d ms h0 hi => exact .data1 d ms (hstate.trans h0) (hint.trans hi)

theorem headerPush_of_mux (hval : i.validIn = true) (hreal : realReadyIn s = true)
    (hmux : muxHeader s = true) :
    headerPush s i = some i.dataIn ∧ dataPush s i = none := by
  rw [realReadyIn, if_pos hmux] at hreal
  simp [headerPush, dataPush, hmux, hval, hreal]

theorem dataPush_of_mux (hval : i.validIn = true) (hreal : realReadyIn s = true)
    (hmux : muxHeader s = false) :
    headerPush s i = none ∧ dataPush s i = some i.dataIn := by
  rw [realReadyIn, hmux, if_neg Bool.false_ne_true] at hreal
  simp [headerPush, dataPush, hmux, hval, hreal]

/-- The data flits that are left of a message, by their number. -/
theorem ofNat_length {ds : List Flit} (hle : ds.length ≤ 2) :
    BitVec.ofNat 2 ds.length = 0#2 ↔ ds = [] := by
  rw [← BitVec.toNat_inj, BitVec.toNat_ofNat, Nat.mod_eq_of_lt (by omega)]
  exact List.length_eq_zero_iff

/-- The flit that is offered goes into its buffer. -/
theorem stands_take {tl : List Flit} (h : Stands s (i.dataIn :: tl) hs ds)
    (hval : i.validIn = true) (hreal : realReadyIn s = true) :
    ∃ hs' ds', Stands (step s i) (if readyIn s i then tl else i.dataIn :: tl) hs' ds' ∧
      hs = (headerPush s i).toList ++ hs' ∧ ds = (dataPush s i).toList ++ ds' := by
  generalize hrest : i.dataIn :: tl = rest at h
  cases h with
  | idle ms h0 hi =>
    obtain ⟨hh, hd⟩ := headerPush_of_mux hval hreal (by simp [muxHeader, h0])
    rw [hh, hd]
    cases ms with
    | nil => cases hrest
    | cons m ms =>
      cases m with
      | int h d hint =>
        obtain ⟨rfl, rfl⟩ := List.cons.inj hrest
        have hstall : readyIn s i = false := by simp [readyIn, intStall, hval, hint, h0]
        refine ⟨_, _, ?_, rfl, rfl⟩
        rw [hstall, if_neg Bool.false_ne_true]
        exact .int1 i.dataIn d ms (by simp [step, msgStateNext, hval, hreal, h0])
          (by simp [step, msgDataStateNext, hval, hint, h0])
          (by simp [step, msgIntStateNext, hval, hreal, hint, h0])
      | req h x y ds hint hlen hle =>
        obtain ⟨rfl, rfl⟩ := List.cons.inj hrest
        have hgo : readyIn s i = true := by simp [readyIn, hreal, intStall, hint, hi]
        have hlength : (MSG_LENGTH.get i.dataIn - 2#8).setWidth 2 =
            BitVec.ofNat 2 ds.length := by
          have hget : MSG_LENGTH.get i.dataIn = BitVec.ofNat 8 (2 + ds.length) := by
            rw [← hlen, BitVec.ofNat_toNat, BitVec.setWidth_eq]
          have hcases : ds.length = 0 ∨ ds.length = 1 ∨ ds.length = 2 := by omega
          rw [hget]
          rcases hcases with hl | hl | hl <;> rw [hl] <;> rfl
        refine ⟨_, _, ?_, rfl, rfl⟩
        rw [hgo, if_pos rfl]
        exact .req1 x y ds ms (by simp [step, msgStateNext, hval, hreal, h0]) hle
          (by simp [step, msgDataStateNext, hval, hint, h0, hlength])
          (by simp [step, msgIntStateNext, hint, hi])
  | int1 h d ms h0 hdata hi =>
    obtain ⟨hh, hd⟩ := headerPush_of_mux hval hreal (by simp [muxHeader, h0])
    obtain ⟨rfl, rfl⟩ := List.cons.inj hrest
    have hstall : readyIn s i = false := by simp [readyIn, intStall, hi]
    rw [hh, hd]
    refine ⟨_, _, ?_, rfl, rfl⟩
    rw [hstall, if_neg Bool.false_ne_true]
    exact .int2 i.dataIn d ms (by simp [step, msgStateNext, hval, hreal, h0])
      (by simp [step, msgDataStateNext, h0, hdata])
      (by simp [step, msgIntStateNext, hval, hreal, h0, hi])
  | int2 h d ms h0 hdata hi =>
    obtain ⟨hh, hd⟩ := headerPush_of_mux hval hreal (by simp [muxHeader, h0])
    obtain ⟨rfl, rfl⟩ := List.cons.inj hrest
    have hgo : readyIn s i = true := by simp [readyIn, hreal, intStall, h0, hi]
    rw [hh, hd]
    refine ⟨_, _, ?_, rfl, rfl⟩
    rw [hgo, if_pos rfl]
    exact .data0 d [] ms (by simp [step, msgStateNext, hval, hreal, h0, hdata])
      (by simp) (by simp [step, msgDataStateNext, h0, hdata])
      (by simp [step, msgIntStateNext, hval, hreal, h0, hi])
  | req1 x y ds ms h0 hle hdata hi =>
    obtain ⟨hh, hd⟩ := headerPush_of_mux hval hreal (by simp [muxHeader, h0])
    obtain ⟨rfl, rfl⟩ := List.cons.inj hrest
    have hgo : readyIn s i = true := by simp [readyIn, hreal, intStall, h0, hi]
    rw [hh, hd]
    refine ⟨_, _, ?_, rfl, rfl⟩
    rw [hgo, if_pos rfl]
    exact .req2 y ds ms (by simp [step, msgStateNext, hval, hreal, h0]) hle
      (by simp [step, msgDataStateNext, h0, hdata])
      (by simp [step, msgIntStateNext, h0, hi])
  | req2 y ds ms h0 hle hdata hi =>
    obtain ⟨hh, hd⟩ := headerPush_of_mux hval hreal (by simp [muxHeader, h0])
    obtain ⟨rfl, rfl⟩ := List.cons.inj hrest
    have hgo : readyIn s i = true := by simp [readyIn, hreal, intStall, h0, hi]
    rw [hh, hd, hgo, if_pos rfl]
    have hnext : (step s i).msgStateF = if ds = [] then 0#3 else 3#3 := by
      simp [step, msgStateNext, hval, hreal, h0, hdata, ofNat_length hle]
    have hint : (step s i).msgIntStateF = 0#3 := by
      simp [step, msgIntStateNext, h0, hi]
    cases ds with
    | nil => exact ⟨_, _, .idle ms hnext hint, rfl, rfl⟩
    | cons d ds =>
      exact ⟨_, _, .data0 d ds ms hnext (Nat.le_of_succ_le_succ hle)
        (by simp [step, msgDataStateNext, h0, hdata]) hint, rfl, rfl⟩
  | data0 d ds ms h0 hle hdata hi =>
    obtain ⟨hh, hd⟩ := dataPush_of_mux hval hreal (by simp [muxHeader, h0])
    obtain ⟨rfl, rfl⟩ := List.cons.inj hrest
    have hgo : readyIn s i = true := by simp [readyIn, hreal, intStall, h0, hi]
    have hint : (step s i).msgIntStateF = 0#3 := by
      simp [step, msgIntStateNext, h0, hi]
    rw [hh, hd, hgo, if_pos rfl]
    cases ds with
    | nil =>
      exact ⟨_, _, .idle ms (by simp [step, msgStateNext, hval, hreal, h0, hdata]) hint,
        rfl, rfl⟩
    | cons d' ds =>
      obtain rfl : ds = [] := List.length_eq_zero_iff.mp (by simpa using hle)
      exact ⟨_, _, .data1 d' ms (by simp [step, msgStateNext, hval, hreal, h0, hdata]) hint,
        rfl, rfl⟩
  | data1 d ms h0 hi =>
    obtain ⟨hh, hd⟩ := dataPush_of_mux hval hreal (by simp [muxHeader, h0])
    obtain ⟨rfl, rfl⟩ := List.cons.inj hrest
    have hgo : readyIn s i = true := by simp [readyIn, hreal, intStall, h0, hi]
    rw [hh, hd, hgo, if_pos rfl]
    exact ⟨_, _, .idle ms (by simp [step, msgStateNext, hval, hreal, h0])
      (by simp [step, msgIntStateNext, h0, hi]), rfl, rfl⟩

end Control

/-! ## What the buffers hand over -/

/-- The three flits of a header, first to last. -/
def unpack (x : Flit × Flit × Flit) : List Flit := [x.1, x.2.1, x.2.2]

def pack (x : Flit × Flit × Flit) : BitVec 192 := x.2.2 ++ x.2.1 ++ x.1

theorem length_unpack (out : List (Flit × Flit × Flit)) :
    (out.flatMap unpack).length = 3 * out.length := by
  induction out with
  | nil => rfl
  | cons x out ih =>
    rw [List.flatMap_cons, List.length_append, ih, List.length_cons]
    show 3 + _ = _
    omega

section Buffers

variable {s : State} {i : In} {xs : List Flit}

theorem headerValid_iff (h : s.header.Holds xs) :
    msgHeaderValidOut s = true ↔ 3 ≤ xs.length := by
  rw [msgHeaderValidOut, decide_eq_true_iff, BitVec.le_def, h.count]
  rfl

theorem dataValid_iff (h : s.data.Holds xs) :
    msgDataValidOut s = true ↔ 1 ≤ xs.length := by
  rw [msgDataValidOut, bne_iff_ne, Ne, ← BitVec.toNat_inj, h.count]
  exact Nat.one_le_iff_ne_zero.symm

theorem headerPush_room (h : (headerPush s i).isSome = true) : s.header.full = false := by
  unfold headerPush at h
  split_ifs at h with hgo
  · simp only [Bool.and_eq_true, Bool.not_eq_true'] at hgo
    exact hgo.2
  · cases h

theorem dataPush_room (h : (dataPush s i).isSome = true) : s.data.full = false := by
  unfold dataPush at h
  split_ifs at h with hgo
  · simp only [Bool.and_eq_true, Bool.not_eq_true'] at hgo
    exact hgo.2
  · cases h

/-- What goes out is the oldest header. -/
theorem headerOut_eq {x y z : Flit} (h : s.header.Holds (x :: y :: z :: xs)) :
    msgHeaderOut s = pack (x, y, z) := by
  have hx := h.mem 0 x rfl
  have hy := h.mem 1 y rfl
  have hz := h.mem 2 z rfl
  rw [Ring.slot_zero] at hx
  unfold msgHeaderOut pack
  rw [← hx, ← hy, ← hz]
  rfl

theorem header_step (ready : Bool) (h : s.header.Holds xs) :
    ∃ (out : List (Flit × Flit × Flit)) (xs' : List Flit),
      (s.header.next HEADER_FLITS (headerPush s i)
        (msgHeaderValidOut s && ready)).Holds xs' ∧
      xs ++ (headerPush s i).toList = out.flatMap unpack ++ xs' ∧
      (if msgHeaderValidOut s && ready then [msgHeaderOut s] else []) = out.map pack := by
  have hgo : (msgHeaderValidOut s && ready) = true → HEADER_FLITS ≤ xs.length :=
    fun hgo => (headerValid_iff h).mp (Bool.and_eq_true_iff.mp hgo).1
  have hnext := h.next (headerPush_room (i := i)) hgo
  cases hpop : (msgHeaderValidOut s && ready) with
  | false =>
    rw [hpop, if_neg Bool.false_ne_true, List.drop_zero] at hnext
    exact ⟨[], _, hnext, rfl, rfl⟩
  | true =>
    rw [hpop] at hnext hgo
    obtain ⟨x, y, z, xs', rfl⟩ : ∃ x y z xs', xs = x :: y :: z :: xs' := by
      match xs, hgo rfl with
      | x :: y :: z :: xs', _ => exact ⟨x, y, z, xs', rfl⟩
    refine ⟨[(x, y, z)], _, hnext, rfl, ?_⟩
    rw [if_pos rfl, headerOut_eq h]
    rfl

theorem data_step (ready : Bool) (h : s.data.Holds xs) :
    ∃ xs', (s.data.next DATA_FLITS (dataPush s i) (msgDataValidOut s && ready)).Holds xs' ∧
      xs ++ (dataPush s i).toList =
        (if msgDataValidOut s && ready then [msgDataOut s] else []) ++ xs' := by
  have hgo : (msgDataValidOut s && ready) = true → DATA_FLITS ≤ xs.length :=
    fun hgo => (dataValid_iff h).mp (Bool.and_eq_true_iff.mp hgo).1
  have hnext := h.next (dataPush_room (i := i)) hgo
  cases hpop : (msgDataValidOut s && ready) with
  | false =>
    rw [hpop, if_neg Bool.false_ne_true, List.drop_zero] at hnext
    exact ⟨_, hnext, rfl⟩
  | true =>
    rw [hpop] at hnext hgo
    obtain ⟨x, xs', rfl⟩ := List.exists_cons_of_length_pos (hgo rfl)
    have hx := h.mem 0 x rfl
    rw [Ring.slot_zero] at hx
    refine ⟨_, hnext, ?_⟩
    rw [if_pos rfl, msgDataOut, hx]
    rfl

end Buffers

/-! ## Runs -/

namespace Sys

/-- The module stands at a place of the stream, with what lies between the
place and what has been handed over in the buffers. -/
structure Framed (ms : List Message) (t : Sys) (out : List (Flit × Flit × Flit))
    (xs ys hs ds : List Flit) : Prop where
  stands : Stands t.s t.rest hs ds
  accepted : t.accepted ++ t.rest = ms.flatMap Message.flits
  header : t.s.header.Holds xs
  data : t.s.data.Holds ys
  headers : t.headers = out.map pack
  headerFlits : ms.flatMap Message.header = out.flatMap unpack ++ xs ++ hs
  dataFlits : ms.flatMap Message.data = t.datas ++ ys ++ ds

variable {ms : List Message} {t : Sys} {c : Cycle} {out : List (Flit × Flit × Flit)}
  {xs ys hs ds : List Flit}

theorem framed_start (ms : List Message) :
    Framed ms (start (ms.flatMap Message.flits)) [] [] []
      (ms.flatMap Message.header) (ms.flatMap Message.data) where
  stands := .idle ms rfl rfl
  accepted := rfl
  header := Buf.holds_init
  data := Buf.holds_init
  headers := rfl
  headerFlits := rfl
  dataFlits := rfl

/-- The flit on the lines is the next of the stream. -/
theorem rest_eq (h : (input t c).validIn = true) :
    t.rest = (input t c).dataIn :: t.rest.tail := by
  obtain ⟨hoffer, hrest⟩ := Bool.and_eq_true_iff.mp h
  show _ = (if c.offer then t.rest.headD c.idle else c.idle) :: _
  rw [if_pos hoffer]
  cases hr : t.rest with
  | nil => simp [hr] at hrest
  | cons x tl => rfl

theorem no_push (h : ((input t c).validIn && realReadyIn t.s) = false) :
    headerPush t.s (input t c) = none ∧ dataPush t.s (input t c) = none := by
  unfold headerPush dataPush
  unfold realReadyIn at h
  cases hm : muxHeader t.s <;> simp_all

theorem stands_step (h : Stands t.s t.rest hs ds) :
    ∃ hs' ds', Stands (step t c).s (step t c).rest hs' ds' ∧
      hs = (headerPush t.s (input t c)).toList ++ hs' ∧
      ds = (dataPush t.s (input t c)).toList ++ ds' := by
  cases hgo : ((input t c).validIn && realReadyIn t.s) with
  | false =>
    obtain ⟨hh, hd⟩ := no_push hgo
    have hrest : (step t c).rest = t.rest := by
      refine if_neg ?_
      rw [accepts, readyIn, ← Bool.and_assoc, hgo, Bool.false_and]
      exact Bool.false_ne_true
    rw [hh, hd, hrest]
    exact ⟨hs, ds, stands_hold h hgo, rfl, rfl⟩
  | true =>
    obtain ⟨hval, hreal⟩ := Bool.and_eq_true_iff.mp hgo
    have hrest : (step t c).rest =
        if readyIn t.s (input t c) then t.rest.tail
        else (input t c).dataIn :: t.rest.tail := by
      show (if accepts t c then t.rest.tail else t.rest) = _
      rw [accepts, hval, Bool.true_and, ← rest_eq hval]
    rw [hrest]
    rw [rest_eq hval] at h
    exact stands_take h hval hreal

/-- What moves in a cycle, into the buffers and out of them. -/
structure Moves (t : Sys) (c : Cycle) (xs xs' ys ys' hs hs' ds ds' : List Flit) : Prop where
  headerIn : hs.length = (headerPush t.s (input t c)).toList.length + hs'.length
  headerOut : xs.length + (headerPush t.s (input t c)).toList.length =
    3 * (takesHeader t c).toNat + xs'.length
  dataIn : ds.length = (dataPush t.s (input t c)).toList.length + ds'.length
  dataOut : ys.length + (dataPush t.s (input t c)).toList.length =
    (takesData t c).toNat + ys'.length

theorem framed_step (c : Cycle) (h : Framed ms t out xs ys hs ds) :
    ∃ out' xs' ys' hs' ds', Framed ms (step t c) out' xs' ys' hs' ds' ∧
      Moves t c xs xs' ys ys' hs hs' ds ds' := by
  obtain ⟨hs', ds', hstands, rfl, rfl⟩ := stands_step (c := c) h.stands
  obtain ⟨new, xs', hheader, hxs, hnew⟩ :=
    header_step (i := input t c) c.headerReady h.header
  obtain ⟨ys', hdata, hys⟩ := data_step (i := input t c) c.dataReady h.data
  refine ⟨out ++ new, xs', ys', hs', ds', ?_, ?_⟩
  · refine ⟨hstands, ?_, hheader, hdata, ?_, ?_, ?_⟩
    · show (t.accepted ++ _) ++ (if accepts t c then t.rest.tail else t.rest) = _
      rw [← h.accepted]
      split_ifs with hacc
      · rw [List.append_assoc, List.singleton_append,
          ← rest_eq (Bool.and_eq_true_iff.mp hacc).1]
      · rw [List.append_nil]
    · show t.headers ++ (if msgHeaderValidOut t.s && c.headerReady then _ else _) = _
      rw [h.headers, List.map_append, ← hnew]
    · rw [h.headerFlits, List.flatMap_append, List.append_assoc, ← List.append_assoc xs, hxs]
      simp only [List.append_assoc]
    · rw [h.dataFlits, List.append_assoc, ← List.append_assoc ys, hys]
      show _ = (t.datas ++ (if msgDataValidOut t.s && c.dataReady then _ else _)) ++ _ ++ _
      simp only [List.append_assoc]
  · have hnewLen : new.length = (takesHeader t c).toNat := by
      have hlen := congrArg List.length hnew
      rw [List.length_map] at hlen
      rw [← hlen, takesHeader]
      cases msgHeaderValidOut t.s && c.headerReady <;> rfl
    have hdataLen : (if msgDataValidOut t.s && c.dataReady then [msgDataOut t.s]
        else []).length = (takesData t c).toNat := by
      rw [takesData]
      cases msgDataValidOut t.s && c.dataReady <;> rfl
    have hxsLen := congrArg List.length hxs
    have hysLen := congrArg List.length hys
    rw [List.length_append, List.length_append, length_unpack, hnewLen] at hxsLen
    rw [List.length_append, List.length_append, hdataLen] at hysLen
    exact ⟨List.length_append, hxsLen, List.length_append, hysLen⟩

/-- Whole headers are those of the first messages. -/
theorem split_headers {zs : List Flit}
    (h : ms.flatMap Message.header = out.flatMap unpack ++ zs) :
    ∃ ms₁ ms₂, ms = ms₁ ++ ms₂ ∧ ms₁.map Message.headerOut = out.map pack ∧
      ms₂.flatMap Message.header = zs := by
  induction out generalizing ms with
  | nil => exact ⟨[], ms, rfl, rfl, h⟩
  | cons x out ih =>
    cases ms with
    | nil => cases h
    | cons m ms =>
      have hhead : m.header = unpack x ∧
          ms.flatMap Message.header = out.flatMap unpack ++ zs := by
        rw [List.flatMap_cons, List.flatMap_cons, List.append_assoc] at h
        exact List.append_inj h (by cases m <;> rfl)
      obtain ⟨ms₁, ms₂, rfl, hmap, hrest⟩ := ih hhead.2
      refine ⟨m :: ms₁, ms₂, rfl, ?_, hrest⟩
      rw [List.map_cons, List.map_cons, hmap]
      congr 1
      obtain ⟨x, y, z⟩ := x
      cases m with
      | int a d hint =>
        obtain ⟨rfl, rfl, rfl⟩ : a = x ∧ a = y ∧ a = z := by
          simpa [Message.header, unpack] using hhead.1
        rfl
      | req a b e ds hint hlen hle =>
        obtain ⟨rfl, rfl, rfl⟩ : a = x ∧ b = y ∧ e = z := by
          simpa [Message.header, unpack] using hhead.1
        rfl

/-- Where nothing is left to be offered, nothing is left to be buffered. -/
theorem stands_done {s : State} {rest : List Flit} (h : Stands s rest hs ds)
    (hrest : rest = []) : hs = [] ∧ ds = [] := by
  cases h with
  | idle ms hstate hint =>
    cases ms with
    | nil => exact ⟨rfl, rfl⟩
    | cons m ms => cases m <;> cases hrest
  | _ => cases hrest

/-! ## What the environment sees -/

/-- The stream is accepted in order, the headers and the data flits of its
messages come out in order, and no buffer holds more than its size. -/
structure Intact (ms : List Message) (t : Sys) : Prop where
  accepted : t.accepted ++ t.rest = ms.flatMap Message.flits
  headers : t.headers <+: ms.map Message.headerOut
  datas : t.datas <+: ms.flatMap Message.data
  header_le : t.s.header.counterF.toNat ≤ 8
  data_le : t.s.data.counterF.toNat ≤ 4

/-- There is room for what comes in and enough for what goes out. -/
structure Fits (t : Sys) (c : Cycle) : Prop where
  headerPush : (headerPush t.s (input t c)).isSome = true → t.s.header.counterF.toNat < 8
  headerPop : takesHeader t c = true → 3 ≤ t.s.header.counterF.toNat
  dataPush : (dataPush t.s (input t c)).isSome = true → t.s.data.counterF.toNat < 4
  dataPop : takesData t c = true → 1 ≤ t.s.data.counterF.toNat

/-- Everything has been accepted and handed over. -/
def Complete (ms : List Message) (t : Sys) : Prop :=
  t.rest = [] ∧ t.headers = ms.map Message.headerOut ∧
    t.datas = ms.flatMap Message.data

theorem Framed.intact (h : Framed ms t out xs ys hs ds) : Intact ms t where
  accepted := h.accepted
  headers := by
    have hflits := h.headerFlits
    rw [List.append_assoc] at hflits
    obtain ⟨ms₁, ms₂, rfl, hmap, -⟩ := split_headers hflits
    rw [h.headers, ← hmap, List.map_append]
    exact List.prefix_append _ _
  datas := by
    rw [h.dataFlits, List.append_assoc]
    exact List.prefix_append _ _
  header_le := by
    rw [h.header.count]
    exact h.header.length_le
  data_le := by
    rw [h.data.count]
    exact h.data.length_le

theorem Framed.fits (h : Framed ms t out xs ys hs ds) : Fits t c where
  headerPush := by
    intro hpush
    have hroom := headerPush_room hpush
    have hle := h.header.length_le
    have hne : xs.length ≠ 2 ^ 3 := by
      rw [Ne, ← h.header.full_iff, hroom]
      exact Bool.false_ne_true
    rw [h.header.count]
    omega
  headerPop := by
    intro hpop
    rw [h.header.count]
    exact (headerValid_iff h.header).mp (Bool.and_eq_true_iff.mp hpop).1
  dataPush := by
    intro hpush
    have hroom := dataPush_room hpush
    have hle := h.data.length_le
    have hne : ys.length ≠ 2 ^ 2 := by
      rw [Ne, ← h.data.full_iff, hroom]
      exact Bool.false_ne_true
    rw [h.data.count]
    omega
  dataPop := by
    intro hpop
    rw [h.data.count]
    exact (dataValid_iff h.data).mp (Bool.and_eq_true_iff.mp hpop).1

/-- With less than a header and no data flit in the buffers and nothing to
offer, everything has been handed over. -/
theorem Framed.complete (h : Framed ms t out xs ys hs ds) (hrest : t.rest = [])
    (hxs : xs.length < 3) (hys : ys = []) : Complete ms t := by
  obtain ⟨rfl, rfl⟩ := stands_done h.stands hrest
  subst hys
  have hflits := h.headerFlits
  rw [List.append_nil] at hflits
  obtain ⟨ms₁, ms₂, rfl, hmap, hleft⟩ := split_headers hflits
  have hnone : ms₂ = [] := by
    cases ms₂ with
    | nil => rfl
    | cons m ms₂ =>
      have hlen := congrArg List.length hleft
      cases m <;> simp [Message.header] at hlen <;> omega
  subst hnone
  refine ⟨hrest, ?_, ?_⟩
  · rw [h.headers, List.append_nil, hmap]
  · rw [h.dataFlits, List.append_nil, List.append_nil]

theorem framed_at (ms : List Message) (js : ℕ → Cycle) (n : ℕ) :
    ∃ out xs ys hs ds, Framed ms
      (Sync.stateAt step (start (ms.flatMap Message.flits)) js n) out xs ys hs ds := by
  refine Sync.stateAt_invariant (R := fun _ _ => True)
    (P := fun t => ∃ out xs ys hs ds, Framed ms t out xs ys hs ds)
    (fun t c _ ht => ?_) (fun _ => trivial) ⟨_, _, _, _, _, framed_start ms⟩ n
  obtain ⟨out, xs, ys, hs, ds, h⟩ := ht
  obtain ⟨out', xs', ys', hs', ds', h', -⟩ := framed_step c h
  exact ⟨out', xs', ys', hs', ds', h'⟩

/-- How much is still to be buffered and handed over. -/
def pending (ms : List Message) (t : Sys) : ℕ :=
  (2 * (ms.flatMap Message.header).length -
      (6 * t.headers.length + t.s.header.counterF.toNat)) +
    (2 * (ms.flatMap Message.data).length -
      (2 * t.datas.length + t.s.data.counterF.toNat))

theorem Framed.pending_eq (h : Framed ms t out xs ys hs ds) :
    pending ms t = xs.length + 2 * hs.length + (ys.length + 2 * ds.length) := by
  have hh := congrArg List.length h.headerFlits
  have hd := congrArg List.length h.dataFlits
  have hlen : t.headers.length = out.length := by rw [h.headers, List.length_map]
  simp only [List.length_append, length_unpack] at hh hd
  rw [pending, h.header.count, h.data.count, hlen]
  omega

/-! ## Nothing stays behind -/

/-- Nothing moves in the cycle. -/
def Still (t : Sys) (c : Cycle) : Prop :=
  headerPush t.s (input t c) = none ∧ dataPush t.s (input t c) = none ∧
    takesHeader t c = false ∧ takesData t c = false

/-- A cycle leaves less pending, or nothing moves in it. -/
theorem pending_step (h : Framed ms t out xs ys hs ds) (c : Cycle) :
    pending ms (step t c) < pending ms t ∨
      Still t c ∧ pending ms (step t c) = pending ms t ∧
        (step t c).s.header.counterF.toNat = t.s.header.counterF.toNat ∧
        (step t c).s.data.counterF.toNat = t.s.data.counterF.toNat := by
  obtain ⟨out', xs', ys', hs', ds', h', hm⟩ := framed_step c h
  obtain ⟨hhi, hho, hdi, hdo⟩ := hm
  have hpend := h.pending_eq
  have hpend' := h'.pending_eq
  rw [h.header.count, h.data.count, h'.header.count, h'.data.count]
  by_cases hstill : Still t c
  · obtain ⟨h1, h2, h3, h4⟩ := hstill
    rw [h1] at hhi hho
    rw [h2] at hdi hdo
    rw [h3] at hho
    rw [h4] at hdo
    simp only [Option.toList_none, List.length_nil, Bool.toNat_false] at hhi hho hdi hdo
    refine Or.inr ⟨⟨h1, h2, h3, h4⟩, ?_, ?_, ?_⟩ <;> omega
  · refine Or.inl (Nat.lt_of_not_le fun hle => hstill ⟨?_, ?_, ?_, ?_⟩)
    · exact Option.toList_eq_nil_iff.mp (List.length_eq_zero_iff.mp (by omega))
    · exact Option.toList_eq_nil_iff.mp (List.length_eq_zero_iff.mp (by omega))
    · exact Bool.toNat_eq_zero.mp (by omega)
    · exact Bool.toNat_eq_zero.mp (by omega)

theorem Framed.takesHeader_of (h : Framed ms t out xs ys hs ds) (hc : c.headerReady = true)
    (hge : 3 ≤ t.s.header.counterF.toNat) : takesHeader t c = true := by
  rw [h.header.count] at hge
  rw [takesHeader, (headerValid_iff h.header).mpr hge, hc, Bool.and_self]

theorem Framed.takesData_of (h : Framed ms t out xs ys hs ds) (hc : c.dataReady = true)
    (hge : 1 ≤ t.s.data.counterF.toNat) : takesData t c = true := by
  rw [h.data.count] at hge
  rw [takesData, (dataValid_iff h.data).mpr hge, hc, Bool.and_self]

/-- A flit that is offered while the buffers have room is buffered. -/
theorem not_still_of_offer (hoffer : c.offer = true) (hrest : t.rest ≠ [])
    (hh : t.s.header.full = false) (hd : t.s.data.full = false) : ¬ Still t c := by
  rintro ⟨h1, h2, -, -⟩
  have hval : (input t c).validIn = true := by
    simp [input, hoffer, hrest]
  simp only [headerPush, dataPush, hval, hh, hd, Bool.and_true, Bool.not_false] at h1 h2
  cases hm : muxHeader t.s <;> simp [hm] at h1 h2

open Sync in
/-- Nothing stays behind if nobody stops to offer or to take. -/
theorem drains (ms : List Message) (js : ℕ → Cycle)
    (hoffer : ∀ n, ∃ k, n ≤ k ∧ (js k).offer = true)
    (hheader : ∀ n, ∃ k, n ≤ k ∧ (js k).headerReady = true)
    (hdata : ∀ n, ∃ k, n ≤ k ∧ (js k).dataReady = true) :
    ∃ n, Complete ms (stateAt step (start (ms.flatMap Message.flits)) js n) := by
  let t := stateAt step (start (ms.flatMap Message.flits)) js
  have hle : ∀ n, ¬ Complete ms (t n) → pending ms (t (n + 1)) ≤ pending ms (t n) := by
    intro n _
    obtain ⟨out, xs, ys, hs, ds, h⟩ := framed_at ms js n
    rcases pending_step h (js n) with hlt | ⟨-, heq, -⟩
    · exact Nat.le_of_lt hlt
    · exact Nat.le_of_eq heq
  have hstuck : ∀ n, ¬ ∀ k, n ≤ k →
      ¬ Complete ms (t k) ∧ pending ms (t k) = pending ms (t n) := by
    intro n hall
    have hstill : ∀ k, n ≤ k → Still (t k) (js k) ∧
        (t (k + 1)).s.header.counterF.toNat = (t k).s.header.counterF.toNat ∧
        (t (k + 1)).s.data.counterF.toNat = (t k).s.data.counterF.toNat := by
      intro k hk
      obtain ⟨out, xs, ys, hs, ds, h⟩ := framed_at ms js k
      rcases pending_step h (js k) with hlt | ⟨hs, -, hcounts⟩
      · have h1 := (hall k hk).2
        have h2 := (hall (k + 1) (Nat.le_succ_of_le hk)).2
        change pending ms (t (k + 1)) < pending ms (t k) at hlt
        omega
      · exact ⟨hs, hcounts⟩
    have hcount : ∀ k, n ≤ k →
        (t k).s.header.counterF.toNat = (t n).s.header.counterF.toNat ∧
        (t k).s.data.counterF.toNat = (t n).s.data.counterF.toNat := by
      intro k hk
      induction k, hk using Nat.le_induction with
      | base => exact ⟨rfl, rfl⟩
      | succ k hk ih =>
        obtain ⟨-, h1, h2⟩ := hstill k hk
        exact ⟨h1.trans ih.1, h2.trans ih.2⟩
    -- no header is left, or it would be taken, and no data flit
    have hfew : (t n).s.header.counterF.toNat < 3 := by
      obtain ⟨k, hk, hready⟩ := hheader n
      obtain ⟨out, xs, ys, hs, ds, h⟩ := framed_at ms js k
      have hnot := (hstill k hk).1.2.2.1
      rw [← (hcount k hk).1]
      by_contra hge
      rw [h.takesHeader_of hready (Nat.le_of_not_lt hge)] at hnot
      cases hnot
    have hnone : (t n).s.data.counterF.toNat = 0 := by
      obtain ⟨k, hk, hready⟩ := hdata n
      obtain ⟨out, xs, ys, hs, ds, h⟩ := framed_at ms js k
      have hnot := (hstill k hk).1.2.2.2
      rw [← (hcount k hk).2]
      by_contra hne
      rw [h.takesData_of hready (Nat.pos_of_ne_zero hne)] at hnot
      cases hnot
    obtain ⟨k, hk, hgo⟩ := hoffer n
    obtain ⟨out, xs, ys, hs, ds, h⟩ := framed_at ms js k
    have hxs : xs.length < 3 := by
      rw [← h.header.count]
      exact (hcount k hk).1 ▸ hfew
    have hys : ys = [] := by
      rw [← List.length_eq_zero_iff, ← h.data.count]
      exact (hcount k hk).2.trans hnone
    have hrest : (t k).rest ≠ [] := fun hrest =>
      (hall k hk).1 (h.complete hrest hxs hys)
    have hh : (t k).s.header.full = false := by
      rw [← Bool.not_eq_true, h.header.full_iff]
      omega
    have hd : (t k).s.data.full = false := by
      rw [← Bool.not_eq_true, h.data.full_iff, hys]
      decide
    exact not_still_of_offer hgo hrest hh hd (hstill k hk).1
  obtain ⟨n, -, hdone⟩ := eventually_of_rank (fun n => pending ms (t n)) hle hstuck 0
  exact ⟨n, hdone⟩

open Sync in
/-- Whatever is offered and taken, the stream is accepted in order and its
headers and data flits come out in order and once, from buffers that never
overflow or underflow; and all of them come out if nobody stops to offer or
to take. -/
theorem delivers (ms : List Message) (js : ℕ → Cycle) :
    (∀ n, Intact ms (stateAt step (start (ms.flatMap Message.flits)) js n) ∧
      Fits (stateAt step (start (ms.flatMap Message.flits)) js n) (js n)) ∧
    ((∀ n, ∃ k, n ≤ k ∧ (js k).offer = true) →
      (∀ n, ∃ k, n ≤ k ∧ (js k).headerReady = true) →
      (∀ n, ∃ k, n ≤ k ∧ (js k).dataReady = true) →
      ∃ n, Complete ms (stateAt step (start (ms.flatMap Message.flits)) js n)) := by
  refine ⟨fun n => ?_, drains ms js⟩
  obtain ⟨out, xs, ys, hs, ds, h⟩ := framed_at ms js n
  exact ⟨h.intact, h.fits⟩

/-- An interrupt and a request with two data flits, taken in every cycle. -/
theorem delivers_two :
    ∃ n, Complete [.int 0x80000#64 7#64 (by decide),
        .req 0x1000000#64 1#64 2#64 [3#64, 4#64] (by decide) (by decide) (by decide)]
      (Sync.stateAt step (start [0x80000#64, 7#64, 0x1000000#64, 1#64, 2#64, 3#64, 4#64])
        (fun _ => ⟨true, 0#64, true, true⟩) n) :=
  (delivers [.int 0x80000#64 7#64 (by decide),
      .req 0x1000000#64 1#64 2#64 [3#64, 4#64] (by decide) (by decide) (by decide)]
    (fun _ => ⟨true, 0#64, true, true⟩)).2 (fun n => ⟨n, Nat.le_refl n, rfl⟩)
    (fun n => ⟨n, Nat.le_refl n, rfl⟩) (fun n => ⟨n, Nat.le_refl n, rfl⟩)

end Sys

end ArianeSoc.L2.BufIn
