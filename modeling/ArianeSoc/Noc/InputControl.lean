import ArianeSoc.Framing
import ArianeSoc.Noc.Route

/-!
# Header and tail of the packets at a router input

`dynamic_input_control.v`: a counter of the flits that the packet at the
head of the input buffer still has, kept one cycle behind, from which it
follows whether the flit at the head is a header and whether it is the last
one of its packet.

`Reads` says what the registers stand for: which part of a packet has left
the buffer (`rest`), with what the buffer holds.  `Reads.header_iff` and
`Reads.tail_iff` are what the outputs rely on.
-/

namespace ArianeSoc.Noc

open Framing

/-- The number of flits behind a header. -/
def bodyLen (header : Flit) : ℕ := (payloadLen header).toNat

/-- The registers of `dynamic_input_control`. -/
structure InputControl where
  countF : BitVec 8
  headerLastF : Bool
  thanksAllF : Bool
  countZeroF : Bool
  countOneF : Bool
  tailLastF : Bool

namespace InputControl

def reset : InputControl where
  countF := 0#8
  headerLastF := true
  thanksAllF := false
  countZeroF := true
  countOneF := false
  tailLastF := false

variable (q : InputControl)

def headerTemp : Bool :=
  match q.headerLastF, q.countZeroF, q.thanksAllF with
  | false, false, false => false
  | false, false, true => false
  | false, true, false => false
  | false, true, true => true
  | true, false, false => true
  | true, false, true => false
  | true, true, false => true
  | true, true, true => true

def header (validIn : Bool) : Bool := validIn && q.headerTemp

def countMinusOne : BitVec 8 := q.countF - 1#8

def countTemp (validIn : Bool) (length : BitVec 8) : BitVec 8 :=
  if q.header validIn then length
  else if q.thanksAllF then q.countMinusOne
  else q.countF

def tail (validIn : Bool) (length : BitVec 8) : Bool :=
  (q.header validIn && length = 0#8) || (!q.thanksAllF && q.tailLastF) ||
    (q.thanksAllF && q.countOneF)

/-- One cycle; `thanksAllTemp` says that an output takes the flit. -/
def next (validIn : Bool) (length : BitVec 8) (thanksAllTemp : Bool) :
    InputControl where
  countF := q.countTemp validIn length
  headerLastF := q.headerTemp
  thanksAllF := thanksAllTemp
  countZeroF := q.countTemp validIn length = 0#8
  countOneF := q.countTemp validIn length = 1#8
  tailLastF := q.tail validIn length

/-! ## What the registers stand for -/

/-- The flits of the packet that are behind the one at the head. -/
def bodyCount : BitVec 8 :=
  if q.thanksAllF then q.countMinusOne else q.countF

/-- The part of `tail` that is not about a header. -/
def bodyTail : Bool :=
  (!q.thanksAllF && q.tailLastF) || (q.thanksAllF && q.countOneF)

/-- The registers stand for a packet of which `rest` has left the buffer,
if the buffer holds `stored`. -/
structure Reads (q : InputControl) (rest stored : List Flit) : Prop where
  zero : q.countZeroF = true ↔ q.countF = 0#8
  one : q.countOneF = true ↔ q.countF = 1#8
  header : q.headerTemp = true ↔ rest = []
  body : ∀ h ps, rest = h :: ps →
    q.bodyCount.toNat + ps.length + 1 = bodyLen h
  bodyTail : ∀ h ps, rest = h :: ps →
    (q.bodyTail = true ↔ q.bodyCount = 0#8)
  idleTail : rest = [] → q.bodyTail = true →
    ∃ x xs, stored = x :: xs ∧ payloadLen x = 0#8

variable {q} {rest stored : List Flit} {x : Flit} {xs : List Flit}

theorem headerTemp_eq :
    q.headerTemp = if q.thanksAllF then q.countZeroF else q.headerLastF := by
  unfold headerTemp
  cases q.headerLastF <;> cases q.countZeroF <;> cases q.thanksAllF <;> rfl

theorem tail_eq (validIn : Bool) (length : BitVec 8) :
    q.tail validIn length =
      (q.header validIn && decide (length = 0#8) || q.bodyTail) := by
  unfold tail bodyTail
  rw [Bool.or_assoc]

theorem countTemp_eq (validIn : Bool) (length : BitVec 8) :
    q.countTemp validIn length =
      if q.header validIn then length else q.bodyCount := rfl

theorem bodyLen_eq_zero (h : Flit) : bodyLen h = 0 ↔ payloadLen h = 0#8 := by
  unfold bodyLen
  rw [← BitVec.toNat_inj, BitVec.toNat_zero]

theorem Reads.reset : Reads reset [] [] where
  zero := by simp [InputControl.reset]
  one := by simp [InputControl.reset]
  header := by simp [InputControl.reset, headerTemp]
  body := by simp
  bodyTail := by simp
  idleTail _ h := by simp [InputControl.reset, InputControl.bodyTail] at h

/-- Flits that come in behind change nothing. -/
theorem Reads.grow (h : Reads q rest stored) (ys : List Flit) :
    Reads q rest (stored ++ ys) where
  zero := h.zero
  one := h.one
  header := h.header
  body := h.body
  bodyTail := h.bodyTail
  idleTail hrest htail := by
    obtain ⟨x, xs, rfl, hlen⟩ := h.idleTail hrest htail
    exact ⟨x, xs ++ ys, rfl, hlen⟩

theorem Reads.header_iff (h : Reads q rest stored) (validIn : Bool) :
    q.header validIn = true ↔ validIn = true ∧ rest = [] := by
  unfold InputControl.header
  rw [Bool.and_eq_true, h.header]

/-- The flit at the head is the last one of its packet. -/
theorem Reads.tail_iff (h : Reads q rest (x :: xs)) {pks : List (List Flit)} :
    q.tail true (payloadLen x) = true ↔
      (Progress.feed bodyLen ⟨pks, rest⟩ x).rest = [] := by
  rw [tail_eq, Bool.or_eq_true, Bool.and_eq_true, h.header_iff,
    decide_eq_true_iff, ← bodyLen_eq_zero]
  cases rest with
  | nil =>
    rw [feed_header rfl]
    have hidle : q.bodyTail = true → bodyLen x = 0 := by
      intro htail
      obtain ⟨y, ys, heq, hlen⟩ := h.idleTail rfl htail
      rw [(List.cons.inj heq).1, bodyLen_eq_zero]
      exact hlen
    split_ifs with hz
    · simp [hz]
    · simp [hz, mt hidle hz]
  | cons b ps =>
    have hbody := h.body b ps rfl
    rw [feed_cons rfl, h.bodyTail b ps rfl, ← BitVec.toNat_inj,
      BitVec.toNat_zero]
    split_ifs with hle
    · simp only [and_false, false_and, false_or, iff_true]
      omega
    · simp only [and_false, false_and, false_or, iff_false]
      omega

/-- A cycle in which no output takes the flit at the head. -/
theorem Reads.next_idle (h : Reads q rest stored) {validIn : Bool}
    {length : BitVec 8} (hvalid : validIn = true → ∃ x xs,
      stored = x :: xs ∧ length = payloadLen x) :
    Reads (q.next validIn length false) rest stored where
  zero := decide_eq_true_iff
  one := decide_eq_true_iff
  header := by
    rw [headerTemp_eq]
    exact h.header
  body b ps hrest := by
    have hheader : q.header validIn = false := by
      rw [Bool.eq_false_iff, Ne, h.header_iff, hrest]
      simp
    show (q.countTemp validIn length).toNat + _ + 1 = _
    rw [countTemp_eq, hheader]
    exact h.body b ps hrest
  bodyTail b ps hrest := by
    have hheader : q.header validIn = false := by
      rw [Bool.eq_false_iff, Ne, h.header_iff, hrest]
      simp
    show (true && q.tail validIn length || false) = true ↔
      q.countTemp validIn length = 0#8
    rw [countTemp_eq, tail_eq, hheader]
    simpa using h.bodyTail b ps hrest
  idleTail hrest htail := by
    have htail' : q.tail validIn length = true := by
      simpa [InputControl.bodyTail, InputControl.next] using htail
    rw [tail_eq, Bool.or_eq_true, Bool.and_eq_true, h.header_iff,
      decide_eq_true_iff] at htail'
    rcases htail' with ⟨⟨hv, -⟩, hz⟩ | hb
    · obtain ⟨x, xs, hs, rfl⟩ := hvalid hv
      exact ⟨x, xs, hs, hz⟩
    · exact h.idleTail hrest hb

/-- After a cycle in which a flit leaves, the counter is that of the flits
that the packet still has. -/
theorem reads_of_countTemp {validIn : Bool} {length : BitVec 8}
    (hnil : rest = [] ↔ q.countTemp validIn length = 0#8)
    (hcons : ∀ b ps, rest = b :: ps →
      (q.countTemp validIn length).toNat + ps.length = bodyLen b) :
    Reads (q.next validIn length true) rest stored where
  zero := decide_eq_true_iff
  one := decide_eq_true_iff
  header := by
    rw [headerTemp_eq, hnil]
    exact decide_eq_true_iff
  body b ps hrest := by
    have hlen := hcons b ps hrest
    have hne : q.countTemp validIn length ≠ 0#8 := by
      rw [Ne, ← hnil, hrest]
      exact List.cons_ne_nil b ps
    rw [Ne, ← BitVec.toNat_inj, BitVec.toNat_zero] at hne
    have hlt := (q.countTemp validIn length).isLt
    show (q.countTemp validIn length - 1#8).toNat + _ + 1 = _
    rw [BitVec.toNat_sub]
    show (2 ^ 8 - 1 + _) % 2 ^ 8 + _ + 1 = _
    omega
  bodyTail b ps _ := by
    show decide (q.countTemp validIn length = 1#8) = true ↔
      q.countTemp validIn length - 1#8 = 0#8
    rw [decide_eq_true_iff, BitVec.sub_eq_iff_eq_add, BitVec.zero_add]
  idleTail hrest htail := by
    have hone : q.countTemp validIn length = 1#8 := of_decide_eq_true htail
    rw [hnil.mp hrest] at hone
    exact absurd hone (by decide)

/-- A cycle in which an output takes the flit at the head. -/
theorem Reads.next_thanks (h : Reads q rest (x :: xs))
    (pks : List (List Flit)) :
    Reads (q.next true (payloadLen x) true)
      (Progress.feed bodyLen ⟨pks, rest⟩ x).rest xs := by
  cases rest with
  | nil =>
    have hheader : q.header true = true := (h.header_iff true).mpr ⟨rfl, rfl⟩
    rw [feed_header rfl]
    apply reads_of_countTemp
    · rw [countTemp_eq, if_pos hheader, ← bodyLen_eq_zero]
      split_ifs with hz <;> simp [hz]
    · intro b ps hrest
      rw [countTemp_eq, if_pos hheader]
      split_ifs at hrest with hz
      obtain ⟨rfl, rfl⟩ := List.cons.inj hrest
      rfl
  | cons c cs =>
    have hheader : ¬ q.header true = true := by
      rw [h.header_iff]
      simp
    have hbody := h.body c cs rfl
    rw [feed_cons rfl]
    apply reads_of_countTemp
    · rw [countTemp_eq, if_neg hheader, ← BitVec.toNat_inj,
        BitVec.toNat_zero]
      by_cases hle : bodyLen c ≤ cs.length + 1
      · rw [if_pos hle]
        exact iff_of_true rfl (by omega)
      · rw [if_neg hle]
        exact iff_of_false (List.cons_ne_nil _ _) (by omega)
    · intro b ps hrest
      rw [countTemp_eq, if_neg hheader]
      split_ifs at hrest with hle
      obtain ⟨rfl, rfl⟩ := List.cons.inj hrest
      rw [List.length_append, List.length_singleton]
      omega

end InputControl

end ArianeSoc.Noc
