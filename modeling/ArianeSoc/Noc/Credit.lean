import ArianeSoc.Noc.Buffers
import ArianeSoc.Sync

/-!
# Credits between two routers

A sender with `space_avail_top`, a receiver with
`network_input_blk_multi_out`, and a link between them in each direction.
What a link carries stays in order; in which cycle it arrives is an input,
so that a link may have any delay, the same for all flits or not, and none
at all.

The sender may send if `spc_avail` is high and the receiver may take what
`data_avail` offers (`Obeys`).  `Safe` says that no credit is lost then and
none is made up, that all flits come out of the buffer as they were sent,
and that the counter of the sender has never saturated.
-/

namespace ArianeSoc.Noc

/-- The parameters of a link: the receiver has `2 ^ log2` slots and the
sender a counter of `bufferBits` bits for them. -/
structure LinkParams where
  log2 : ℕ
  bufferBits : ℕ
  log2_pos : 0 < log2
  fits : log2 < bufferBits

/-- `BUFFER_SIZE`. -/
def LinkParams.bufferSize (p : LinkParams) : ℕ := 2 ^ p.log2

theorem LinkParams.bufferSize_lt (p : LinkParams) :
    p.bufferSize < 2 ^ p.bufferBits :=
  Nat.pow_lt_pow_right (by omega) p.fits

/-- A sender and a receiver with what is under way between them. -/
structure Link (p : LinkParams) (α : Type) where
  sender : SpaceAvail p.bufferBits
  receiver : InputBlk p.log2 α
  /-- The flits under way, oldest first, and the number of credits that are
  under way back. -/
  flits : List α
  credits : ℕ
  /-- What has been sent and taken so far, and the credits that have come
  back. -/
  sent : List α
  taken : List α
  returned : ℕ

/-- One cycle: what the sender sends, whether a flit and a credit arrive,
and whether the receiver's head is taken. -/
structure LinkIn (α : Type) where
  data : Option α
  arrive : Bool
  yummy : Bool
  thanks : Bool

namespace Link

variable {p : LinkParams} {α : Type}

def reset (p : LinkParams) (storageDataF : BitVec p.log2 → α) : Link p α where
  sender := SpaceAvail.reset p.bufferSize p.bufferBits
  receiver := InputBlk.reset storageDataF
  flits := []
  credits := 0
  sent := []
  taken := []
  returned := 0

variable (l : Link p α) (i : LinkIn α)

/-- The flits on the link in this cycle. -/
def travelling : List α := l.flits ++ i.data.toList

/-- The flit that arrives. -/
def validIn : Option α := if i.arrive then (l.travelling i).head? else none

/-- The credits on the link in this cycle. -/
def returning : ℕ := l.credits + l.receiver.yummyOutF.toNat

/-- A credit arrives. -/
def yummyIn : Bool := i.yummy && decide (0 < l.returning)

def step : Link p α where
  sender := l.sender.next p.bufferSize i.data.isSome (l.yummyIn i)
  receiver := l.receiver.next (l.validIn i) i.thanks
  flits := (l.travelling i).drop (l.validIn i).toList.length
  credits := l.returning - (l.yummyIn i).toNat
  sent := l.sent ++ i.data.toList
  taken := l.taken ++ if i.thanks then [l.receiver.dataVal] else []
  returned := l.returned + (l.yummyIn i).toNat

/-- The sender sends if it may and the receiver takes if there is data. -/
structure Obeys : Prop where
  valid : i.data.isSome = true → l.sender.spcAvail = true
  thanks : i.thanks = true → l.receiver.dataAvail = true

/-- The credits that the sender has got and not spent yet. -/
def held : ℕ := p.bufferSize + l.returned - l.sent.length

/-- The flits in the receiver's buffer. -/
def stored : ℕ := l.receiver.elementsInArrayF.toNat

/-- What holds in every state. -/
structure Safe (l : Link p α) : Prop where
  /-- Flits stored or under way and credits held or under way back. -/
  conserved : l.stored + l.flits.length + (l.held + l.returning) =
    p.bufferSize
  /-- No more is spent than there was. -/
  spent : l.sent.length ≤ p.bufferSize + l.returned
  /-- The buffer holds what has been sent and has arrived, but has not been
  taken. -/
  holds : ∃ unread, l.receiver.Holds unread ∧
    l.sent = l.taken ++ unread ++ l.flits
  /-- The next value of the counter is that of the registers, a credit more
  for `yummy` and one less for `valid`. -/
  unsaturated : (l.sender.countTemp p.bufferSize).toNat +
    l.sender.validF.toNat = l.sender.countF.toNat + l.sender.yummyF.toNat
  available : l.sender.spcAvail = true ↔ 0 < l.held

/-- The invariant: the counter tracks the credits that are held. -/
structure Inv (l : Link p α) : Prop where
  conserved : l.stored + l.flits.length + (l.held + l.returning) =
    p.bufferSize
  spent : l.sent.length ≤ p.bufferSize + l.returned
  holds : ∃ unread, l.receiver.Holds unread ∧
    l.sent = l.taken ++ unread ++ l.flits
  tracks : l.sender.Tracks p.bufferSize l.held

variable {l i}

theorem Inv.safe (h : Inv l) : Safe l where
  conserved := h.conserved
  spent := h.spent
  holds := h.holds
  unsaturated := by
    rw [h.tracks.countTemp_toNat p.bufferSize_lt]
    exact h.tracks.count.symm
  available := h.tracks.spcAvail_iff

theorem Inv.reset (storageDataF : BitVec p.log2 → α) :
    Inv (Link.reset p storageDataF) where
  conserved := by
    show (0 : BitVec (p.log2 + 1)).toNat + 0 + (p.bufferSize + 0 - 0 + 0) = _
    rw [show (0 : BitVec (p.log2 + 1)).toNat = 0 from BitVec.toNat_zero]
    omega
  spent := Nat.zero_le _
  holds := ⟨[], InputBlk.Holds.reset storageDataF, rfl⟩
  tracks := SpaceAvail.Tracks.reset p.bufferSize_lt

/-- What a cycle does to the number of flits under way. -/
theorem flits_length_step :
    (l.step i).flits.length + (l.validIn i).isSome.toNat =
      l.flits.length + i.data.isSome.toNat := by
  have hlength : (l.travelling i).length =
      l.flits.length + i.data.isSome.toNat := by
    unfold travelling
    rw [List.length_append]
    cases i.data <;> rfl
  show ((l.travelling i).drop _).length + _ = _
  rw [List.length_drop, ← hlength]
  unfold validIn
  cases i.arrive with
  | false => rfl
  | true =>
    rw [if_pos rfl]
    cases l.travelling i with
    | nil => rfl
    | cons x xs => rfl

/-- What arrives is the head of what is under way. -/
theorem validIn_append :
    (l.validIn i).toList ++ (l.step i).flits = l.flits ++ i.data.toList := by
  show _ ++ (l.travelling i).drop _ = l.travelling i
  unfold validIn
  cases i.arrive with
  | false => rfl
  | true =>
    rw [if_pos rfl]
    cases l.travelling i with
    | nil => rfl
    | cons x xs => rfl

/-- Whoever sends holds a credit. -/
theorem Inv.held_pos (h : Inv l) (ho : Obeys l i)
    (hv : i.data.isSome = true) : 0 < l.held :=
  h.tracks.spcAvail_iff.mp (ho.valid hv)

theorem length_sent_step :
    (l.sent ++ i.data.toList).length =
      l.sent.length + i.data.isSome.toNat := by
  rw [List.length_append]
  cases i.data <;> rfl

/-- A flit costs the sender a credit, and a yummy gives one back. -/
theorem Inv.held_step (h : Inv l) (ho : Obeys l i) :
    (l.step i).held + i.data.isSome.toNat =
      l.held + (l.yummyIn i).toNat := by
  have hvalid := h.held_pos ho
  have hspent := h.spent
  show p.bufferSize + (l.returned + (l.yummyIn i).toNat) -
    (l.sent ++ i.data.toList).length + _ = p.bufferSize + l.returned -
      l.sent.length + _
  rw [length_sent_step]
  unfold held at hvalid
  cases hd : i.data.isSome with
  | false =>
    rw [Bool.toNat_false]
    omega
  | true =>
    have hpos := hvalid hd
    rw [Bool.toNat_true]
    omega

theorem Inv.spent_step (h : Inv l) (ho : Obeys l i) :
    (l.step i).sent.length ≤ p.bufferSize + (l.step i).returned := by
  have hvalid := h.held_pos ho
  have hspent := h.spent
  show (l.sent ++ i.data.toList).length ≤ p.bufferSize + (l.returned + _)
  rw [length_sent_step]
  unfold held at hvalid
  cases hd : i.data.isSome with
  | false =>
    rw [Bool.toNat_false]
    omega
  | true =>
    have hpos := hvalid hd
    rw [Bool.toNat_true]
    omega

/-- A flit that is taken starts a credit on its way back. -/
theorem returning_step :
    (l.step i).returning + (l.yummyIn i).toNat =
      l.returning + i.thanks.toNat := by
  have hyummy : (l.yummyIn i).toNat ≤ l.returning := by
    cases hy : l.yummyIn i with
    | false => exact Nat.zero_le _
    | true =>
      unfold yummyIn at hy
      rw [Bool.and_eq_true, decide_eq_true_iff] at hy
      exact hy.2
  show l.returning - (l.yummyIn i).toNat + i.thanks.toNat + _ = _
  omega

/-- A flit on the link has a slot of its own. -/
theorem Inv.room (h : Inv l) (ho : Obeys l i)
    (harrives : (l.validIn i).isSome = true) :
    l.stored < 2 ^ p.log2 := by
  have hconserved := h.conserved
  have hflits := flits_length_step (l := l) (i := i)
  have hsize : p.bufferSize = 2 ^ p.log2 := rfl
  rw [harrives] at hflits
  cases hd : i.data.isSome with
  | false =>
    rw [hd, Bool.toNat_true, Bool.toNat_false] at hflits
    omega
  | true =>
    have hpos := h.held_pos ho hd
    omega

/-- The queue of the receiver after a cycle. -/
theorem length_after {unread : List α} {valid : Option α} {thanks : Bool}
    (hthanks : thanks = true → unread ≠ []) :
    (InputBlk.after unread valid thanks).length + thanks.toNat =
      unread.length + valid.isSome.toNat := by
  unfold InputBlk.after
  rw [List.length_append]
  cases thanks with
  | false => cases valid <;> rfl
  | true =>
    have hpos := List.length_pos_of_ne_nil (hthanks rfl)
    rw [if_pos rfl, List.length_tail, Bool.toNat_true]
    cases valid with
    | none =>
      show unread.length - 1 + 0 + 1 = unread.length + 0
      omega
    | some x =>
      show unread.length - 1 + 1 + 1 = unread.length + 1
      omega

theorem Inv.step (h : Inv l) (ho : Obeys l i) : Inv (l.step i) := by
  obtain ⟨unread, hholds, hsent⟩ := h.holds
  have hconserved := h.conserved
  have hflits := flits_length_step (l := l) (i := i)
  have hheld := h.held_step ho
  have hreturning := returning_step (l := l) (i := i)
  have hstored : l.stored = unread.length := hholds.elements
  have hthanks : i.thanks = true → unread ≠ [] :=
    fun ht => hholds.dataAvail_iff.mp (ho.thanks ht)
  have hnext := hholds.next (fun ha => hstored ▸ h.room ho ha) hthanks
  have hunread : (l.step i).stored + i.thanks.toNat =
      l.stored + (l.validIn i).isSome.toNat := by
    rw [hstored, show (l.step i).stored = _ from hnext.elements]
    exact length_after hthanks
  have hconserved' : (l.step i).stored + (l.step i).flits.length +
      ((l.step i).held + (l.step i).returning) = p.bufferSize := by
    omega
  refine ⟨hconserved', h.spent_step ho, ⟨_, hnext, ?_⟩, ?_⟩
  · show l.sent ++ i.data.toList = l.taken ++ _ ++ _ ++ (l.step i).flits
    unfold InputBlk.after
    rw [hsent, List.append_assoc _ l.flits, ← validIn_append]
    cases ht : i.thanks with
    | false => simp
    | true =>
      obtain ⟨x, xs, rfl⟩ := List.exists_cons_of_ne_nil (hthanks ht)
      rw [hholds.dataVal_eq]
      simp
  · exact h.tracks.next p.bufferSize_lt (h.held_pos ho) hheld (by omega)

/-- In a run in which sender and receiver keep to the protocol no credit is
lost and no flit overwritten. -/
theorem credit_safety (p : LinkParams) (storageDataF : BitVec p.log2 → α)
    (is : List (LinkIn α))
    (h : Sync.Along Link.step Obeys (Link.reset p storageDataF) is) :
    Sync.Always Link.step Safe (Link.reset p storageDataF) is :=
  (h.always (P := Inv) (fun _ _ ho hi => hi.step ho)
    (Inv.reset storageDataF)).mono fun _ hi => hi.safe

/-- Four slots, a flit that is sent while the one before it is taken. -/
theorem credit_safety_fourSlots :
    let p : LinkParams := ⟨2, 3, by decide, by decide⟩
    let is : List (LinkIn ℕ) := [⟨some 7, true, false, false⟩,
      ⟨some 8, true, false, true⟩, ⟨none, false, true, true⟩,
      ⟨some 9, false, true, false⟩]
    Sync.Always Link.step Safe (Link.reset p fun _ => 0) is :=
  credit_safety _ _ _ ⟨⟨by decide, by decide⟩, ⟨by decide, by decide⟩,
    ⟨by decide, by decide⟩, ⟨by decide, by decide⟩, trivial⟩

end Link

end ArianeSoc.Noc
