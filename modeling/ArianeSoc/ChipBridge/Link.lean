import ArianeSoc.ChipBridge.Ends
import ArianeSoc.Sync

/-!
# A link between two chips

`chip_bridge_out` of one chip, `chip_bridge_in` of the other, the channel
from the first to the second and the credits the other way.  What is on the
channel at an edge of the sender's clock is what the receiver sees at one of
its edges, in order; the edges of the two and of the receiving chip come in
any order, and a credit takes any time.

`Carries` says which flits a stream of halves stands for.  The stream between
the two sides carries what has been sent and not yet come out, whatever the
three phases are (`Inv`).
-/

namespace ArianeSoc.ChipBridge

open Noc (Flit)

/-! ## Flits in halves -/

/-- The flits that a stream of halves stands for. -/
inductive Carries : List Half → List (Net × Flit) → Prop
  | nil : Carries [] []
  | idle (d : BitVec 32) {s : List Half} {xs : List (Net × Flit)}
      (h : Carries s xs) : Carries (⟨0b00#2, d⟩ :: s) xs
  | flit (k : Net) (x : Flit) {s : List Half} {xs : List (Net × Flit)}
      (h : Carries s xs) :
      Carries (⟨k.channel, x.extractLsb' 0 32⟩ ::
        ⟨k.channel, x.extractLsb' 32 32⟩ :: s) ((k, x) :: xs)

/-- The flits of a network. -/
def flitsOf (k : Net) (xs : List (Net × Flit)) : List Flit :=
  (xs.filter fun x => x.1 = k).map Prod.snd

variable {s s' : List Half} {xs xs' : List (Net × Flit)}

theorem Carries.append (h : Carries s xs) (h' : Carries s' xs') :
    Carries (s ++ s') (xs ++ xs') := by
  induction h with
  | nil => exact h'
  | idle d _ ih => exact .idle d ih
  | flit k x _ ih => exact .flit k x ih

/-- A stream starts with an idle half or with the two halves of a flit. -/
theorem Carries.cons_cases {h : Half} (hc : Carries (h :: s) xs) :
    h.channel = 0b00#2 ∧ Carries s xs ∨
      ∃ (k : Net) (x : Flit) (t : List Half) (ys : List (Net × Flit)),
        h = ⟨k.channel, x.extractLsb' 0 32⟩ ∧
        s = ⟨k.channel, x.extractLsb' 32 32⟩ :: t ∧
        xs = (k, x) :: ys ∧ Carries t ys := by
  cases hc with
  | idle d hs => exact .inl ⟨rfl, hs⟩
  | flit k x ht => exact .inr ⟨k, x, _, _, rfl, rfl, rfl, ht⟩

theorem Net.channel_ne_zero (k : Net) : k.channel ≠ 0b00#2 := by
  cases k <;> decide

theorem Net.channel_inj {j k : Net} (h : j.channel = k.channel) : j = k := by
  cases j <;> cases k <;> first | rfl | exact absurd h (by decide)

theorem channel_cases (c : BitVec 2) : c = 0b00#2 ∨ ∃ k : Net, c = k.channel := by
  have hlt := c.isLt
  have hcases : c.toNat = 0 ∨ c.toNat = 1 ∨ c.toNat = 2 ∨ c.toNat = 3 := by
    omega
  rcases hcases with h | h | h | h
  · exact .inl (BitVec.eq_of_toNat_eq h)
  · exact .inr ⟨.n1, BitVec.eq_of_toNat_eq h⟩
  · exact .inr ⟨.n2, BitVec.eq_of_toNat_eq h⟩
  · exact .inr ⟨.n3, BitVec.eq_of_toNat_eq h⟩

/-- The two halves of a flit. -/
theorem halves_append (x : Flit) :
    x.extractLsb' 32 32 ++ x.extractLsb' 0 32 = x := by
  apply BitVec.eq_of_getLsbD_eq
  intro i hi
  rw [BitVec.getLsbD_append]
  by_cases hlo : i < 32
  · simp [hlo]
  · have hsub : i - 32 < 32 := by omega
    have hadd : 32 + (i - 32) = i := by omega
    simp [hlo, hsub, hadd]

/-! ## The chooser -/

section Chooser

variable {c : Chooser} {val : Net → Bool} {j k : Net}

/-- A network that is chosen has a flit and may send it. -/
theorem full_of_select (hc : c.selectCounter = false)
    (hsel : c.select val = k.channel) : c.full val k = false := by
  unfold Chooser.select at hsel
  rw [hc] at hsel
  cases h1 : c.full val .n1 <;> cases h2 : c.full val .n2 <;>
    cases h3 : c.full val .n3 <;> cases k <;>
      simp [h1, h2, h3, Net.channel] at hsel ⊢
  all_goals
    split at hsel <;> exact absurd hsel (by decide)

theorem full_eq_false : c.full val k = false ↔
    c.credit k ≠ 255#9 ∧ val k = true := by
  simp [Chooser.full]

theorem sends_iff : c.sends val k = true ↔
    c.selectCounter = false ∧ c.select val = k.channel := by
  unfold Chooser.sends Chooser.rdy
  constructor
  · intro h
    simp only [Bool.and_eq_true, decide_eq_true_iff, Bool.not_eq_true'] at h
    exact ⟨h.1.2, h.1.1⟩
  · rintro ⟨hc, hsel⟩
    have hval := (full_eq_false.mp (full_of_select hc hsel)).2
    simp [hc, hsel, hval]

/-- One flit at a time. -/
theorem sends_unique (hk : c.sends val k = true) (hj : c.sends val j = true) :
    j = k :=
  Net.channel_inj ((sends_iff.mp hj).2.symm.trans (sends_iff.mp hk).2)

theorem sends_other (hk : c.sends val k = true) (hj : j ≠ k) :
    c.sends val j = false :=
  Bool.eq_false_iff.mpr fun h => hj (sends_unique hk h)

/-- The data are those of the network that sends. -/
theorem dataOut_of_sends {din : Net → Flit} (hk : c.sends val k = true) :
    c.dataOut val din = din k := by
  obtain ⟨hc, hsel⟩ := sends_iff.mp hk
  unfold Chooser.dataOut Chooser.rdy
  rw [hc, hsel]
  cases k <;> simp [Net.channel]

/-- What a cycle does to the count of a network. -/
theorem credit_next {credits : Net → Bool}
    (hlimit : (c.credit k).toNat ≤ 255)
    (hlow : credits k = true → 0 < (c.credit k).toNat) :
    ((c.next val credits).credit k).toNat + (credits k).toNat =
      (c.credit k).toNat + (c.sends val k).toNat := by
  show (if c.sends val k = true then _ else _ : BitVec 9).toNat + _ = _
  cases hs : c.sends val k with
  | true =>
    cases hcr : credits k with
    | true => rfl
    | false =>
      simp only [if_true, Bool.false_eq_true, if_false]
      rw [BitVec.toNat_add]
      show (_ + 1) % 512 + 0 = _ + 1
      omega
  | false =>
    cases hcr : credits k with
    | true =>
      have hpos := hlow hcr
      simp only [if_true, Bool.false_eq_true, if_false]
      rw [BitVec.toNat_sub]
      show (512 - 1 + _) % 512 + 1 = _ + 0
      omega
    | false => rfl

/-- A network that sends has a credit left. -/
theorem credit_lt (hs : c.sends val k = true)
    (hlimit : (c.credit k).toNat ≤ 255) : (c.credit k).toNat < 255 := by
  obtain ⟨hc, hsel⟩ := sends_iff.mp hs
  have hne := (full_eq_false.mp (full_of_select hc hsel)).1
  have hne' : (c.credit k).toNat ≠ 255 :=
    fun h => hne (BitVec.eq_of_toNat_eq h)
  omega

end Chooser

/-! ## The link -/

/-- Both sides with what is under way between them. -/
structure Link where
  chooser : Chooser
  serial : Serial
  /-- The FIFOs in front of the chooser. -/
  queue : Net → List Flit
  /-- What the receiver has not seen of the channel, oldest first. -/
  wire : List Half
  receiver : Receiver
  /-- The credits on the channel, oldest first. -/
  credits : List Credits
  /-- All flits that were put into the FIFOs, that the chooser took out, that
  the other chip has got and that a full FIFO lost, and the number of credits
  that have come back. -/
  offered : Net → List Flit
  sent : Net → List Flit
  consumed : Net → List Flit
  dropped : Net → List Flit
  credited : Net → ℕ

/-- What can happen. -/
inductive Event where
  /-- A flit goes into a FIFO that is not full. -/
  | offer (k : Net) (x : Flit)
  /-- An edge of the sender's clock; `seen` are the FIFOs that do not look
  empty, `arrives` says that credits are on the channel. -/
  | send (seen : Net → Bool) (arrives : Bool)
  /-- An edge of the receiver's clock. -/
  | receive (seen : Bool)
  /-- An edge of the clock of the receiving chip. -/
  | take (seen : Net → Bool) (creditFull : Bool) (boutRdy : Net → Bool)

namespace Link

def reset (bufferedChannel : BitVec 2) : Link where
  chooser := .reset
  serial := .reset
  queue := fun _ => []
  wire := []
  receiver := .reset bufferedChannel
  credits := []
  offered := fun _ => []
  sent := fun _ => []
  consumed := fun _ => []
  dropped := fun _ => []
  credited := fun _ => 0

variable (l : Link)

/-- `val_1` to `val_3` of the chooser. -/
def val (seen : Net → Bool) (k : Net) : Bool :=
  seen k && !(l.queue k).isEmpty

/-- `din_1` to `din_3` of the chooser. -/
def din (k : Net) : Flit := (l.queue k).headD 0#64

/-- `credit_from_fpga`. -/
def creditIn (arrives : Bool) : Credits :=
  if arrives then l.credits.headD fun _ => false else fun _ => false

def send (seen : Net → Bool) (arrives : Bool) : Link :=
  { l with
    chooser := l.chooser.next (l.val seen) (l.creditIn arrives)
    serial := l.serial.next (l.chooser.select (l.val seen))
      (l.chooser.dataOut (l.val seen) l.din)
    queue := fun k =>
      if l.chooser.sends (l.val seen) k then (l.queue k).tail else l.queue k
    wire := l.wire ++ [l.serial.out]
    credits := if arrives then l.credits.tail else l.credits
    sent := fun k => l.sent k ++
      if l.chooser.sends (l.val seen) k then [l.din k] else []
    credited := fun k => l.credited k + (l.creditIn arrives k).toNat }

/-- The receiver has an edge for every edge of the sender, at any time
later. -/
def receive (depth : ℕ) (seen : Bool) : Link :=
  match l.wire with
  | [] => l
  | h :: wire =>
    { l with
      receiver := l.receiver.channelEdge depth h seen
      wire := wire
      credits := l.credits ++ [l.receiver.creditToFpgaR]
      dropped := fun k => l.dropped k ++
        if l.receiver.buffer.sortVal k &&
            !decide ((l.receiver.fifo k).length < depth) then
          [l.receiver.buffer.bufferedData h]
        else [] }

def take (gather : Credits) : Link :=
  { l with
    receiver := l.receiver.chipEdge gather
    consumed := fun k => l.consumed k ++
      if gather k then (l.receiver.fifo k).head?.toList else [] }

def step (depth : ℕ) : Event → Link
  | .offer k x =>
    { l with
      queue := fun j => if j = k then l.queue j ++ [x] else l.queue j
      offered := fun j =>
        if j = k then l.offered j ++ [x] else l.offered j }
  | .send seen arrives => l.send seen arrives
  | .receive seen => l.receive depth seen
  | .take seen creditFull boutRdy =>
    l.take (l.receiver.creditGather seen creditFull boutRdy)

/-! ## What holds in every state -/

/-- The halves between the chooser and the FIFOs of the receiver: the one
that waits for its second half, those on the channel, the one that the
serialiser puts on it and the second half that it will. -/
def stream : List Half :=
  (if l.receiver.buffer.channelBufferCount then
    [⟨l.receiver.buffer.bufferedChannel, l.receiver.buffer.channelBuffer⟩]
  else []) ++ l.wire ++ [l.serial.out] ++
    if l.serial.serialBufferDataCounter then []
    else [⟨l.serial.serialBufferChannel, l.serial.serialBufferData⟩]

/-- The credits of a network that are on their way back. -/
def creditsAway (k : Net) : ℕ :=
  l.receiver.creditFifo.countP (fun c => c k) +
    (l.receiver.creditToFpgaR k).toNat + l.credits.countP fun c => c k

structure Kept (l : Link) : Prop where
  /-- What was offered is, in this order, with the other chip, in the FIFO of
  the receiver, in the stream or in the FIFO of the sender. -/
  inOrder : ∃ xs, Carries l.stream xs ∧ ∀ k,
    l.offered k = l.consumed k ++ l.receiver.fifo k ++ flitsOf k xs ++
      l.queue k
  credit : ∀ k, (l.chooser.credit k).toNat + l.credited k =
    (l.sent k).length
  limit : ∀ k, (l.chooser.credit k).toNat ≤ 255
  complete : ∀ k, l.dropped k = []

/-- The invariant, with the flits in the stream. -/
structure Inv (l : Link) (xs : List (Net × Flit)) : Prop where
  carries : Carries l.stream xs
  /-- The phases of the chooser and of the serialiser are opposite. -/
  phase : l.chooser.selectCounter = !l.serial.serialBufferDataCounter
  second : l.chooser.selectCounter = true →
    l.chooser.selectReg ≠ 0b00#2 ∧ l.serial.serialBufferChannelDup ≠ 0b00#2
  buffered : l.receiver.buffer.channelBufferCount = true →
    l.receiver.buffer.bufferedChannel ≠ 0b00#2
  sent : ∀ k, l.sent k = l.consumed k ++ l.receiver.fifo k ++ flitsOf k xs
  offered : ∀ k, l.offered k = l.sent k ++ l.queue k
  credit : ∀ k, (l.chooser.credit k).toNat + l.credited k =
    (l.sent k).length
  away : ∀ k, (l.consumed k).length = l.credited k + l.creditsAway k
  limit : ∀ k, (l.chooser.credit k).toNat ≤ 255
  complete : ∀ k, l.dropped k = []

theorem Inv.kept {l : Link} (h : Inv l xs) : Kept l where
  inOrder := ⟨xs, h.carries, fun k => by rw [h.offered, h.sent]⟩
  credit := h.credit
  limit := h.limit
  complete := h.complete

theorem Inv.reset (bufferedChannel : BitVec 2) :
    Inv (Link.reset bufferedChannel) [] where
  carries := .idle _ .nil
  phase := rfl
  second := fun h => Bool.noConfusion h
  buffered := fun h => Bool.noConfusion h
  sent := fun _ => rfl
  offered := fun _ => rfl
  credit := fun _ => rfl
  away := fun _ => rfl
  limit := fun _ => Nat.zero_le _
  complete := fun _ => rfl

/-! ## The events -/

variable {l} {depth : ℕ}

theorem Inv.step_offer (h : Inv l xs) (k : Net) (x : Flit) :
    Inv (l.step depth (.offer k x)) xs := by
  refine ⟨h.carries, h.phase, h.second, h.buffered, h.sent, fun j => ?_,
    h.credit, h.away, h.limit, h.complete⟩
  show (if j = k then l.offered j ++ [x] else l.offered j) =
    l.sent j ++ if j = k then l.queue j ++ [x] else l.queue j
  rw [h.offered j]
  split_ifs
  · exact List.append_assoc _ _ _
  · rfl

theorem flitsOf_append (k : Net) (xs ys : List (Net × Flit)) :
    flitsOf k (xs ++ ys) = flitsOf k xs ++ flitsOf k ys := by
  unfold flitsOf
  rw [List.filter_append, List.map_append]

theorem flitsOf_cons (j k : Net) (x : Flit) (xs : List (Net × Flit)) :
    flitsOf j ((k, x) :: xs) =
      (if k = j then [x] else []) ++ flitsOf j xs := by
  unfold flitsOf
  by_cases hjk : k = j <;> simp [hjk]

/-- What the chip takes goes from the FIFO to the chip, and a credit for it
into the credit FIFO. -/
theorem Inv.step_take (h : Inv l xs) {gather : Credits}
    (hg : ∀ k, gather k = true → l.receiver.fifo k ≠ []) :
    Inv (l.take gather) xs := by
  have hmove : ∀ k, (l.take gather).consumed k ++
      (l.take gather).receiver.fifo k =
        l.consumed k ++ l.receiver.fifo k := by
    intro k
    show l.consumed k ++ (if gather k = true then _ else _) ++
      (if gather k = true then _ else _) = _
    cases hk : gather k with
    | false => simp
    | true =>
      obtain ⟨x, rest, hfifo⟩ := List.exists_cons_of_ne_nil (hg k hk)
      simp [hfifo]
  have hone : ∀ k, ((l.take gather).consumed k).length =
      (l.consumed k).length + (gather k).toNat := by
    intro k
    show (l.consumed k ++ if gather k = true then _ else _).length = _
    rw [List.length_append]
    cases hk : gather k with
    | false => rfl
    | true =>
      obtain ⟨x, rest, hfifo⟩ := List.exists_cons_of_ne_nil (hg k hk)
      simp [hfifo]
  have haway : ∀ k, (l.take gather).creditsAway k =
      l.creditsAway k + (gather k).toNat := by
    intro k
    unfold creditsAway
    show (if (gather .n1 || gather .n2 || gather .n3) = true then _
      else _ : List Credits).countP _ + (l.receiver.creditToFpgaR k).toNat +
        l.credits.countP _ = _
    split
    · rw [List.countP_append, List.countP_singleton]
      cases hk : gather k
      · simp
      · simp only [if_true, Bool.toNat_true]
        omega
    · next hnone =>
      have hk : gather k = false := by
        cases k <;> simp_all
      simp [hk]
  refine ⟨h.carries, h.phase, h.second, h.buffered, fun k => ?_, h.offered,
    h.credit, fun k => ?_, h.limit, h.complete⟩
  · rw [hmove]
    exact h.sent k
  · have hk := h.away k
    have hk' := hone k
    have hk'' := haway k
    show ((l.take gather).consumed k).length = l.credited k + _
    omega

/-! ## An edge of the receiver -/

section Receive

variable {half : Half} {wire : List Half}

theorem receive_eq (hw : l.wire = half :: wire) (seen : Bool) :
    l.receive depth seen =
      { l with
        receiver := l.receiver.channelEdge depth half seen
        wire := wire
        credits := l.credits ++ [l.receiver.creditToFpgaR]
        dropped := fun k => l.dropped k ++
          if l.receiver.buffer.sortVal k &&
              !decide ((l.receiver.fifo k).length < depth) then
            [l.receiver.buffer.bufferedData half]
          else [] } := by
  unfold receive
  rw [hw]

/-- A credit only moves on. -/
theorem creditsAway_receive (hw : l.wire = half :: wire) (seen : Bool)
    (k : Net) : (l.receive depth seen).creditsAway k = l.creditsAway k := by
  rw [receive_eq hw]
  unfold creditsAway Receiver.channelEdge
  dsimp only
  rw [List.countP_append, List.countP_singleton]
  cases seen with
  | false =>
    cases hr : l.receiver.creditToFpgaR k <;> simp
    omega
  | true =>
    cases hf : l.receiver.creditFifo with
    | nil =>
      cases hr : l.receiver.creditToFpgaR k <;> simp
      omega
    | cons c cs =>
      cases hr : l.receiver.creditToFpgaR k <;> cases hc : c k <;>
        simp [hc] <;> omega

/-- What is left to show of an edge of the receiver. -/
theorem Inv.of_receive (h : Inv l xs) (hw : l.wire = half :: wire)
    {seen : Bool} {ys : List (Net × Flit)}
    (hcarries : Carries (l.receive depth seen).stream ys)
    (hbuffered : (l.receive depth seen).receiver.buffer.channelBufferCount =
      true → (l.receive depth seen).receiver.buffer.bufferedChannel ≠ 0b00#2)
    (hfifo : ∀ k, (l.receive depth seen).receiver.fifo k ++ flitsOf k ys =
      l.receiver.fifo k ++ flitsOf k xs)
    (hdropped : (l.receive depth seen).dropped = l.dropped) :
    Inv (l.receive depth seen) ys := by
  refine ⟨hcarries, ?_, ?_, hbuffered, fun k => ?_, ?_, ?_, fun k => ?_, ?_,
    fun k => ?_⟩
  · rw [receive_eq hw]
    exact h.phase
  · rw [receive_eq hw]
    exact h.second
  · rw [List.append_assoc, hfifo, ← List.append_assoc, receive_eq hw]
    exact h.sent k
  · rw [receive_eq hw]
    exact h.offered
  · rw [receive_eq hw]
    exact h.credit
  · rw [creditsAway_receive hw, receive_eq hw]
    exact h.away k
  · rw [receive_eq hw]
    exact h.limit
  · rw [hdropped]
    exact h.complete k

/-- A first half waits in the buffer, and an idle one is gone. -/
theorem Inv.receive_first (h : Inv l xs) (hw : l.wire = half :: wire)
    (hcount : l.receiver.buffer.channelBufferCount = false) (seen : Bool) :
    Inv (l.receive depth seen) xs := by
  have hsort : ∀ k, l.receiver.buffer.sortVal k = false := by
    intro k
    simp [Buffer.sortVal, hcount]
  have hfifo : (l.receive depth seen).receiver.fifo = l.receiver.fifo := by
    rw [receive_eq hw]
    funext k
    simp [Receiver.channelEdge, hsort]
  have hdropped : (l.receive depth seen).dropped = l.dropped := by
    rw [receive_eq hw]
    funext k
    simp [hsort]
  have hcarries := h.carries
  unfold stream at hcarries
  rw [hw, hcount] at hcarries
  have hnext : Carries (l.receive depth seen).stream xs ∧
      ((l.receive depth seen).receiver.buffer.channelBufferCount = true →
        (l.receive depth seen).receiver.buffer.bufferedChannel ≠ 0b00#2) := by
    rw [receive_eq hw]
    unfold stream Receiver.channelEdge Buffer.next
    rcases hcarries.cons_cases with ⟨hidle, hrest⟩ |
      ⟨k, x, t, ys, rfl, hrest, -⟩
    · simpa [hidle] using hrest
    · simpa [hcount, k.channel_ne_zero] using hcarries
  exact h.of_receive hw hnext.1 hnext.2 (fun k => by rw [hfifo]) hdropped

/-- With the second half a flit goes to the FIFO of its network, which has
room for it. -/
theorem Inv.receive_second (h : Inv l xs) (hw : l.wire = half :: wire)
    (hcount : l.receiver.buffer.channelBufferCount = true)
    (hdepth : 255 ≤ depth) (seen : Bool) :
    ∃ ys, Inv (l.receive depth seen) ys := by
  have hcarries := h.carries
  unfold stream at hcarries
  rw [hw, hcount] at hcarries
  obtain ⟨k, x, t, ys, hfirst, hrest, rfl, ht⟩ :=
    hcarries.cons_cases.resolve_left fun hidle => h.buffered hcount hidle.1
  obtain ⟨rfl, htail⟩ := List.cons.inj hrest
  have hsort : ∀ j, l.receiver.buffer.sortVal j = decide (j = k) := by
    intro j
    have hchannel : l.receiver.buffer.bufferedChannel = k.channel :=
      congrArg Half.channel hfirst
    rw [Bool.eq_iff_iff, decide_eq_true_iff, Buffer.sortVal, hchannel,
      hcount, Bool.and_true, decide_eq_true_iff]
    exact ⟨fun hjk => (Net.channel_inj hjk).symm, fun hjk => by rw [hjk]⟩
  have hdata : l.receiver.buffer.bufferedData
      ⟨k.channel, x.extractLsb' 32 32⟩ = x := by
    have hlow : l.receiver.buffer.channelBuffer = x.extractLsb' 0 32 :=
      congrArg Half.data hfirst
    unfold Buffer.bufferedData
    rw [hlow]
    exact halves_append x
  have hroom : (l.receiver.fifo k).length < depth := by
    have hsent := congrArg List.length (h.sent k)
    rw [flitsOf_cons, if_pos rfl] at hsent
    simp only [List.length_append, List.length_singleton] at hsent
    have hcredit := h.credit k
    have haway := h.away k
    have hlimit := h.limit k
    omega
  have hfifo : ∀ j, (l.receive depth seen).receiver.fifo j =
      l.receiver.fifo j ++ if k = j then [x] else [] := by
    intro j
    rw [receive_eq hw]
    unfold Receiver.channelEdge
    dsimp only
    rw [hsort, hdata]
    by_cases hjk : j = k
    · subst hjk
      simp [hroom]
    · simp [hjk, Ne.symm hjk]
  have hdropped : (l.receive depth seen).dropped = l.dropped := by
    rw [receive_eq hw]
    funext j
    by_cases hjk : j = k
    · subst hjk
      simp [hroom]
    · simp [hsort, hjk]
  have hnext : Carries (l.receive depth seen).stream ys ∧
      (l.receive depth seen).receiver.buffer.channelBufferCount = false := by
    rw [receive_eq hw]
    unfold stream Receiver.channelEdge Buffer.next
    rw [← htail] at ht
    simpa [hcount, k.channel_ne_zero] using ht
  refine ⟨ys, h.of_receive hw hnext.1 (fun hc => ?_) (fun j => ?_) hdropped⟩
  · exact absurd (hnext.2.symm.trans hc) Bool.noConfusion
  · rw [hfifo, flitsOf_cons, List.append_assoc]

/-- A half that the receiver has seen goes to the FIFO of its network once
the second one is there. -/
theorem Inv.step_receive (h : Inv l xs) (hdepth : 255 ≤ depth)
    (seen : Bool) : ∃ xs', Inv (l.receive depth seen) xs' := by
  cases hw : l.wire with
  | nil =>
    refine ⟨xs, ?_⟩
    unfold receive
    rw [hw]
    exact h
  | cons half wire =>
    cases hcount : l.receiver.buffer.channelBufferCount with
    | false => exact ⟨xs, h.receive_first hw hcount seen⟩
    | true => exact h.receive_second hw hcount hdepth seen

end Receive

/-! ## An edge of the sender -/

section Send

variable {seen : Net → Bool} {arrives : Bool} {k : Net}

/-- A credit that arrives was on its way. -/
theorem creditsAway_pos (hk : l.creditIn arrives k = true) :
    0 < l.creditsAway k := by
  unfold creditIn at hk
  unfold creditsAway
  cases arrives with
  | false => exact Bool.noConfusion hk
  | true =>
    cases hc : l.credits with
    | nil =>
      rw [hc] at hk
      exact Bool.noConfusion hk
    | cons c cs =>
      rw [hc] at hk
      rw [List.countP_cons_of_pos (by simpa using hk)]
      omega

theorem creditsAway_send (l : Link) (seen : Net → Bool) (arrives : Bool)
    (k : Net) :
    (l.send seen arrives).creditsAway k + (l.creditIn arrives k).toNat =
      l.creditsAway k := by
  unfold creditsAway creditIn send
  dsimp only
  cases arrives with
  | false => simp
  | true =>
    cases hc : l.credits with
    | nil => simp
    | cons c cs => cases hk : c k <;> simp [hk]; omega

theorem length_sent_send (l : Link) (seen : Net → Bool) (arrives : Bool)
    (k : Net) :
    ((l.send seen arrives).sent k).length =
      (l.sent k).length + (l.chooser.sends (l.val seen) k).toNat := by
  show (l.sent k ++ if _ then _ else _).length = _
  rw [List.length_append]
  cases l.chooser.sends (l.val seen) k <;> rfl

/-- The FIFO of a network that sends is not empty. -/
theorem queue_eq_of_sends (hs : l.chooser.sends (l.val seen) k = true) :
    l.queue k = l.din k :: (l.queue k).tail := by
  obtain ⟨hc, hsel⟩ := sends_iff.mp hs
  have hval := (full_eq_false.mp (full_of_select hc hsel)).2
  unfold val at hval
  unfold din
  cases hq : l.queue k with
  | nil => simp [hq] at hval
  | cons x q => rfl

theorem Inv.credit_send (h : Inv l xs) (seen : Net → Bool) (arrives : Bool)
    (k : Net) :
    ((l.send seen arrives).chooser.credit k).toNat +
        (l.creditIn arrives k).toNat =
      (l.chooser.credit k).toNat +
        (l.chooser.sends (l.val seen) k).toNat := by
  refine credit_next (h.limit k) fun hk => ?_
  have hpos := creditsAway_pos hk
  have hcount := congrArg List.length (h.sent k)
  rw [List.length_append, List.length_append] at hcount
  have hcr := h.credit k
  have haw := h.away k
  omega

theorem Inv.limit_send (h : Inv l xs) (seen : Net → Bool) (arrives : Bool)
    (k : Net) : ((l.send seen arrives).chooser.credit k).toNat ≤ 255 := by
  have hnext := h.credit_send seen arrives k
  have hold := h.limit k
  cases hs : l.chooser.sends (l.val seen) k with
  | false =>
    rw [hs, Bool.toNat_false] at hnext
    omega
  | true =>
    have hlt := credit_lt hs hold
    rw [hs, Bool.toNat_true] at hnext
    omega

/-- An edge of the sender puts the flits `ys` into the stream. -/
structure Joins (l : Link) (seen : Net → Bool) (arrives : Bool)
    (xs ys : List (Net × Flit)) : Prop where
  flits : ∀ k, flitsOf k ys =
    if l.chooser.sends (l.val seen) k then [l.din k] else []
  carries : Carries (l.send seen arrives).stream (xs ++ ys)
  phase : (l.send seen arrives).chooser.selectCounter =
    !(l.send seen arrives).serial.serialBufferDataCounter
  second : (l.send seen arrives).chooser.selectCounter = true →
    (l.send seen arrives).chooser.selectReg ≠ 0b00#2 ∧
      (l.send seen arrives).serial.serialBufferChannelDup ≠ 0b00#2

/-- In the second phase the other half of a flit goes out. -/
theorem Inv.joins_second (h : Inv l xs)
    (hc : l.chooser.selectCounter = true) : Joins l seen arrives xs [] := by
  have hold := h.carries
  have hphase := h.phase
  unfold stream at hold
  obtain ⟨hreg, hdup⟩ := h.second hc
  have hsel : l.chooser.select (l.val seen) = l.chooser.selectReg := by
    simp [Chooser.select, hc]
  have hnone : ∀ k, l.chooser.sends (l.val seen) k = false := by
    intro k
    refine Bool.eq_false_iff.mpr fun hs => ?_
    exact absurd (hc.symm.trans (sends_iff.mp hs).1) Bool.noConfusion
  rw [hc] at hphase
  have hcounter : l.serial.serialBufferDataCounter = false := by
    simpa using hphase.symm
  refine ⟨fun k => by simp [hnone, flitsOf], ?_, ?_, ?_⟩
  · rw [List.append_nil]
    unfold stream send
    simpa [Serial.next, Serial.out, hcounter, hdup] using hold
  · simp [send, Chooser.next, Serial.next, hc, hsel, hreg, hcounter, hdup]
  · simp [send, Chooser.next, hc, hsel, hreg]

/-- In the first phase an idle half goes out if no network is chosen. -/
theorem Inv.joins_idle (h : Inv l xs)
    (hcounter : l.serial.serialBufferDataCounter = true)
    (hsel : l.chooser.select (l.val seen) = 0b00#2) :
    Joins l seen arrives xs [] := by
  have hold := h.carries
  unfold stream at hold
  have hnone : ∀ k, l.chooser.sends (l.val seen) k = false := by
    intro k
    refine Bool.eq_false_iff.mpr fun hs => ?_
    exact k.channel_ne_zero ((sends_iff.mp hs).2.symm.trans hsel)
  refine ⟨fun k => by simp [hnone, flitsOf], ?_, ?_, ?_⟩
  · have hidle := hold.append (.idle l.serial.serialBufferDataF .nil)
    unfold stream send
    simpa [Serial.next, Serial.out, hcounter, hsel] using hidle
  · simp [send, Chooser.next, Serial.next, hsel, hcounter]
  · simp [send, Chooser.next, hsel]

/-- In the first phase the flit of the network that is chosen joins. -/
theorem Inv.joins_flit (h : Inv l xs)
    (hc : l.chooser.selectCounter = false)
    (hcounter : l.serial.serialBufferDataCounter = true)
    (hsel : l.chooser.select (l.val seen) = k.channel) :
    Joins l seen arrives xs [(k, l.din k)] := by
  have hold := h.carries
  unfold stream at hold
  have hs : l.chooser.sends (l.val seen) k = true := sends_iff.mpr ⟨hc, hsel⟩
  have hdata : l.chooser.dataOut (l.val seen) l.din = l.din k :=
    dataOut_of_sends hs
  have hne := k.channel_ne_zero
  refine ⟨fun j => ?_, ?_, ?_, ?_⟩
  · rw [flitsOf_cons]
    by_cases hjk : j = k
    · subst hjk
      simp [hs, flitsOf]
    · simp [sends_other hs hjk, Ne.symm hjk, flitsOf]
  · have hflit := hold.append (.flit k (l.din k) .nil)
    unfold stream send
    simpa [Serial.next, Serial.out, hcounter, hsel, hne, hdata] using hflit
  · simp [send, Chooser.next, Serial.next, hc, hsel, hne, hcounter]
  · simp [send, Chooser.next, Serial.next, hc, hsel, hne, hcounter]

theorem Inv.exists_joins (h : Inv l xs) (seen : Net → Bool)
    (arrives : Bool) : ∃ ys, Joins l seen arrives xs ys := by
  have hphase := h.phase
  cases hc : l.chooser.selectCounter with
  | true => exact ⟨[], h.joins_second hc⟩
  | false =>
    rw [hc] at hphase
    have hcounter : l.serial.serialBufferDataCounter = true := by
      simpa using hphase.symm
    rcases channel_cases (l.chooser.select (l.val seen)) with hsel | ⟨k, hsel⟩
    · exact ⟨[], h.joins_idle hcounter hsel⟩
    · exact ⟨_, h.joins_flit hc hcounter hsel⟩

/-- What a network puts on the channel and the credits that it gets. -/
theorem Inv.step_send (h : Inv l xs) (seen : Net → Bool) (arrives : Bool) :
    ∃ xs', Inv (l.send seen arrives) xs' := by
  obtain ⟨ys, hjoins⟩ := h.exists_joins seen arrives
  refine ⟨xs ++ ys, hjoins.carries, hjoins.phase, hjoins.second, h.buffered,
    fun k => ?_, fun k => ?_, fun k => ?_, fun k => ?_,
    h.limit_send seen arrives, h.complete⟩
  · show l.sent k ++ (if _ then _ else _) = l.consumed k ++
      l.receiver.fifo k ++ _
    rw [flitsOf_append, hjoins.flits, h.sent k, List.append_assoc]
  · show l.offered k = l.sent k ++ (if _ then _ else _) ++
      if _ then _ else _
    rw [h.offered k]
    cases hs : l.chooser.sends (l.val seen) k with
    | false => simp
    | true =>
      rw [if_pos rfl, if_pos rfl, List.append_assoc]
      exact congrArg (l.sent k ++ ·) (queue_eq_of_sends hs)
  · have hcr := h.credit_send seen arrives k
    have hlen := length_sent_send l seen arrives k
    have hold := h.credit k
    show _ + (l.credited k + (l.creditIn arrives k).toNat) = _
    omega
  · have haw := creditsAway_send l seen arrives k
    have hold := h.away k
    show (l.consumed k).length = l.credited k +
      (l.creditIn arrives k).toNat + _
    omega

end Send

/-- What an event keeps. -/
theorem Inv.step (h : Inv l xs) (hdepth : 255 ≤ depth) (e : Event) :
    ∃ xs', Inv (l.step depth e) xs' := by
  cases e with
  | offer k x => exact ⟨xs, h.step_offer k x⟩
  | send seen arrives => exact h.step_send seen arrives
  | receive seen => exact h.step_receive hdepth seen
  | take seen creditFull boutRdy =>
    refine ⟨xs, h.step_take fun k hk hnil => ?_⟩
    simp [Receiver.creditGather, Receiver.boutVal, hnil] at hk

/-- With FIFOs for all flits that may be under way, every network gets its
flits, in every state of every run. -/
theorem flits_exact (depth : ℕ) (hdepth : 255 ≤ depth)
    (bufferedChannel : BitVec 2) (es : List Event) :
    Sync.Always (fun l : Link => l.step depth) Kept
      (Link.reset bufferedChannel) es := by
  have halong : Sync.Along (fun l : Link => l.step depth) (fun _ _ => True)
      (Link.reset bufferedChannel) es :=
    Sync.along_of_forall_mem fun _ _ => trivial
  have hinv := halong.always (P := fun l => ∃ xs, Inv l xs)
    (fun _ e _ ⟨_, h⟩ => h.step hdepth e) ⟨_, Inv.reset bufferedChannel⟩
  exact hinv.mono fun _ ⟨_, h⟩ => h.kept

/-- A flit of the first network from end to end. -/
theorem flits_exact_one :
    Sync.Always (fun l : Link => l.step 255) Kept (Link.reset 0b00#2)
      [.offer .n1 0x100000002#64, .send (fun _ => true) false,
        .send (fun _ => true) false, .send (fun _ => true) false,
        .receive false, .receive false, .receive false,
        .take (fun _ => true) false fun _ => true, .receive true,
        .send (fun _ => true) true] :=
  flits_exact 255 (Nat.le_refl 255) _ _

end Link

end ArianeSoc.ChipBridge
