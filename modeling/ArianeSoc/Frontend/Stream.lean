import ArianeSoc.Frontend.FetchFault
import Mathlib.Data.List.TakeWhile

/-!
# The stream of instructions behind a redirection

Since the last flush of the queue the front end has read on from one
address.  `Starts` says that the first item has this address, or that the
next word is going to bring it.

`Shows` says that the items are the instructions of the program text, up to
the first one that carries a fetch fault.  What comes behind a fault may be
put together of a word that has no meaning; it does not commit.
-/

namespace ArianeSoc.Frontend

open InstrQueue (Carries Located Item stored offered item packet bit)
open InstrRealign (pc slot0 slot1)

variable {r : Trace} {i : In} {a : BitVec 64} {d : BitVec 1}
  {gone xs : List Item}

/-! ## Where the stream starts -/

/-- The stream starts at the address `a`. -/
structure Starts (r : Trace) (a : BitVec 64) : Prop where
  first : ∀ x ∈ r.pushed.head?, x.addr = a
  empty : r.pushed = [] →
    pc r.front.realign (r.nextFetch.getD a) = a

theorem pushed_step (hf : i.flush = false) :
    (r.step i).pushed = r.pushed ++ stored r.front.queue (queueIn r.front i) :=
  if_neg (by simp [queueIn, hf])

theorem pushed_flush (hf : i.flush = true) : (r.step i).pushed = [] :=
  if_pos hf

/-- Nothing of a word that was killed is left. -/
theorem flushed (he : r.Env i) (hf : i.flush = true) :
    (r.step i).front.realign.unaligned = false ∧
      (r.step i).nextFetch = none := by
  have hk : killS2 r.front i = true := by
    rw [killS2, killS1, hf, Bool.or_true, Bool.true_or, Bool.true_or]
  refine ⟨Linked.realign_killed hk, ?_⟩
  have hv : (r.step i).front.icacheValid = false := by
    refine Bool.eq_false_iff.mpr fun hv => ?_
    rw [he.killed hv] at hk
    exact Bool.false_ne_true hk
  rw [Trace.nextFetch, hv, if_neg Bool.false_ne_true]
  show fetchAddr r i = none
  rw [fetchAddr, hf, Bool.true_or, if_pos rfl]

theorem Starts.flush (he : r.Env i) (hf : i.flush = true) (a : BitVec 64) :
    Starts (r.step i) a := by
  obtain ⟨hu, hn⟩ := flushed he hf
  refine ⟨fun x hx => ?_, fun _ => ?_⟩
  · rw [pushed_flush hf] at hx
    cases hx
  · rw [pc, hu, hn, if_neg Bool.false_ne_true]
    rfl

/-- The first place has the address where the re-aligner goes on. -/
theorem addr_slot0 (hv : r.front.icacheValid = true) :
    (slot r.front 0#1).addr =
      pc r.front.realign (r.nextFetch.getD a) := by
  rw [Trace.nextFetch, hv, if_pos rfl]
  rfl

/-- While the queue is empty and gets nothing, nothing is killed. -/
theorem quiet_of_stored_nil (hl : Linked r) (he : r.Env i)
    (hi : Carries r.queue d gone xs) (hf : i.flush = false)
    (hp : r.pushed = []) (hs : stored r.front.queue (queueIn r.front i) = []) :
    (slot r.front 0#1).valid = false ∧ killS2 r.front i = false := by
  have hshape := hl.shape he
  have hnil : gone ++ xs = [] := hi.pushed.symm.trans hp
  have hxs : xs = [] := (List.append_eq_nil_iff.mp hnil).2
  subst hxs
  have h0 : (slot r.front 0#1).valid = false := by
    have hstores := (Located.stored_eq_nil_iff hi hshape).mp hs
    rw [Located.stores_of_nil hi.keeps, Linked.bit_valid] at hstores
    exact hstores
  have h1 : (slot r.front 1#1).valid = false := by
    refine Bool.eq_false_iff.mpr fun h1 => ?_
    rw [hl.slot_first h1] at h0
    cases h0
  have hpacket : packet (queueIn r.front i) = [] := by
    rw [Linked.packet_eq, h0, h1]
    rfl
  have hoff : offered (queueIn r.front i) = [] := by
    rw [offered, hpacket]
    rfl
  have hreplay : replay r.front i = false := by
    refine Bool.eq_false_iff.mpr fun hr => ?_
    exact (InstrQueue.replayO_iff hshape.1 hi.keeps.level).mp hr
      (hs.trans hoff.symm)
  have hbp : bpValid r.front i = false := by
    refine Bool.eq_false_iff.mpr fun hb => ?_
    exact (Linked.next_of_bpValid hb).1 hoff
  have hmis : i.isMispredict = false := by
    refine Bool.eq_false_iff.mpr fun hm => ?_
    rw [he.mispredict hm] at hf
    cases hf
  refine ⟨h0, ?_⟩
  rw [killS2, killS1, hmis, hf, hreplay, hbp]
  rfl

theorem Starts.step (h : Starts r a) (hl : Linked r) (he : r.Env i)
    (hi : Carries r.queue d gone xs) (hf : i.flush = false)
    (ha : i.dreq.valid = true → i.dreq.vaddr = r.expect.getD a) :
    Starts (r.step i) a := by
  refine ⟨fun x hx => ?_, fun hnil => ?_⟩
  · rw [pushed_step hf] at hx
    by_cases hp : r.pushed = []
    · rw [hp, List.nil_append] at hx
      obtain ⟨rfl, hv⟩ := Located.head_stored hi (hl.shape he) hx
      rw [Linked.bit_valid] at hv
      have hvalid : r.front.icacheValid = true := by
        refine (Bool.not_eq_false _).mp fun hno => ?_
        rw [Linked.slot_invalid hno] at hv
        cases hv
      exact (addr_slot0 hvalid).trans (h.empty hp)
    · rw [List.head?_append_of_ne_nil _ hp] at hx
      exact h.first x hx
  · rw [pushed_step hf, List.append_eq_nil_iff] at hnil
    obtain ⟨h0, hk⟩ := quiet_of_stored_nil hl he hi hf hnil.1 hnil.2
    obtain ⟨hnext, -⟩ := Linked.nextFetch_step he hf
    have hold := h.empty hnil.1
    cases hv : r.front.icacheValid with
    | true =>
      have haddr := (addr_slot0 (a := a) hv).trans hold
      rcases (hl.fits hv).cases with ⟨-, -, hpc⟩ | ⟨hv0, -⟩ | ⟨hv0, -⟩
      · rw [Linked.realign_step hk, hnext hk _ (hl.expect hv)]
        exact hpc.symm.trans haddr
      · exact absurd (h0.symm.trans hv0) Bool.false_ne_true
      · exact absurd (h0.symm.trans hv0) Bool.false_ne_true
    | false =>
      rw [Trace.nextFetch, hv, if_neg Bool.false_ne_true] at hold
      rw [Linked.realign_idle hk hv]
      cases hx : r.expect with
      | some b =>
        rw [hx] at hold
        rw [hnext hk b hx]
        exact hold
      | none =>
        rw [hx] at hold ha
        have hgo : (r.step i).nextFetch.getD a = a := by
          show (if i.dreq.valid then _ else _ : Option (BitVec 64)).getD a = a
          split_ifs with hd
          · show (if i.dreq.valid then i.dreq.vaddr else _) = a
            rw [if_pos hd]
            exact ha hd
          · rw [killS2, killS1, Bool.or_eq_false_iff, Bool.or_eq_false_iff,
              Bool.or_eq_false_iff] at hk
            show (fetchAddr r i).getD a = a
            rw [fetchAddr, hf, hk.1.1.1, hk.1.2, hk.2, hx, if_neg hd]
            rfl
        rw [hgo]
        exact hold

/-! ## What the stream shows of the text -/

/-- The instruction at an address, with the half-words that belong to it. -/
def Text.instr (t : Text) (a : BitVec 64) : Instr where
  addr := a
  bits := if isCompressed (t a) then 0#16 ++ t a else t (a + 2#64) ++ t a

/-- The item is the instruction of the text at its address. -/
def OfText (t : Text) (x : Item) : Prop :=
  Instr.read x.addr x.data.instr = t.instr x.addr

/-- The word that the item was taken from came without a fault. -/
def sound (x : Item) : Bool := !x.data.ex

variable {t : Text}

theorem mem_decode {z : Instr} {a : BitVec 64} {n : ℕ}
    (h : z ∈ decode t a n) : z = t.instr z.addr := by
  induction n using Nat.strongRecOn generalizing a with
  | ind n ih =>
    cases hc : isCompressed (t a) with
    | true =>
      cases n with
      | zero => cases h
      | succ n =>
        rw [Nat.add_comm, decode_compressed hc] at h
        rcases List.mem_cons.mp h with rfl | h
        · rw [Text.instr, hc, if_pos rfl]
        · exact ih n (by omega) h
    | false =>
      match n with
      | 0 => cases h
      | 1 =>
        rw [decode_half hc] at h
        cases h
      | n + 2 =>
        rw [Nat.add_comm, decode_whole hc] at h
        rcases List.mem_cons.mp h with rfl | h
        · rw [Text.instr, hc, if_neg Bool.false_ne_true]
        · exact ih n (by omega) h

/-- Up to the first fault the items are instructions of the text; so is the
half-word that the re-aligner keeps, if there was no fault. -/
structure Shows (t : Text) (r : Trace) : Prop where
  items : ∀ x ∈ r.pushed.takeWhile sound, OfText t x
  word : r.front.icacheValid = true → r.front.icacheExValid = false →
    r.front.icacheData = icacheData r.front.icacheVaddr
      (t.word r.front.icacheVaddr)
  half : (∀ x ∈ r.pushed, sound x = true) →
    r.front.realign.unaligned = true →
      r.front.realign.unalignedInstr = t r.front.realign.unalignedAddress

theorem Shows.init (t : Text) : Shows t Trace.init where
  items x hx := by cases hx
  word h := absurd h Bool.false_ne_true
  half _ h := absurd h Bool.false_ne_true

/-- The cache returns the words of the text, unless there is a fault. -/
def Loads (t : Text) (i : In) : Prop :=
  i.dreq.valid = true → i.dreq.ex = false →
    i.dreq.data = t.word i.dreq.vaddr

instance (t : Text) (i : In) : Decidable (Loads t i) :=
  inferInstanceAs (Decidable (_ → _ → _))

section Packet

variable (h : Shows t r) (hl : Linked r)
  (hall : ∀ x ∈ r.pushed, sound x = true)
  (hv : r.front.icacheValid = true) (hex : r.front.icacheExValid = false)
include h hl hall hv hex

/-- What one packet of the text does. -/
theorem Shows.packet :
    InstrRealign.Aligned t (InstrRealign.packet r.front.realign
        (realignIn r.front false))
      (r.front.icacheVaddr +
        BitVec.ofNat 64 (2 * halves r.front.icacheVaddr)) ∧
      ∀ z ∈ InstrRealign.emitted r.front.realign (realignIn r.front false),
        z = t.instr z.addr := by
  have haligned : InstrRealign.Aligned t r.front.realign
      r.front.icacheVaddr := by
    intro hu
    obtain ⟨hc, a, ha, haddr, h1⟩ := hl.half hu
    rw [Trace.nextFetch, hv, if_pos rfl, Option.mem_some_iff] at ha
    subst ha
    have hhalf := h.half hall hu
    exact ⟨h1, haddr, hhalf, hhalf ▸ hc⟩
  have hpacket : InstrRealign.Packet t r.front.icacheVaddr
      (realignIn r.front false) := ⟨hv, rfl, h.word hv hex, hl.even hv⟩
  obtain ⟨hnext, hdecode⟩ := haligned.packet hpacket
  refine ⟨hnext, fun z hz => ?_⟩
  have hmem : z ∈ decode t (pc r.front.realign r.front.icacheVaddr)
      (InstrRealign.pending r.front.realign + halves r.front.icacheVaddr +
        0) := by
    rw [hdecode 0]
    exact List.mem_append_left _ hz
  exact mem_decode hmem

theorem Shows.slot (k : BitVec 1) (hk : (slot r.front k).valid = true) :
    Instr.read (slot r.front k).addr (slot r.front k).instr =
      t.instr (slot r.front k).addr := by
  obtain ⟨-, hemit⟩ := h.packet hl hall hv hex
  refine hemit _ ?_
  rw [InstrRealign.emitted]
  rcases BitVec.eq_zero_or_eq_one k with rfl | rfl
  · refine List.mem_append_left _ ?_
    rw [InstrRealign.Slot.emit]
    exact (if_pos hk).symm ▸ List.mem_singleton_self _
  · refine List.mem_append_right _ ?_
    rw [InstrRealign.Slot.emit]
    exact (if_pos hk).symm ▸ List.mem_singleton_self _

end Packet

/-- An item of a packet is a valid instruction of the re-aligner. -/
theorem item_of_packet {x : Item} (hx : x ∈ packet (queueIn r.front i)) :
    ∃ k, x = item (queueIn r.front i) k ∧ (slot r.front k).valid = true := by
  rw [Linked.packet_eq] at hx
  rcases List.mem_append.mp hx with hx | hx <;> split_ifs at hx with hv
  · exact ⟨_, List.mem_singleton.mp hx, hv⟩
  · cases hx
  · exact ⟨_, List.mem_singleton.mp hx, hv⟩
  · cases hx

theorem mem_packet_of_stored {x : Item}
    (hx : x ∈ stored r.front.queue (queueIn r.front i)) :
    x ∈ packet (queueIn r.front i) :=
  InstrQueue.mem_of_mem_cut (List.mem_of_mem_take hx)

theorem Shows.items_step (h : Shows t r) (hl : Linked r)
    (hf : i.flush = false) :
    ∀ x ∈ (r.step i).pushed.takeWhile sound, OfText t x := by
  intro x hx
  rw [pushed_step hf, List.takeWhile_append] at hx
  split_ifs at hx with hlen
  · have hall : ∀ y ∈ r.pushed, sound y = true := by
      have hself : r.pushed.takeWhile sound = r.pushed :=
        (List.takeWhile_prefix sound).eq_of_length hlen
      rw [← List.takeWhile_eq_self_iff]
      exact hself
    rcases List.mem_append.mp hx with hx | hx
    · refine h.items x ?_
      rwa [List.takeWhile_eq_self_iff.mpr hall]
    · have hsound : sound x = true := List.mem_takeWhile_imp hx
      obtain ⟨k, rfl, hk⟩ := item_of_packet
        (mem_packet_of_stored (List.takeWhile_subset _ hx))
      have hvalid : r.front.icacheValid = true := by
        refine (Bool.not_eq_false _).mp fun hno => ?_
        rw [Linked.slot_invalid hno] at hk
        cases hk
      have hex : r.front.icacheExValid = false := by
        have hs : (!r.front.icacheExValid) = true := hsound
        rwa [Bool.not_eq_true'] at hs
      exact h.slot hl hall hvalid hex k hk
  · exact h.items x hx

theorem all_of_pushed_step (hf : i.flush = false)
    (hall : ∀ x ∈ (r.step i).pushed, sound x = true) :
    ∀ x ∈ r.pushed, sound x = true := by
  intro x hx
  refine hall x ?_
  rw [pushed_step hf]
  exact List.mem_append_left _ hx

/-- A word with a fault leaves its mark, if nothing is fetched again. -/
theorem sound_word (hl : Linked r) (he : r.Env i)
    (hi : Carries r.queue d gone xs) (hu : Undeferred r)
    (hf : i.flush = false) (hk : killS2 r.front i = false)
    (hall : ∀ x ∈ (r.step i).pushed, sound x = true)
    (hv : r.front.icacheValid = true) :
    r.front.icacheExValid = false := by
  refine Bool.eq_false_iff.mpr fun hex => ?_
  have hreplay : replay r.front i = false := by
    rw [killS2, killS1, Bool.or_eq_false_iff, Bool.or_eq_false_iff] at hk
    exact hk.1.2
  have hhead := stored_fault hl he hi hu hv hex (by
    rw [refetched, hreplay, Bool.false_and])
  have hmem := List.mem_of_head? hhead
  have hsound := hall _ (by
    rw [pushed_step hf]
    exact List.mem_append_right _ hmem)
  have hs : (!r.front.icacheExValid) = true := hsound
  rw [hex] at hs
  cases hs

theorem Shows.half_step (h : Shows t r) (hl : Linked r) (he : r.Env i)
    (hi : Carries r.queue d gone xs) (hu : Undeferred r)
    (hf : i.flush = false)
    (hall : ∀ x ∈ (r.step i).pushed, sound x = true)
    (hun : (r.step i).front.realign.unaligned = true) :
    (r.step i).front.realign.unalignedInstr =
      t (r.step i).front.realign.unalignedAddress := by
  have hk : killS2 r.front i = false := by
    refine Bool.eq_false_iff.mpr fun hk => ?_
    rw [Linked.realign_killed hk] at hun
    cases hun
  have hold := all_of_pushed_step hf hall
  cases hv : r.front.icacheValid with
  | true =>
    have hex := sound_word hl he hi hu hf hk hall hv
    obtain ⟨hnext, -⟩ := h.packet hl hold hv hex
    rw [Linked.realign_step hk] at hun ⊢
    exact (hnext hun).2.2.1
  | false =>
    rw [Linked.realign_idle hk hv] at hun ⊢
    exact h.half hold hun

theorem Shows.step (h : Shows t r) (hl : Linked r) (he : r.Env i)
    (hi : Carries r.queue d gone xs) (hu : Undeferred r)
    (ht : Loads t i) : Shows t (r.step i) where
  items := by
    cases hf : i.flush with
    | false => exact h.items_step hl hf
    | true =>
      intro x hx
      rw [pushed_flush hf] at hx
      cases hx
  word hv hex := by
    have hd : i.dreq.valid = true := hv
    have hex' : (if i.dreq.valid then i.dreq.ex else r.front.icacheExValid) =
        false := hex
    rw [if_pos hd] at hex'
    show (if i.dreq.valid then _ else _ : BitVec 32) = icacheData
      (if i.dreq.valid then _ else _) (t.word (if i.dreq.valid then _ else _))
    rw [if_pos hd, if_pos hd, ht hd hex']
  half hall hun := by
    cases hf : i.flush with
    | false => exact h.half_step hl he hi hu hf hall hun
    | true =>
      rw [(flushed he hf).1] at hun
      cases hun

end ArianeSoc.Frontend
