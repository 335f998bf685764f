import ArianeSoc.Cache.WbufferInv
import ArianeSoc.Reorder

/-!
# The write buffer and the memory

`Trace` runs the write buffer with a clock, the stores it took and the
transfers it sent, each with the cycles of its acknowledge and of its
response.  The memory may apply a transfer at any time between the two, so
any order of the transfers counts in which none comes before one that was
answered before it was sent.

* `bytes_represented`: what the entries and the transaction slots say.
* `memory_correct`: in any such order the transfers leave the bytes that are
  not in the buffer as the stores do in program order.
-/

namespace ArianeSoc.Cache

open CommonCells

/-! ## Stores and transfers -/

/-- A memory, by words and their bytes. -/
abbrev Memory := ℕ → ℕ → BitVec 8

structure Store where
  word : ℕ
  be : BitVec 8
  data : ℕ → BitVec 8

/-- A transfer of `2 ^ size` bytes, with the cycle of its acknowledge and
that of its response. -/
structure Transfer where
  id : ℕ
  word : ℕ
  offset : ℕ
  size : ℕ
  data : ℕ → BitVec 8
  ack : ℕ
  rtrn : Option ℕ

def Store.Covers (S : Store) (w j : ℕ) : Prop :=
  w = S.word ∧ S.be.getLsbD j = true

def Transfer.Covers (T : Transfer) (w j : ℕ) : Prop :=
  w = T.word ∧ T.offset ≤ j ∧ j < T.offset + 2 ^ T.size

instance (S : Store) (w j : ℕ) : Decidable (S.Covers w j) :=
  inferInstanceAs (Decidable (_ ∧ _))

instance (T : Transfer) (w j : ℕ) : Decidable (T.Covers w j) :=
  inferInstanceAs (Decidable (_ ∧ _ ∧ _))

def Memory.store (m : Memory) (S : Store) : Memory := fun w j =>
  if S.Covers w j then S.data j else m w j

def Memory.transfer (m : Memory) (T : Transfer) : Memory := fun w j =>
  if T.Covers w j then T.data j else m w j

/-- `T` was answered before `T'` was sent. -/
def Transfer.Before (T T' : Transfer) : Prop :=
  ∃ r, T.rtrn = some r ∧ r < T'.ack

/-- The transfers write a common byte. -/
def Transfer.Overlaps (T T' : Transfer) : Prop :=
  ∃ w j, T.Covers w j ∧ T'.Covers w j

/-- The response to transaction `id` comes in. -/
def Transfer.answer (now : ℕ) (rtrn : Option ℕ) (T : Transfer) : Transfer :=
  if rtrn = some T.id ∧ T.rtrn = none then { T with rtrn := some now } else T

/-- An order in which no transfer comes before one that was answered before
it was sent. -/
def Consistent (order : List Transfer) : Prop :=
  order.Pairwise fun T T' => ¬T'.Before T

theorem transfer_comm (m : Memory) (T T' : Transfer)
    (h : ¬T.Overlaps T') :
    (m.transfer T').transfer T = (m.transfer T).transfer T' := by
  funext w j
  simp only [Memory.transfer]
  by_cases hc : T.Covers w j
  · have hc' : ¬T'.Covers w j := fun hc' => h ⟨w, j, hc, hc'⟩
    rw [if_pos hc, if_neg hc', if_pos hc]
  · rw [if_neg hc, if_neg hc]

/-- A response changes nothing in what a transfer writes. -/
theorem transfer_answer (m : Memory) (now : ℕ) (rtrn : Option ℕ)
    (T : Transfer) : m.transfer (T.answer now rtrn) = m.transfer T := by
  rw [Transfer.answer]
  split_ifs <;> rfl

theorem foldl_answer (m : Memory) (now : ℕ) (rtrn : Option ℕ)
    (Ts : List Transfer) :
    (Ts.map (Transfer.answer now rtrn)).foldl Memory.transfer m =
      Ts.foldl Memory.transfer m := by
  rw [List.foldl_map]
  congr 1
  funext m' T
  exact transfer_answer m' now rtrn T

/-! ## The transfers of the buffer -/

/-- The byte that a lane of a replicated transfer carries. -/
def lane (offset size k : ℕ) : ℕ :=
  match size with
  | 0 => offset
  | 1 => offset + k % 2
  | 2 => offset + k % 4
  | _ => k

theorem repData64_eq (data : ℕ → BitVec 8) (offset size k : ℕ) :
    repData64 data offset size k = data (lane offset size k) := by
  rcases size with _ | _ | _ | n
  · rfl
  · rfl
  · rfl
  · rfl

/-- The bytes of a transfer are those of its enables, in their own lanes. -/
theorem toSize64_spec : ∀ be : BitVec 8, be ≠ 0#8 →
    lzc 8 be.getLsbD + 2 ^ toSize64 be ≤ 8 ∧ ∀ j, j < 8 →
      ((toByteEnable8 (lzc 8 be.getLsbD) (toSize64 be)).getLsbD j = true ↔
        lzc 8 be.getLsbD ≤ j ∧ j < lzc 8 be.getLsbD + 2 ^ toSize64 be) ∧
      (lzc 8 be.getLsbD ≤ j → j < lzc 8 be.getLsbD + 2 ^ toSize64 be →
        lane (lzc 8 be.getLsbD) (toSize64 be) j = j) := by
  decide +kernel

/-! ## The run -/

/-- The buffer with a clock and the account of what it took and sent. -/
structure Trace where
  wb : Wbuffer
  now : ℕ
  transfers : List Transfer
  stores : List Store

def Trace.reset : Trace := ⟨Wbuffer.reset, 0, [], []⟩

section Run

variable (cfg : Config) (t : Trace) (i : WbufferIn)

/-- The transfer that is acknowledged in this cycle. -/
def Trace.sent : Transfer where
  id := t.wb.txId cfg
  word := (t.wb.wbuffer t.wb.dirtyPtr).wtag
  offset := t.wb.bdirtyOff
  size := t.wb.missSize
  data := t.wb.missWdata
  ack := t.now
  rtrn := none

/-- The store that is taken in this cycle. -/
def WbufferIn.taken : Store := ⟨i.wtag, i.dataBe, i.dataWdata⟩

def Trace.step : Trace where
  wb := t.wb.step cfg i
  now := t.now + 1
  transfers := t.transfers.map (Transfer.answer t.now i.missRtrn) ++
    if t.wb.dirtyRdEn cfg i then [t.sent cfg] else []
  stores := t.stores ++ if t.wb.dataGnt cfg i then [i.taken] else []

/-- Only transactions that were acknowledged are answered, and once. -/
def Answers : Prop :=
  ∀ id, i.missRtrn = some id →
    ∃ T ∈ t.transfers, T.id = id ∧ T.rtrn = none

end Run

/-- What every cycle keeps; `ids` are the answered transactions. -/
structure Trace.Inv (cfg : Config) (t : Trace) (ids : List ℕ) : Prop where
  wb : t.wb.Inv cfg ids
  /-- a transfer that is not answered has its slot and its entry -/
  live : ∀ T ∈ t.transfers, T.rtrn = none →
    (t.wb.txStat T.id).vld = true ∧ T.id ∉ ids ∧
      (t.wb.wbuffer (t.wb.txStat T.id).ptr).wtag = T.word
  past : ∀ T ∈ t.transfers, ∀ r, T.rtrn = some r → r < t.now
  order : t.transfers.Pairwise fun T T' => T.Overlaps T' → T.Before T'
  /-- what is in the buffer and what was sent was stored -/
  held : ∀ k j, (t.wb.wbuffer k).valid.getLsbD j = true →
    ∃ S ∈ t.stores, S.Covers (t.wb.wbuffer k).wtag j ∧
      S.data j = (t.wb.wbuffer k).data j
  stored : ∀ T ∈ t.transfers, ∀ w j, T.Covers w j →
    ∃ S ∈ t.stores, S.Covers w j ∧ S.data j = T.data j
  /-- the buffer has the latest value of its bytes -/
  latest : ∀ m k j, (t.wb.wbuffer k).valid.getLsbD j = true →
    (t.wb.wbuffer k).data j =
      t.stores.foldl Memory.store m (t.wb.wbuffer k).wtag j
  /-- and so have the transfers where nothing is to be sent -/
  clean : ∀ m w j, (∀ k, (t.wb.wbuffer k).wtag = w →
      (t.wb.wbuffer k).dirty.getLsbD j = false) →
    t.transfers.foldl Memory.transfer m w j =
      t.stores.foldl Memory.store m w j

theorem Trace.inv_reset (cfg : Config) : Trace.reset.Inv cfg [] where
  wb := Wbuffer.inv_reset cfg
  live T hT := absurd hT List.not_mem_nil
  past T hT := absurd hT List.not_mem_nil
  order := List.Pairwise.nil
  held k j hv := absurd hv (by
    simp [reset, Wbuffer.reset, WbufferEntry.reset])
  stored T hT := absurd hT List.not_mem_nil
  latest m k j hv := absurd hv (by
    simp [reset, Wbuffer.reset, WbufferEntry.reset])
  clean _ _ _ _ := rfl

/-! ## A cycle and a byte -/

namespace Wbuffer

variable {cfg : Config} {s : Wbuffer} {i : WbufferIn} {ids : List ℕ}
  {k j : ℕ}

/-- Where a byte of the buffer comes from. -/
theorem valid_bit (hv : (s.wbufferD cfg i k).valid.getLsbD j = true) :
    ((s.dataGnt cfg i = true ∧ k = s.wrPtr i) ∧ i.dataBe.getLsbD j = true) ∨
      (s.wbuffer k).valid.getLsbD j = true := by
  rw [valid_step] at hv
  dsimp only at hv
  split_ifs at hv with hg
  · rw [BitVec.getLsbD_or, BitVec.getLsbD_and, Bool.or_eq_true,
      Bool.and_eq_true] at hv
    exact hv.elim (fun h => Or.inr h.1) fun h => Or.inl ⟨hg, h⟩
  · rw [BitVec.getLsbD_or, Bool.or_eq_true] at hv
    exact hv.elim Or.inr fun h => Or.inl ⟨hg, h⟩
  · rw [BitVec.getLsbD_and, Bool.and_eq_true] at hv
    exact Or.inr hv.1
  · exact Or.inr hv

/-- A byte is dirty until it is sent. -/
theorem dirty_bit (hd : (s.wbuffer k).dirty.getLsbD j = true)
    (hd' : (s.wbufferD cfg i k).dirty.getLsbD j = false) :
    (s.dirtyRdEn cfg i = true ∧ k = s.dirtyPtr) ∧
      s.txBe.getLsbD j = true := by
  rw [dirty_step] at hd'
  dsimp only at hd'
  by_cases hs : s.dirtyRdEn cfg i = true ∧ k = s.dirtyPtr
  · refine ⟨hs, ?_⟩
    rw [if_pos hs] at hd'
    have hlt := BitVec.lt_of_getLsbD hd
    have hclear : ((s.wbuffer k).dirty &&& ~~~s.txBe).getLsbD j = false := by
      split_ifs at hd'
      · rw [BitVec.getLsbD_or, Bool.or_eq_false_iff] at hd'
        exact hd'.1
      · exact hd'
    rw [BitVec.getLsbD_and, BitVec.getLsbD_not, hd] at hclear
    simpa [hlt] using hclear
  · rw [if_neg hs] at hd'
    split_ifs at hd' with hg
    · rw [BitVec.getLsbD_or, hd, Bool.true_or] at hd'
      exact absurd hd' (by decide)
    · rw [hd] at hd'
      exact absurd hd' (by decide)

/-- A byte that is stored is dirty. -/
theorem dirty_bit_store (hg : s.dataGnt cfg i = true)
    (hbe : i.dataBe.getLsbD j = true) :
    (s.wbufferD cfg i (s.wrPtr i)).dirty.getLsbD j = true := by
  rw [dirty_step]
  dsimp only
  rw [if_pos ⟨hg, rfl⟩, BitVec.getLsbD_or, hbe, Bool.or_true]

theorem valid_of_bit (hv : (s.wbuffer k).valid.getLsbD j = true) :
    s.valid k = true := by
  rw [valid, bne_iff_ne]
  intro hzero
  rw [hzero, BitVec.getLsbD_zero] at hv
  exact Bool.false_ne_true hv

/-- The word of an entry that is valid stays. -/
theorem Inv.wtag_keep (h : Inv cfg s ids) (hv : s.valid k = true) :
    (s.wbufferD cfg i k).wtag = (s.wbuffer k).wtag := by
  rw [wtag_step]
  split_ifs with hg
  · rcases (h.gnt_spec hg.1).2 with ⟨-, htag⟩ | ⟨hfree, -⟩
    · rw [hg.2, htag]
    · rw [hg.2, hfree] at hv
      exact absurd hv Bool.false_ne_true
  · rfl

/-- The entry of a store's word is the one that the store goes to. -/
theorem Inv.wrPtr_eq (h : Inv cfg s ids) (hg : s.dataGnt cfg i = true)
    (hv : s.valid k = true) (htag : (s.wbuffer k).wtag = i.wtag) :
    k = s.wrPtr i := by
  rcases (h.gnt_spec hg).2 with ⟨hw, hwtag⟩ | ⟨-, hnone⟩
  · exact h.tags k _ hv hw (htag.trans hwtag.symm)
  · exact absurd htag (hnone k hv)

/-- A transfer sends dirty bytes, each in its own lane. -/
theorem Inv.sent_byte (h : Inv cfg s ids) (hs : s.dirtyRdEn cfg i = true)
    (hlo : s.bdirtyOff ≤ j) (hhi : j < s.bdirtyOff + 2 ^ s.missSize) :
    (s.wbuffer s.dirtyPtr).valid.getLsbD j = true ∧
      s.missWdata j = (s.wbuffer s.dirtyPtr).data j := by
  obtain ⟨hlen, hbytes⟩ := toSize64_spec _ (h.bdirty_ne hs)
  have hj : j < 8 := Nat.lt_of_lt_of_le hhi hlen
  obtain ⟨hbe, hlane⟩ := hbytes j hj
  have htx : s.txBe.getLsbD j = true := hbe.mpr ⟨hlo, hhi⟩
  constructor
  · have hdirty := congrArg (fun b => b.getLsbD j) (h.send_spec hs).2.2.1
    simp only [BitVec.getLsbD_and, BitVec.getLsbD_not, htx,
      BitVec.getLsbD_zero, Bool.true_and, decide_eq_true hj,
      Bool.not_eq_false'] at hdirty
    rw [h.ok, BitVec.getLsbD_or, hdirty, Bool.true_or]
  · rw [missWdata, repData64_eq]
    exact congrArg _ (hlane hlo hhi)

/-- And all bytes that it enables. -/
theorem Inv.sent_range (h : Inv cfg s ids) (hs : s.dirtyRdEn cfg i = true)
    (htx : s.txBe.getLsbD j = true) :
    s.bdirtyOff ≤ j ∧ j < s.bdirtyOff + 2 ^ s.missSize := by
  obtain ⟨-, hbytes⟩ := toSize64_spec _ (h.bdirty_ne hs)
  exact (hbytes j (BitVec.lt_of_getLsbD htx)).1.mp htx

end Wbuffer

/-! ## What a cycle keeps -/

section Next

variable {cfg : Config} {t : Trace} {i : WbufferIn} {ids : List ℕ}

theorem Transfer.answer_of_none {now : ℕ} {rtrn : Option ℕ} {T : Transfer}
    (h : (T.answer now rtrn).rtrn = none) :
    T.answer now rtrn = T ∧ rtrn ≠ some T.id := by
  rw [answer] at h ⊢
  split_ifs at h ⊢ with hid
  exact ⟨rfl, fun heq => hid ⟨heq, h⟩⟩

theorem Transfer.answer_covers {now : ℕ} {rtrn : Option ℕ} {T : Transfer}
    {w j : ℕ} : (T.answer now rtrn).Covers w j ↔ T.Covers w j := by
  rw [answer]
  split_ifs <;> rfl

theorem Transfer.answer_data (now : ℕ) (rtrn : Option ℕ) (T : Transfer) :
    (T.answer now rtrn).data = T.data := by
  rw [answer]
  split_ifs <;> rfl

theorem Transfer.answer_ack (now : ℕ) (rtrn : Option ℕ) (T : Transfer) :
    (T.answer now rtrn).ack = T.ack := by
  rw [answer]
  split_ifs <;> rfl

theorem Transfer.answer_rtrn {now r : ℕ} {rtrn : Option ℕ} {T : Transfer}
    (h : T.rtrn = some r) : (T.answer now rtrn).rtrn = some r := by
  rw [answer, if_neg (by rw [h]; simp)]
  exact h

theorem Transfer.answer_before {now : ℕ} {rtrn : Option ℕ}
    {T T' : Transfer} (h : T.Before T') :
    (T.answer now rtrn).Before (T'.answer now rtrn) := by
  obtain ⟨r, hr, hlt⟩ := h
  exact ⟨r, answer_rtrn hr, by rw [answer_ack]; exact hlt⟩

theorem mem_transfers {T : Transfer} (hT : T ∈ (t.step cfg i).transfers) :
    (∃ T' ∈ t.transfers, T = T'.answer t.now i.missRtrn) ∨
      (t.wb.dirtyRdEn cfg i = true ∧ T = t.sent cfg) := by
  rcases List.mem_append.mp hT with hT | hT
  · obtain ⟨T', hT', rfl⟩ := List.mem_map.mp hT
    exact Or.inl ⟨T', hT', rfl⟩
  · split_ifs at hT with hs
    · exact Or.inr ⟨hs, List.mem_singleton.mp hT⟩
    · exact absurd hT List.not_mem_nil

theorem mem_stores {S : Store} (hS : S ∈ t.stores) :
    S ∈ (t.step cfg i).stores :=
  List.mem_append.mpr (Or.inl hS)

/-- What the stores leave in a byte that the store of this cycle does not
write. -/
theorem stores_keep (m : Memory) {w j : ℕ}
    (hnot : t.wb.dataGnt cfg i = true → ¬i.taken.Covers w j) :
    (t.step cfg i).stores.foldl Memory.store m w j =
      t.stores.foldl Memory.store m w j := by
  show (t.stores ++ _).foldl Memory.store m w j = _
  rw [List.foldl_append]
  split_ifs with hg
  · exact if_neg (hnot hg)
  · rfl

/-- And in one that it writes. -/
theorem stores_taken (m : Memory) {w j : ℕ}
    (hg : t.wb.dataGnt cfg i = true) (hc : i.taken.Covers w j) :
    (t.step cfg i).stores.foldl Memory.store m w j = i.dataWdata j := by
  show (t.stores ++ _).foldl Memory.store m w j = _
  rw [List.foldl_append, if_pos hg]
  exact if_pos hc

/-- What the transfers leave in a byte that the transfer of this cycle does
not write. -/
theorem transfers_keep (m : Memory) {w j : ℕ}
    (hnot : t.wb.dirtyRdEn cfg i = true → ¬(t.sent cfg).Covers w j) :
    (t.step cfg i).transfers.foldl Memory.transfer m w j =
      t.transfers.foldl Memory.transfer m w j := by
  show (t.transfers.map (Transfer.answer t.now i.missRtrn) ++ _).foldl
    Memory.transfer m w j = _
  rw [List.foldl_append, foldl_answer]
  split_ifs with hs
  · exact if_neg (hnot hs)
  · rfl

/-- And in one that it writes. -/
theorem transfers_sent (m : Memory) {w j : ℕ}
    (hs : t.wb.dirtyRdEn cfg i = true) (hc : (t.sent cfg).Covers w j) :
    (t.step cfg i).transfers.foldl Memory.transfer m w j =
      (t.sent cfg).data j := by
  show (t.transfers.map (Transfer.answer t.now i.missRtrn) ++ _).foldl
    Memory.transfer m w j = _
  rw [List.foldl_append, if_pos hs]
  exact if_pos hc

variable (h : t.Inv cfg ids)
include h

/-- A transfer sends dirty bytes, as the entry has them. -/
theorem Trace.Inv.sent_spec (hs : t.wb.dirtyRdEn cfg i = true) {w j : ℕ}
    (hc : (t.sent cfg).Covers w j) :
    w = (t.wb.wbuffer t.wb.dirtyPtr).wtag ∧
      (t.wb.wbuffer t.wb.dirtyPtr).valid.getLsbD j = true ∧
      (t.sent cfg).data j = (t.wb.wbuffer t.wb.dirtyPtr).data j :=
  ⟨hc.1, h.wb.sent_byte hs hc.2.1 hc.2.2⟩

/-- The entry of a transfer that is not answered. -/
theorem Trace.Inv.live_valid {T : Transfer} (hT : T ∈ t.transfers)
    (hopen : T.rtrn = none) :
    t.wb.valid (t.wb.txStat T.id).ptr = true ∧
      (t.wb.wbuffer (t.wb.txStat T.id).ptr).txblock ≠ 0#8 := by
  obtain ⟨hv, -, -⟩ := h.live T hT hopen
  obtain ⟨-, hbe, hne⟩ := h.wb.slot _ hv
  rw [hbe] at hne
  exact ⟨bne_iff_ne.mpr ((h.wb.ok _).valid_of_txblock hne), hne⟩

/-- The response of this cycle is for a slot that waits. -/
theorem Trace.Inv.rtrn_spec (ha : Answers t i) {id : ℕ}
    (hid : i.missRtrn = some id) :
    (t.wb.txStat id).vld = true ∧ id ∉ ids := by
  obtain ⟨T, hT, hTid, hopen⟩ := ha id hid
  obtain ⟨hv, hnot, -⟩ := h.live T hT hopen
  rw [hTid] at hv hnot
  exact ⟨hv, hnot⟩

/-- The entry of a transfer has dirty bytes. -/
theorem Trace.Inv.dirty_valid (hs : t.wb.dirtyRdEn cfg i = true) :
    t.wb.valid t.wb.dirtyPtr = true := by
  refine Wbuffer.valid_of_bit (j := t.wb.bdirtyOff) ?_
  exact (h.wb.sent_byte hs (Nat.le_refl _)
    (Nat.lt_add_of_pos_right (Nat.two_pow_pos _))).1

theorem Trace.Inv.live_step (ha : Answers t i) (T : Transfer)
    (hT : T ∈ (t.step cfg i).transfers) (hopen : T.rtrn = none) :
    ((t.wb.step cfg i).txStat T.id).vld = true ∧
      T.id ∉ (if t.wb.evict i then ids.tail else ids) ++ i.missRtrn.toList ∧
      ((t.wb.step cfg i).wbuffer
        ((t.wb.step cfg i).txStat T.id).ptr).wtag = T.word := by
  rcases mem_transfers hT with ⟨T', hT', rfl⟩ | ⟨hs, rfl⟩
  · obtain ⟨hsame, hrtrn⟩ := Transfer.answer_of_none hopen
    rw [hsame] at hopen ⊢
    obtain ⟨hv, hnot, hword⟩ := h.live T' hT' hopen
    have hid : ¬(t.wb.evict i = true ∧ T'.id = t.wb.rtrnId) := by
      rintro ⟨he, heq⟩
      obtain ⟨rest, hids⟩ := h.wb.evict_spec he
      exact hnot (by rw [hids, heq]; exact List.mem_cons_self)
    have hkeep := h.wb.txStat_keep hv hid
    refine ⟨h.wb.vld_step hv hid, ?_, ?_⟩
    · rw [List.mem_append, not_or]
      constructor
      · split_ifs
        · exact fun hmem => hnot (List.mem_of_mem_tail hmem)
        · exact hnot
      · simpa using hrtrn
    · show (t.wb.wbufferD cfg i (t.wb.txStatD cfg i T'.id).ptr).wtag = _
      rw [hkeep, h.wb.wtag_keep (h.live_valid hT' hopen).1, hword]
  · have hfree := (h.wb.send_spec hs).2.2.2.2
    have halloc := Wbuffer.txStat_alloc hs
    refine ⟨?_, ?_, ?_⟩
    · show (t.wb.txStatD cfg i (t.wb.txId cfg)).vld = true
      rw [halloc]
    · have hnone : ∀ id, (t.wb.txStat id).vld = true →
          (t.sent cfg).id ≠ id := by
        rintro id hv rfl
        exact Bool.false_ne_true (hfree.symm.trans hv)
      rw [List.mem_append, not_or]
      constructor
      · intro hmem
        have hmem' : (t.sent cfg).id ∈ ids := by
          split_ifs at hmem
          · exact List.mem_of_mem_tail hmem
          · exact hmem
        exact hnone _ (h.wb.waiting _ hmem') rfl
      · intro hmem
        have hid : i.missRtrn = some (t.sent cfg).id := by simpa using hmem
        exact hnone _ (h.rtrn_spec ha hid).1 rfl
    · show (t.wb.wbufferD cfg i
        (t.wb.txStatD cfg i (t.wb.txId cfg)).ptr).wtag = _
      rw [halloc]
      exact h.wb.wtag_keep (h.dirty_valid hs)

theorem Trace.Inv.past_step (T : Transfer)
    (hT : T ∈ (t.step cfg i).transfers) (r : ℕ) (hr : T.rtrn = some r) :
    r < t.now + 1 := by
  rcases mem_transfers hT with ⟨T', hT', rfl⟩ | ⟨-, rfl⟩
  · rw [Transfer.answer] at hr
    split_ifs at hr
    · have heq : t.now = r := Option.some.inj hr
      omega
    · have hlt := h.past T' hT' r hr
      omega
  · exact absurd hr (by simp [sent])

/-- What is sent overlaps only transfers that were answered. -/
theorem Trace.Inv.order_step : (t.step cfg i).transfers.Pairwise
    fun T T' => T.Overlaps T' → T.Before T' := by
  refine List.pairwise_append.mpr ⟨?_, ?_, ?_⟩
  · refine List.pairwise_map.mpr (h.order.imp ?_)
    rintro T T' hbefore ⟨w, j, hc, hc'⟩
    exact Transfer.answer_before (hbefore ⟨w, j,
      Transfer.answer_covers.mp hc, Transfer.answer_covers.mp hc'⟩)
  · split_ifs
    · exact List.pairwise_singleton _ _
    · exact List.Pairwise.nil
  · intro T hT T' hT' hover
    obtain ⟨T₀, hT₀, rfl⟩ := List.mem_map.mp hT
    split_ifs at hT' with hs
    · rw [List.mem_singleton.mp hT'] at hover ⊢
      obtain ⟨w, j, hc, hc'⟩ := hover
      rw [Transfer.answer_covers] at hc
      cases hr : T₀.rtrn with
      | some r => exact ⟨r, Transfer.answer_rtrn hr, h.past T₀ hT₀ r hr⟩
      | none =>
        -- its entry is the one of the new transfer, but nothing of that
        -- is in flight
        exfalso
        obtain ⟨-, -, hword⟩ := h.live T₀ hT₀ hr
        obtain ⟨hvalid, hblock⟩ := h.live_valid hT₀ hr
        have hptr := h.wb.tags _ _ hvalid (h.dirty_valid hs)
          (hword.trans (hc.1.symm.trans hc'.1))
        rw [hptr] at hblock
        exact hblock (h.wb.send_spec hs).1
    · exact absurd hT' List.not_mem_nil

/-- A byte of the buffer after a cycle: it is that of the store, or it was
there and the store leaves it alone. -/
theorem Trace.Inv.byte_cases {k j : ℕ}
    (hv : (t.wb.wbufferD cfg i k).valid.getLsbD j = true) :
    (t.wb.dataGnt cfg i = true ∧
        i.taken.Covers (t.wb.wbufferD cfg i k).wtag j ∧
        (t.wb.wbufferD cfg i k).data j = i.dataWdata j) ∨
      ((t.wb.wbuffer k).valid.getLsbD j = true ∧
        (t.wb.wbufferD cfg i k).wtag = (t.wb.wbuffer k).wtag ∧
        (t.wb.wbufferD cfg i k).data j = (t.wb.wbuffer k).data j ∧
        (t.wb.dataGnt cfg i = true →
          ¬i.taken.Covers (t.wb.wbuffer k).wtag j)) := by
  by_cases hg : (t.wb.dataGnt cfg i = true ∧ k = t.wb.wrPtr i) ∧
      i.dataBe.getLsbD j = true
  · refine Or.inl ⟨hg.1.1, ⟨?_, hg.2⟩, ?_⟩
    · rw [Wbuffer.wtag_step, if_pos hg.1]
      rfl
    · rw [Wbuffer.data_step, if_pos hg]
  · have hold := (Wbuffer.valid_bit hv).resolve_left hg
    have hvalid := Wbuffer.valid_of_bit hold
    refine Or.inr ⟨hold, h.wb.wtag_keep hvalid, ?_, ?_⟩
    · rw [Wbuffer.data_step, if_neg hg]
    · rintro hgnt ⟨hw, hbe⟩
      exact hg ⟨⟨hgnt, h.wb.wrPtr_eq hgnt hvalid hw⟩, hbe⟩

theorem Trace.Inv.held_step (k j : ℕ)
    (hv : (t.wb.wbufferD cfg i k).valid.getLsbD j = true) :
    ∃ S ∈ (t.step cfg i).stores,
      S.Covers (t.wb.wbufferD cfg i k).wtag j ∧
        S.data j = (t.wb.wbufferD cfg i k).data j := by
  rcases h.byte_cases hv with ⟨hg, hc, hdata⟩ | ⟨hold, hword, hdata, -⟩
  · refine ⟨i.taken, List.mem_append.mpr (Or.inr ?_), hc, hdata.symm⟩
    rw [if_pos hg]
    exact List.mem_singleton_self _
  · obtain ⟨S, hS, hc, hval⟩ := h.held k j hold
    rw [hword, hdata]
    exact ⟨S, mem_stores hS, hc, hval⟩

theorem Trace.Inv.stored_step (T : Transfer)
    (hT : T ∈ (t.step cfg i).transfers) (w j : ℕ) (hc : T.Covers w j) :
    ∃ S ∈ (t.step cfg i).stores, S.Covers w j ∧ S.data j = T.data j := by
  rcases mem_transfers hT with ⟨T', hT', rfl⟩ | ⟨hs, rfl⟩
  · obtain ⟨S, hS, hSc, hval⟩ :=
      h.stored T' hT' w j (Transfer.answer_covers.mp hc)
    rw [Transfer.answer_data]
    exact ⟨S, mem_stores hS, hSc, hval⟩
  · obtain ⟨hw, hv, hdata⟩ := h.sent_spec hs hc
    obtain ⟨S, hS, hSc, hval⟩ := h.held _ j hv
    rw [hw, hdata]
    exact ⟨S, mem_stores hS, hSc, hval⟩

theorem Trace.Inv.latest_step (m : Memory) (k j : ℕ)
    (hv : (t.wb.wbufferD cfg i k).valid.getLsbD j = true) :
    (t.wb.wbufferD cfg i k).data j =
      (t.step cfg i).stores.foldl Memory.store m
        (t.wb.wbufferD cfg i k).wtag j := by
  rcases h.byte_cases hv with ⟨hg, hc, hdata⟩ | ⟨hold, hword, hdata, hnot⟩
  · rw [hdata, stores_taken m hg hc]
  · rw [hword, hdata, stores_keep m hnot]
    exact h.latest m k j hold

theorem Trace.Inv.clean_step (m : Memory) (w j : ℕ)
    (hclean : ∀ k, (t.wb.wbufferD cfg i k).wtag = w →
      (t.wb.wbufferD cfg i k).dirty.getLsbD j = false) :
    (t.step cfg i).transfers.foldl Memory.transfer m w j =
      (t.step cfg i).stores.foldl Memory.store m w j := by
  have hnot : t.wb.dataGnt cfg i = true → ¬i.taken.Covers w j := by
    rintro hg ⟨hw, hbe⟩
    have hword : (t.wb.wbufferD cfg i (t.wb.wrPtr i)).wtag = w := by
      rw [Wbuffer.wtag_step, if_pos ⟨hg, rfl⟩]
      exact hw.symm
    have hdirty := Wbuffer.dirty_bit_store hg hbe
    exact Bool.false_ne_true ((hclean _ hword).symm.trans hdirty)
  rw [stores_keep m hnot]
  by_cases hsent : t.wb.dirtyRdEn cfg i = true ∧ (t.sent cfg).Covers w j
  · obtain ⟨hw, hv, hdata⟩ := h.sent_spec hsent.1 hsent.2
    rw [transfers_sent m hsent.1 hsent.2, hdata, hw]
    exact h.latest m _ j hv
  · rw [transfers_keep m fun hs hc => hsent ⟨hs, hc⟩]
    refine h.clean m w j fun k hw => ?_
    -- a dirty byte stays one if it is not sent
    rw [← Bool.not_eq_true]
    intro hd
    have hvalid : t.wb.valid k = true := by
      refine Wbuffer.valid_of_bit (j := j) ?_
      rw [h.wb.ok, BitVec.getLsbD_or, hd, Bool.true_or]
    have hword := (h.wb.wtag_keep (i := i) hvalid).trans hw
    obtain ⟨⟨hs, hk⟩, htx⟩ := Wbuffer.dirty_bit hd (hclean k hword)
    obtain ⟨hlo, hhi⟩ := h.wb.sent_range hs htx
    exact hsent ⟨hs, by rw [← hw, hk]; rfl, hlo, hhi⟩

/-- Every cycle keeps the invariant. -/
theorem Trace.Inv.step (ha : Answers t i) : (t.step cfg i).Inv cfg
    ((if t.wb.evict i then ids.tail else ids) ++ i.missRtrn.toList) where
  wb := h.wb.step fun _ hid => h.rtrn_spec ha hid
  live := h.live_step ha
  past := h.past_step
  order := h.order_step
  held := h.held_step
  stored := h.stored_step
  latest := h.latest_step
  clean := h.clean_step

end Next

/-! ## A run -/

/-- A cycle with a store, an acknowledge and a response. -/
def WbufferIn.sample (store : Option (ℕ × BitVec 8)) (ack : Bool)
    (rtrn : Option ℕ) : WbufferIn where
  cacheEn := true
  dataReq := store.isSome
  wtag := (store.getD (0, 0#8)).1
  dataBe := (store.getD (0, 0#8)).2
  dataWdata := fun j => 16 + BitVec.ofNat 8 j
  missAck := ack
  missRtrn := rtrn
  rdAck := true
  rdHitOh := 1
  wrCl := none
  wrAck := true

/-- A word is stored to again while its first bytes are in flight. -/
def sampleRun : List WbufferIn :=
  [.sample (some (5, 0x0f#8)) false none, .sample none true none,
    .sample (some (5, 0x06#8)) true none,
    .sample (some (9, 0xff#8)) true none, .sample none true none,
    .sample none false (some 1), .sample none false (some 0),
    .sample none true none, .sample none true none, .sample none true none]

/-! ## The results -/

/-- What the entries and the transaction slots say of the bytes. -/
structure Wbuffer.Represents (s : Wbuffer) : Prop where
  /-- valid, dirty and in flight -/
  bytes : ∀ k j, ((s.wbuffer k).valid.getLsbD j,
      (s.wbuffer k).dirty.getLsbD j, (s.wbuffer k).txblock.getLsbD j) ∈
    [(false, false, false), (true, true, false), (true, false, true),
      (true, true, true)]
  words : ∀ k k', (s.wbuffer k).valid ≠ 0#8 →
    (s.wbuffer k').valid ≠ 0#8 →
    (s.wbuffer k).wtag = (s.wbuffer k').wtag → k = k'
  points : ∀ id, (s.txStat id).vld = true →
    (s.wbuffer (s.txStat id).ptr).valid ≠ 0#8
  disjoint : ∀ id id', (s.txStat id).vld = true →
    (s.txStat id').vld = true → (s.txStat id).ptr = (s.txStat id').ptr →
    id ≠ id' → (s.txStat id).be &&& (s.txStat id').be = 0#8
  union : ∀ k j, (s.wbuffer k).txblock.getLsbD j = true ↔
    ∃ id, (s.txStat id).vld = true ∧ (s.txStat id).ptr = k ∧
      (s.txStat id).be.getLsbD j = true

theorem Wbuffer.Inv.represents {cfg : Config} {s : Wbuffer} {ids : List ℕ}
    (h : s.Inv cfg ids) : s.Represents where
  bytes k j := by
    rw [h.ok k, BitVec.getLsbD_or]
    cases (s.wbuffer k).dirty.getLsbD j <;>
      cases (s.wbuffer k).txblock.getLsbD j <;> decide
  words k k' hv hv' := h.tags k k' (bne_iff_ne.mpr hv) (bne_iff_ne.mpr hv')
  points id hv := by
    obtain ⟨-, hbe, hne⟩ := h.slot id hv
    rw [hbe] at hne
    exact (h.ok _).valid_of_txblock hne
  disjoint id id' hv hv' hptr hne := absurd (h.one id id' hv hv' hptr) hne
  union k j := by
    constructor
    · intro hj
      have hne : (s.wbuffer k).txblock ≠ 0#8 := by
        intro hzero
        rw [hzero, BitVec.getLsbD_zero] at hj
        exact Bool.false_ne_true hj
      obtain ⟨id, hv, hptr⟩ := h.blocked k hne
      refine ⟨id, hv, hptr, ?_⟩
      rw [(h.slot id hv).2.1, hptr]
      exact hj
    · rintro ⟨id, hv, hptr, hj⟩
      rw [(h.slot id hv).2.1, hptr] at hj
      exact hj

instance (t : Trace) (i : WbufferIn) : Decidable (Answers t i) :=
  inferInstanceAs (Decidable (∀ id ∈ i.missRtrn,
    ∃ T ∈ t.transfers, T.id = id ∧ T.rtrn = none))

/-- In every run the entries and the slots represent the bytes and what is
in flight, and no slot is allocated and cleared in one cycle. -/
theorem bytes_represented (cfg : Config) {is : List WbufferIn}
    (h : Sync.Along (Trace.step cfg) Answers Trace.reset is) :
    Sync.Always (Trace.step cfg) (fun t => t.wb.Represents)
        Trace.reset is ∧
      Sync.Along (Trace.step cfg) (fun t i =>
        t.wb.dirtyRdEn cfg i = true → t.wb.evict i = true →
          t.wb.txId cfg ≠ t.wb.rtrnId) Trace.reset is := by
  have hstep : ∀ t i, Answers t i → (∃ ids, t.Inv cfg ids) →
      ∃ ids, (t.step cfg i).Inv cfg ids := by
    rintro t i ha ⟨ids, hinv⟩
    exact ⟨_, hinv.step ha⟩
  have hreset : ∃ ids, Trace.reset.Inv cfg ids := ⟨[], Trace.inv_reset cfg⟩
  refine ⟨(h.always hstep hreset).mono ?_, (h.along hstep hreset).mono ?_⟩
  · rintro t ⟨ids, hinv⟩
    exact hinv.wb.represents
  · rintro t i ⟨-, ids, hinv⟩ hs he
    exact hinv.wb.id_ne he hs

theorem bytes_represented_sample :
    let cfg : Config := ⟨2, 12, 4, fun _ => true⟩
    Sync.Always (Trace.step cfg) (fun t => t.wb.Represents)
        Trace.reset sampleRun ∧
      Sync.Along (Trace.step cfg) (fun t i =>
        t.wb.dirtyRdEn cfg i = true → t.wb.evict i = true →
          t.wb.txId cfg ≠ t.wb.rtrnId) Trace.reset sampleRun :=
  bytes_represented ⟨2, 12, 4, fun _ => true⟩ (by decide +kernel)

/-- A byte of the memory that is in the buffer. -/
def Wbuffer.Pending (s : Wbuffer) (w j : ℕ) : Prop :=
  ∃ k, (s.wbuffer k).wtag = w ∧ (s.wbuffer k).valid.getLsbD j = true

/-- What the transfers do to the memory. -/
structure Trace.Correct (t : Trace) : Prop where
  memory : ∀ (m : Memory) (order : List Transfer),
    order.Perm t.transfers → Consistent order →
    ∀ w j, ¬t.wb.Pending w j →
      order.foldl Memory.transfer m w j = t.stores.foldl Memory.store m w j
  onlyStored : ∀ T ∈ t.transfers, ∀ w j, T.Covers w j →
    ∃ S ∈ t.stores, S.Covers w j ∧ S.data j = T.data j
  /-- of two that overlap the first is answered before the second is sent -/
  apart : t.transfers.Pairwise fun T T' => T.Overlaps T' → T.Before T'

theorem Trace.Inv.correct {cfg : Config} {t : Trace} {ids : List ℕ}
    (h : t.Inv cfg ids) : t.Correct where
  memory m order hperm horder w j hnot := by
    rw [Reorder.foldl_eq_of_perm transfer_comm hperm h.order horder m]
    refine h.clean m w j fun k hw => ?_
    rw [← Bool.not_eq_true]
    intro hd
    refine hnot ⟨k, hw, ?_⟩
    rw [h.wb.ok, BitVec.getLsbD_or, hd, Bool.true_or]
  onlyStored := h.stored
  apart := h.order

/-- In every run, in whatever order the memory applies the transfers, the
bytes that are not in the buffer are what the stores in program order make
them. -/
theorem memory_correct (cfg : Config) {is : List WbufferIn}
    (h : Sync.Along (Trace.step cfg) Answers Trace.reset is) :
    Sync.Always (Trace.step cfg) Trace.Correct Trace.reset is := by
  refine (h.always (P := fun t => ∃ ids, t.Inv cfg ids) ?_
    ⟨[], Trace.inv_reset cfg⟩).mono ?_
  · rintro t i ha ⟨ids, hinv⟩
    exact ⟨_, hinv.step ha⟩
  · rintro t ⟨ids, hinv⟩
    exact hinv.correct

theorem memory_correct_sample :
    Sync.Always (Trace.step ⟨2, 12, 4, fun _ => true⟩) Trace.Correct
      Trace.reset sampleRun :=
  memory_correct ⟨2, 12, 4, fun _ => true⟩ (by decide +kernel)

end ArianeSoc.Cache
