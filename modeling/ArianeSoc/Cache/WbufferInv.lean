import ArianeSoc.Cache.Wbuffer
import ArianeSoc.Sync

/-!
# What the write buffer keeps

`Inv` relates the entries, the transaction slots, the queue of answered
transactions and the arbiters: every entry has at most one transaction in
flight, which is the one that its slot says, and the arbiters decide on
requests that are still there.  The lemmas follow the stages of a cycle:
`evict_spec`, `send_spec` and `gnt_spec` say what each of them relies on,
`txblock_step` and its like what an entry is after all of them.
-/

namespace ArianeSoc.Cache

open CommonCells

/-! ## The bytes of an entry -/

/-- Each byte is empty, dirty, in flight, or in flight and dirty again. -/
def WbufferEntry.Ok (e : WbufferEntry) : Prop :=
  e.valid = e.dirty ||| e.txblock

namespace WbufferEntry

variable {e : WbufferEntry}

theorem Ok.dirty_valid (h : e.Ok) : e.dirty &&& e.valid = e.dirty := by
  rw [h]
  ext j hj
  simp only [BitVec.getElem_and, BitVec.getElem_or]
  cases e.dirty[j] <;> simp

theorem Ok.valid_of_txblock (h : e.Ok) (ht : e.txblock ≠ 0#8) :
    e.valid ≠ 0#8 := by
  intro hv
  rw [h] at hv
  exact ht (BitVec.or_eq_zero_iff.mp hv).2

end WbufferEntry

/-- An eviction leaves the dirty bytes. -/
theorem mask_evict (d t : BitVec 8) :
    (d ||| t) &&& ~~~(t &&& ~~~d) = d ||| 0#8 := by
  ext j hj
  simp only [BitVec.getElem_and, BitVec.getElem_or, BitVec.getElem_not,
    BitVec.getElem_zero]
  cases d[j] <;> cases t[j] <;> rfl

/-- Dirty bytes that are sent are in flight. -/
theorem mask_send {d x : BitVec 8} (h : x &&& ~~~d = 0#8) :
    d ||| 0#8 = (d &&& ~~~x) ||| x := by
  ext j hj
  have hbit := congrArg (fun b => b[j]) h
  simp only [BitVec.getElem_and, BitVec.getElem_not,
    BitVec.getElem_zero] at hbit
  simp only [BitVec.getElem_and, BitVec.getElem_or, BitVec.getElem_not,
    BitVec.getElem_zero]
  cases hd : d[j] <;> cases hx : x[j] <;> simp [hd, hx] at hbit ⊢

theorem mask_store (d t be : BitVec 8) :
    (d ||| t) ||| be = (d ||| be) ||| t := by
  rw [BitVec.or_assoc, BitVec.or_comm t, BitVec.or_assoc]

/-- A transfer is not empty and sends dirty bytes only. -/
theorem toByteEnable8_sub : ∀ be : BitVec 8, be ≠ 0#8 →
    toByteEnable8 (lzc 8 be.getLsbD) (toSize64 be) ≠ 0#8 ∧
      toByteEnable8 (lzc 8 be.getLsbD) (toSize64 be) &&& ~~~be = 0#8 := by
  decide +kernel

namespace Wbuffer

variable {cfg : Config} {s : Wbuffer} {i : WbufferIn} {ids : List ℕ}

/-! ## The stages of a cycle -/

section Stages

variable (cfg s i) (k : ℕ)

/-- What the lookup and the invalidations leave alone. -/
def known : WbufferEntry := s.updInval cfg i (s.updLookup s.wbuffer) k

theorem wbufferD_apply : s.wbufferD cfg i k =
    let e₀ := s.known cfg i k
    let e₁ := if s.evict i = true ∧ k = s.rtrnPtr then s.evictEntry e₀ else e₀
    let e₂ := if s.dirtyRdEn cfg i = true ∧ k = s.dirtyPtr then
      s.sendEntry e₁ else e₁
    if s.dataGnt cfg i = true ∧ k = s.wrPtr i then storeEntry i e₂ else e₂ := by
  have hupd : ∀ (c : Bool) (p : ℕ) (f : WbufferEntry → WbufferEntry)
      (buf : ℕ → WbufferEntry),
      (if c then Function.update buf p (f (buf p)) else buf) k =
        if c = true ∧ k = p then f (buf k) else buf k := by
    intro c p f buf
    cases c with
    | false => simp
    | true =>
      by_cases hk : k = p
      · subst hk
        simp
      · simp [hk]
  rw [wbufferD, updStore, hupd, updSend, hupd, updEvict, hupd]
  rfl

theorem updLookup_same (buf : ℕ → WbufferEntry) :
    ∃ c hitOh, s.updLookup buf k =
      { buf k with checked := c, hitOh := hitOh } := by
  rw [updLookup]
  split_ifs with hret
  · by_cases hk : k = s.checkPtr1
    · subst hk
      rw [Function.update_self]
      exact ⟨_, _, rfl⟩
    · rw [Function.update_of_ne hk]
      exact ⟨_, _, rfl⟩
  · exact ⟨_, _, rfl⟩

/-- Only the knowledge of the cache line is touched. -/
theorem known_same : ∃ c hitOh, s.known cfg i k =
    { s.wbuffer k with checked := c, hitOh := hitOh } := by
  obtain ⟨c, hitOh, hlookup⟩ := updLookup_same s k s.wbuffer
  rw [known, updInval, hlookup]
  split_ifs
  · exact ⟨_, _, rfl⟩
  · exact ⟨_, _, rfl⟩

theorem dirty_step : (s.wbufferD cfg i k).dirty =
    let d := if s.dirtyRdEn cfg i = true ∧ k = s.dirtyPtr then
      (s.wbuffer k).dirty &&& ~~~s.txBe else (s.wbuffer k).dirty
    if s.dataGnt cfg i = true ∧ k = s.wrPtr i then d ||| i.dataBe else d := by
  obtain ⟨c, hitOh, hknown⟩ := known_same cfg s i k
  rw [wbufferD_apply, hknown]
  simp only [evictEntry, sendEntry, storeEntry]
  split_ifs <;> rfl

theorem txblock_stages : (s.wbufferD cfg i k).txblock =
    let t := if s.evict i = true ∧ k = s.rtrnPtr then
      (s.wbuffer k).txblock &&& ~~~(s.txStat s.rtrnId).be
      else (s.wbuffer k).txblock
    if s.dirtyRdEn cfg i = true ∧ k = s.dirtyPtr then t ||| s.txBe
    else t := by
  obtain ⟨c, hitOh, hknown⟩ := known_same cfg s i k
  rw [wbufferD_apply, hknown]
  simp only [evictEntry, sendEntry, storeEntry]
  split_ifs <;> rfl

theorem valid_step : (s.wbufferD cfg i k).valid =
    let v := if s.evict i = true ∧ k = s.rtrnPtr then
      (s.wbuffer k).valid &&&
        ~~~((s.txStat s.rtrnId).be &&& ~~~(s.wbuffer s.rtrnPtr).dirty)
      else (s.wbuffer k).valid
    if s.dataGnt cfg i = true ∧ k = s.wrPtr i then v ||| i.dataBe
    else v := by
  obtain ⟨c, hitOh, hknown⟩ := known_same cfg s i k
  rw [wbufferD_apply, hknown]
  simp only [evictEntry, sendEntry, storeEntry]
  split_ifs <;> rfl

theorem wtag_step : (s.wbufferD cfg i k).wtag =
    if s.dataGnt cfg i = true ∧ k = s.wrPtr i then i.wtag
    else (s.wbuffer k).wtag := by
  obtain ⟨c, hitOh, hknown⟩ := known_same cfg s i k
  rw [wbufferD_apply, hknown]
  simp only [evictEntry, sendEntry, storeEntry]
  split_ifs <;> rfl

theorem data_step (j : ℕ) : (s.wbufferD cfg i k).data j =
    if (s.dataGnt cfg i = true ∧ k = s.wrPtr i) ∧ i.dataBe.getLsbD j = true
    then i.dataWdata j else (s.wbuffer k).data j := by
  obtain ⟨c, hitOh, hknown⟩ := known_same cfg s i k
  rw [wbufferD_apply, hknown]
  simp only [evictEntry, sendEntry, storeEntry]
  split_ifs <;> simp_all

end Stages

/-! ## The invariant -/

/-- What holds in every state; `ids` are the answered transactions. -/
structure Inv (cfg : Config) (s : Wbuffer) (ids : List ℕ) : Prop where
  ok : ∀ k, (s.wbuffer k).Ok
  lt : ∀ k, s.valid k = true → k < 8
  tags : ∀ k k', s.valid k = true → s.valid k' = true →
    (s.wbuffer k).wtag = (s.wbuffer k').wtag → k = k'
  slot : ∀ id, (s.txStat id).vld = true → id < 2 ^ cfg.cacheIdWidth ∧
    (s.txStat id).be = (s.wbuffer (s.txStat id).ptr).txblock ∧
      (s.txStat id).be ≠ 0#8
  one : ∀ id id', (s.txStat id).vld = true → (s.txStat id').vld = true →
    (s.txStat id).ptr = (s.txStat id').ptr → id = id'
  blocked : ∀ k, (s.wbuffer k).txblock ≠ 0#8 →
    ∃ id, (s.txStat id).vld = true ∧ (s.txStat id).ptr = k
  fifo : s.rtrnFifo.Holds (2 ^ cfg.cacheIdWidth) ids
  nodup : ids.Nodup
  waiting : ∀ id ∈ ids, (s.txStat id).vld = true
  txArb : s.txArb.Locked cfg.cacheIdWidth s.txFree
  dirtyArb : s.dirtyArb.Locked 3 s.dirty

theorem inv_reset (cfg : Config) : Inv cfg reset [] where
  ok _ := (by decide : 0#8 = 0#8 ||| 0#8)
  lt k h := absurd h (by simp [valid, reset, WbufferEntry.reset])
  tags k k' h := absurd h (by simp [valid, reset, WbufferEntry.reset])
  slot id h := absurd h Bool.false_ne_true
  one id id' h := absurd h Bool.false_ne_true
  blocked k h := absurd rfl h
  fifo := FifoV3.Holds.init 0 (Nat.pow_pos (by omega))
  nodup := List.nodup_nil
  waiting id h := absurd h List.not_mem_nil
  txArb := RrArbTree.locked_reset
  dirtyArb := RrArbTree.locked_reset

section Specs

variable (h : Inv cfg s ids)
include h

/-- An eviction is of the oldest answered transaction. -/
theorem Inv.evict_spec (he : s.evict i = true) :
    ∃ rest, ids = s.rtrnId :: rest := by
  have hne : s.rtrnFifo.emptyO = false := by
    rw [evict, answered, Bool.and_eq_true, Bool.and_eq_true,
      Bool.not_eq_true'] at he
    exact he.1.1
  cases hids : ids with
  | nil =>
    rw [h.fifo.emptyO_iff.mpr hids] at hne
    exact absurd hne (by decide)
  | cons x rest =>
    have hx : s.rtrnId = x := h.fifo.dataO_eq (by rw [hids]; rfl)
    exact ⟨rest, by rw [hx]⟩

theorem Inv.evict_vld (he : s.evict i = true) :
    (s.txStat s.rtrnId).vld = true := by
  obtain ⟨rest, hids⟩ := h.evict_spec he
  exact h.waiting _ (by rw [hids]; exact List.mem_cons_self)

/-- A transfer is requested for an entry that has dirty bytes to send. -/
theorem Inv.bdirty_ne (hs : s.dirtyRdEn cfg i = true) :
    s.bdirty s.dirtyPtr ≠ 0#8 := by
  have hany : anyReq s.dirty 3 0 = true := by
    rw [dirtyRdEn, missReq, Bool.and_eq_true, Bool.and_eq_true] at hs
    exact hs.1.1
  exact bne_iff_ne.mp (h.dirtyArb.idx_spec hany).2

/-- What is sent are dirty bytes of an entry of which nothing is in flight,
in a free slot. -/
theorem Inv.send_spec (hs : s.dirtyRdEn cfg i = true) :
    (s.wbuffer s.dirtyPtr).txblock = 0#8 ∧
      s.txBe ≠ 0#8 ∧ s.txBe &&& ~~~(s.wbuffer s.dirtyPtr).dirty = 0#8 ∧
      s.txId cfg < 2 ^ cfg.cacheIdWidth ∧
      (s.txStat (s.txId cfg)).vld = false := by
  have hfree : s.freeTxSlots cfg = true := by
    rw [dirtyRdEn, missReq, Bool.and_eq_true, Bool.and_eq_true] at hs
    exact hs.1.2
  obtain ⟨hid, hvld⟩ := h.txArb.idx_spec hfree
  have hne : s.bdirty s.dirtyPtr ≠ 0#8 := h.bdirty_ne hs
  have htx : (s.wbuffer s.dirtyPtr).txblock = 0#8 := by
    by_contra hblock
    exact hne (by rw [bdirty, if_pos hblock])
  have hbytes : s.bdirty s.dirtyPtr = (s.wbuffer s.dirtyPtr).dirty := by
    rw [bdirty, if_neg (by simp [htx]), (h.ok _).dirty_valid]
  have hsub := toByteEnable8_sub _ hne
  refine ⟨htx, hsub.1, ?_, hid, ?_⟩
  · rw [← hbytes]
    exact hsub.2
  · rw [← Bool.not_eq_true']
    exact hvld

/-- A store goes to the entry of its word, or to a free one if the word has
none. -/
theorem Inv.gnt_spec (hg : s.dataGnt cfg i = true) :
    s.wrPtr i < 8 ∧
      (s.valid (s.wrPtr i) = true ∧ (s.wbuffer (s.wrPtr i)).wtag = i.wtag ∨
        s.valid (s.wrPtr i) = false ∧
          ∀ k, s.valid k = true → (s.wbuffer k).wtag ≠ i.wtag) := by
  have hrdy : s.rdy i = true := by
    rw [dataGnt, Bool.and_eq_true, Bool.and_eq_true] at hg
    exact hg.1.2
  rw [wrPtr]
  cases hhits : s.hits i with
  | true =>
    obtain ⟨k, hk, hhit⟩ := List.any_eq_true.mp hhits
    obtain ⟨hlt, hat⟩ := lzc_spec (List.mem_range.mp hk) hhit
    rw [if_pos rfl]
    refine ⟨hlt, Or.inl ?_⟩
    simpa [hit] using hat
  | false =>
    rw [rdy, hhits, Bool.false_or, Bool.not_eq_true'] at hrdy
    obtain ⟨k, hk, hfree⟩ := lzcEmpty_iff.mp hrdy
    obtain ⟨hlt, hat⟩ := lzc_spec (p := fun k => !s.valid k) hk hfree
    rw [if_neg Bool.false_ne_true]
    refine ⟨hlt, Or.inr ⟨by simpa using hat, fun k' hv htag => ?_⟩⟩
    have hnot := List.any_eq_false.mp hhits k'
      (List.mem_range.mpr (h.lt k' hv))
    rw [hit, hv, htag] at hnot
    simp at hnot

/-- The entry of an eviction has something in flight, that of a transfer
nothing. -/
theorem Inv.ptr_ne (he : s.evict i = true) (hs : s.dirtyRdEn cfg i = true) :
    s.rtrnPtr ≠ s.dirtyPtr := by
  intro heq
  obtain ⟨-, hbe, hne⟩ := h.slot _ (h.evict_vld he)
  apply hne
  rw [hbe]
  show (s.wbuffer s.rtrnPtr).txblock = 0#8
  rw [heq]
  exact (h.send_spec hs).1

/-- A slot is not allocated and cleared in one cycle. -/
theorem Inv.id_ne (he : s.evict i = true) (hs : s.dirtyRdEn cfg i = true) :
    s.txId cfg ≠ s.rtrnId := by
  intro heq
  have hfree := (h.send_spec hs).2.2.2.2
  rw [heq, h.evict_vld he] at hfree
  exact absurd hfree (by decide)

end Specs

/-! ## The next state -/

section Next

variable (h : Inv cfg s ids)
include h

/-- The bytes in flight after a cycle. -/
theorem Inv.txblock_step (k : ℕ) : (s.wbufferD cfg i k).txblock =
    if s.evict i = true ∧ k = s.rtrnPtr then 0#8
    else if s.dirtyRdEn cfg i = true ∧ k = s.dirtyPtr then s.txBe
    else (s.wbuffer k).txblock := by
  rw [txblock_stages]
  by_cases he : s.evict i = true ∧ k = s.rtrnPtr
  · have hbe := (h.slot _ (h.evict_vld he.1)).2.1
    have hnot : ¬(s.dirtyRdEn cfg i = true ∧ k = s.dirtyPtr) := by
      rintro ⟨hs, hk⟩
      exact h.ptr_ne he.1 hs (he.2.symm.trans hk)
    rw [if_neg hnot, if_pos he, if_pos he, he.2, hbe]
    exact BitVec.and_not_self _
  · simp only [if_neg he]
    by_cases hs : s.dirtyRdEn cfg i = true ∧ k = s.dirtyPtr
    · rw [if_pos hs, if_pos hs, hs.2, (h.send_spec hs.1).1,
        BitVec.zero_or]
    · rw [if_neg hs, if_neg hs]

omit h in
/-- Where a valid entry comes from. -/
theorem valid_cases {k : ℕ} (hv : (s.wbufferD cfg i k).valid ≠ 0#8) :
    (s.dataGnt cfg i = true ∧ k = s.wrPtr i) ∨ s.valid k = true := by
  by_cases hk : s.dataGnt cfg i = true ∧ k = s.wrPtr i
  · exact Or.inl hk
  · refine Or.inr (bne_iff_ne.mpr fun hzero => hv ?_)
    rw [valid_step]
    simp only [if_neg hk, hzero]
    split_ifs
    · exact BitVec.zero_and
    · rfl

/-- The bytes before a store. -/
theorem Inv.ok_stages (k : ℕ) :
    (if s.evict i = true ∧ k = s.rtrnPtr then
      (s.wbuffer k).valid &&&
        ~~~((s.txStat s.rtrnId).be &&& ~~~(s.wbuffer s.rtrnPtr).dirty)
      else (s.wbuffer k).valid) =
    (if s.dirtyRdEn cfg i = true ∧ k = s.dirtyPtr then
      (s.wbuffer k).dirty &&& ~~~s.txBe else (s.wbuffer k).dirty) |||
      (s.wbufferD cfg i k).txblock := by
  have hk := h.ok k
  rw [WbufferEntry.Ok] at hk
  rw [h.txblock_step]
  by_cases he : s.evict i = true ∧ k = s.rtrnPtr
  · have hbe : (s.txStat s.rtrnId).be = (s.wbuffer k).txblock := by
      rw [he.2]
      exact (h.slot _ (h.evict_vld he.1)).2.1
    have hnot : ¬(s.dirtyRdEn cfg i = true ∧ k = s.dirtyPtr) := by
      rintro ⟨hs, hkd⟩
      exact h.ptr_ne he.1 hs (he.2.symm.trans hkd)
    rw [if_pos he, if_pos he, if_neg hnot, ← he.2, hbe, hk]
    exact mask_evict _ _
  · rw [if_neg he, if_neg he, hk]
    by_cases hs : s.dirtyRdEn cfg i = true ∧ k = s.dirtyPtr
    · obtain ⟨htx, -, hsub, -⟩ := h.send_spec hs.1
      rw [← hs.2] at htx hsub
      rw [if_pos hs, if_pos hs, htx]
      exact mask_send hsub
    · rw [if_neg hs, if_neg hs]

theorem Inv.ok_step (k : ℕ) : (s.wbufferD cfg i k).Ok := by
  rw [WbufferEntry.Ok, valid_step, dirty_step]
  simp only [h.ok_stages k]
  split_ifs
  · exact mask_store _ _ _
  · exact mask_store _ _ _
  · rfl
  · rfl

theorem Inv.tags_step (k k' : ℕ)
    (hv : (s.wbufferD cfg i k).valid ≠ 0#8)
    (hv' : (s.wbufferD cfg i k').valid ≠ 0#8)
    (htag : (s.wbufferD cfg i k).wtag = (s.wbufferD cfg i k').wtag) :
    k = k' := by
  -- the other entry of a store's word is the one that the store goes to
  have hother : ∀ m, s.dataGnt cfg i = true → s.valid m = true →
      (s.wbuffer m).wtag = i.wtag → m = s.wrPtr i := by
    intro m hg hm hmtag
    rcases (h.gnt_spec hg).2 with ⟨hw, hwtag⟩ | ⟨-, hnone⟩
    · exact h.tags m _ hm hw (hmtag.trans hwtag.symm)
    · exact absurd hmtag (hnone m hm)
  rw [wtag_step, wtag_step] at htag
  split_ifs at htag with hk hk' hk'
  · exact hk.2.trans hk'.2.symm
  · have hold := (valid_cases hv').resolve_left hk'
    rw [hk.2, hother k' hk.1 hold htag.symm]
  · have hold := (valid_cases hv).resolve_left hk
    rw [hk'.2, hother k hk'.1 hold htag]
  · exact h.tags k k' ((valid_cases hv).resolve_left hk)
      ((valid_cases hv').resolve_left hk') htag

omit h in
theorem txStatD_apply (id : ℕ) : s.txStatD cfg i id =
    if s.dirtyRdEn cfg i = true ∧ id = s.txId cfg then
      ⟨true, s.txBe, s.dirtyPtr⟩
    else if s.evict i = true ∧ id = s.rtrnId then
      { s.txStat id with vld := false }
    else s.txStat id := by
  rw [txStatD]
  cases hs : s.dirtyRdEn cfg i <;> cases he : s.evict i
  · simp
  · by_cases hid : id = s.rtrnId
    · simp [hid]
    · simp [hid]
  · by_cases hid : id = s.txId cfg
    · simp [hid]
    · simp [hid]
  · by_cases hid : id = s.txId cfg
    · simp [hid]
    · by_cases hid' : id = s.rtrnId
      · subst hid'
        simp [hid]
      · simp [hid, hid']

omit h in
theorem txStat_alloc (hs : s.dirtyRdEn cfg i = true) :
    s.txStatD cfg i (s.txId cfg) = ⟨true, s.txBe, s.dirtyPtr⟩ := by
  rw [txStatD_apply, if_pos ⟨hs, rfl⟩]

/-- A slot that was neither allocated nor cleared. -/
theorem Inv.txStat_keep {id : ℕ} (hv : (s.txStat id).vld = true)
    (hid : ¬(s.evict i = true ∧ id = s.rtrnId)) :
    s.txStatD cfg i id = s.txStat id := by
  have hnew : ¬(s.dirtyRdEn cfg i = true ∧ id = s.txId cfg) := by
    rintro ⟨hs, heq⟩
    rw [heq, (h.send_spec hs).2.2.2.2] at hv
    exact absurd hv Bool.false_ne_true
  rw [txStatD_apply, if_neg hnew, if_neg hid]

omit h in
/-- Where a valid slot comes from. -/
theorem txStat_cases {id : ℕ} (hv : (s.txStatD cfg i id).vld = true) :
    (s.dirtyRdEn cfg i = true ∧ id = s.txId cfg) ∨
      ((s.txStat id).vld = true ∧ ¬(s.evict i = true ∧ id = s.rtrnId)) := by
  rw [txStatD_apply] at hv
  split_ifs at hv with hs he
  · exact Or.inl hs
  · exact Or.inr ⟨hv, he⟩

/-- What the slot of an older transaction says of its entry stays. -/
theorem Inv.txblock_keep {id : ℕ} (hv : (s.txStat id).vld = true)
    (hid : ¬(s.evict i = true ∧ id = s.rtrnId)) :
    (s.wbufferD cfg i (s.txStat id).ptr).txblock =
      (s.wbuffer (s.txStat id).ptr).txblock := by
  rw [h.txblock_step]
  have hnotevict :
      ¬(s.evict i = true ∧ (s.txStat id).ptr = s.rtrnPtr) := by
    rintro ⟨he, hptr⟩
    exact hid ⟨he, h.one _ _ hv (h.evict_vld he) hptr⟩
  have hnotsend :
      ¬(s.dirtyRdEn cfg i = true ∧ (s.txStat id).ptr = s.dirtyPtr) := by
    rintro ⟨hs, hptr⟩
    obtain ⟨-, hbe, hne⟩ := h.slot _ hv
    rw [hptr, (h.send_spec hs).1] at hbe
    exact hne hbe
  rw [if_neg hnotevict, if_neg hnotsend]

theorem Inv.slot_step (id : ℕ) (hv : (s.txStatD cfg i id).vld = true) :
    id < 2 ^ cfg.cacheIdWidth ∧
      (s.txStatD cfg i id).be =
        (s.wbufferD cfg i (s.txStatD cfg i id).ptr).txblock ∧
      (s.txStatD cfg i id).be ≠ 0#8 := by
  rcases txStat_cases hv with ⟨hs, hid⟩ | ⟨hold, hid⟩
  · obtain ⟨-, hne, -, hlt, -⟩ := h.send_spec hs
    rw [hid, txStat_alloc hs]
    refine ⟨hlt, ?_, hne⟩
    have hnot : ¬(s.evict i = true ∧ s.dirtyPtr = s.rtrnPtr) := by
      rintro ⟨he, hptr⟩
      exact h.ptr_ne he hs hptr.symm
    show s.txBe = (s.wbufferD cfg i s.dirtyPtr).txblock
    rw [h.txblock_step, if_neg hnot, if_pos ⟨hs, rfl⟩]
  · obtain ⟨hlt, hbe, hne⟩ := h.slot _ hold
    rw [h.txStat_keep hold hid, h.txblock_keep hold hid]
    exact ⟨hlt, hbe, hne⟩

theorem Inv.one_step (id id' : ℕ) (hv : (s.txStatD cfg i id).vld = true)
    (hv' : (s.txStatD cfg i id').vld = true)
    (hptr : (s.txStatD cfg i id).ptr = (s.txStatD cfg i id').ptr) :
    id = id' := by
  -- the entry of a new transaction has no older one
  have hnew : ∀ m, s.dirtyRdEn cfg i = true → (s.txStat m).vld = true →
      (s.txStat m).ptr ≠ s.dirtyPtr := by
    intro m hs hm hmptr
    obtain ⟨-, hbe, hne⟩ := h.slot _ hm
    rw [hmptr, (h.send_spec hs).1] at hbe
    exact hne hbe
  rcases txStat_cases hv with ⟨hs, hid⟩ | ⟨hold, hid⟩ <;>
    rcases txStat_cases hv' with ⟨hs', hid'⟩ | ⟨hold', hid'⟩
  · exact hid.trans hid'.symm
  · rw [hid, txStat_alloc hs, h.txStat_keep hold' hid'] at hptr
    exact absurd hptr.symm (hnew id' hs hold')
  · rw [hid', txStat_alloc hs', h.txStat_keep hold hid] at hptr
    exact absurd hptr (hnew id hs' hold)
  · rw [h.txStat_keep hold hid, h.txStat_keep hold' hid'] at hptr
    exact h.one id id' hold hold' hptr

theorem Inv.blocked_step (k : ℕ)
    (hk : (s.wbufferD cfg i k).txblock ≠ 0#8) :
    ∃ id, (s.txStatD cfg i id).vld = true ∧
      (s.txStatD cfg i id).ptr = k := by
  rw [h.txblock_step] at hk
  split_ifs at hk with he hs
  · exact absurd rfl hk
  · exact ⟨s.txId cfg, by rw [txStat_alloc hs.1],
      by rw [txStat_alloc hs.1, hs.2]⟩
  · obtain ⟨id, hv, hptr⟩ := h.blocked k hk
    have hid : ¬(s.evict i = true ∧ id = s.rtrnId) := by
      rintro ⟨hev, heq⟩
      refine he ⟨hev, ?_⟩
      rw [← hptr, heq]
      rfl
    refine ⟨id, ?_, ?_⟩
    · rw [h.txStat_keep hv hid]
      exact hv
    · rw [h.txStat_keep hv hid]
      exact hptr

/-- A valid slot stays until its transaction is evicted. -/
theorem Inv.vld_step {id : ℕ} (hv : (s.txStat id).vld = true)
    (hid : ¬(s.evict i = true ∧ id = s.rtrnId)) :
    (s.txStatD cfg i id).vld = true := by
  rw [h.txStat_keep hv hid]
  exact hv

/-- The answered transactions after a cycle. -/
theorem Inv.fifo_step (hr : ∀ id, i.missRtrn = some id →
      (s.txStat id).vld = true ∧ id ∉ ids) :
    (s.step cfg i).rtrnFifo.Holds (2 ^ cfg.cacheIdWidth)
      ((if s.evict i then ids.tail else ids) ++ i.missRtrn.toList) := by
  have hnext := h.fifo.next
    ⟨false, i.missRtrn.isSome, i.missRtrn.getD 0, s.evict i⟩
  have hafter : FifoV3.after (2 ^ cfg.cacheIdWidth) ids
      ⟨false, i.missRtrn.isSome, i.missRtrn.getD 0, s.evict i⟩ =
      (if s.evict i then ids.tail else ids) ++ i.missRtrn.toList := by
    rw [FifoV3.after, if_neg Bool.false_ne_true]
    congr 1
    cases hrtrn : i.missRtrn with
    | none => rfl
    | some id =>
      obtain ⟨hv, hnot⟩ := hr id hrtrn
      -- the slots bound what is answered and waits
      have hsub : id :: ids ⊆ List.range (2 ^ cfg.cacheIdWidth) := by
        intro m hm
        rw [List.mem_range]
        rcases List.mem_cons.mp hm with hm | hm
        · rw [hm]
          exact (h.slot id hv).1
        · exact (h.slot m (h.waiting m hm)).1
      have hnodup : (id :: ids).Nodup := List.nodup_cons.mpr ⟨hnot, h.nodup⟩
      have hlen := hnodup.length_le_of_subset hsub
      rw [List.length_cons, List.length_range] at hlen
      have hlt : ids.length < 2 ^ cfg.cacheIdWidth := hlen
      simp [hlt]
  rw [hafter] at hnext
  exact hnext

theorem Inv.waiting_step (hr : ∀ id, i.missRtrn = some id →
      (s.txStat id).vld = true ∧ id ∉ ids) :
    ((if s.evict i then ids.tail else ids) ++ i.missRtrn.toList).Nodup ∧
      ∀ id ∈ (if s.evict i then ids.tail else ids) ++ i.missRtrn.toList,
        (s.txStatD cfg i id).vld = true := by
  have hrest : (if s.evict i then ids.tail else ids).Nodup ∧
      ∀ id ∈ (if s.evict i then ids.tail else ids), id ∈ ids ∧
        ¬(s.evict i = true ∧ id = s.rtrnId) := by
    split_ifs with he
    · obtain ⟨rest, hids⟩ := h.evict_spec he
      have hnodup := h.nodup
      rw [hids, List.nodup_cons] at hnodup
      rw [hids, List.tail_cons]
      refine ⟨hnodup.2, fun id hid => ⟨List.mem_cons_of_mem _ hid, ?_⟩⟩
      rintro ⟨-, heq⟩
      exact hnodup.1 (heq ▸ hid)
    · exact ⟨h.nodup, fun id hid => ⟨hid, fun hboth => he hboth.1⟩⟩
  have hnew : ∀ id ∈ i.missRtrn.toList, (s.txStat id).vld = true ∧
      id ∉ ids := fun id hid => hr id (by simpa using hid)
  refine ⟨List.nodup_append.mpr ⟨hrest.1, ?_, ?_⟩, fun id hid => ?_⟩
  · cases i.missRtrn <;> simp
  · intro id hid id' hid' heq
    exact (hnew id' hid').2 (heq ▸ (hrest.2 id hid).1)
  · rcases List.mem_append.mp hid with hid | hid
    · exact h.vld_step (h.waiting id (hrest.2 id hid).1) (hrest.2 id hid).2
    · obtain ⟨hv, hnot⟩ := hnew id hid
      refine h.vld_step hv ?_
      rintro ⟨he, heq⟩
      obtain ⟨rest, hids⟩ := h.evict_spec he
      exact hnot (by rw [heq, hids]; exact List.mem_cons_self)

/-- An entry that waits to be sent keeps waiting. -/
theorem Inv.dirty_keep (hs : s.dirtyRdEn cfg i = false) {k : ℕ}
    (hk : s.dirty k = true) : (s.step cfg i).dirty k = true := by
  have hne : s.bdirty k ≠ 0#8 := bne_iff_ne.mp hk
  have htx : (s.wbuffer k).txblock = 0#8 := by
    by_contra hblock
    exact hne (by rw [bdirty, if_pos hblock])
  have hdirty : (s.wbuffer k).dirty ≠ 0#8 := by
    rw [bdirty, if_neg (by simp [htx]), (h.ok k).dirty_valid] at hne
    exact hne
  have hnot : ¬(s.dirtyRdEn cfg i = true ∧ k = s.dirtyPtr) := by
    rw [hs]
    simp
  have htx' : (s.wbufferD cfg i k).txblock = 0#8 := by
    rw [h.txblock_step, if_neg hnot]
    split_ifs
    · rfl
    · exact htx
  have hdirty' : (s.wbufferD cfg i k).dirty ≠ 0#8 := by
    rw [dirty_step]
    simp only [if_neg hnot]
    split_ifs
    · exact fun hzero => hdirty (BitVec.or_eq_zero_iff.mp hzero).1
    · exact hdirty
  show ((s.step cfg i).bdirty k != 0#8) = true
  rw [bne_iff_ne, bdirty]
  show (if (s.wbufferD cfg i k).txblock ≠ 0#8 then 0#8
    else (s.wbufferD cfg i k).dirty &&& (s.wbufferD cfg i k).valid) ≠ 0#8
  rw [if_neg (by simp [htx']), (h.ok_step k).dirty_valid]
  exact hdirty'

/-- Every cycle keeps the invariant. -/
theorem Inv.step (hr : ∀ id, i.missRtrn = some id →
      (s.txStat id).vld = true ∧ id ∉ ids) :
    Inv cfg (s.step cfg i)
      ((if s.evict i then ids.tail else ids) ++ i.missRtrn.toList) where
  ok := h.ok_step
  lt k hv := by
    rcases valid_cases (bne_iff_ne.mp hv) with ⟨hg, hk⟩ | hold
    · rw [hk]
      exact (h.gnt_spec hg).1
    · exact h.lt k hold
  tags k k' hv hv' :=
    h.tags_step k k' (bne_iff_ne.mp hv) (bne_iff_ne.mp hv')
  slot := h.slot_step
  one := h.one_step
  blocked := h.blocked_step
  fifo := h.fifo_step hr
  nodup := (h.waiting_step hr).1
  waiting := (h.waiting_step hr).2
  txArb := by
    refine h.txArb.next fun hs id _ hfree => ?_
    show (!(s.txStatD cfg i id).vld) = true
    have hfree' : (s.txStat id).vld = false := by
      rw [← Bool.not_eq_true']
      exact hfree
    rw [Bool.not_eq_true', ← Bool.not_eq_true]
    intro hv
    rcases txStat_cases hv with ⟨hs', -⟩ | ⟨hold, -⟩
    · rw [hs] at hs'
      exact Bool.false_ne_true hs'
    · rw [hfree'] at hold
      exact Bool.false_ne_true hold
  dirtyArb := h.dirtyArb.next fun hs _ _ hk => h.dirty_keep hs hk

end Next

end Wbuffer

end ArianeSoc.Cache
