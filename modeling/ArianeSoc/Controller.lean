import Mathlib.Tactic.Common

/-!
# The pipeline controller

`flushCtrl` is the `flush_ctrl` process of `controller.sv` together with
the next values of its two registers.  Every cause overwrites what it needs
from top to bottom; `fenceCtrl` is the part up to the wait for the data
cache.

`wtDcache` says whether the data cache is write-through, in which case the
fences do not flush it.
-/

namespace ArianeSoc.Controller

/-- The inputs, with the register `fence_active_q`. -/
structure In where
  fenceActive : Bool
  flushDcacheAck : Bool
  eret : Bool
  exValid : Bool
  setDebugPc : Bool
  isMispredict : Bool
  flushCsr : Bool
  fenceI : Bool
  fence : Bool
  sfenceVma : Bool
  flushCommit : Bool

/-- The outputs and the next values of `fence_active_q` and
`flush_dcache_o`. -/
structure Out where
  setPcCommit : Bool := false
  flushIf : Bool := false
  flushUnissuedInstr : Bool := false
  flushId : Bool := false
  flushEx : Bool := false
  flushBp : Bool := false
  flushIcache : Bool := false
  flushTlb : Bool := false
  flushDcache : Bool := false
  fenceActive : Bool

/-- Flush the whole pipeline and go on behind the committed instruction. -/
def Out.refetch (o : Out) : Out :=
  { o with
    setPcCommit := true
    flushIf := true
    flushUnissuedInstr := true
    flushId := true
    flushEx := true }

/-- A fence flushes the data cache unless it is write-through. -/
def Out.fenceDcache (wtDcache : Bool) (o : Out) : Out :=
  if wtDcache then o else { o with flushDcache := true, fenceActive := true }

/-- The wait for the data cache. -/
def Out.waitDcache (wtDcache : Bool) (i : In) (o : Out) : Out :=
  if wtDcache then o
  else if i.flushDcacheAck ∧ i.fenceActive then { o with fenceActive := false }
  else if i.fenceActive then { o with flushDcache := true }
  else o

/-- The outputs in a cycle without a fence; a mispredict flushes what is
not issued. -/
def start (i : In) : Out :=
  if i.isMispredict then
    { flushUnissuedInstr := true, flushIf := true, fenceActive := i.fenceActive }
  else { fenceActive := i.fenceActive }

/-- The process up to the wait for the data cache. -/
def fenceCtrl (wtDcache : Bool) (i : In) : Out :=
  let o := start i
  let o := if i.fence then o.refetch.fenceDcache wtDcache else o
  let o := if i.fenceI then
    { o.refetch with flushIcache := true }.fenceDcache wtDcache else o
  o.waitDcache wtDcache i

def flushCtrl (wtDcache : Bool) (i : In) : Out :=
  let o := fenceCtrl wtDcache i
  let o := if i.sfenceVma then { o.refetch with flushTlb := true } else o
  let o := if i.flushCsr ∨ i.flushCommit then o.refetch else o
  if i.exValid ∨ i.eret ∨ i.setDebugPc then
    { o.refetch with setPcCommit := false, flushBp := true } else o

/-! ## The causes of a flush -/

section Facts

variable {wtDcache : Bool} {i : In} {o : Out}

@[simp] theorem refetch_flushEx : o.refetch.flushEx = true := rfl

@[simp] theorem fenceDcache_flushEx :
    (o.fenceDcache wtDcache).flushEx = o.flushEx := by
  unfold Out.fenceDcache
  split_ifs <;> rfl

@[simp] theorem waitDcache_flushEx :
    (o.waitDcache wtDcache i).flushEx = o.flushEx := by
  unfold Out.waitDcache
  split_ifs <;> rfl

/-- A conditional flush. -/
theorem ite_flushEx {c : Prop} [Decidable c] {o' : Out}
    (h : o'.flushEx = true) :
    (if c then o' else o).flushEx = true ↔ c ∨ o.flushEx = true := by
  by_cases hc : c
  · rw [if_pos hc]
    exact ⟨fun _ => Or.inl hc, fun _ => h⟩
  · rw [if_neg hc]
    exact ⟨Or.inr, fun ho => ho.resolve_left hc⟩

/-- The execute stage is flushed for the fences, the side effect of a CSR
write, the request of the commit stage, an exception, a return and a debug
entry. -/
theorem flushEx_iff :
    (flushCtrl wtDcache i).flushEx = true ↔
      i.fence = true ∨ i.fenceI = true ∨ i.sfenceVma = true ∨
        i.flushCsr = true ∨ i.flushCommit = true ∨ i.exValid = true ∨
        i.eret = true ∨ i.setDebugPc = true := by
  have hstart : (start i).flushEx = false := by
    unfold start
    split_ifs <;> rfl
  unfold flushCtrl fenceCtrl
  dsimp only
  rw [ite_flushEx rfl, ite_flushEx rfl, ite_flushEx rfl, waitDcache_flushEx,
    ite_flushEx (by simp), ite_flushEx (by simp), hstart]
  simp
  tauto

/-- The issue stage is flushed for SFENCE.VMA. -/
theorem flushId_of_sfenceVma (h : i.sfenceVma = true) :
    (flushCtrl wtDcache i).flushId = true := by
  have hkeep : ∀ (c : Prop) [Decidable c] (o o' : Out),
      o'.flushId = true → o.flushId = true →
        (if c then o' else o).flushId = true := by
    intro c _ o o' ho' ho
    split_ifs
    · exact ho'
    · exact ho
  unfold flushCtrl
  dsimp only
  rw [if_pos h]
  exact hkeep _ _ _ rfl (hkeep _ _ _ rfl rfl)

/-- The TLBs are flushed for SFENCE.VMA only. -/
theorem flushTlb_eq : (flushCtrl wtDcache i).flushTlb = i.sfenceVma := by
  have hite : ∀ (c : Prop) [Decidable c] (o o' : Out),
      o'.flushTlb = o.flushTlb →
        (if c then o' else o).flushTlb = o.flushTlb := by
    intro c _ o o' ho
    split_ifs
    · exact ho
    · rfl
  have hdcache : ∀ o : Out,
      (o.fenceDcache wtDcache).flushTlb = o.flushTlb := by
    intro o
    unfold Out.fenceDcache
    split_ifs <;> rfl
  have hctrl : (fenceCtrl wtDcache i).flushTlb = false := by
    have hwait : ∀ o : Out, (o.waitDcache wtDcache i).flushTlb =
        o.flushTlb := by
      intro o
      unfold Out.waitDcache
      split_ifs <;> rfl
    unfold fenceCtrl
    refine (hwait _).trans ((hite _ _ _ ?_).trans ?_)
    · exact hdcache _
    refine (hite _ _ _ ?_).trans ?_
    · exact hdcache _
    unfold start
    split_ifs <;> rfl
  unfold flushCtrl
  dsimp only
  refine (hite _ _ _ ?_).trans ((hite _ _ _ ?_).trans ?_)
  · rfl
  · rfl
  cases i.sfenceVma
  · exact hctrl
  · rfl

/-- The issue stage is flushed with the execute stage. -/
theorem flushId_eq_flushEx :
    (flushCtrl wtDcache i).flushId = (flushCtrl wtDcache i).flushEx := by
  have hite : ∀ (c : Prop) [Decidable c] (o o' : Out),
      o'.flushId = o'.flushEx → o.flushId = o.flushEx →
        (if c then o' else o).flushId = (if c then o' else o).flushEx := by
    intro c _ o o' ho' ho
    split_ifs
    · exact ho'
    · exact ho
  have hdcache : ∀ o : Out, o.flushId = o.flushEx →
      (o.fenceDcache wtDcache).flushId =
        (o.fenceDcache wtDcache).flushEx := by
    intro o ho
    unfold Out.fenceDcache
    split_ifs <;> exact ho
  have hwait : ∀ o : Out, o.flushId = o.flushEx →
      (o.waitDcache wtDcache i).flushId =
        (o.waitDcache wtDcache i).flushEx := by
    intro o ho
    unfold Out.waitDcache
    split_ifs <;> exact ho
  have hstart : (start i).flushId = (start i).flushEx := by
    unfold start
    split_ifs <;> rfl
  unfold flushCtrl fenceCtrl
  dsimp only
  refine hite _ _ _ rfl (hite _ _ _ rfl (hite _ _ _ rfl (hwait _ ?_)))
  exact hite _ _ _ (hdcache _ rfl) (hite _ _ _ (hdcache _ rfl) hstart)

/-- What is not issued is flushed with the execute stage. -/
theorem flushUnissued_of_flushEx
    (h : (flushCtrl wtDcache i).flushEx = true) :
    (flushCtrl wtDcache i).flushUnissuedInstr = true := by
  have hite : ∀ (c : Prop) [Decidable c] (o o' : Out),
      o'.flushUnissuedInstr = true →
        (o.flushEx = true → o.flushUnissuedInstr = true) →
          (if c then o' else o).flushEx = true →
            (if c then o' else o).flushUnissuedInstr = true := by
    intro c _ o o' ho' ho
    split_ifs
    · exact fun _ => ho'
    · exact ho
  have hdcache : ∀ o : Out,
      (o.fenceDcache wtDcache).flushUnissuedInstr = o.flushUnissuedInstr := by
    intro o
    unfold Out.fenceDcache
    split_ifs <;> rfl
  have hwait : ∀ o : Out,
      (o.flushEx = true → o.flushUnissuedInstr = true) →
        (o.waitDcache wtDcache i).flushEx = true →
          (o.waitDcache wtDcache i).flushUnissuedInstr = true := by
    intro o ho
    unfold Out.waitDcache
    split_ifs <;> exact ho
  have hstart : (start i).flushEx = false := by
    unfold start
    split_ifs <;> rfl
  unfold flushCtrl fenceCtrl at h ⊢
  dsimp only at h ⊢
  refine hite _ _ _ rfl (hite _ _ _ rfl (hite _ _ _ rfl (hwait _
    (hite _ _ _ ?_ (hite _ _ _ ?_ fun hs => ?_))))) h
  · rw [hdcache]
    rfl
  · rw [hdcache]
    rfl
  · rw [hstart] at hs
    cases hs

/-- Nothing is issued behind a wrong prediction. -/
theorem flushUnissued_of_mispredict (h : i.isMispredict = true) :
    (flushCtrl wtDcache i).flushUnissuedInstr = true := by
  have hite : ∀ (c : Prop) [Decidable c] (o o' : Out),
      o'.flushUnissuedInstr = true → o.flushUnissuedInstr = true →
        (if c then o' else o).flushUnissuedInstr = true := by
    intro c _ o o' ho' ho
    split_ifs
    · exact ho'
    · exact ho
  have hdcache : ∀ o : Out, o.flushUnissuedInstr = true →
      (o.fenceDcache wtDcache).flushUnissuedInstr = true := by
    intro o ho
    unfold Out.fenceDcache
    split_ifs <;> exact ho
  have hwait : ∀ o : Out, o.flushUnissuedInstr = true →
      (o.waitDcache wtDcache i).flushUnissuedInstr = true := by
    intro o ho
    unfold Out.waitDcache
    split_ifs <;> exact ho
  have hstart : (start i).flushUnissuedInstr = true := by
    rw [start, if_pos h]
  unfold flushCtrl fenceCtrl
  refine hite _ _ _ rfl (hite _ _ _ rfl (hite _ _ _ rfl (hwait _ ?_)))
  exact hite _ _ _ (hdcache _ rfl) (hite _ _ _ (hdcache _ rfl) hstart)

/-- The whole pipeline is flushed, or what is not issued behind a wrong
prediction. -/
def Out.Stages (i : In) (o : Out) : Prop :=
  (o.flushIf = true ∧ o.flushUnissuedInstr = true ∧ o.flushEx = true) ∨
    (o.flushIf = i.isMispredict ∧ o.flushUnissuedInstr = i.isMispredict ∧
      o.flushEx = false)

variable (wtDcache i) in
theorem stages : (flushCtrl wtDcache i).Stages i := by
  have hite : ∀ (c : Prop) [Decidable c] (o o' : Out), o'.Stages i →
      o.Stages i → (if c then o' else o).Stages i := by
    intro c _ o o' ho' ho
    split_ifs
    · exact ho'
    · exact ho
  have hdcache : ∀ o : Out, o.Stages i → (o.fenceDcache wtDcache).Stages i := by
    intro o ho
    unfold Out.fenceDcache
    split_ifs <;> exact ho
  have hwait : ∀ o : Out, o.Stages i → (o.waitDcache wtDcache i).Stages i := by
    intro o ho
    unfold Out.waitDcache
    split_ifs <;> exact ho
  have hall : ∀ o : Out, o.flushIf = true → o.flushUnissuedInstr = true →
      o.flushEx = true → o.Stages i :=
    fun o h1 h2 h3 => Or.inl ⟨h1, h2, h3⟩
  have hstart : (start i).Stages i := by
    refine Or.inr ?_
    unfold start
    cases i.isMispredict <;> exact ⟨rfl, rfl, rfl⟩
  unfold flushCtrl fenceCtrl
  refine hite _ _ _ (hall _ rfl rfl rfl) (hite _ _ _ (hall _ rfl rfl rfl)
    (hite _ _ _ (hall _ rfl rfl rfl) (hwait _ ?_)))
  exact hite _ _ _ (hdcache _ (hall _ rfl rfl rfl))
    (hite _ _ _ (hdcache _ (hall _ rfl rfl rfl)) hstart)

/-- The front end is flushed with the execute stage and for a wrong
prediction. -/
theorem flushIf_eq :
    (flushCtrl wtDcache i).flushIf =
      ((flushCtrl wtDcache i).flushEx || i.isMispredict) := by
  rcases stages wtDcache i with ⟨h, -, hex⟩ | ⟨h, -, hex⟩
  · rw [h, hex, Bool.true_or]
  · rw [h, hex, Bool.false_or]

/-- What is not issued is flushed with the front end. -/
theorem flushUnissued_eq_flushIf :
    (flushCtrl wtDcache i).flushUnissuedInstr =
      (flushCtrl wtDcache i).flushIf := by
  rcases stages wtDcache i with ⟨h, hun, -⟩ | ⟨h, hun, -⟩
  · rw [h, hun]
  · rw [h, hun]

/-- The front end goes on behind the committed instruction in a flush
only. -/
theorem flushEx_of_setPcCommit
    (h : (flushCtrl wtDcache i).setPcCommit = true) :
    (flushCtrl wtDcache i).flushEx = true := by
  have hite : ∀ (c : Prop) [Decidable c] (o o' : Out),
      o'.flushEx = true →
        (o.setPcCommit = true → o.flushEx = true) →
          (if c then o' else o).setPcCommit = true →
            (if c then o' else o).flushEx = true := by
    intro c _ o o' ho' ho
    split_ifs
    · exact fun _ => ho'
    · exact ho
  have hwait : ∀ o : Out, (o.setPcCommit = true → o.flushEx = true) →
      (o.waitDcache wtDcache i).setPcCommit = true →
        (o.waitDcache wtDcache i).flushEx = true := by
    intro o ho
    unfold Out.waitDcache
    split_ifs <;> exact ho
  have hstart : (start i).setPcCommit = false := by
    unfold start
    split_ifs <;> rfl
  unfold flushCtrl fenceCtrl at h ⊢
  dsimp only at h ⊢
  refine hite _ _ _ rfl (hite _ _ _ rfl (hite _ _ _ rfl (hwait _
    (hite _ _ _ ?_ (hite _ _ _ ?_ fun hs => ?_))))) h
  · exact fenceDcache_flushEx
  · exact fenceDcache_flushEx
  · rw [hstart] at hs
    cases hs

/-- Without a fence none becomes active. -/
theorem fenceActive_of_idle (hq : i.fenceActive = false)
    (hf : i.fence = false) (hfi : i.fenceI = false) :
    (flushCtrl wtDcache i).fenceActive = false := by
  have hstart : (start i).fenceActive = false := by
    unfold start
    split_ifs <;> exact hq
  have hctrl : (fenceCtrl wtDcache i).fenceActive = false := by
    simp only [fenceCtrl, hf, hfi, Bool.false_eq_true, if_false,
      Out.waitDcache, hq, and_false, ite_self]
    exact hstart
  unfold flushCtrl
  dsimp only
  split_ifs <;> exact hctrl

/-- The data cache is flushed only while a fence is active. -/
def Out.Fenced (o : Out) : Prop :=
  o.flushDcache = true → o.fenceActive = true

theorem ite_fenced {c : Prop} [Decidable c] {o' : Out} (h' : o'.Fenced)
    (h : o.Fenced) : (if c then o' else o).Fenced := by
  split_ifs
  · exact h'
  · exact h

theorem fenceDcache_fenced (h : o.Fenced) :
    (o.fenceDcache wtDcache).Fenced := by
  unfold Out.fenceDcache
  split_ifs
  · exact h
  · exact fun _ => rfl

/-- The wait keeps the flush only while the fence is active. -/
theorem waitDcache_fenced (h : o.Fenced)
    (hact : i.fenceActive = true →
      o.fenceActive = true ∧ o.flushDcache = false) :
    (o.waitDcache wtDcache i).Fenced := by
  unfold Out.waitDcache
  split_ifs with hwt hwait hq
  · exact h
  · intro hd
    have hd' : o.flushDcache = true := hd
    rw [(hact hwait.2).2] at hd'
    exact absurd hd' (by decide)
  · exact fun _ => (hact hq).1
  · exact h

theorem fenceCtrl_fenced
    (h : i.fenceActive = true → i.fence = false ∧ i.fenceI = false) :
    (fenceCtrl wtDcache i).Fenced := by
  have hstart : (start i).fenceActive = i.fenceActive ∧
      (start i).flushDcache = false := by
    unfold start
    split_ifs <;> exact ⟨rfl, rfl⟩
  have hnone : (start i).Fenced := fun hd => absurd hd (by simp [hstart.2])
  have hfence : (if i.fence = true then
      (start i).refetch.fenceDcache wtDcache else start i).Fenced :=
    ite_fenced (fenceDcache_fenced hnone) hnone
  unfold fenceCtrl
  refine waitDcache_fenced
    (ite_fenced (fenceDcache_fenced hfence) hfence) fun hact => ?_
  obtain ⟨hf, hfi⟩ := h hact
  rw [if_neg (Bool.eq_false_iff.mp hfi), if_neg (Bool.eq_false_iff.mp hf)]
  exact ⟨hstart.1.trans hact, hstart.2⟩

/-- The data cache is flushed in a state in which the fence is active, if
no fence comes while one is. -/
theorem flushCtrl_fenced
    (h : i.fenceActive = true → i.fence = false ∧ i.fenceI = false) :
    (flushCtrl wtDcache i).Fenced := by
  have hlate : (flushCtrl wtDcache i).flushDcache =
        (fenceCtrl wtDcache i).flushDcache ∧
      (flushCtrl wtDcache i).fenceActive =
        (fenceCtrl wtDcache i).fenceActive := by
    unfold flushCtrl
    dsimp only
    split_ifs <;> exact ⟨rfl, rfl⟩
  unfold Out.Fenced
  rw [hlate.1, hlate.2]
  exact fenceCtrl_fenced h

end Facts

end ArianeSoc.Controller
