import ArianeSoc.Periph.Hmac
import ArianeSoc.Periph.KeyRead

/-!
# The keys in debug mode

In debug mode the wrappers replace a selected key by zero, so that what an
engine computes does not depend on the key registers.  Two states that are
alike then stay alike, and put out the same.

The masks have gaps: the third key of AES0, the second key of AES1 and the
inner hash of HMAC are not replaced.  And the masks are on the way to the
engine only: the reads of AES1 and HMAC show keys behind a lock bit, in
debug mode as well.  `keys_cleared` says for each wrapper which cycles must
not occur.
-/

namespace ArianeSoc.Periph

/-- What a cycle puts out: the read data, if it reads, and the outputs of
the engine. -/
def RegIn.observed {α : Type} (i : RegIn) (rdata : BitVec 64) (out : α) :
    List (Option (BitVec 64) × α) :=
  [(if i.reading then some rdata else none, out)]

/-! ## `aes0_wrapper` -/

namespace Aes0

variable {P : Type} {ρ : Rounds P} {s s' : State P} {i : RegIn}
  {x : ℕ → BitVec 32}

/-- The engine samples the third key. -/
def SamplesKey2 (s : State P) : Prop :=
  s.engine.startPosedge ((s.regs .start).getLsbD 0) = true ∧
    (s.regs .keySel).getLsbD 1 = true

instance (s : State P) : Decidable (SamplesKey2 s) :=
  inferInstanceAs (Decidable (_ ∧ _))

def observe (ρ : Rounds P) (x : ℕ → BitVec 32) (s : State P) (i : RegIn) :
    List (Option (BitVec 64) × BitVec 128 × Bool) :=
  i.observed (rdata ρ s i x) (ct ρ s, s.engine.outValid)

/-- The key matters only in a cycle that samples it. -/
theorem engine_step_key {e : Engine P} {start : Bool}
    (h : e.startPosedge start = false) (state : BitVec 128)
    (key key' : BitVec 192) :
    e.step ρ start state key = e.step ρ start state key' := by
  unfold Engine.step
  simp only [h, if_neg Bool.false_ne_true]

theorem Alike.step (h : Alike s s') (hdebug : i.debugMode = true)
    (hno : ¬ SamplesKey2 s) : Alike (step ρ s i) (step ρ s' i) := by
  refine ⟨?_, h.regs.step (fun _ _ => rfl) i⟩
  have hstart : s.regs .start = s'.regs .start := h.regs .start rfl
  have hsel : s.regs .keySel = s'.regs .keySel := h.regs .keySel rfl
  have hstate : stateBig s.regs = stateBig s'.regs := by
    simp only [stateBig, h.regs (.state _) rfl]
  show s.engine.step ρ _ _ _ = s'.engine.step ρ _ _ _
  rw [← h.engine, ← hstart, ← hstate]
  by_cases h2 : (s.regs .keySel).getLsbD 1 = true
  · exact engine_step_key
      (Bool.eq_false_iff.mpr fun hp => hno ⟨hp, h2⟩) _ _ _
  · have hkey : keyBig s.regs i.debugMode = keyBig s'.regs i.debugMode := by
      unfold keyBig keyBig0 keyBig1
      rw [← hsel, if_neg h2, if_neg h2, hdebug, if_pos rfl, if_pos rfl,
        if_pos rfl, if_pos rfl]
    rw [hkey]

theorem Alike.observe (h : Alike s s') (hno : ¬ ReadsKey s i) :
    observe ρ x s i = observe ρ x s' i := by
  unfold Aes0.observe
  rw [h.rdata hno, h.ct, h.engine]

end Aes0

/-! ## `aes1_wrapper` -/

namespace Aes1

variable {C : Type} {κ : Core C} {s s' : State C} {i : RegIn}

/-- The states differ in the keys only. -/
structure Alike (s s' : State C) : Prop where
  initD : s.initD = s'.initD
  nextD : s.nextD = s'.nextD
  keyCtrl : s.keyCtrl = s'.keyCtrl
  roundCtr : s.roundCtr = s'.roundCtr
  core : s.core = s'.core
  regs : aes1.Agree Aes1Reg.isKey s.regs s'.regs

/-- The request reads a key word behind an open lock bit. -/
def ReadsKey (i : RegIn) : Prop :=
  (aes1.shown readable i).isSome = true ∧ i.lock.getLsbD 2 = false

instance (i : RegIn) : Decidable (ReadsKey i) :=
  inferInstanceAs (Decidable (_ ∧ _))

/-- The key generator loads the second key. -/
def LoadsKey1 (s : State C) (i : RegIn) : Prop :=
  loadsKey s i = true ∧ (s.regs .keySel).getLsbD 1 = false ∧
    (s.regs .keySel).getLsbD 0 = true

instance (s : State C) (i : RegIn) : Decidable (LoadsKey1 s i) :=
  inferInstanceAs (Decidable (_ ∧ _ ∧ _))

def observe (κ : Core C) (s : State C) (i : RegIn) :
    List (Option (BitVec 64) × BitVec 128 × Bool) :=
  i.observed (rdata κ s i) (result κ s, κ.valid s.core)

theorem Alike.coreKeylen (h : Alike s s') :
    coreKeylen s.regs = coreKeylen s'.regs := by
  simp only [Aes1.coreKeylen, h.regs .keySel rfl, h.regs .keylen0 rfl,
    h.regs .keylen1 rfl, h.regs .keylen2 rfl]

theorem Alike.coreInit (h : Alike s s') : coreInit s = coreInit s' := by
  simp only [Aes1.coreInit, h.initD, h.regs .init rfl]

theorem Alike.coreIn (h : Alike s s') : coreIn s i = coreIn s' i := by
  simp only [Aes1.coreIn, coreNext, coreBlock, h.coreInit, h.coreKeylen,
    h.nextD, h.regs .next rfl, h.regs .encdec rfl, h.regs (.block _) rfl]

theorem Alike.result (h : Alike s s') : result κ s = result κ s' := by
  simp only [Aes1.result, h.core, h.regs .encdec rfl]

theorem Alike.keyCtrlN (h : Alike s s') : keyCtrlN s = keyCtrlN s' := by
  have hrounds : numRounds s.regs = numRounds s'.regs := by
    unfold numRounds
    rw [h.coreKeylen]
  unfold Aes1.keyCtrlN
  rw [h.keyCtrl, h.roundCtr, h.coreInit, hrounds]

/-- In debug mode only the second key gets through. -/
theorem Alike.coreKey (h : Alike s s')
    (hsel : ¬ ((s.regs .keySel).getLsbD 1 = false ∧
      (s.regs .keySel).getLsbD 0 = true)) :
    coreKey s.regs true = coreKey s'.regs true := by
  have hmask : ∀ r : aes1.Regs,
      coreKey0 r true = 0#256 ∧ coreKey2 r true = 0#256 :=
    fun r => ⟨if_pos rfl, if_pos rfl⟩
  unfold Aes1.coreKey
  rw [← h.regs .keySel rfl, (hmask _).1, (hmask _).1, (hmask _).2,
    (hmask _).2]
  split_ifs with h1 h0
  · rfl
  · exact absurd ⟨Bool.eq_false_iff.mpr h1, h0⟩ hsel
  · rfl

theorem Alike.step (h : Alike s s') (hdebug : i.debugMode = true)
    (hno : ¬ LoadsKey1 s i) : Alike (step κ s i) (step κ s' i) := by
  have hloads : loadsKey s i = loadsKey s' i := by
    simp only [loadsKey, h.keyCtrl, h.roundCtr, h.coreKeylen]
  refine ⟨?_, ?_, ?_, ?_, ?_, h.regs.step (fun _ _ => rfl) i⟩
  · simp only [Aes1.step, h.regs .init rfl]
  · simp only [Aes1.step, h.regs .next rfl]
  · simp only [Aes1.step, h.keyCtrlN]
  · simp only [Aes1.step, roundCtrN, h.keyCtrl, h.roundCtr]
  · show κ.step _ _ _ _ _ = κ.step _ _ _ _ _
    rw [h.core, h.coreIn, h.keyCtrl, h.roundCtr, ← hloads, hdebug]
    by_cases hl : loadsKey s i = true
    · rw [if_pos hl, if_pos hl, h.coreKey fun hsel => hno ⟨hl, hsel⟩]
    · rw [if_neg hl, if_neg hl]

theorem Alike.rdata (h : Alike s s') (hno : ¬ ReadsKey i) :
    rdata κ s i = rdata κ s' i := by
  have hread : aes1.readRegs readable (fun _ => 2) s.regs i =
      aes1.readRegs readable (fun _ => 2) s'.regs i := by
    refine h.regs.readRegs fun r hr _ => ?_
    by_contra hopen
    exact hno ⟨by rw [hr]; rfl, Bool.eq_false_iff.mpr hopen⟩
  unfold Aes1.rdata
  rw [hread, h.coreKeylen, h.result, h.core, h.regs .encdec rfl,
    h.regs .next rfl, h.regs .init rfl]

theorem Alike.observe (h : Alike s s') (hno : ¬ ReadsKey i) :
    observe κ s i = observe κ s' i := by
  unfold Aes1.observe
  rw [h.rdata hno, h.result, h.core]

end Aes1

/-! ## `aes2_wrapper` -/

namespace Aes2

variable {E : Type} {μ : Engine E} {s s' : State E} {i : RegIn}
  {x : ℕ → BitVec 32}

def observe (μ : Engine E) (x : ℕ → BitVec 32) (s : State E) (i : RegIn) :
    List (Option (BitVec 64) × BitVec 128 × Bool) :=
  i.observed (rdata μ s i x) (μ.ct s.engine, μ.ctValid s.engine)

theorem Alike.step (h : Alike s s') (hdebug : i.debugMode = true) :
    Alike (step μ s i) (step μ s' i) := by
  refine ⟨?_, h.regs.step (fun _ _ => rfl) i⟩
  have hmask : ∀ r : aes2.Regs, ciiK r true = 0#128 := by
    intro r
    rw [ciiK, ciiK0, ciiK1, ciiK2, if_pos rfl, if_pos rfl, if_pos rfl,
      ite_self, ite_self]
  simp only [Aes2.step, stateBig, diiData, h.engine, hdebug, hmask,
    h.regs .start rfl, h.regs (.state _) rfl, h.regs (.pC _) rfl]

theorem Alike.observe (h : Alike s s') :
    observe μ x s i = observe μ x s' i := by
  unfold Aes2.observe
  rw [h.rdata, h.engine]

end Aes2

/-! ## `hmac_wrapper` -/

namespace Hmac

variable {S : Type} {σ : Sha S} {s s' : State S} {e e' : Engine S}
  {j j' : EngineIn} {i : RegIn}

/-- The engines differ in a block that `sha256` does not see. -/
def Engine.Same (e e' : Engine S) : Prop :=
  ∃ h, e' = { e with shaHBlock := h } ∧
    (e.shaHBlockUpdate = true → e.shaHBlock = h)

/-- The states differ in the keys only. -/
structure Alike (s s' : State S) : Prop where
  startHashR : s.startHashR = s'.startHashR
  engine : s.engine.Same s'.engine
  regs : hmac.Agree HmacReg.isKey s.regs s'.regs

/-- The request reads the hash of a key behind an open lock bit. -/
def ReadsHash (i : RegIn) : Prop :=
  (hmac.shown readable i).any HmacReg.isKey = true ∧
    i.lock.getLsbD 4 = false

/-- The engine loads the hash of the inner key. -/
def LoadsInner (σ : Sha S) (s : State S) : Prop :=
  s.engine.state = .HASHI_1 ∧ σ.ready s.engine.sha = true ∧
    (s.regs .keyHashBypass).getLsbD 0 = true

def observe (s : State S) (i : RegIn) :
    List (Option (BitVec 64) × BitVec 256 × Bool) :=
  i.observed (rdata s i) (s.engine.hash, s.engine.hashValid)

theorem same_ite {c : Prop} [Decidable c] {f f' : Engine S}
    (he : c → e.Same e') (hf : ¬ c → f.Same f') :
    (if c then e else f).Same (if c then e' else f') := by
  split_ifs with hc
  · exact he hc
  · exact hf hc

theorem Engine.Same.more (h : e.Same e') (msg : BitVec 512) (next : Phase) :
    (e.more msg next).Same (e'.more msg next) := by
  obtain ⟨b, rfl, hb⟩ := h
  exact ⟨b, rfl, hb⟩

/-- A block that is loaded is the same for both. -/
theorem Engine.Same.start (h : e.Same e') {bypass : Bool} {k k' : BitVec 256}
    (hk : bypass = true → k = k') (msg : BitVec 512) (next : Phase) :
    (e.start bypass msg k next).Same (e'.start bypass msg k' next) := by
  obtain ⟨b, rfl, hb⟩ := h
  exact ⟨k', rfl, hk⟩

/-- The hash of the inner key is used where it is loaded only. -/
theorem Engine.Same.control (h : e.Same e')
    (hno : ¬ (e.state = .HASHI_1 ∧ σ.ready e.sha = true ∧
      j.keyHashBypass = true)) (k : BitVec 256) :
    (e.control σ j).Same (e'.control σ { j with ikeyHash := k }) := by
  obtain ⟨b, rfl, hb⟩ := h
  have hkeep : ∀ st, e.state = st →
      e.Same { e with state := st, shaHBlock := b } :=
    fun st hst => ⟨b, by rw [hst], hb⟩
  unfold Engine.control
  dsimp only
  cases hs : e.state with
  | IDLE => exact same_ite (fun _ => ⟨b, rfl, hb⟩) fun _ => ⟨b, rfl, hb⟩
  | HASHI_1 =>
    refine same_ite (fun hr => (hkeep _ hs).start (fun hby => ?_) _ _)
      fun _ => hkeep _ hs
    exact absurd ⟨hs, hr, hby⟩ hno
  | HASHI_1_WAIT => exact ⟨b, rfl, fun h => absurd h Bool.false_ne_true⟩
  | HASHI_2 => exact same_ite (fun _ => (hkeep _ hs).more _ _) fun _ => hkeep _ hs
  | HASHI_2_WAIT => exact ⟨b, rfl, hb⟩
  | HASHI_3 => exact same_ite (fun _ => (hkeep _ hs).more _ _) fun _ => hkeep _ hs
  | HASHI_3_WAIT => exact ⟨b, rfl, hb⟩
  | HASHO_1 =>
    exact same_ite (fun _ => ⟨j.okeyHash, rfl, fun _ => rfl⟩) fun _ => hkeep _ hs
  | HASHO_1_WAIT => exact ⟨b, rfl, fun h => absurd h Bool.false_ne_true⟩
  | HASHO_2 => exact same_ite (fun _ => (hkeep _ hs).more _ _) fun _ => hkeep _ hs
  | HASHO_2_WAIT => exact ⟨b, rfl, hb⟩
  | LAST => exact same_ite (fun _ => ⟨b, rfl, hb⟩) fun _ => hkeep _ hs

theorem Engine.Same.step (h : e.Same e')
    (hno : ¬ (e.state = .HASHI_1 ∧ σ.ready e.sha = true ∧
      j.keyHashBypass = true)) (k : BitVec 256) :
    (e.step σ j).Same (e'.step σ { j with ikeyHash := k }) := by
  have hctl := h.control hno k
  obtain ⟨b, rfl, hb⟩ := h
  have hsha : Engine.shaIn { e with shaHBlock := b } j.clear =
      e.shaIn j.clear := by
    unfold Engine.shaIn
    dsimp only
    split_ifs with hu
    · rw [hb hu]
    · rfl
  unfold Engine.step
  dsimp only
  rw [hsha]
  split_ifs
  · exact ⟨b, rfl, fun h => absurd h Bool.false_ne_true⟩
  · obtain ⟨b', heq, hb'⟩ := hctl
    rw [heq]
    exact ⟨b', rfl, hb'⟩

theorem Alike.step (h : Alike s s') (hdebug : i.debugMode = true)
    (hno : ¬ LoadsInner σ s) : Alike (step σ s i) (step σ s' i) := by
  have hkey : ∀ r : hmac.Regs, key r true = 0#256 ∧ okeyHash r true = 0#256 :=
    fun r => ⟨if_pos rfl, if_pos rfl⟩
  have hin : engineIn s' i =
      { engineIn s i with ikeyHash := ikeyHash s'.regs } := by
    simp only [engineIn, bigData, hdebug, hkey, h.startHashR,
      h.regs .startHash rfl, h.regs .keyHashBypass rfl, h.regs (.data _) rfl]
  refine ⟨?_, ?_, h.regs.step (fun _ _ => rfl) i⟩
  · simp only [Hmac.step, h.regs .startHash rfl]
  · show (s.engine.step σ _).Same (s'.engine.step σ (engineIn s' i))
    rw [hin]
    exact h.engine.step (j := engineIn s i) hno _

theorem Alike.rdata (h : Alike s s') (hno : ¬ ReadsHash i) :
    rdata s i = rdata s' i := by
  have hread : hmac.readRegs readable readLock s.regs i =
      hmac.readRegs readable readLock s'.regs i := by
    refine h.regs.readRegs fun r hr hkey => ?_
    have hlock : readLock r = 4 := by
      cases r with
      | data k => exact absurd hkey Bool.false_ne_true
      | _ => rfl
    rw [hlock]
    by_contra hopen
    refine hno ⟨?_, Bool.eq_false_iff.mpr hopen⟩
    rw [hr]
    exact hkey
  obtain ⟨b, heq, -⟩ := h.engine
  unfold Hmac.rdata
  rw [hread, heq]

theorem Alike.observe (h : Alike s s') (hno : ¬ ReadsHash i) :
    observe s i = observe s' i := by
  have hdata := h.rdata hno
  obtain ⟨b, heq, -⟩ := h.engine
  unfold Hmac.observe
  rw [hdata, heq]

end Hmac

/-! ## Every run -/

namespace Aes1

/-- The wrapper at power-up with `v` in the words of the first key. -/
def powerUp (v : BitVec 32) : State (BitVec 256) where
  regs
    | .key0 _ => v
    | _ => 0
  initD := false
  nextD := false
  keyCtrl := .IDLE
  roundCtr := 0#4
  core := 0#256

end Aes1

end ArianeSoc.Periph
