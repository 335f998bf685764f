import ArianeSoc.Hashing
import ArianeSoc.Periph.Sha256
import ArianeSoc.Sync

/-!
# The hash of the HMAC engine

The engine of `hmac.sv` chains the inner key block, the message and its
padding, and then the outer key block and the inner hash.  `Follows` says
for each of its states what `sha256` is working on and what the hash to come
satisfies; `Plan` what the inputs of a cycle have to be for that.

* `step_follows`: a cycle goes on with the plan.
* `step_moves`: it gets nearer to a valid hash, however long `sha256` takes.
* `hash_eq_hmac`: the valid hash is the HMAC of the message, with the key or
  with the hashes of the key blocks.
-/

namespace ArianeSoc.Periph.Hmac

/-! ## The blocks of an HMAC -/

/-- The keyed hash of one block as the five blocks that are hashed. -/
theorem hmac_block (compress : BitVec 256 → BitVec 512 → BitVec 256)
    (iv : BitVec 256) (ipad opad key m : BitVec 512) :
    Hashing.hmac compress iv 64 ipad opad key m =
      compress (compress iv (key ^^^ opad))
        (compress (compress (compress iv (key ^^^ ipad)) m)
            (1#1 ++ 0#447 ++ 1024#64) ++ 1#1 ++ 0#191 ++ 768#64) := by
  have hinner : Hashing.digest compress iv 64 ((key ^^^ ipad) ++ m) =
      compress (compress (compress iv (key ^^^ ipad)) m)
        (1#1 ++ 0#447 ++ 1024#64) := by
    rw [Hashing.digest, Hashing.blocks_pad_append (by omega),
      Hashing.blocks_append_pad (by omega)]
    exact congrArg (List.foldl compress iv)
      (congrArg (fun bs => (key ^^^ ipad) :: m :: bs)
        (Hashing.blocks_self (by omega) (1#1 ++ 0#447 ++ 1024#64)))
  rw [Hashing.hmac, hinner, Hashing.digest,
    Hashing.blocks_pad_append (by omega)]
  exact congrArg (List.foldl compress iv)
    (congrArg (fun bs => (key ^^^ opad) :: bs)
      (Hashing.blocks_self (by omega) _))

/-! ## What the core is working on -/

variable {S : Type} {σ : Sha S}
  {compress : BitVec 256 → BitVec 512 → BitVec 256} {iv : BitVec 256}

/-- A key block, or the hash of one. -/
structure ShaIn.Keys (compress : BitVec 256 → BitVec 512 → BitVec 256)
    (iv : BitVec 256) (V : BitVec 256 → Prop) (i : ShaIn) : Prop where
  clear : i.clear = false
  next : i.next = false
  block : i.init = true → i.hBlock = none ∧ V (compress iv i.block)
  loaded : i.init = false → ∃ h, i.hBlock = some h ∧ V h

namespace Sha.Chains

variable (C : σ.Chains compress iv) (V : BitVec 256 → Prop)

/-- The digest satisfies `V`, at once or when the core is done. -/
def Due (s : S) : Prop :=
  C.inv s ∧ ∃ h, V h ∧
    ((C.job s = some h ∧ σ.digestValid s = false) ∨
      (C.job s = none ∧ σ.digest s = h))

/-- The digest satisfies `V` as soon as it is valid. -/
def Done (s : S) : Prop :=
  C.inv s ∧ ∃ h, V h ∧
    ((C.job s = some h ∧ σ.digestValid s = false) ∨
      (C.job s = none ∧ σ.digestValid s = true ∧ σ.digest s = h))

/-- The core has nothing to do. -/
def Idle (s : S) : Prop := C.inv s ∧ C.job s = none

/-- How many cycles the core is busy at most. -/
def wait (s : S) : ℕ := if (C.job s).isSome then C.left s + 1 else 0

variable {C V} {s : S} {i : ShaIn}

theorem Done.due (h : C.Done V s) : C.Due V s := by
  obtain ⟨hinv, x, hx, ⟨hjob, hv⟩ | ⟨hjob, -, hd⟩⟩ := h
  · exact ⟨hinv, x, hx, Or.inl ⟨hjob, hv⟩⟩
  · exact ⟨hinv, x, hx, Or.inr ⟨hjob, hd⟩⟩

/-- A core that is ready has the digest. -/
theorem Due.ready (h : C.Due V s) (hr : σ.ready s = true) :
    C.Idle s ∧ V (σ.digest s) := by
  obtain ⟨hinv, x, hx, hcase⟩ := h
  have hjob := (C.ready s hinv).mp hr
  rcases hcase with ⟨hbusy, -⟩ | ⟨-, hd⟩
  · rw [hjob] at hbusy
    exact absurd hbusy (by simp)
  · rw [hd]
    exact ⟨⟨hinv, hjob⟩, hx⟩

/-- A valid digest is the one. -/
theorem Done.valid (h : C.Done V s) (hv : σ.digestValid s = true) :
    C.Idle s ∧ V (σ.digest s) := by
  obtain ⟨hinv, x, hx, ⟨-, hbusy⟩ | ⟨hjob, -, hd⟩⟩ := h
  · rw [hv] at hbusy
    exact absurd hbusy (by simp)
  · rw [hd]
    exact ⟨⟨hinv, hjob⟩, hx⟩

theorem Idle.rest (h : C.Idle s) (hq : i.Quiet) : C.Idle (σ.step s i) :=
  have hrest := C.rest s i h.1 h.2 hq
  ⟨hrest.1, hrest.2.1⟩

theorem Due.wait (h : C.Due V s) (hq : i.Quiet) : C.Due V (σ.step s i) := by
  obtain ⟨hinv, x, hx, ⟨hjob, hv⟩ | ⟨hjob, hd⟩⟩ := h
  · obtain ⟨hinv', ⟨hjob', hv', -⟩ | ⟨hjob', -, hd'⟩⟩ :=
      C.work s i x hinv hjob hv hq
    · exact ⟨hinv', x, hx, Or.inl ⟨hjob', hv'⟩⟩
    · exact ⟨hinv', x, hx, Or.inr ⟨hjob', hd'⟩⟩
  · obtain ⟨hinv', hjob', hd'⟩ := C.rest s i hinv hjob hq
    exact ⟨hinv', x, hx, Or.inr ⟨hjob', hd'.trans hd⟩⟩

/-- Until the digest is valid. -/
theorem Done.wait (h : C.Done V s) (hv : σ.digestValid s = false)
    (hq : i.Quiet) : C.Done V (σ.step s i) := by
  obtain ⟨hinv, x, hx, ⟨hjob, -⟩ | ⟨-, hv', -⟩⟩ := h
  · obtain ⟨hinv', ⟨hjob', hv', -⟩ | hdone⟩ :=
      C.work s i x hinv hjob hv hq
    · exact ⟨hinv', x, hx, Or.inl ⟨hjob', hv'⟩⟩
    · exact ⟨hinv', x, hx, Or.inr hdone⟩
  · rw [hv] at hv'
    exact absurd hv' (by simp)

/-- A core that is not ready has less to do after a cycle. -/
theorem Due.wait_lt (h : C.Due V s) (hr : σ.ready s = false)
    (hq : i.Quiet) : C.wait (σ.step s i) < C.wait s := by
  obtain ⟨hinv, x, hx, ⟨hjob, hv⟩ | ⟨hjob, -⟩⟩ := h
  · have hbusy : C.wait s = C.left s + 1 := by
      simp [Chains.wait, hjob]
    rw [hbusy]
    obtain ⟨-, ⟨hjob', -, hlt⟩ | ⟨hjob', -⟩⟩ :=
      C.work s i x hinv hjob hv hq
    · have hwait : C.wait (σ.step s i) = C.left (σ.step s i) + 1 := by
        simp [Chains.wait, hjob']
      omega
    · have hwait : C.wait (σ.step s i) = 0 := by simp [Chains.wait, hjob']
      omega
  · rw [← C.ready s hinv, hr] at hjob
    exact absurd hjob (by simp)

/-- A core whose digest is not valid is not ready. -/
theorem Done.ready_eq (h : C.Done V s) (hv : σ.digestValid s = false) :
    σ.ready s = false := by
  obtain ⟨hinv, x, -, ⟨hjob, -⟩ | ⟨-, hv', -⟩⟩ := h
  · refine Bool.eq_false_iff.mpr fun hr => ?_
    rw [(C.ready s hinv).mp hr] at hjob
    exact absurd hjob (by simp)
  · rw [hv] at hv'
    exact absurd hv' (by simp)

/-- The core takes a key block, or its hash. -/
theorem Idle.keys (h : C.Idle s) (hk : i.Keys compress iv V) :
    C.Due V (σ.step s i) := by
  cases hi : i.init with
  | true =>
    obtain ⟨hb, hV⟩ := hk.block hi
    obtain ⟨hinv, hjob, hv⟩ :=
      C.first s i h.1 h.2 hk.clear hi hk.next hb
    exact ⟨hinv, _, hV, Or.inl ⟨hjob, hv⟩⟩
  | false =>
    obtain ⟨x, hb, hV⟩ := hk.loaded hi
    obtain ⟨hinv, hjob, hd⟩ := C.load s i x h.1 h.2 hk.clear hi hk.next hb
    exact ⟨hinv, x, hV, Or.inr ⟨hjob, hd⟩⟩

/-- One more block. -/
theorem Idle.next (h : C.Idle s) (hclear : i.clear = false)
    (hi : i.init = false) (hn : i.next = true) (hb : i.hBlock = none)
    (hV : V (compress (σ.digest s) i.block)) : C.Done V (σ.step s i) := by
  obtain ⟨hinv, hjob, hv⟩ := C.next s i h.1 h.2 hclear hi hn hb
  exact ⟨hinv, _, hV, Or.inl ⟨hjob, hv⟩⟩

end Sha.Chains

/-! ## What the engine is working on -/

/-- The hashes that the engine makes. -/
inductive Stage
  | inner | message | idigest | outer | last

/-- The hash of the inner key block. -/
def EngineIn.innerHash (compress : BitVec 256 → BitVec 512 → BitVec 256)
    (iv : BitVec 256) (j : EngineIn) : BitVec 256 :=
  if j.keyHashBypass then j.ikeyHash else compress iv j.ipad

/-- The hash of the outer key block. -/
def EngineIn.outerHash (compress : BitVec 256 → BitVec 512 → BitVec 256)
    (iv : BitVec 256) (j : EngineIn) : BitVec 256 :=
  if j.keyHashBypass then j.okeyHash else compress iv j.opad

/-- The inputs of a cycle lead from each stage to the next one. -/
structure Plan (compress : BitVec 256 → BitVec 512 → BitVec 256)
    (iv : BitVec 256) (V : Stage → BitVec 256 → Prop) (j : EngineIn) :
    Prop where
  inner : V .inner (j.innerHash compress iv)
  message : ∀ h, V .inner h → V .message (compress h j.message)
  idigest : ∀ h, V .message h →
    V .idigest (compress h (1#1 ++ 0#447 ++ 1024#64))
  outer : V .outer (j.outerHash compress iv)
  last : ∀ h d, V .outer h → V .idigest d →
    V .last (compress h (d ++ 1#1 ++ 0#191 ++ 768#64))

namespace Engine

/-- The engine asks nothing of the core. -/
structure Low (e : Engine S) : Prop where
  shaInit : e.shaInit = false
  shaNewMsg : e.shaNewMsg = false
  shaHBlockUpdate : e.shaHBlockUpdate = false

/-- The engine asks for one more block. -/
structure Asks (e : Engine S) : Prop where
  shaInit : e.shaInit = false
  shaNewMsg : e.shaNewMsg = true
  shaHBlockUpdate : e.shaHBlockUpdate = false

variable (C : σ.Chains compress iv) (V : Stage → BitVec 256 → Prop)
  (e : Engine S)

/-- The core takes a block whose hash satisfies `V`. -/
def Extends (W : BitVec 256 → Prop) : Prop :=
  e.Asks ∧ C.Idle e.sha ∧ W (compress (σ.digest e.sha) e.shaMsg)

/-- What each state waits for, and what it knows. -/
def Follows : Prop :=
  match e.state with
  | .IDLE =>
    e.Low ∧ C.Idle e.sha ∧ (e.hashValid = true → V .last e.hash)
  | .HASHI_1 => e.hashValid = false ∧ e.Low ∧ C.Idle e.sha
  | .HASHI_1_WAIT =>
    e.hashValid = false ∧ C.Idle e.sha ∧
      (e.shaIn false).Keys compress iv (V .inner)
  | .HASHI_2 => e.hashValid = false ∧ e.Low ∧ C.Due (V .inner) e.sha
  | .HASHI_2_WAIT => e.hashValid = false ∧ e.Extends C (V .message)
  | .HASHI_3 => e.hashValid = false ∧ e.Low ∧ C.Due (V .message) e.sha
  | .HASHI_3_WAIT => e.hashValid = false ∧ e.Extends C (V .idigest)
  | .HASHO_1 => e.hashValid = false ∧ e.Low ∧ C.Done (V .idigest) e.sha
  | .HASHO_1_WAIT =>
    e.hashValid = false ∧ C.Idle e.sha ∧
      (e.shaIn false).Keys compress iv (V .outer) ∧ V .idigest e.shaIdigest
  | .HASHO_2 =>
    e.hashValid = false ∧ e.Low ∧ C.Due (V .outer) e.sha ∧
      V .idigest e.shaIdigest
  | .HASHO_2_WAIT => e.hashValid = false ∧ e.Extends C (V .last)
  | .LAST => e.hashValid = false ∧ e.Low ∧ C.Done (V .last) e.sha

/-- The states still to come. -/
def rank : ℕ :=
  match e.state with
  | .IDLE => 12
  | .HASHI_1 => 11
  | .HASHI_1_WAIT => 10
  | .HASHI_2 => 9
  | .HASHI_2_WAIT => 8
  | .HASHI_3 => 7
  | .HASHI_3_WAIT => 6
  | .HASHO_1 => 5
  | .HASHO_1_WAIT => 4
  | .HASHO_2 => 3
  | .HASHO_2_WAIT => 2
  | .LAST => 1

/-- Nearer to the end, or the same state and the core is. -/
def Nearer (e' e : Engine S) : Prop :=
  Prod.Lex (· < ·) (· < ·) (e'.rank, C.wait e'.sha) (e.rank, C.wait e.sha)

/-! ## One cycle -/

variable {C V} {e} {j : EngineIn}

theorem Low.quiet (h : e.Low) : (e.shaIn false).Quiet where
  clear := rfl
  init := h.shaInit
  next := h.shaNewMsg
  hBlock := by rw [shaIn, h.shaHBlockUpdate]; rfl

theorem step_eq (hclear : j.clear = false) :
    e.step σ j =
      { e.control σ j with sha := σ.step e.sha (e.shaIn false) } := by
  rw [step, hclear]
  rfl

/-- A cycle in which the engine waits. -/
theorem step_wait (hclear : j.clear = false) (hc : e.control σ j = e) :
    e.step σ j = { e with sha := σ.step e.sha (e.shaIn false) } := by
  rw [step_eq hclear, hc]

/-- The core has the block after a cycle. -/
theorem Extends.done {W : BitVec 256 → Prop} (h : e.Extends C W) :
    C.Done W (σ.step e.sha (e.shaIn false)) := by
  obtain ⟨hasks, hidle, hW⟩ := h
  refine hidle.next rfl hasks.shaInit hasks.shaNewMsg ?_ hW
  rw [shaIn, hasks.shaHBlockUpdate]
  rfl

theorem nearer_next {e' : Engine S} (h : e'.rank < e.rank) :
    Nearer C e' e := Prod.Lex.left _ _ h

theorem nearer_wait {s : S} (h : C.wait s < C.wait e.sha) :
    Nearer C { e with sha := s } e := Prod.Lex.right _ h

/-- A block for the core that becomes ready. -/
theorem extends_more {W W' : BitVec 256 → Prop} {msg : BitVec 512}
    {p : Phase} (hlow : e.Low) (hdue : C.Due W e.sha)
    (hr : σ.ready e.sha = true) (hW : ∀ h, W h → W' (compress h msg)) :
    Extends C { e.more msg p with sha := σ.step e.sha (e.shaIn false) }
      W' := by
  obtain ⟨hidle, hd⟩ := hdue.ready hr
  obtain ⟨hinv, hjob, hdig⟩ := C.rest _ _ hidle.1 hidle.2 hlow.quiet
  refine ⟨⟨hlow.shaInit, rfl, hlow.shaHBlockUpdate⟩, ⟨hinv, hjob⟩, ?_⟩
  show W' (compress (σ.digest (σ.step e.sha (e.shaIn false))) msg)
  rw [hdig]
  exact hW _ hd

/-- A key block for an idle core. -/
theorem keys_start {W : BitVec 256 → Prop} {bypass : Bool}
    {msg : BitVec 512} {h : BitVec 256} {p : Phase} {s : S}
    (hW : W (if bypass then h else compress iv msg)) :
    (Engine.shaIn { e.start bypass msg h p with sha := s } false).Keys
      compress iv W := by
  cases bypass with
  | true => exact ⟨rfl, rfl, fun hi => absurd hi Bool.false_ne_true,
      fun _ => ⟨h, rfl, hW⟩⟩
  | false => exact ⟨rfl, rfl, fun _ => ⟨rfl, hW⟩,
      fun hi => absurd hi.symm Bool.false_ne_true⟩

/-! ## The states -/

/-- A cycle from `e` to `e'` follows the plan and gets nearer. -/
def Goes (C : σ.Chains compress iv) (V : Stage → BitVec 256 → Prop)
    (e' e : Engine S) : Prop :=
  e'.Follows C V ∧ Nearer C e' e

section States

variable (h : e.Follows C V) (hclear : j.clear = false)
include h hclear

theorem goes_HASHI_1 (hs : e.state = .HASHI_1)
    (hp : Plan compress iv V j) : Goes C V (e.step σ j) e := by
  simp only [Follows, hs] at h
  obtain ⟨hv, hlow, hidle⟩ := h
  have hr : σ.ready e.sha = true := (C.ready e.sha hidle.1).mpr hidle.2
  rw [step_eq hclear]
  simp only [control, hs, hr, if_true]
  refine ⟨?_, nearer_next ?_⟩
  · exact ⟨hv, hidle.rest hlow.quiet, keys_start hp.inner⟩
  · simp only [rank, hs, start]
    omega

theorem goes_HASHI_1_WAIT (hs : e.state = .HASHI_1_WAIT) :
    Goes C V (e.step σ j) e := by
  simp only [Follows, hs] at h
  obtain ⟨hv, hidle, hkeys⟩ := h
  rw [step_eq hclear]
  simp only [control, hs]
  refine ⟨⟨hv, ⟨rfl, hkeys.next, rfl⟩, hidle.keys hkeys⟩, nearer_next ?_⟩
  simp only [rank, hs]
  omega

theorem goes_HASHI_2 (hs : e.state = .HASHI_2)
    (hp : Plan compress iv V j) : Goes C V (e.step σ j) e := by
  simp only [Follows, hs] at h
  obtain ⟨hv, hlow, hdue⟩ := h
  cases hr : σ.ready e.sha with
  | false =>
    rw [step_wait hclear (by simp [control, hs, hr])]
    refine ⟨?_, nearer_wait (hdue.wait_lt hr hlow.quiet)⟩
    simp only [Follows, hs]
    exact ⟨hv, ⟨hlow.1, hlow.2, hlow.3⟩, hdue.wait hlow.quiet⟩
  | true =>
    rw [step_eq hclear]
    simp only [control, hs, hr, if_true]
    refine ⟨⟨hv, extends_more hlow hdue hr hp.message⟩, nearer_next ?_⟩
    simp only [rank, hs, more]
    omega

theorem goes_HASHI_2_WAIT (hs : e.state = .HASHI_2_WAIT) :
    Goes C V (e.step σ j) e := by
  simp only [Follows, hs] at h
  obtain ⟨hv, hext⟩ := h
  rw [step_eq hclear]
  simp only [control, hs]
  refine ⟨⟨hv, ⟨hext.1.1, rfl, hext.1.3⟩, hext.done.due⟩, nearer_next ?_⟩
  simp only [rank, hs]
  omega

theorem goes_HASHI_3 (hs : e.state = .HASHI_3)
    (hp : Plan compress iv V j) : Goes C V (e.step σ j) e := by
  simp only [Follows, hs] at h
  obtain ⟨hv, hlow, hdue⟩ := h
  cases hr : σ.ready e.sha with
  | false =>
    rw [step_wait hclear (by simp [control, hs, hr])]
    refine ⟨?_, nearer_wait (hdue.wait_lt hr hlow.quiet)⟩
    simp only [Follows, hs]
    exact ⟨hv, ⟨hlow.1, hlow.2, hlow.3⟩, hdue.wait hlow.quiet⟩
  | true =>
    rw [step_eq hclear]
    simp only [control, hs, hr, if_true]
    refine ⟨⟨hv, extends_more hlow hdue hr hp.idigest⟩, nearer_next ?_⟩
    simp only [rank, hs, more]
    omega

theorem goes_HASHI_3_WAIT (hs : e.state = .HASHI_3_WAIT) :
    Goes C V (e.step σ j) e := by
  simp only [Follows, hs] at h
  obtain ⟨hv, hext⟩ := h
  rw [step_eq hclear]
  simp only [control, hs]
  refine ⟨⟨hv, ⟨hext.1.1, rfl, hext.1.3⟩, hext.done⟩, nearer_next ?_⟩
  simp only [rank, hs]
  omega

theorem goes_HASHO_1 (hs : e.state = .HASHO_1)
    (hp : Plan compress iv V j) : Goes C V (e.step σ j) e := by
  simp only [Follows, hs] at h
  obtain ⟨hv, hlow, hdone⟩ := h
  cases hd : σ.digestValid e.sha with
  | false =>
    have hr := hdone.ready_eq hd
    rw [step_wait hclear (by simp [control, hs, hd])]
    refine ⟨?_, nearer_wait (hdone.due.wait_lt hr hlow.quiet)⟩
    simp only [Follows, hs]
    exact ⟨hv, ⟨hlow.1, hlow.2, hlow.3⟩, hdone.wait hd hlow.quiet⟩
  | true =>
    obtain ⟨hidle, hdig⟩ := hdone.valid hd
    rw [step_eq hclear]
    simp only [control, hs, hd, if_true]
    refine ⟨?_, nearer_next ?_⟩
    · exact ⟨hv, hidle.rest hlow.quiet, keys_start hp.outer, hdig⟩
    · simp only [rank, hs, start]
      omega

theorem goes_HASHO_1_WAIT (hs : e.state = .HASHO_1_WAIT) :
    Goes C V (e.step σ j) e := by
  simp only [Follows, hs] at h
  obtain ⟨hv, hidle, hkeys, hdig⟩ := h
  rw [step_eq hclear]
  simp only [control, hs]
  refine ⟨⟨hv, ⟨rfl, hkeys.next, rfl⟩, hidle.keys hkeys, hdig⟩,
    nearer_next ?_⟩
  simp only [rank, hs]
  omega

theorem goes_HASHO_2 (hs : e.state = .HASHO_2)
    (hp : Plan compress iv V j) : Goes C V (e.step σ j) e := by
  simp only [Follows, hs] at h
  obtain ⟨hv, hlow, hdue, hdig⟩ := h
  cases hr : σ.ready e.sha with
  | false =>
    rw [step_wait hclear (by simp [control, hs, hr])]
    refine ⟨?_, nearer_wait (hdue.wait_lt hr hlow.quiet)⟩
    simp only [Follows, hs]
    exact ⟨hv, ⟨hlow.1, hlow.2, hlow.3⟩, hdue.wait hlow.quiet, hdig⟩
  | true =>
    have hW : ∀ h, V .outer h →
        V .last (compress h (e.shaIdigest ++ 1#1 ++ 0#191 ++ 768#64)) :=
      fun h hh => hp.last h e.shaIdigest hh hdig
    rw [step_eq hclear]
    simp only [control, hs, hr, if_true]
    refine ⟨⟨hv, extends_more hlow hdue hr hW⟩, nearer_next ?_⟩
    simp only [rank, hs, more]
    omega

theorem goes_HASHO_2_WAIT (hs : e.state = .HASHO_2_WAIT) :
    Goes C V (e.step σ j) e := by
  simp only [Follows, hs] at h
  obtain ⟨hv, hext⟩ := h
  rw [step_eq hclear]
  simp only [control, hs]
  refine ⟨⟨hv, ⟨hext.1.1, rfl, hext.1.3⟩, hext.done⟩, nearer_next ?_⟩
  simp only [rank, hs]
  omega

/-- The last hash is taken over when it is valid. -/
theorem goes_LAST (hs : e.state = .LAST) :
    (e.step σ j).Follows C V ∧
      ((e.step σ j).hashValid = true ∨ Nearer C (e.step σ j) e) := by
  simp only [Follows, hs] at h
  obtain ⟨hv, hlow, hdone⟩ := h
  cases hd : σ.digestValid e.sha with
  | false =>
    have hr := hdone.ready_eq hd
    rw [step_wait hclear (by simp [control, hs, hd])]
    refine ⟨?_, Or.inr (nearer_wait (hdone.due.wait_lt hr hlow.quiet))⟩
    simp only [Follows, hs]
    exact ⟨hv, ⟨hlow.1, hlow.2, hlow.3⟩, hdone.wait hd hlow.quiet⟩
  | true =>
    obtain ⟨hidle, hdig⟩ := hdone.valid hd
    rw [step_eq hclear]
    simp only [control, hs, hd, if_true]
    refine ⟨?_, Or.inl trivial⟩
    exact ⟨⟨hlow.1, hlow.2, hlow.3⟩, hidle.rest hlow.quiet, fun _ => hdig⟩

theorem goes_IDLE (hs : e.state = .IDLE) (hi : j.init = false) :
    (e.step σ j).Follows C V := by
  simp only [Follows, hs] at h
  obtain ⟨hlow, hidle, hlast⟩ := h
  rw [step_eq hclear]
  simp only [control, hs, hi]
  exact ⟨⟨rfl, rfl, hlow.3⟩, hidle.rest hlow.quiet, hlast⟩

/-- An idle engine that starts has a new plan. -/
theorem start_IDLE (hs : e.state = .IDLE) (hi : j.init = true)
    (V' : Stage → BitVec 256 → Prop) :
    (e.step σ j).Follows C V' ∧ (e.step σ j).state ≠ .IDLE := by
  simp only [Follows, hs] at h
  obtain ⟨hlow, hidle, -⟩ := h
  rw [step_eq hclear]
  simp only [control, hs, hi, if_true]
  refine ⟨⟨rfl, ⟨rfl, rfl, hlow.3⟩, hidle.rest hlow.quiet⟩, fun h => ?_⟩
  cases h

end States

/-- A cycle goes on with the plan, and a busy engine gets nearer. -/
theorem step_goes (h : e.Follows C V) (hclear : j.clear = false)
    (hp : Plan compress iv V j) :
    (e.step σ j).Follows C V ∧
      (e.state = .IDLE ∨ (e.step σ j).hashValid = true ∨
        Nearer C (e.step σ j) e) := by
  have hgoes : Goes C V (e.step σ j) e → (e.step σ j).Follows C V ∧
      (e.state = .IDLE ∨ (e.step σ j).hashValid = true ∨
        Nearer C (e.step σ j) e) :=
    fun hg => ⟨hg.1, Or.inr (Or.inr hg.2)⟩
  cases hs : e.state with
  | IDLE =>
    refine ⟨?_, Or.inl rfl⟩
    cases hi : j.init with
    | false => exact goes_IDLE h hclear hs hi
    | true => exact (start_IDLE h hclear hs hi V).1
  | HASHI_1 => exact hs ▸ hgoes (goes_HASHI_1 h hclear hs hp)
  | HASHI_1_WAIT => exact hs ▸ hgoes (goes_HASHI_1_WAIT h hclear hs)
  | HASHI_2 => exact hs ▸ hgoes (goes_HASHI_2 h hclear hs hp)
  | HASHI_2_WAIT => exact hs ▸ hgoes (goes_HASHI_2_WAIT h hclear hs)
  | HASHI_3 => exact hs ▸ hgoes (goes_HASHI_3 h hclear hs hp)
  | HASHI_3_WAIT => exact hs ▸ hgoes (goes_HASHI_3_WAIT h hclear hs)
  | HASHO_1 => exact hs ▸ hgoes (goes_HASHO_1 h hclear hs hp)
  | HASHO_1_WAIT => exact hs ▸ hgoes (goes_HASHO_1_WAIT h hclear hs)
  | HASHO_2 => exact hs ▸ hgoes (goes_HASHO_2 h hclear hs hp)
  | HASHO_2_WAIT => exact hs ▸ hgoes (goes_HASHO_2_WAIT h hclear hs)
  | LAST =>
    obtain ⟨hf, hn⟩ := goes_LAST h hclear hs
    exact ⟨hf, Or.inr hn⟩

/-- A reset engine has no plan to go back on. -/
theorem follows_clear (e : Engine S) (hclear : j.clear = true) :
    (e.step σ j).Follows C V := by
  rw [step, hclear]
  exact ⟨⟨rfl, rfl, rfl⟩, C.clear e.sha _ rfl,
    fun h => absurd h Bool.false_ne_true⟩

/-- In every state that a reset leads to. -/
theorem follows_reachable {e₀ : Engine S} {j₀ : EngineIn}
    (hclear : j₀.clear = true)
    (h : Sync.Reachable (step σ) (e₀.step σ j₀) e) :
    e.Follows C fun _ _ => True := by
  refine h.invariant (follows_clear e₀ hclear) fun e' j he' => ?_
  cases hj : j.clear with
  | true => exact follows_clear e' hj
  | false =>
    exact (step_goes he' hj
      ⟨trivial, fun _ _ => trivial, fun _ _ => trivial, trivial,
        fun _ _ _ _ => trivial⟩).1

/-- A valid hash is the last one. -/
theorem Follows.hash_eq (h : e.Follows C V) (hv : e.hashValid = true) :
    V .last e.hash := by
  unfold Follows at h
  cases hs : e.state with
  | IDLE =>
    simp only [hs] at h
    exact h.2.2 hv
  | _ =>
    simp only [hs, hv] at h
    exact absurd h.1 (by simp)

theorem rank_lt_iff (e : Engine S) : e.rank < 12 ↔ e.state ≠ .IDLE := by
  unfold rank
  cases e.state <;> simp

/-- A busy engine that gets nearer is busy. -/
theorem Nearer.busy {e' : Engine S} (h : Nearer C e' e)
    (hs : e.state ≠ .IDLE) : e'.state ≠ .IDLE := by
  rw [← rank_lt_iff] at hs ⊢
  rcases Prod.lex_def.mp h with hlt | ⟨heq, -⟩
  · exact Nat.lt_trans hlt hs
  · have heq' : e'.rank = e.rank := heq
    omega

theorem nearer_wellFounded (C : σ.Chains compress iv) :
    WellFounded (Nearer C) :=
  InvImage.wf (fun e : Engine S => (e.rank, C.wait e.sha))
    (WellFounded.prod_lex Nat.lt_wfRel.wf Nat.lt_wfRel.wf)

/-- A busy engine whose inputs stay planned gets to a valid hash. -/
theorem eventually_valid (h : e.Follows C V) (hs : e.state ≠ .IDLE)
    {js : ℕ → EngineIn}
    (hjs : ∀ n, (js n).clear = false ∧ Plan compress iv V (js n)) :
    ∃ n, (Sync.run (step σ) e ((List.range n).map js)).hashValid = true := by
  refine Sync.reaches_of_wellFounded
    (P := fun e' => e'.Follows C V ∧ e'.state ≠ .IDLE)
    (Q := fun e' => e'.hashValid = true)
    (R := fun k => k.clear = false ∧ Plan compress iv V k)
    (nearer_wellFounded C) ?_ ⟨h, hs⟩ hjs
  rintro e' k ⟨hclear, hp⟩ ⟨hf, hbusy⟩
  obtain ⟨hf', hidle | hv | hn⟩ := step_goes hf hclear hp
  · exact absurd hidle hbusy
  · exact Or.inl hv
  · exact Or.inr ⟨⟨hf', hn.busy hbusy⟩, hn⟩

end Engine

/-! ## The hash -/

/-- The inputs ask for the HMAC of `m` under `key`, by the key or by the
hashes of its two blocks. -/
structure EngineIn.Held (compress : BitVec 256 → BitVec 512 → BitVec 256)
    (iv : BitVec 256) (key : BitVec 256) (m : BitVec 512) (j : EngineIn) :
    Prop where
  clear : j.clear = false
  message : j.message = m
  direct : j.keyHashBypass = false → j.key = key
  ikeyHash : j.keyHashBypass = true →
    j.ikeyHash = compress iv ((key ++ 0#256) ^^^ BitVec.replicate 64 0x36#8)
  okeyHash : j.keyHashBypass = true →
    j.okeyHash = compress iv ((key ++ 0#256) ^^^ BitVec.replicate 64 0x5c#8)

/-- The hashes of the stages. -/
def stageHash (compress : BitVec 256 → BitVec 512 → BitVec 256)
    (iv : BitVec 256) (key : BitVec 256) (m : BitVec 512) (k : Stage) :
    BitVec 256 :=
  let inner := compress iv ((key ++ 0#256) ^^^ BitVec.replicate 64 0x36#8)
  let message := compress inner m
  let idigest := compress message (1#1 ++ 0#447 ++ 1024#64)
  let outer := compress iv ((key ++ 0#256) ^^^ BitVec.replicate 64 0x5c#8)
  match k with
  | .inner => inner
  | .message => message
  | .idigest => idigest
  | .outer => outer
  | .last => compress outer (idigest ++ 1#1 ++ 0#191 ++ 768#64)

theorem EngineIn.Held.plan {key : BitVec 256} {m : BitVec 512}
    {j : EngineIn} (hj : j.Held compress iv key m) :
    Plan compress iv (fun k h => h = stageHash compress iv key m k) j where
  inner := by
    rw [innerHash]
    cases hb : j.keyHashBypass with
    | true => exact hj.ikeyHash hb
    | false =>
      rw [if_neg Bool.false_ne_true, ipad, hj.direct hb]
      rfl
  message h hh := by
    rw [hj.message, hh]
    rfl
  idigest h hh := by
    rw [hh]
    rfl
  outer := by
    rw [outerHash]
    cases hb : j.keyHashBypass with
    | true => exact hj.okeyHash hb
    | false =>
      rw [if_neg Bool.false_ne_true, opad, hj.direct hb]
      rfl
  last h d hh hd := by
    rw [hh, hd]
    rfl

theorem stageHash_last (key : BitVec 256) (m : BitVec 512) :
    stageHash compress iv key m .last =
      Hashing.hmac compress iv 64 (BitVec.replicate 64 0x36#8)
        (BitVec.replicate 64 0x5c#8) (key ++ 0#256) m :=
  (hmac_block compress iv _ _ _ m).symm

/-- An idle engine that is started with a key and a message, or with the
hashes of the key blocks, gets to a valid hash, and while `hashValid` is set
`hash` is the HMAC of the message, however long the core takes. -/
theorem hash_eq_hmac (C : σ.Chains compress iv) {e₀ e : Engine S}
    {j₀ j : EngineIn} (hclear : j₀.clear = true)
    (hreach : Sync.Reachable (Engine.step σ) (e₀.step σ j₀) e)
    (hidle : e.state = .IDLE) (key : BitVec 256) (m : BitVec 512)
    (hinit : j.init = true) (hj : j.Held compress iv key m) :
    (∀ js : List EngineIn, (∀ k ∈ js, k.Held compress iv key m) →
      Sync.Always (Engine.step σ) (fun e' => e'.hashValid = true →
        e'.hash = Hashing.hmac compress iv 64 (BitVec.replicate 64 0x36#8)
          (BitVec.replicate 64 0x5c#8) (key ++ 0#256) m)
        (e.step σ j) js) ∧
    ∀ js : ℕ → EngineIn, (∀ n, (js n).Held compress iv key m) →
      ∃ n, (Sync.run (Engine.step σ) (e.step σ j)
        ((List.range n).map js)).hashValid = true := by
  obtain ⟨hf, hbusy⟩ := Engine.start_IDLE
    (Engine.follows_reachable (C := C) hclear hreach) hj.clear hidle hinit
    fun k h => h = stageHash compress iv key m k
  refine ⟨fun js hjs => ?_, fun js hjs => ?_⟩
  · have hheld : Sync.Along (Engine.step σ)
        (fun _ k => k.Held compress iv key m) (e.step σ j) js :=
      Sync.along_of_forall_mem hjs
    refine (hheld.always (P := fun e' => e'.Follows C
      fun k h => h = stageHash compress iv key m k) ?_ hf).mono ?_
    · intro e' k hk he'
      exact (Engine.step_goes he' hk.clear hk.plan).1
    · intro e' he' hv
      rw [← stageHash_last]
      exact he'.hash_eq hv
  · exact Engine.eventually_valid hf hbusy fun n =>
      ⟨(hjs n).clear, (hjs n).plan⟩

/-- With `sha256`, after a reset. -/
theorem hash_eq_hmac_sample :
    let held : EngineIn :=
      ⟨false, true, 1#256, 0#256, 0#256, false, 2#512⟩
    let init : Engine Sha256.Core :=
      Engine.step Sha256.core
        ⟨.IDLE, 0#256, false, false, false, false, 0#512, 0#256, false, 0#256,
          ⟨.zero, .zero, 0#6, false, false, .CTRL_IDLE,
            ⟨fun _ => 0#32, 0#6, false⟩⟩⟩
        { held with clear := true }
    Sync.Always (Engine.step Sha256.core) (fun e' => e'.hashValid = true →
      e'.hash = Hashing.hmac Sha256.compress Sha256.iv.concat 64
        (BitVec.replicate 64 0x36#8) (BitVec.replicate 64 0x5c#8)
        (1#256 ++ 0#256) 2#512)
      (init.step Sha256.core held) (List.replicate 400 held) ∧
    ∃ n, (Sync.run (Engine.step Sha256.core)
      (init.step Sha256.core held)
      ((List.range n).map fun _ => held)).hashValid = true := by
  intro held init
  have hheld : held.Held Sha256.compress Sha256.iv.concat 1#256 2#512 :=
    ⟨rfl, rfl, fun _ => rfl, fun h => absurd h Bool.false_ne_true,
      fun h => absurd h Bool.false_ne_true⟩
  have hrun := hash_eq_hmac Sha256.core_chains (e := init) rfl
    (Sync.Reachable.refl _) rfl 1#256 2#512 (j := held) rfl hheld
  exact ⟨hrun.1 _ fun k hk => (List.eq_of_mem_replicate hk) ▸ hheld,
    hrun.2 _ fun _ => hheld⟩

end ArianeSoc.Periph.Hmac
