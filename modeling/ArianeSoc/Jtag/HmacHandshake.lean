import ArianeSoc.Jtag.DmiJtag
import ArianeSoc.Periph.Sha256

/-!
# The handshake of the password check with the HMAC engine

`hmac.sv` sets `ready_o` in `IDLE` and clears it in a reset only, so that it
is high while a hash is made.

* `readyLow_iff`: `ready_o` is low from an accepted init until its hash is
  valid exactly in the runs that accept none.
* `passChkWait_stays`: the password check waits for the end of `ready_o`
  before it looks at the hash, and so waits for ever.
-/

namespace ArianeSoc.Periph.Hmac

open Sync

variable {S : Type} {σ : Sha S}

/-- The engine takes an init. -/
def Engine.Accepts (e : Engine S) (j : EngineIn) : Prop :=
  e.state = .IDLE ∧ j.clear = false ∧ j.init = true

/-- From an accepted init on, `ready_o` is low until a hash is valid or a
reset comes. -/
def ReadyLow (σ : Sha S) (e : Engine S) (js : List EngineIn) : Prop :=
  ∀ pre j post, js = pre ++ j :: post →
    (run (Engine.step σ) e pre).Accepts j →
    ∀ k ≤ post.length, (∀ i ∈ post.take k, i.clear = false) →
      (∀ l ≤ k, (run (Engine.step σ) e
        (pre ++ j :: post.take l)).hashValid = false) →
      (run (Engine.step σ) e (pre ++ j :: post.take k)).ready = false

/-- After an accepted init the hash is not valid, and the engine is
ready. -/
theorem Engine.Accepts.step {e : Engine S} {j : EngineIn}
    (h : e.Accepts j) :
    (e.step σ j).hashValid = false ∧ (e.step σ j).ready = true := by
  obtain ⟨hidle, hclear, hinit⟩ := h
  simp [Engine.step, Engine.control, hidle, hclear, hinit]

/-- Only a reset makes the engine unready. -/
theorem Engine.ready_step {e : Engine S} {j : EngineIn}
    (hr : e.ready = true) (hclear : j.clear = false) :
    (e.step σ j).ready = true := by
  have hcontrol : (e.control σ j).ready = true := by
    unfold Engine.control
    split
    all_goals
      try split_ifs
      all_goals first
        | rfl
        | exact hr
  simpa [Engine.step, hclear] using hcontrol

/-- `ready_o` is low until the hash is valid if and only if no init is
accepted. -/
theorem readyLow_iff (σ : Sha S) (e : Engine S) (js : List EngineIn) :
    ReadyLow σ e js ↔
      Along (Engine.step σ) (fun e j => ¬ e.Accepts j) e js := by
  constructor
  · intro h
    induction js generalizing e with
    | nil => trivial
    | cons i js ih =>
      refine ⟨fun hacc => ?_, ih _ fun pre j post hjs => ?_⟩
      · obtain ⟨hvalid, hready⟩ := hacc.step (σ := σ)
        have hlow := h [] i js rfl hacc 0 (Nat.zero_le _) (by simp)
          fun l hl => by rw [Nat.le_zero.mp hl]; exact hvalid
        exact absurd (hready.symm.trans hlow) (by decide)
      · exact h (i :: pre) j post (by rw [hjs]; rfl)
  · rintro h pre j post rfl hacc
    exfalso
    induction pre generalizing e with
    | nil => exact h.1 hacc
    | cons i pre ih => exact ih _ h.2 hacc

/-- After a reset and a cycle in `IDLE` the engine is ready in the cycle
after an init. -/
theorem readyLow_sha256 :
    let idle : EngineIn := ⟨false, false, 0#256, 0#256, 0#256, true, 0#512⟩
    let powerOn : Engine Sha256.Core :=
      ⟨.IDLE, 0#256, false, false, false, false, 0#512, 0#256, false, 0#256,
        ⟨.zero, .zero, 0#6, false, false, .CTRL_IDLE,
          ⟨fun _ => 0#32, 0#6, false⟩⟩⟩
    ¬ ReadyLow Sha256.core powerOn
      [{ idle with clear := true }, idle, { idle with init := true }] := by
  intro idle powerOn h
  have hacc : (run (Engine.step Sha256.core) powerOn
      [{ idle with clear := true }, idle]).Accepts
        { idle with init := true } := ⟨rfl, rfl, rfl⟩
  obtain ⟨hvalid, hready⟩ := hacc.step (σ := Sha256.core)
  have hlow := h [{ idle with clear := true }, idle] _ [] rfl hacc 0
    (Nat.zero_le _) (by simp) fun l hl => by
      rw [Nat.le_zero.mp hl]
      exact hvalid
  exact absurd (hready.symm.trans hlow) (by decide)

end ArianeSoc.Periph.Hmac

namespace ArianeSoc.Jtag

open Sync Periph.Hmac

/-! ## The password check -/

/-- The JTAG interface and its HMAC engine. -/
structure Check (S : Type) where
  jtag : State
  engine : Engine S

/-- A cycle of the one clock or of the other. -/
inductive Tick
  | tck (i : In)
  | clk (j : EngineIn)

variable {S : Type} (σ : Sha S)

/-- The key of the password check, `key_i`. -/
def passKey : BitVec 256 :=
  0x24e6fa2254c2ff632a41b3b42e5c9b54f247b9a445a1ce488cfa23b384632154#256

/-- What the interface sees of the engine. -/
def Check.jtagIn (c : Check S) (i : In) : In :=
  { i with
    hmacReady := c.engine.ready
    hashValid := c.engine.hashValid
    passHash := c.engine.hash }

/-- What the engine sees of the interface. -/
def Check.engineIn (c : Check S) (j : EngineIn) : EngineIn :=
  { j with
    init := (comb c.jtag (c.jtagIn In.quiet)).startHash
    key := passKey
    keyHashBypass := true
    message := c.jtag.passData }

def Check.step (c : Check S) : Tick → Check S
  | .tck i => { c with jtag := Jtag.step c.jtag (c.jtagIn i) }
  | .clk j => { c with engine := c.engine.step σ (c.engineIn j) }

/-- Neither side is reset. -/
def Tick.Running : Tick → Prop
  | .tck i => i.trstNi = true
  | .clk j => j.clear = false

/-- An interface that waits for the engine to become busy waits for ever,
in any order of the two clocks. -/
theorem passChkWait_stays {c : Check S} (hs : c.jtag.state = .PassChkWait)
    (hr : c.engine.ready = true) {ts : List Tick}
    (hts : ∀ t ∈ ts, t.Running) :
    (run (Check.step σ) c ts).jtag.state = .PassChkWait ∧
      (run (Check.step σ) c ts).engine.ready = true := by
  have halong : Along (Check.step σ) (fun _ t => t.Running) c ts :=
    along_of_forall_mem hts
  refine halong.run_invariant
    (P := fun d => d.jtag.state = .PassChkWait ∧ d.engine.ready = true)
    (fun d t ht hd => ?_) ⟨hs, hr⟩
  obtain ⟨hwait, hready⟩ := hd
  cases t with
  | tck i =>
    refine ⟨?_, hready⟩
    show (Jtag.step d.jtag (d.jtagIn i)).state = _
    have hrun : (d.jtagIn i).trstNi = true := ht
    have hbusy : (d.jtagIn i).hmacReady = true := hready
    rw [state_step hrun]
    simp [comb, defaults, hwait, hbusy]
  | clk j =>
    have hrun : (d.engineIn j).clear = false := ht
    exact ⟨hwait, Engine.ready_step hready hrun⟩

end ArianeSoc.Jtag
