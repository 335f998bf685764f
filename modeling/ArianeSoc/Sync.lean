import Mathlib.Data.List.Basic
import Mathlib.Tactic.Common

/-!
# Runs of a synchronous machine

A clocked design is a step function `step : σ → ι → σ`: one state, the
inputs of one cycle, the state after the clock edge.  `run` is the state
after a list of cycles, `Reachable` the states a reset leads to, and
`Along R` says that every cycle of a run satisfies a relation `R` between
the state of that cycle and its inputs.

The rules come in these kinds.

* Invariant rules: `run_invariant` for a property that every cycle keeps,
  `Along.run_invariant` for one that the cycles satisfying `R` keep.
* Frame rules: `Along.run_frame` for a view of the state that the cycles
  satisfying `R` leave alone, and `Along.congr` to replace the condition
  on the cycles by an equivalent one.
* The register rule `run_register`: a register holds what was loaded last.
* The progress rules `Along.reaches`, with a measure that the cycles
  satisfying `R` decrease, and `reaches_of_wellFounded` for unbounded runs.
* Simulation rules: `Along.run_relates` for a relation between two machines
  with the same inputs and `Along.outputs_eq` for what one of them logs of
  the other.
* Rules for two runs: `Along.outputs_congr` for runs from related states,
  `outputs_agree_iff` for runs with different parameters.

Nothing here names a design.
-/

namespace Sync

variable {σ τ ι : Type*} {step : σ → ι → σ}

/-- The state after the cycles `is`, from state `s`. -/
def run (step : σ → ι → σ) (s : σ) (is : List ι) : σ :=
  is.foldl step s

@[simp] theorem run_nil (s : σ) : run step s [] = s := rfl

@[simp] theorem run_cons (s : σ) (i : ι) (is : List ι) :
    run step s (i :: is) = run step (step s i) is := rfl

theorem run_append (s : σ) (is js : List ι) :
    run step s (is ++ js) = run step (run step s is) js :=
  List.foldl_append

/-- The states that some list of cycles reaches from `init`. -/
def Reachable (step : σ → ι → σ) (init s : σ) : Prop :=
  ∃ is, run step init is = s

theorem Reachable.refl (init : σ) : Reachable step init init :=
  ⟨[], rfl⟩

theorem Reachable.run {init s : σ} (h : Reachable step init s)
    (is : List ι) : Reachable step init (Sync.run step s is) := by
  obtain ⟨pre, rfl⟩ := h
  exact ⟨pre ++ is, run_append init pre is⟩

theorem Reachable.next {init s : σ} (h : Reachable step init s) (i : ι) :
    Reachable step init (step s i) :=
  h.run [i]

/-! ## Invariants -/

/-- A property that every cycle keeps is kept by every run. -/
theorem run_invariant {P : σ → Prop} (hstep : ∀ s i, P s → P (step s i))
    {s : σ} (hs : P s) (is : List ι) : P (run step s is) := by
  induction is generalizing s with
  | nil => exact hs
  | cons i is ih => exact ih (hstep s i hs)

/-- A property of the reset state that every cycle keeps holds in every
reachable state. -/
theorem Reachable.invariant {P : σ → Prop} {init s : σ}
    (h : Reachable step init s) (hinit : P init)
    (hstep : ∀ s i, P s → P (step s i)) : P s := by
  obtain ⟨is, rfl⟩ := h
  exact run_invariant hstep hinit is

/-- A property that the cycles of a run keep holds at its end if one of them
brings it about. -/
theorem run_established {P Q : σ → Prop} {is : List ι}
    (hQ : ∀ s, ∀ i ∈ is, Q s → Q (step s i))
    (hP : ∀ s, ∀ i ∈ is, Q s → P s → P (step s i))
    (hgo : ∃ i ∈ is, ∀ s, Q s → P (step s i)) {s : σ} (hs : Q s) :
    P (run step s is) := by
  have hkeep : ∀ (js : List ι), (∀ j ∈ js, j ∈ is) → ∀ s, Q s → P s →
      P (run step s js) := by
    intro js
    induction js with
    | nil => exact fun _ s _ hp => hp
    | cons j js ih =>
      intro hjs s hq hp
      have hj := hjs j List.mem_cons_self
      exact ih (fun k hk => hjs k (List.mem_cons_of_mem j hk)) _
        (hQ s j hj hq) (hP s j hj hq hp)
  have hkeepQ : ∀ (js : List ι), (∀ j ∈ js, j ∈ is) → ∀ s, Q s →
      Q (run step s js) := by
    intro js
    induction js with
    | nil => exact fun _ s hq => hq
    | cons j js ih =>
      intro hjs s hq
      exact ih (fun k hk => hjs k (List.mem_cons_of_mem j hk)) _
        (hQ s j (hjs j List.mem_cons_self) hq)
  obtain ⟨i, hi, hfirst⟩ := hgo
  obtain ⟨pre, post, rfl⟩ := List.append_of_mem hi
  rw [run_append, run_cons]
  have hpre : ∀ j ∈ pre, j ∈ pre ++ i :: post :=
    fun j hj => List.mem_append_left _ hj
  have hpost : ∀ j ∈ post, j ∈ pre ++ i :: post :=
    fun j hj => List.mem_append_right _ (List.mem_cons_of_mem i hj)
  have hq := hkeepQ pre hpre s hs
  exact hkeep post hpost _ (hQ _ i hi hq) (hfirst _ hq)

/-! ## Conditions on every cycle of a run -/

/-- Every cycle of the run of `is` from `s` satisfies `R`. -/
def Along (step : σ → ι → σ) (R : σ → ι → Prop) : σ → List ι → Prop
  | _, [] => True
  | s, i :: is => R s i ∧ Along step R (step s i) is

instance Along.decidable (R : σ → ι → Prop)
    [∀ s i, Decidable (R s i)] :
    (s : σ) → (is : List ι) → Decidable (Along step R s is)
  | _, [] => inferInstanceAs (Decidable True)
  | s, i :: is =>
    have := Along.decidable R (step s i) is
    inferInstanceAs (Decidable (R s i ∧ Along step R (step s i) is))

variable {R R' : σ → ι → Prop}

@[simp] theorem along_nil (s : σ) : Along step R s [] := trivial

@[simp] theorem along_cons (s : σ) (i : ι) (is : List ι) :
    Along step R s (i :: is) ↔ R s i ∧ Along step R (step s i) is :=
  Iff.rfl

/-- A condition may be replaced by one that it implies. -/
theorem Along.mono (h : ∀ s i, R s i → R' s i) {s : σ} {is : List ι}
    (ha : Along step R s is) : Along step R' s is := by
  induction is generalizing s with
  | nil => trivial
  | cons i is ih => exact ⟨h s i ha.1, ih ha.2⟩

theorem Along.congr (h : ∀ s i, R s i ↔ R' s i) (s : σ) (is : List ι) :
    Along step R s is ↔ Along step R' s is :=
  ⟨Along.mono fun s i => (h s i).1, Along.mono fun s i => (h s i).2⟩

/-- `Along.congr` where the conditions are equivalent in the cycles of the
run only. -/
theorem Along.congr_of {Q : σ → ι → Prop}
    (h : ∀ s i, Q s i → (R s i ↔ R' s i)) {s : σ} {is : List ι}
    (ha : Along step Q s is) : Along step R s is ↔ Along step R' s is := by
  induction is generalizing s with
  | nil => exact Iff.rfl
  | cons i is ih => exact and_congr (h s i ha.1) (ih ha.2)

/-- A condition on the inputs alone. -/
theorem along_of_forall_mem {Q : ι → Prop} {s : σ} {is : List ι}
    (h : ∀ i ∈ is, Q i) : Along step (fun _ i => Q i) s is := by
  induction is generalizing s with
  | nil => trivial
  | cons i is ih =>
    refine ⟨h i List.mem_cons_self, ih fun j hj => ?_⟩
    exact h j (List.mem_cons_of_mem i hj)

/-- A property that every cycle keeps. -/
theorem along_of_invariant {P : σ → Prop}
    (hstep : ∀ s i, P s → P (step s i)) {s : σ} (hs : P s) (is : List ι) :
    Along step (fun s _ => P s) s is := by
  induction is generalizing s with
  | nil => trivial
  | cons i is ih => exact ⟨hs, ih (hstep s i hs)⟩

/-- A property kept by every cycle that satisfies `R` is kept by every
run whose cycles all satisfy `R`. -/
theorem Along.run_invariant {P : σ → Prop}
    (hstep : ∀ s i, R s i → P s → P (step s i)) {s : σ} {is : List ι}
    (ha : Along step R s is) (hs : P s) : P (run step s is) := by
  induction is generalizing s with
  | nil => exact hs
  | cons i is ih => exact ih ha.2 (hstep s i ha.1 hs)

/-- A property kept by every cycle that satisfies `R` holds at every cycle
of a run whose cycles all satisfy `R`. -/
theorem Along.along {P : σ → Prop}
    (hstep : ∀ s i, R s i → P s → P (step s i)) {s : σ} {is : List ι}
    (ha : Along step R s is) (hs : P s) :
    Along step (fun s i => R s i ∧ P s) s is := by
  induction is generalizing s with
  | nil => trivial
  | cons i is ih =>
    exact ⟨⟨ha.1, hs⟩, ih ha.2 (hstep s i ha.1 hs)⟩

/-- A view of the state that every cycle satisfying `R` leaves alone is
the same at both ends of a run whose cycles all satisfy `R`. -/
theorem Along.run_frame {f : σ → τ}
    (hstep : ∀ s i, R s i → f (step s i) = f s) {s : σ}
    {is : List ι} (ha : Along step R s is) :
    f (run step s is) = f s :=
  ha.run_invariant (P := fun s' => f s' = f s)
    (fun s' i hR hs => (hstep s' i hR).trans hs) rfl

/-- `Along.run_frame` for a view that is left alone only where an
invariant of every cycle holds. -/
theorem Along.run_frame_of_invariant {P : σ → Prop} {f : σ → τ}
    (hP : ∀ s i, P s → P (step s i))
    (hstep : ∀ s i, P s → R s i → f (step s i) = f s) {s : σ}
    {is : List ι} (ha : Along step R s is) (hs : P s) :
    f (run step s is) = f s := by
  have hrun : P (run step s is) ∧ f (run step s is) = f s :=
    ha.run_invariant (P := fun s' => P s' ∧ f s' = f s)
      (fun s' i hR hs' =>
        ⟨hP s' i hs'.1, (hstep s' i hs'.1 hR).trans hs'.2⟩) ⟨hs, rfl⟩
  exact hrun.2

/-- Two conditions on the cycles of one run are one condition. -/
theorem Along.and {s : σ} {is : List ι} (ha : Along step R s is)
    (ha' : Along step R' s is) :
    Along step (fun s i => R s i ∧ R' s i) s is := by
  induction is generalizing s with
  | nil => trivial
  | cons i is ih => exact ⟨⟨ha.1, ha'.1⟩, ih ha.2 ha'.2⟩

/-! ## Every state of a run -/

/-- `P` holds in every state of the run of `is` from `s`, both ends
included. -/
def Always (step : σ → ι → σ) (P : σ → Prop) (s : σ) (is : List ι) : Prop :=
  ∀ n, P (run step s (is.take n))

theorem always_nil {P : σ → Prop} (s : σ) :
    Always step P s [] ↔ P s := by
  simp [Always]

theorem always_cons {P : σ → Prop} (s : σ) (i : ι) (is : List ι) :
    Always step P s (i :: is) ↔ P s ∧ Always step P (step s i) is := by
  constructor
  · intro h
    exact ⟨h 0, fun n => h (n + 1)⟩
  · rintro ⟨hs, h⟩ n
    cases n with
    | zero => exact hs
    | succ n => exact h n

theorem Always.mono {P P' : σ → Prop} (h : ∀ s, P s → P' s) {s : σ}
    {is : List ι} (ha : Always step P s is) : Always step P' s is :=
  fun n => h _ (ha n)

/-- A property that holds at the end of a run holds all along, or from some
cycle on that brings it about. -/
theorem always_or_arises {P : σ → Prop} {s : σ} {is : List ι}
    (h : P (run step s is)) :
    Always step P s is ∨
      ∃ pre i post, is = pre ++ i :: post ∧ ¬ P (run step s pre) ∧
        Always step P (step (run step s pre) i) post := by
  induction is generalizing s with
  | nil => exact Or.inl ((always_nil s).mpr h)
  | cons i is ih =>
    rcases ih h with hall | ⟨pre, j, post, rfl, hpre, hj⟩
    · by_cases hs : P s
      · exact Or.inl ((always_cons s i is).mpr ⟨hs, hall⟩)
      · exact Or.inr ⟨[], i, is, rfl, hs, hall⟩
    · exact Or.inr ⟨i :: pre, j, post, rfl, hpre, hj⟩

theorem Always.first {P : σ → Prop} {s : σ} {is : List ι}
    (h : Always step P s is) : P s :=
  h 0

/-- A property kept by every cycle that satisfies `R` holds in every state
of a run whose cycles all satisfy `R`. -/
theorem Along.always {P : σ → Prop}
    (hstep : ∀ s i, R s i → P s → P (step s i)) {s : σ} {is : List ι}
    (ha : Along step R s is) (hs : P s) : Always step P s is := by
  induction is generalizing s with
  | nil => exact (always_nil s).mpr hs
  | cons i is ih =>
    exact (always_cons s i is).mpr ⟨hs, ih ha.2 (hstep s i ha.1 hs)⟩

/-- Where the cycles of a run say exactly when `P` is kept, `P` holds in
every state of the run if and only if every cycle keeps it. -/
theorem Along.always_iff {Q : σ → ι → Prop} {P : σ → Prop}
    (hstep : ∀ s i, Q s i → P s → (P (step s i) ↔ R s i)) {s : σ}
    {is : List ι} (ha : Along step Q s is) (hs : P s) :
    Always step P s is ↔ Along step R s is := by
  induction is generalizing s with
  | nil => exact (always_nil s).trans (iff_of_true hs trivial)
  | cons i is ih =>
    rw [always_cons, along_cons, ← hstep s i ha.1 hs]
    constructor
    · rintro ⟨-, h⟩
      have hnext : P (step s i) := h 0
      exact ⟨hnext, (ih ha.2 hnext).mp h⟩
    · rintro ⟨hnext, h⟩
      exact ⟨hs, (ih ha.2 hnext).mpr h⟩

/-- `Along.always_iff` for a view of the state that is left alone. -/
theorem Along.always_frame_iff {Q : σ → ι → Prop} {f : σ → τ}
    (hstep : ∀ s i, Q s i → (f (step s i) = f s ↔ R s i)) {s : σ}
    {is : List ι} (ha : Along step Q s is) :
    Always step (fun t => f t = f s) s is ↔ Along step R s is := by
  refine ha.always_iff (fun t i hQ ht => ?_) rfl
  rw [← ht]
  exact hstep t i hQ

/-! ## Progress -/

/-- A run reaches `Q` if every cycle that satisfies `R`, from a state with
the invariant `P`, reaches `Q` or decreases the measure `m`. -/
theorem Along.reaches {P Q : σ → Prop} {m : σ → ℕ}
    (hzero : ∀ s, P s → m s = 0 → Q s)
    (hstep : ∀ s i, R s i → P s →
      Q (step s i) ∨ P (step s i) ∧ m (step s i) < m s)
    {s : σ} {is : List ι} (ha : Along step R s is) (hs : P s)
    (hlen : m s ≤ is.length) :
    ∃ n, n ≤ is.length ∧ Q (run step s (is.take n)) := by
  induction is generalizing s with
  | nil => exact ⟨0, Nat.le_refl 0, hzero s hs (Nat.le_zero.mp hlen)⟩
  | cons i is ih =>
    rcases hstep s i ha.1 hs with hQ | ⟨hP, hlt⟩
    · exact ⟨1, by simp, by simpa using hQ⟩
    · have hle : m (step s i) ≤ is.length := by
        rw [List.length_cons] at hlen
        omega
      obtain ⟨n, hn, hQ⟩ := ih ha.2 hP hle
      refine ⟨n + 1, ?_, ?_⟩
      · rw [List.length_cons]
        omega
      · rw [List.take_succ_cons, run_cons]
        exact hQ

/-- An unbounded run reaches `Q` if every cycle whose inputs satisfy `R`,
from a state with the invariant `P`, reaches `Q` or goes down in `lt`. -/
theorem reaches_of_wellFounded {P Q : σ → Prop} {R : ι → Prop}
    {lt : σ → σ → Prop} (hwf : WellFounded lt)
    (hstep : ∀ s i, R i → P s →
      Q (step s i) ∨ P (step s i) ∧ lt (step s i) s)
    {s : σ} (hs : P s) {js : ℕ → ι} (hjs : ∀ n, R (js n)) :
    ∃ n, Q (run step s ((List.range n).map js)) := by
  induction s using hwf.induction generalizing js with
  | _ s ih =>
    rcases hstep s (js 0) (hjs 0) hs with hQ | ⟨hP, hlt⟩
    · exact ⟨1, hQ⟩
    · obtain ⟨n, hQ⟩ := ih _ hlt hP fun n => hjs (n + 1)
      refine ⟨n + 1, ?_⟩
      rw [List.range_succ_eq_map, List.map_cons, List.map_map, run_cons]
      exact hQ

/-! ## Registers that are loaded -/

/-- What the last cycle that loads something has loaded. -/
def lastLoad (step : σ → ι → σ) (load : σ → ι → Option τ) :
    σ → List ι → Option τ
  | _, [] => none
  | s, i :: is => (lastLoad step load (step s i) is).or (load s i)

/-- A register that keeps its value in the cycles that load nothing holds
what was loaded last. -/
theorem run_register {f : σ → τ} {load : σ → ι → Option τ}
    (hstep : ∀ s i, f (step s i) = (load s i).getD (f s)) (s : σ)
    (is : List ι) :
    f (run step s is) = (lastLoad step load s is).getD (f s) := by
  induction is generalizing s with
  | nil => rfl
  | cons i is ih =>
    rw [run_cons, ih, hstep]
    show _ = ((lastLoad step load (step s i) is).or (load s i)).getD (f s)
    cases lastLoad step load (step s i) is <;> rfl

/-! ## Unbounded runs -/

/-- The state after the first `n` cycles of unbounded inputs. -/
def stateAt (step : σ → ι → σ) (s : σ) (js : ℕ → ι) : ℕ → σ
  | 0 => s
  | n + 1 => step (stateAt step s js n) (js n)

/-- A property kept by every cycle that satisfies `R` holds after every
number of cycles that all satisfy `R`. -/
theorem stateAt_invariant {P : σ → Prop}
    (hstep : ∀ s i, R s i → P s → P (step s i)) {s : σ} {js : ℕ → ι}
    (hR : ∀ n, R (stateAt step s js n) (js n)) (hs : P s) (n : ℕ) :
    P (stateAt step s js n) := by
  induction n with
  | zero => exact hs
  | succ n ih => exact hstep _ _ (hR n) ih

/-- A list that only grows at its end. -/
theorem prefix_of_le {α : Type*} {f : ℕ → List α}
    (h : ∀ n, f n <+: f (n + 1)) {n k : ℕ} (hnk : n ≤ k) : f n <+: f k := by
  obtain ⟨d, rfl⟩ := Nat.exists_eq_add_of_le hnk
  clear hnk
  induction d with
  | zero => exact List.prefix_rfl
  | succ d ih => exact ih.trans (h (n + d))

/-- What never raises its rank before it gets to the goal, and does not stay
at one rank for ever, gets to the goal again and again. -/
theorem eventually_of_rank {goal : ℕ → Prop} (rank : ℕ → ℕ)
    (hle : ∀ n, ¬ goal n → rank (n + 1) ≤ rank n)
    (hstuck : ∀ n, ¬ ∀ k, n ≤ k → ¬ goal k ∧ rank k = rank n) (n : ℕ) :
    ∃ k, n ≤ k ∧ goal k := by
  induction hr : rank n using Nat.strongRecOn generalizing n with
  | ind r ih =>
    by_contra hnot
    have hno : ∀ k, n ≤ k → ¬ goal k := fun k hk hg => hnot ⟨k, hk, hg⟩
    have hdown : ∀ d, rank (n + d) ≤ rank n := by
      intro d
      induction d with
      | zero => exact Nat.le_refl _
      | succ d ihd => exact Nat.le_trans (hle _ (hno _ (Nat.le_add_right n d))) ihd
    apply hstuck n
    intro k hk
    refine ⟨hno k hk, ?_⟩
    have hk' := hdown (k - n)
    rw [Nat.add_sub_cancel' hk] at hk'
    rcases Nat.lt_or_eq_of_le hk' with hlt | heq
    · obtain ⟨j, hj, hg⟩ := ih (rank k) (hr ▸ hlt) k rfl
      exact absurd hg (hno j (Nat.le_trans hk hj))
    · exact heq

/-- A count that, as long as it is below `N`, goes up or leaves the output
`V` valid, and that does not stand still for ever with a valid output, gets
to `N`. -/
theorem eventually_count {S : ℕ → ℕ} {V : ℕ → Bool} {N : ℕ}
    (hstep : ∀ n, S n < N → S n < S (n + 1) ∨
      S (n + 1) = S n ∧ V (n + 1) = true)
    (hstuck : ∀ n, ¬ ∀ k, n ≤ k → S k < N ∧ S k = S n ∧ V k = true)
    (n : ℕ) : ∃ k, n ≤ k ∧ N ≤ S k := by
  refine eventually_of_rank (fun k => 2 * (N - S k) + (!V k).toNat)
    (fun k hk => ?_) (fun k hall => ?_) n
  · have hle := Bool.toNat_le (!V (k + 1))
    rcases hstep k (Nat.lt_of_not_le hk) with hlt | ⟨heq, hv⟩
    · omega
    · rw [heq, hv, Bool.not_true, Bool.toNat_false]
      omega
  · -- a rank that stays says that the count does and the output is valid
    have hbelow : ∀ j, k ≤ j → S j < N := fun j hj =>
      Nat.lt_of_not_le (hall j hj).1
    have hsame : ∀ j, k ≤ j → S (j + 1) = S j ∧ V (j + 1) = true := by
      intro j hj
      have hrank := (hall j hj).2
      have hrank' := (hall (j + 1) (Nat.le_succ_of_le hj)).2
      have hle := Bool.toNat_le (!V (j + 1))
      have hlt := hbelow j hj
      rcases hstep j hlt with hup | hstay
      · omega
      · exact hstay
    have hcount : ∀ d, S (k + 1 + d) = S (k + 1) := by
      intro d
      induction d with
      | zero => rfl
      | succ d ih => exact (hsame (k + 1 + d) (by omega)).1.trans ih
    apply hstuck (k + 1)
    intro j hj
    obtain ⟨d, rfl⟩ := Nat.exists_eq_add_of_le hj
    refine ⟨hbelow _ (by omega), hcount d, ?_⟩
    have hv := (hsame (k + d) (Nat.le_add_right k d)).2
    rwa [Nat.add_right_comm] at hv

/-! ## Two machines with the same inputs -/

section Simulation

variable {ω ε : Type*} {step' : τ → ι → τ} {S : σ → τ → Prop}

/-- What a run puts out, cycle by cycle. -/
def outputs (step : σ → ι → σ) (out : σ → ι → List ω) : σ → List ι → List ω
  | _, [] => []
  | s, i :: is => out s i ++ outputs step out (step s i) is

/-- A machine with more state than the first runs like it. -/
theorem run_view {f : τ → σ} (hstep : ∀ t i, f (step' t i) = step (f t) i)
    (t : τ) (is : List ι) : f (run step' t is) = run step (f t) is := by
  induction is generalizing t with
  | nil => rfl
  | cons i is ih => rw [run_cons, run_cons, ih, hstep]

theorem along_view {f : τ → σ}
    (hstep : ∀ t i, f (step' t i) = step (f t) i) (t : τ) (is : List ι) :
    Along step' (fun t i => R (f t) i) t is ↔ Along step R (f t) is := by
  induction is generalizing t with
  | nil => exact Iff.rfl
  | cons i is ih => rw [along_cons, along_cons, ih, hstep]

theorem always_view {f : τ → σ} {P : σ → Prop}
    (hstep : ∀ t i, f (step' t i) = step (f t) i) (t : τ) (is : List ι) :
    Always step' (fun t => P (f t)) t is ↔ Always step P (f t) is :=
  forall_congr' fun n => by
    show P (f (run step' t (is.take n))) ↔ _
    rw [run_view hstep]

/-- A relation that every cycle keeps holds at the end of a run. -/
theorem Along.run_relates
    (hstep : ∀ s t i, R s i → S s t → S (step s i) (step' t i))
    {s : σ} {t : τ} {is : List ι} (ha : Along step R s is) (hs : S s t) :
    S (run step s is) (run step' t is) := by
  induction is generalizing s t with
  | nil => exact hs
  | cons i is ih => exact ih ha.2 (hstep s t i ha.1 hs)

/-- The second machine logs what the first one puts out. -/
theorem Along.outputs_eq {out : σ → ι → List ω} {f : τ → List ω}
    (hstep : ∀ s t i, R s i → S s t → S (step s i) (step' t i))
    (hlog : ∀ s t i, R s i → S s t → f (step' t i) = f t ++ out s i)
    {s : σ} {t : τ} {is : List ι} (ha : Along step R s is) (hs : S s t) :
    f (run step' t is) = f t ++ outputs step out s is := by
  induction is generalizing s t with
  | nil => exact (List.append_nil _).symm
  | cons i is ih =>
    rw [run_cons, ih ha.2 (hstep s t i ha.1 hs), hlog s t i ha.1 hs,
      List.append_assoc]
    rfl

/-- `Along.outputs_eq` where the condition is one on the machine that
logs. -/
theorem Along.log_eq {out : τ → ι → List ω} {f : σ → List ω}
    (hstep : ∀ s t i, R s i → S s t → S (step s i) (step' t i))
    (hlog : ∀ s t i, R s i → S s t → f (step s i) = f s ++ out t i)
    {s : σ} {t : τ} {is : List ι} (ha : Along step R s is) (hs : S s t) :
    f (run step s is) = f s ++ outputs step' out t is := by
  induction is generalizing s t with
  | nil => exact (List.append_nil _).symm
  | cons i is ih =>
    rw [run_cons, ih ha.2 (hstep s t i ha.1 hs), hlog s t i ha.1 hs,
      List.append_assoc]
    rfl

/-- What a run puts out does not depend on `m` if and only if no cycle
does. -/
theorem outputs_agree_iff {μ : Type*} {out : μ → σ → ι → List ω}
    (hlen : ∀ m m' s i, (out m s i).length = (out m' s i).length) (s : σ)
    (is : List ι) :
    (∀ m m', outputs step (out m) s is = outputs step (out m') s is) ↔
      Along step (fun s i => ∀ m m', out m s i = out m' s i) s is := by
  induction is generalizing s with
  | nil => exact ⟨fun _ => trivial, fun _ _ _ => rfl⟩
  | cons i is ih =>
    rw [along_cons, ← ih]
    constructor
    · intro h
      have hboth := fun m m' => List.append_inj (h m m') (hlen m m' s i)
      exact ⟨fun m m' => (hboth m m').1, fun m m' => (hboth m m').2⟩
    · rintro ⟨hhead, htail⟩ m m'
      show out m s i ++ _ = out m' s i ++ _
      rw [hhead m m', htail m m']

/-- What a cycle that satisfies `R` puts out, the run puts out. -/
theorem Along.forall_outputs {out : σ → ι → List ω} {Q : ω → Prop}
    (h : ∀ s i, R s i → ∀ o ∈ out s i, Q o) {s : σ} {is : List ι}
    (ha : Along step R s is) : ∀ o ∈ outputs step out s is, Q o := by
  induction is generalizing s with
  | nil => exact fun o ho => absurd ho List.not_mem_nil
  | cons i is ih =>
    intro o ho
    rcases List.mem_append.mp ho with ho | ho
    · exact h s i ha.1 o ho
    · exact ih ha.2 o ho

/-- The inputs of a machine whose environment answers to its state. -/
def feed (step : σ → ι → σ) (f : σ → ε → ι) : σ → List ε → List ι
  | _, [] => []
  | s, e :: es => f s e :: feed step f (step s (f s e)) es

theorem along_feed {f : σ → ε → ι} (h : ∀ s e, R s (f s e)) (s : σ)
    (es : List ε) : Along step R s (feed step f s es) := by
  induction es generalizing s with
  | nil => trivial
  | cons e es ih => exact ⟨h s e, ih (step s (f s e))⟩

end Simulation

end Sync
