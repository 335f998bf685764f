import Mathlib.Data.List.Nodup
import Mathlib.Data.Nat.Notation
import Mathlib.Logic.Function.Basic
import Mathlib.Tactic.Common

/-!
# Loops

A store is a function of its keys.  A loop over `l` writes `val i` at
`key i` in the turn of `i`; what the store holds afterwards is read off the
list (`writes_of_mem`, `writes_of_notMem`).

`upto body stop stride` is `for (; a < stop; a += stride) body`.  The body
may stop the program (`none`), and so does running out of fuel, which
stands for a loop without an end.  Both the bound and the counter are words
that may wrap.

* `upto_invariant` needs nothing about the bounds.
* Where the counter does not wrap, the loop is `turns`, its turns one after
  the other (`upto_eq_turns`), and an invariant may depend on the number of
  the turn: `turns_invariant`, and `turns_exists` for a loop whose turns all
  succeed.

Nothing here names a program.
-/

namespace Loop

variable {ι κ β : Type*} [DecidableEq κ] {key : ι → κ} {val : ι → β}

/-- The store after the turns of `l`. -/
def writes (key : ι → κ) (val : ι → β) (l : List ι) (f : κ → β) : κ → β :=
  l.foldl (fun f i => Function.update f (key i) (val i)) f

@[simp] theorem writes_nil (f : κ → β) : writes key val [] f = f := rfl

@[simp] theorem writes_cons (i : ι) (l : List ι) (f : κ → β) :
    writes key val (i :: l) f =
      writes key val l (Function.update f (key i) (val i)) := rfl

/-- What no turn writes stays. -/
theorem writes_of_notMem {l : List ι} {k : κ} (h : k ∉ l.map key)
    (f : κ → β) : writes key val l f k = f k := by
  induction l generalizing f with
  | nil => rfl
  | cons i l ih =>
    rw [List.map_cons, List.mem_cons, not_or] at h
    rw [writes_cons, ih h.2, Function.update_of_ne h.1]

/-- What one turn writes is there after the loop, if the keys differ. -/
theorem writes_of_mem {l : List ι} (hl : (l.map key).Nodup) {i : ι}
    (hi : i ∈ l) (f : κ → β) : writes key val l f (key i) = val i := by
  induction l generalizing f with
  | nil => exact absurd hi List.not_mem_nil
  | cons j l ih =>
    rw [List.map_cons, List.nodup_cons] at hl
    rw [writes_cons]
    rcases List.mem_cons.mp hi with rfl | hi
    · rw [writes_of_notMem hl.1, Function.update_self]
    · exact ih hl.2 hi _

end Loop

/-! ## Loops that count a machine word up -/

namespace ForLoop

variable {σ : Type*} {w : ℕ}

/-- The loop from `a` on. -/
def upto (body : σ → BitVec w → Option σ) (stop stride : BitVec w) :
    ℕ → BitVec w → σ → Option σ
  | 0, _, _ => none
  | n + 1, a, s =>
    if a < stop then
      (body s a).bind (upto body stop stride n (a + stride))
    else some s

/-- The turns `0` to `m - 1`. -/
def turns (f : ℕ → σ → Option σ) : ℕ → σ → Option σ
  | 0, s => some s
  | m + 1, s => (turns f m s).bind (f m)

/-! ## Any bounds -/

theorem upto_invariant {body : σ → BitVec w → Option σ}
    {stop stride : BitVec w} {P : σ → Prop}
    (hbody : ∀ s a s', P s → body s a = some s' → P s') {n : ℕ}
    {a : BitVec w} {s s' : σ} (hs : P s)
    (h : upto body stop stride n a s = some s') : P s' := by
  induction n generalizing a s with
  | zero => cases h
  | succ n ih =>
    unfold upto at h
    split_ifs at h
    · obtain ⟨t, ht, h⟩ := Option.bind_eq_some_iff.mp h
      exact ih (hbody s a t hs ht) h
    · cases Option.some.inj h
      exact hs

/-! ## Counters that do not wrap -/

theorem turns_succ_left (f : ℕ → σ → Option σ) (m : ℕ) (s : σ) :
    turns f (m + 1) s = (f 0 s).bind (turns (fun i => f (i + 1)) m) := by
  induction m with
  | zero =>
    show f 0 s = (f 0 s).bind some
    cases f 0 s <;> rfl
  | succ m ih =>
    show (turns f (m + 1) s).bind (f (m + 1)) = _
    rw [ih, Option.bind_assoc]
    rfl

/-- The word that the counter is in turn `i`. -/
def counter (a stride : BitVec w) (i : ℕ) : BitVec w :=
  a + BitVec.ofNat w i * stride

theorem counter_zero (a stride : BitVec w) : counter a stride 0 = a := by
  unfold counter
  rw [show BitVec.ofNat w 0 = 0#w from rfl, BitVec.zero_mul,
    BitVec.add_zero]

theorem counter_succ (a stride : BitVec w) (i : ℕ) :
    counter (a + stride) stride i = counter a stride (i + 1) := by
  unfold counter
  rw [BitVec.ofNat_add, BitVec.add_mul, BitVec.add_assoc,
    BitVec.add_comm stride, show BitVec.ofNat w 1 * stride = stride from
      BitVec.one_mul stride]

theorem upto_eq_turns {body : σ → BitVec w → Option σ}
    {stop stride a : BitVec w} {m n : ℕ}
    (hlt : ∀ i < m, counter a stride i < stop)
    (hstop : ¬ counter a stride m < stop) (hn : m < n) (s : σ) :
    upto body stop stride n a s =
      turns (fun i s => body s (counter a stride i)) m s := by
  induction m generalizing a n s with
  | zero =>
    obtain ⟨n, rfl⟩ := Nat.exists_eq_succ_of_ne_zero (by omega : n ≠ 0)
    rw [counter_zero] at hstop
    unfold upto
    rw [if_neg hstop]
    rfl
  | succ m ih =>
    obtain ⟨n, rfl⟩ := Nat.exists_eq_succ_of_ne_zero (by omega : n ≠ 0)
    have hfirst := hlt 0 (by omega)
    rw [counter_zero] at hfirst
    have hrest := fun s => ih (a := a + stride) (n := n) (s := s)
      (fun i hi => by rw [counter_succ]; exact hlt (i + 1) (by omega))
      (by rwa [counter_succ]) (by omega)
    unfold upto
    rw [if_pos hfirst, turns_succ_left, counter_zero, funext hrest]
    simp only [counter_succ]

theorem turns_congr {f g : ℕ → σ → Option σ} {m : ℕ} {s : σ}
    (h : ∀ i < m, ∀ s, f i s = g i s) : turns f m s = turns g m s := by
  induction m with
  | zero => rfl
  | succ m ih =>
    show (turns f m s).bind (f m) = (turns g m s).bind (g m)
    rw [ih fun i hi => h i (by omega), funext (h m (by omega))]

theorem turns_invariant {f : ℕ → σ → Option σ} {P : ℕ → σ → Prop} {m : ℕ}
    {s s' : σ} (hs : P 0 s)
    (hstep : ∀ i < m, ∀ s s', P i s → f i s = some s' → P (i + 1) s')
    (h : turns f m s = some s') : P m s' := by
  induction m generalizing s' with
  | zero =>
    cases Option.some.inj h
    exact hs
  | succ m ih =>
    obtain ⟨t, ht, h⟩ := Option.bind_eq_some_iff.mp h
    have hm := ih (fun i hi => hstep i (by omega)) ht
    exact hstep m (by omega) t s' hm h

theorem turns_exists {f : ℕ → σ → Option σ} {P : ℕ → σ → Prop} {m : ℕ}
    {s : σ} (hs : P 0 s)
    (hstep : ∀ i < m, ∀ s, P i s → ∃ s', f i s = some s' ∧ P (i + 1) s') :
    ∃ s', turns f m s = some s' ∧ P m s' := by
  induction m with
  | zero => exact ⟨s, rfl, hs⟩
  | succ m ih =>
    obtain ⟨t, ht, hm⟩ := ih fun i hi => hstep i (by omega)
    obtain ⟨s', hs', hP⟩ := hstep m (by omega) t hm
    refine ⟨s', ?_, hP⟩
    unfold turns
    rw [ht, Option.bind_some, hs']

end ForLoop
