import Mathlib.Data.List.Perm.Basic
import Mathlib.Tactic.Common

/-!
# Jobs that are answered once

A `Ledger` watches a component that takes jobs and answers them.  A job is
owed from the cycle in which it is taken until an answer that is its own
(`own`) settles it or a drop takes all owed jobs away.  An answer that is no
owed job's own is stray.

* `balanced_step`: the jobs taken are the jobs settled, dropped and owed,
  each as often as it was taken.
* `own_step`: every job settled got its own answer.
* `stray_step`, `owed_step_none` and `owed_step_some`: what a cycle does to
  the stray answers and to the owed jobs.

Nothing here names a design.
-/

structure Ledger (α β : Type*) where
  taken : List α
  settled : List (α × β)
  dropped : List α
  owed : List α
  stray : List β

namespace Ledger

variable {α β : Type*} [DecidableEq α] (own : α → β → Bool)

def empty : Ledger α β := ⟨[], [], [], [], []⟩

variable (l : Ledger α β) (new : List α) (answer : Option β) (drop : Bool)

/-- The job that the answer settles. -/
def served : Option α :=
  answer.bind fun b => (l.owed ++ new).find? (own · b)

/-- The jobs that are owed after the answer. -/
def remaining : List α :=
  (served own l new answer).elim (l.owed ++ new) (l.owed ++ new).erase

/-- A cycle that takes the jobs `new`, gives an answer and drops what is
then owed. -/
def step : Ledger α β where
  taken := l.taken ++ new
  settled := l.settled ++
    ((served own l new answer).bind fun a => answer.map (a, ·)).toList
  dropped := l.dropped ++ if drop then remaining own l new answer else []
  owed := if drop then [] else remaining own l new answer
  stray := l.stray ++
    if (served own l new answer).isNone then answer.toList else []

variable {own l new answer drop}

/-- The jobs taken are the jobs settled, dropped and owed. -/
def Balanced (l : Ledger α β) : Prop :=
  l.taken.Perm (l.settled.map Prod.fst ++ l.dropped ++ l.owed)

/-- Every job settled got its own answer. -/
def Own (own : α → β → Bool) (l : Ledger α β) : Prop :=
  ∀ p ∈ l.settled, own p.1 p.2 = true

omit [DecidableEq α] in
theorem served_eq_some {a : α} (h : served own l new answer = some a) :
    a ∈ l.owed ++ new ∧ ∃ b, answer = some b ∧ own a b = true := by
  unfold served at h
  obtain ⟨b, hb, ha⟩ := Option.bind_eq_some_iff.mp h
  refine ⟨List.mem_of_find?_eq_some ha, b, hb, ?_⟩
  simpa using List.find?_some ha

omit [DecidableEq α] in
theorem balanced_empty : Balanced (empty : Ledger α β) := List.Perm.nil

theorem balanced_step (h : Balanced l) :
    Balanced (step own l new answer drop) := by
  have hsplit : (l.owed ++ new).Perm
      ((((served own l new answer).bind
        fun a => answer.map (a, ·)).toList.map Prod.fst) ++
          remaining own l new answer) := by
    unfold remaining
    cases hs : served own l new answer with
    | none => exact List.Perm.refl _
    | some a =>
      obtain ⟨hmem, b, hb, -⟩ := served_eq_some hs
      simpa [hb] using List.perm_cons_erase hmem
  have hrest : ∀ r : List α, ((if drop then r else []) ++
      if drop then [] else r) = r := by
    intro r
    cases drop <;> simp
  refine List.perm_iff_count.mpr fun a => ?_
  have hold := List.perm_iff_count.mp h a
  have hnew := List.perm_iff_count.mp hsplit a
  have hdrop := congrArg (List.count a) (hrest (remaining own l new answer))
  show (l.taken ++ new).count a =
    (((l.settled ++ _).map Prod.fst ++ (l.dropped ++ _)) ++
      if drop then [] else remaining own l new answer).count a
  rw [List.map_append]
  simp only [List.count_append] at hold hnew hdrop ⊢
  omega

theorem own_step (h : Own own l) : Own own (step own l new answer drop) := by
  intro p hp
  rcases List.mem_append.mp hp with hp | hp
  · exact h p hp
  · rw [Option.mem_toList] at hp
    obtain ⟨a, ha, hp⟩ := Option.bind_eq_some_iff.mp hp
    obtain ⟨-, b, hb, hown⟩ := served_eq_some ha
    rw [hb] at hp
    obtain rfl := Option.some.inj hp
    exact hown

/-- An answer that is an owed or a new job's own is not stray. -/
theorem stray_step (h : ∀ b, answer = some b →
      ∃ a ∈ l.owed ++ new, own a b = true) :
    (step own l new answer drop).stray = l.stray := by
  show l.stray ++ _ = l.stray
  cases answer with
  | none => simp
  | some b =>
    obtain ⟨a, ha, hown⟩ := h b rfl
    have hs : (served own l new (some b)).isNone = false := by
      simp only [served, Option.bind_some, Option.isNone_eq_false_iff,
        List.find?_isSome]
      exact ⟨a, ha, hown⟩
    simp [hs]

/-- Without an answer the new jobs are owed as well. -/
theorem owed_step_none :
    (step own l new none drop).owed = if drop then [] else l.owed ++ new :=
  rfl

/-- An answer that is one job's own settles it. -/
theorem owed_step_some {a : α} {b : β} (ha : a ∈ l.owed ++ new)
    (hown : own a b = true) (huniq : ∀ a', own a' b = true → a' = a) :
    (step own l new (some b) drop).owed =
      if drop then [] else (l.owed ++ new).erase a := by
  have hs : served own l new (some b) = some a := by
    have hfound : ((l.owed ++ new).find? (own · b)).isSome = true := by
      rw [List.find?_isSome]
      exact ⟨a, ha, hown⟩
    obtain ⟨a', ha'⟩ := Option.isSome_iff_exists.mp hfound
    have heq : a' = a := huniq a' (by simpa using List.find?_some ha')
    rw [← heq]
    exact ha'
  show (if drop then [] else remaining own l new (some b)) = _
  rw [remaining, hs]
  rfl

end Ledger
