import Mathlib.Data.List.Basic
import Mathlib.Logic.Function.Basic
import Mathlib.Tactic.Common

/-!
# Instructions in flight over a register file

A machine that retires in order keeps a register file and, in program order,
the instructions in flight.  The registers at a point of the program are
those of the file as the instructions before the point are going to leave
them: a `View`, in which a register has no value yet if its last writer has
none.

* `view` is what a list of instructions makes of a view, and
  `view_of_writer` says who gives a register its value.
* `Explained` says of each instruction in flight that some fact holds at its
  point of the program, as long as the instructions before it are steady,
  that is, are going to retire.
* `Explained.map`, `Explained.concat` and `after_start_le` are the steps of
  such a machine: an instruction gets a result, another one enters, the first
  one retires.

Nothing here names a design.
-/

namespace RegWindow

variable {R V α β : Type*}

/-- The registers at a point of the program, as far as they are known. -/
abbrev View (R V : Type*) := R → Option V

/-- All that `v` knows is known to `v'`. -/
def Le (v v' : View R V) : Prop := ∀ a x, v a = some x → v' a = some x

/-- What the instructions behind it see of an instruction: the register that
it writes and, once it is known, the value. -/
structure Seen (R V : Type*) where
  dest : Option R
  out : Option V

/-- More is known of an instruction. -/
structure Seen.Le (s s' : Seen R V) : Prop where
  dest : s'.dest = s.dest
  out : ∀ x, s.out = some x → s'.out = some x

/-- The registers of a file. -/
def start (g : R → V) : View R V := fun a => some (g a)

section Views

variable [DecidableEq R]

/-- The registers behind an instruction. -/
def after (v : View R V) (s : Seen R V) : View R V :=
  s.dest.elim v fun a => Function.update v a s.out

/-- The registers behind a list of instructions. -/
def view (seen : α → Seen R V) (v : View R V) (l : List α) : View R V :=
  l.foldl (fun v r => after v (seen r)) v

variable {seen : α → Seen R V} {v v' : View R V} {s s' : Seen R V}
  {l : List α} {r : α} {a : R}

theorem after_none (h : s.dest = none) : after v s = v := by
  rw [after, h, Option.elim_none]

theorem after_some (h : s.dest = some a) :
    after v s = Function.update v a s.out := by
  rw [after, h, Option.elim_some]

theorem after_of_ne (h : s.dest ≠ some a) : after v s a = v a := by
  cases hd : s.dest with
  | none => rw [after_none hd]
  | some b =>
    rw [after_some hd]
    exact Function.update_of_ne (fun hab => h (by rw [hd, hab])) _ _

theorem after_mono (hv : Le v v') (hs : s.Le s') :
    Le (after v s) (after v' s') := by
  intro a x h
  cases hd : s.dest with
  | none =>
    rw [after_none hd] at h
    rw [after_none (hs.dest.trans hd)]
    exact hv a x h
  | some b =>
    rw [after_some hd] at h
    rw [after_some (hs.dest.trans hd)]
    by_cases hab : a = b
    · subst hab
      rw [Function.update_self] at h ⊢
      exact hs.out x h
    · rw [Function.update_of_ne hab] at h ⊢
      exact hv a x h

/-- A register that nothing in flight writes. -/
theorem view_of_no_writer (h : ∀ r ∈ l, (seen r).dest ≠ some a) :
    view seen v l a = v a := by
  induction l generalizing v with
  | nil => rfl
  | cons r l ih =>
    refine (ih fun r' hr' => h r' (List.mem_cons_of_mem _ hr')).trans ?_
    exact after_of_ne (h r List.mem_cons_self)

/-- A register whose writers agree on its value. -/
theorem view_of_writer {o : Option V} (hr : r ∈ l)
    (hd : (seen r).dest = some a)
    (hout : ∀ r ∈ l, (seen r).dest = some a → (seen r).out = o) :
    view seen v l a = o := by
  induction l generalizing v r with
  | nil => cases hr
  | cons r' l ih =>
    by_cases hlater : ∃ w ∈ l, (seen w).dest = some a
    · obtain ⟨w, hw, hdw⟩ := hlater
      exact ih hw hdw fun x hx => hout x (List.mem_cons_of_mem _ hx)
    · -- `r` is the first instruction, and the last writer
      rcases List.mem_cons.mp hr with rfl | hr
      · refine (view_of_no_writer fun w hw hdw =>
          hlater ⟨w, hw, hdw⟩).trans ?_
        show after v (seen r) a = o
        rw [after_some hd, Function.update_self]
        exact hout r List.mem_cons_self hd
      · exact absurd ⟨r, hr, hd⟩ hlater

/-- An instruction that has retired wrote what it was seen to write. -/
theorem after_start_le {g : R → V} {x : V}
    (hd : s.dest = some a) (hout : ∀ y, s.out = some y → y = x) :
    Le (after (start g) s) (start (Function.update g a x)) := by
  intro b y h
  rw [after_some hd] at h
  by_cases hab : b = a
  · subst hab
    rw [Function.update_self] at h
    rw [start, Function.update_self, hout y h]
  · rw [Function.update_of_ne hab] at h
    rw [start, Function.update_of_ne hab]
    exact h

end Views

/-! ## What holds at each point of the program -/

section Explained

variable [DecidableEq R] {seen : α → Seen R V} {steady : α → Prop}
  {P : View R V → α → Prop} {seen' : β → Seen R V} {steady' : β → Prop}
  {P' : View R V → β → Prop} {f : α → β} {v v' : View R V} {l : List α}
  {r : α}

/-- The fact `P` holds of each instruction, with the registers at its point
of the program, up to the first one that is not steady. -/
def Explained (seen : α → Seen R V) (steady : α → Prop)
    (P : View R V → α → Prop) : View R V → List α → Prop
  | _, [] => True
  | v, r :: l =>
    P v r ∧ (steady r → Explained seen steady P (after v (seen r)) l)

/-- A fact that stays when more registers are known. -/
def Monotone (P : View R V → α → Prop) : Prop :=
  ∀ v v' r, Le v v' → P v r → P v' r

/-- A step that keeps the order. -/
theorem Explained.map (hP : Monotone P')
    (hsteady : ∀ r ∈ l, steady' (f r) → steady r)
    (hseen : ∀ r ∈ l, (seen r).Le (seen' (f r)))
    (hstep : ∀ v, ∀ r ∈ l, P v r → P' v (f r)) (hv : Le v v')
    (h : Explained seen steady P v l) :
    Explained seen' steady' P' v' (l.map f) := by
  induction l generalizing v v' with
  | nil => trivial
  | cons r l ih =>
    obtain ⟨hr, hl⟩ := h
    refine ⟨hP _ _ _ hv (hstep v r List.mem_cons_self hr), fun hs => ?_⟩
    exact ih (fun w hw => hsteady w (List.mem_cons_of_mem _ hw))
      (fun w hw => hseen w (List.mem_cons_of_mem _ hw))
      (fun v w hw => hstep v w (List.mem_cons_of_mem _ hw))
      (after_mono hv (hseen r List.mem_cons_self))
      (hl (hsteady r List.mem_cons_self hs))

/-- Two facts hold together. -/
theorem Explained.and {Q : View R V → α → Prop}
    (h : Explained seen steady P v l) (h' : Explained seen steady Q v l) :
    Explained seen steady (fun v r => P v r ∧ Q v r) v l := by
  induction l generalizing v with
  | nil => trivial
  | cons r l ih =>
    exact ⟨⟨h.1, h'.1⟩, fun hs => ih (h.2 hs) (h'.2 hs)⟩

/-- More registers are known at the start. -/
theorem Explained.mono (hP : Monotone P) (hv : Le v v')
    (h : Explained seen steady P v l) : Explained seen steady P v' l := by
  have hmap := h.map (f := id) hP (fun _ _ hs => hs)
    (fun _ _ => ⟨rfl, fun _ hx => hx⟩) (fun _ _ _ hr => hr) hv
  rwa [List.map_id] at hmap

/-- An instruction enters. -/
theorem Explained.concat (h : Explained seen steady P v l)
    (hr : (∀ w ∈ l, steady w) → P (view seen v l) r) :
    Explained seen steady P v (l ++ [r]) := by
  induction l generalizing v with
  | nil => exact ⟨hr fun w hw => absurd hw List.not_mem_nil, fun _ => trivial⟩
  | cons w l ih =>
    refine ⟨h.1, fun hs => ih (h.2 hs) fun hall => hr fun w' hw' => ?_⟩
    rcases List.mem_cons.mp hw' with rfl | hw'
    · exact hs
    · exact hall w' hw'

end Explained

/-- The instructions change the file one after the other, each as `S` says. -/
def Steps (S : α → (R → V) → (R → V) → Prop) :
    List α → (R → V) → (R → V) → Prop
  | [], g, g' => g' = g
  | r :: l, g, g'' => ∃ g', S r g g' ∧ Steps S l g' g''

end RegWindow
