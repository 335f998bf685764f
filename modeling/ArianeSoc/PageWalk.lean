import Mathlib.Data.List.Basic
import Mathlib.Tactic.Common

/-!
# Walks through a radix tree and what may be kept of them

`walk` follows a list of indices through tables until it finds a leaf: `π`
are the tables, `ν` the indices and `ε` the entries.  `kind` says what an
entry is at the level at which it is found, the number of indices that are
left.

A `Cached` leaf remembers a tag, the level and the entry.  It is used for
every list of indices that agrees with the tag above the level (`Hits`), and
it is `Sound` if the walk of its own tag finds it.

* `walk_rest`: the indices below the leaf are the last ones.
* `walk_congr`: the walk depends on the indices above the leaf only.
* `Sound.walk`: what a sound leaf is used for is what the walk finds.
* `Sound.hits_of_common`: two sound leaves that are used for one list are
  used for the same lists.

Nothing here names a design.
-/

namespace PageWalk

/-- What a walk makes of an entry. -/
inductive Kind (π : Type*)
  | fault
  | pointer (next : π)
  | leaf

variable {π ν ε : Type*} (entry : π → ν → ε) (kind : ε → Nat → Kind π)

/-- The leaf and the indices below it. -/
def walk (p : π) : List ν → Option (ε × List ν)
  | [] => none
  | v :: vs =>
    match kind (entry p v) vs.length with
    | .fault => none
    | .pointer next => walk next vs
    | .leaf => some (entry p v, vs)

/-- A leaf that is kept. -/
structure Cached (ν ε : Type*) where
  tag : List ν
  level : Nat
  entry : ε

/-- The indices agree with the tag above the level. -/
def Cached.Hits (c : Cached ν ε) (vs : List ν) : Prop :=
  vs.length = c.tag.length ∧
    vs.take (c.tag.length - c.level) = c.tag.take (c.tag.length - c.level)

/-- The walk of the tag finds the leaf at its level. -/
def Cached.Sound (p : π) (c : Cached ν ε) : Prop :=
  ∃ rest, walk entry kind p c.tag = some (c.entry, rest) ∧
    rest.length = c.level

variable {entry kind} {p : π} {e : ε} {v : ν} {vs vs' rest : List ν}
  {c c' : Cached ν ε}

/-! ## The walk -/

theorem walk_pointer {next : π}
    (h : kind (entry p v) vs.length = .pointer next) :
    walk entry kind p (v :: vs) = walk entry kind next vs := by
  rw [walk, h]

theorem walk_leaf (h : kind (entry p v) vs.length = .leaf) :
    walk entry kind p (v :: vs) = some (entry p v, vs) := by
  rw [walk, h]

/-- The indices below the leaf are a proper tail. -/
theorem length_lt_of_walk (h : walk entry kind p vs = some (e, rest)) :
    rest.length < vs.length := by
  induction vs generalizing p with
  | nil => simp [walk] at h
  | cons v vs ih =>
    rw [walk] at h
    rw [List.length_cons]
    split at h
    · simp at h
    · have hlt := ih h
      omega
    · obtain ⟨-, rfl⟩ := Prod.mk.inj (Option.some.inj h)
      omega

/-- The indices below the leaf are the last ones. -/
theorem walk_rest (h : walk entry kind p vs = some (e, rest)) :
    rest = vs.drop (vs.length - rest.length) := by
  induction vs generalizing p with
  | nil => simp [walk] at h
  | cons v vs ih =>
    have hlt := length_lt_of_walk h
    rw [List.length_cons] at hlt ⊢
    rw [show vs.length + 1 - rest.length = vs.length - rest.length + 1 by omega,
      List.drop_succ_cons]
    rw [walk] at h
    split at h
    · simp at h
    · exact ih h
    · obtain ⟨-, rfl⟩ := Prod.mk.inj (Option.some.inj h)
      simp

/-- The walk depends on the indices above the leaf only. -/
theorem walk_congr (h : walk entry kind p vs = some (e, rest))
    (hlen : vs'.length = vs.length)
    (htake : vs'.take (vs.length - rest.length) =
      vs.take (vs.length - rest.length)) :
    ∃ rest', walk entry kind p vs' = some (e, rest') ∧
      rest'.length = rest.length := by
  induction vs generalizing p vs' with
  | nil => simp [walk] at h
  | cons v vs ih =>
    obtain ⟨v', vs', rfl⟩ : ∃ a l, vs' = a :: l := by
      cases vs' with
      | nil => simp at hlen
      | cons a l => exact ⟨a, l, rfl⟩
    have hlt := length_lt_of_walk h
    simp only [List.length_cons] at hlen hlt htake
    obtain ⟨k, hk⟩ : ∃ k, vs.length + 1 - rest.length = k + 1 :=
      ⟨vs.length - rest.length, by omega⟩
    rw [hk, List.take_succ_cons, List.take_succ_cons] at htake
    obtain ⟨rfl, htail⟩ := List.cons_eq_cons.mp htake
    have hlen' : vs'.length = vs.length := by omega
    rw [walk] at h ⊢
    rw [hlen']
    split at h
    · simp at h
    · have hrest := length_lt_of_walk h
      refine ih h hlen' ?_
      have hk' : vs.length - rest.length = k := by omega
      rw [hk']
      exact htail
    · obtain ⟨rfl, rfl⟩ := Prod.mk.inj (Option.some.inj h)
      exact ⟨vs', rfl, hlen'⟩

/-! ## Leaves that are kept -/

namespace Cached

/-- A sound leaf is what the walk finds for every list that it is used
for. -/
theorem Sound.walk (h : c.Sound entry kind p) (hv : c.Hits vs) :
    ∃ rest, PageWalk.walk entry kind p vs = some (c.entry, rest) ∧
      rest.length = c.level := by
  obtain ⟨rest, hwalk, hlen⟩ := h
  obtain ⟨rest', hwalk', hlen'⟩ :=
    walk_congr hwalk hv.1 (by rw [hlen]; exact hv.2)
  exact ⟨rest', hwalk', hlen'.trans hlen⟩

/-- Two sound leaves that are used for one list have the same level. -/
theorem Sound.level_eq (h : c.Sound entry kind p)
    (h' : c'.Sound entry kind p) (hv : c.Hits vs) (hv' : c'.Hits vs) :
    c.level = c'.level := by
  obtain ⟨rest, hwalk, hlen⟩ := h.walk hv
  obtain ⟨rest', hwalk', hlen'⟩ := h'.walk hv'
  obtain ⟨-, rfl⟩ := Prod.mk.inj
    (Option.some.inj (hwalk.symm.trans hwalk'))
  exact hlen.symm.trans hlen'

/-- Two sound leaves that are used for one list are used for the same
lists. -/
theorem Sound.hits_of_common (h : c.Sound entry kind p)
    (h' : c'.Sound entry kind p) (hv : c.Hits vs) (hv' : c'.Hits vs)
    (hx : c'.Hits vs') : c.Hits vs' := by
  have hlevel := h.level_eq h' hv hv'
  have htag : c'.tag.length = c.tag.length := hv'.1.symm.trans hv.1
  refine ⟨hx.1.trans htag, ?_⟩
  have htake := hx.2.trans hv'.2.symm
  rw [htag, ← hlevel] at htake
  exact htake.trans hv.2

end Cached

end PageWalk
