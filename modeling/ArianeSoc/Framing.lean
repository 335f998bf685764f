import Mathlib.Data.List.Induction
import Mathlib.Tactic.Common

/-!
# Packets in a stream of flits

A packet is a header and the flits behind it; the header `h` says with
`len h` how many they are.  `packets` cuts a stream into packets, the last
of which may still lack flits, and `Whole` says that none does.

A stream that grows at its end is cut by `packets_append`, which leaves the
packets of a whole prefix alone, and `packets_of_le` for the packet that is
not whole yet.  `progress` reads it flit by flit.  `Merges` says of one list
that it has the members of others, each in its own order, and grows at the
end as well.  Nothing here names a network.
-/

namespace Framing

variable {α : Type*} (len : α → ℕ)

/-- The first `n` flits and the packets behind them. -/
def cut : ℕ → List α → List α × List (List α)
  | _, [] => ([], [])
  | 0, h :: xs => ([], (h :: (cut (len h) xs).1) :: (cut (len h) xs).2)
  | n + 1, x :: xs => (x :: (cut n xs).1, (cut n xs).2)

/-- The packets of a stream. -/
def packets (xs : List α) : List (List α) := (cut len 0 xs).2

/-- The last packet of the stream has all its flits. -/
inductive Whole : List α → Prop
  | nil : Whole []
  | cons {h : α} {ps xs : List α} (hps : ps.length = len h)
      (hxs : Whole xs) : Whole (h :: (ps ++ xs))

variable {len}

theorem cut_eq (n : ℕ) (xs : List α) :
    cut len n xs = (xs.take n, packets len (xs.drop n)) := by
  induction xs generalizing n with
  | nil => simp [cut, packets]
  | cons x xs ih =>
    cases n with
    | zero => rfl
    | succ n =>
      rw [cut, ih n]
      rfl

@[simp] theorem packets_nil : packets len [] = [] := rfl

theorem packets_cons (h : α) (xs : List α) :
    packets len (h :: xs) =
      (h :: xs.take (len h)) :: packets len (xs.drop (len h)) := by
  rw [packets, cut, cut_eq]

/-- A header and not more flits than it says are one packet. -/
theorem packets_of_le {h : α} {ps : List α} (hle : ps.length ≤ len h) :
    packets len (h :: ps) = [h :: ps] := by
  rw [packets_cons, List.take_of_length_le hle, List.drop_of_length_le hle,
    packets_nil]

/-- What follows a whole stream starts with a header. -/
theorem packets_append {xs : List α} (hw : Whole len xs) (ys : List α) :
    packets len (xs ++ ys) = packets len xs ++ packets len ys := by
  induction hw with
  | nil => rfl
  | @cons h ps xs hps _ ih =>
    rw [List.cons_append, List.append_assoc, packets_cons, packets_cons,
      ← hps, List.take_left, List.drop_left, List.take_left, List.drop_left,
      ih]
    rfl

theorem Whole.append {xs ys : List α} (hxs : Whole len xs)
    (hys : Whole len ys) : Whole len (xs ++ ys) := by
  induction hxs with
  | nil => exact hys
  | cons hps _ ih =>
    rw [List.cons_append, List.append_assoc]
    exact .cons hps ih

/-- What is behind a whole stream in a whole one is whole. -/
theorem Whole.of_append {xs ys : List α} (hxs : Whole len xs)
    (h : Whole len (xs ++ ys)) : Whole len ys := by
  induction hxs with
  | nil => exact h
  | @cons b ps xs hps _ ih =>
    apply ih
    rw [List.cons_append, List.append_assoc] at h
    generalize hzs : b :: (ps ++ (xs ++ ys)) = zs at h
    cases h with
    | nil => exact absurd hzs (List.cons_ne_nil _ _)
    | @cons b' ps' xs' hps' hxs' =>
      obtain ⟨rfl, hcut⟩ := List.cons.inj hzs
      rw [(List.append_inj hcut (hps.trans hps'.symm)).2]
      exact hxs'

/-- A header alone is whole if no flit is behind it. -/
theorem Whole.singleton {b : α} (h : Whole len [b]) : len b = 0 := by
  generalize hzs : [b] = zs at h
  cases h with
  | nil => exact absurd hzs (List.cons_ne_nil _ _)
  | @cons b' ps xs hps _ =>
    obtain ⟨rfl, hnil⟩ := List.cons.inj hzs
    rw [← hps, (List.append_eq_nil_iff.mp hnil.symm).1, List.length_nil]

theorem Whole.packet {h : α} {ps : List α} (hps : ps.length = len h) :
    Whole len (h :: ps) := by
  simpa using Whole.cons hps .nil

/-! ## A stream that grows -/

/-- The whole packets of a stream, and what has come of the next one. -/
structure Progress (α : Type*) where
  done : List (List α)
  rest : List α

variable (len) in
/-- One more flit. -/
def Progress.feed (p : Progress α) (x : α) : Progress α :=
  if (p.rest ++ [x]).head?.elim 0 len < (p.rest ++ [x]).length then
    ⟨p.done ++ [p.rest ++ [x]], []⟩
  else ⟨p.done, p.rest ++ [x]⟩

variable (len) in
/-- The progress of a stream. -/
def progress (xs : List α) : Progress α :=
  xs.foldl (Progress.feed len) ⟨[], []⟩

@[simp] theorem progress_nil : progress len [] = ⟨[], []⟩ := rfl

theorem progress_snoc (xs : List α) (x : α) :
    progress len (xs ++ [x]) = (progress len xs).feed len x := by
  rw [progress, List.foldl_append]
  rfl

/-- A flit of a packet that has begun. -/
theorem feed_cons {p : Progress α} {h : α} {ps : List α}
    (hp : p.rest = h :: ps) (x : α) :
    p.feed len x =
      if len h ≤ ps.length + 1 then ⟨p.done ++ [h :: (ps ++ [x])], []⟩
      else ⟨p.done, h :: (ps ++ [x])⟩ := by
  simp [Progress.feed, hp, Nat.lt_succ_iff]

/-- A header. -/
theorem feed_header {p : Progress α} (hp : p.rest = []) (x : α) :
    p.feed len x =
      if len x = 0 then ⟨p.done ++ [[x]], []⟩ else ⟨p.done, [x]⟩ := by
  simp [Progress.feed, hp, Nat.lt_one_iff]

/-- The flit ends a packet. -/
theorem feed_done {p : Progress α} {x : α} (h : (p.feed len x).rest = []) :
    (p.feed len x).done = p.done ++ [p.rest ++ [x]] := by
  unfold Progress.feed at h ⊢
  split_ifs at h ⊢ with hlt
  · rfl
  · exact absurd h (List.append_ne_nil_of_right_ne_nil _ (by simp))

/-- The flit does not end a packet. -/
theorem feed_open {p : Progress α} {x : α} (h : (p.feed len x).rest ≠ []) :
    p.feed len x = ⟨p.done, p.rest ++ [x]⟩ := by
  unfold Progress.feed at h ⊢
  split_ifs at h ⊢ with hlt
  · exact absurd rfl h
  · rfl

/-- What has come of a packet does not depend on the packets before. -/
theorem feed_rest_congr {p p' : Progress α} (h : p.rest = p'.rest) (x : α) :
    (p.feed len x).rest = (p'.feed len x).rest := by
  unfold Progress.feed
  rw [h]
  split_ifs <;> rfl

/-- The next flit of a packet. -/
theorem feed_packet {h : α} {ps : List α} (hps : ps.length = len h) {k : ℕ}
    {x : α} (hx : (h :: ps)[k]? = some x) (pks : List (List α)) :
    Progress.feed len ⟨pks, (h :: ps).take k⟩ x =
      if k = len h then ⟨pks ++ [h :: ps], []⟩
      else ⟨pks, (h :: ps).take (k + 1)⟩ := by
  have hk := (List.getElem?_eq_some_iff.mp hx).1
  have htake : (h :: ps).take k ++ [x] = (h :: ps).take (k + 1) := by
    rw [List.take_add_one, hx, Option.toList_some]
  have hlen : ((h :: ps).take (k + 1)).length = k + 1 :=
    List.length_take_of_le hk
  rw [List.length_cons] at hk
  unfold Progress.feed
  rw [htake, hlen]
  show (if len h < k + 1 then _ else _) = _
  by_cases heq : k = len h
  · have hall : (h :: ps).take (k + 1) = h :: ps := by
      rw [List.take_succ_cons, List.take_of_length_le (by omega)]
    rw [if_pos (by omega), if_pos heq, hall]
  · rw [if_neg (by omega), if_neg heq]

/-- What the progress says of the stream. -/
structure Parsed (len : α → ℕ) (xs : List α) (p : Progress α) : Prop where
  flatten : xs = p.done.flatten ++ p.rest
  whole : ∀ pk ∈ p.done, ∃ h ps, pk = h :: ps ∧ ps.length = len h
  open_lt : ∀ h ps, p.rest = h :: ps → ps.length < len h

variable (len) in
theorem parsed (xs : List α) : Parsed len xs (progress len xs) := by
  induction xs using List.reverseRecOn with
  | nil => exact ⟨rfl, by simp, by simp⟩
  | append_singleton xs x ih =>
    rw [progress_snoc]
    generalize progress len xs = p at ih ⊢
    cases hr : p.rest with
    | nil =>
      have hflat := ih.flatten
      rw [hr, List.append_nil] at hflat
      rw [feed_header hr]
      split_ifs with hz
      · refine ⟨by simp [hflat], fun pk hpk => ?_, by simp⟩
        rcases List.mem_append.mp hpk with hpk | hpk
        · exact ih.whole pk hpk
        · exact ⟨x, [], List.mem_singleton.mp hpk, hz.symm⟩
      · refine ⟨by simp [hflat], ih.whole, fun h ps heq => ?_⟩
        obtain ⟨rfl, rfl⟩ := List.cons.inj heq
        exact Nat.pos_of_ne_zero hz
    | cons h ps =>
      have hflat := ih.flatten
      have hlt := ih.open_lt h ps hr
      rw [hr] at hflat
      rw [feed_cons hr]
      split_ifs with hle
      · refine ⟨by simp [hflat], fun pk hpk => ?_, by simp⟩
        rcases List.mem_append.mp hpk with hpk | hpk
        · exact ih.whole pk hpk
        · refine ⟨h, ps ++ [x], List.mem_singleton.mp hpk, ?_⟩
          rw [List.length_append, List.length_singleton]
          omega
      · refine ⟨by simp [hflat], ih.whole, fun h' ps' heq => ?_⟩
        obtain ⟨rfl, rfl⟩ := List.cons.inj heq
        rw [List.length_append, List.length_singleton]
        omega

/-! ## Several streams in one -/

section Merges

variable {ι β : Type*} [DecidableEq ι]

/-- `out` consists of the members of all `src i`, and those of each `src i`
are in order. -/
def Merges (src : ι → List β) (out : List β) : Prop :=
  ∃ tagged : List (ι × β), out = tagged.map Prod.snd ∧
    ∀ i, src i = (tagged.filter fun x => x.1 = i).map Prod.snd

theorem Merges.nil : Merges (fun _ : ι => ([] : List β)) [] :=
  ⟨[], rfl, fun _ => rfl⟩

theorem Merges.exists_mem {src : ι → List β} {out : List β}
    (h : Merges src out) {b : β} (hb : b ∈ out) : ∃ i, b ∈ src i := by
  obtain ⟨tagged, rfl, hsrc⟩ := h
  obtain ⟨⟨i, b⟩, hmem, rfl⟩ := List.mem_map.mp hb
  refine ⟨i, ?_⟩
  rw [hsrc i]
  exact List.mem_map_of_mem (List.mem_filter.mpr ⟨hmem, by simp⟩)

/-- The next member of one list is the next of the merged one. -/
theorem Merges.snoc {src src' : ι → List β} {out : List β}
    (h : Merges src out) {i : ι} (b : β) (hi : src' i = src i ++ [b])
    (hother : ∀ j, j ≠ i → src' j = src j) : Merges src' (out ++ [b]) := by
  obtain ⟨tagged, rfl, hsrc⟩ := h
  refine ⟨tagged ++ [(i, b)], by simp, fun j => ?_⟩
  rw [List.filter_append, List.map_append, ← hsrc j]
  by_cases hj : i = j
  · subst hj
    simp [hi]
  · simp [hother j (Ne.symm hj), hj]

end Merges

end Framing
