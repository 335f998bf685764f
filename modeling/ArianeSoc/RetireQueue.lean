import Mathlib.Data.List.Perm.Basic
import Mathlib.Data.List.Range
import Mathlib.Tactic.Common

/-!
# A queue that retires in order

What a reorder buffer is for, without its array: instructions enter at the
end of a queue, receive effects while they are in flight, and leave at the
front.  A flush drops all that are in flight.

An instruction is known by its serial number, its place among all that were
issued; in flight it goes by a name of type `N`, which may be reused.  `E`
is what is issued and `W` an effect.  `Lawful` says that the committed
instructions are in order, and that every issued one is committed, flushed
or in flight, and only once.

Nothing here names a design.
-/

namespace RetireQueue

variable {N E W : Type*}

/-- An issued instruction with the effects it has received. -/
structure Rec (N E W : Type*) where
  serial : ℕ
  name : N
  entry : E
  effects : List W

/-- All that was issued, and where it is. -/
structure Queue (N E W : Type*) where
  issued : List E
  inflight : List (Rec N E W)
  committed : List (Rec N E W)
  flushed : List (Rec N E W)

/-- What happens in one cycle. -/
structure Event (N E W : Type*) where
  pops : ℕ
  effects : N → List W
  push : Option (N × E)
  flush : Bool

/-- The effects of a cycle reach an instruction by its name. -/
def Rec.receive (effects : N → List W) (r : Rec N E W) : Rec N E W :=
  { r with effects := r.effects ++ effects r.name }

/-- The instruction that enters. -/
def Event.entering (ev : Event N E W) (serial : ℕ) : List (Rec N E W) :=
  ev.push.toList.map fun p => ⟨serial, p.1, p.2, []⟩

/-- What stays in flight unless it is flushed. -/
def Queue.staying (g : Queue N E W) (ev : Event N E W) :
    List (Rec N E W) :=
  (g.inflight.drop ev.pops).map (Rec.receive ev.effects) ++
    ev.entering g.issued.length

/-- The front leaves before the flush. -/
def Queue.step (g : Queue N E W) (ev : Event N E W) : Queue N E W where
  issued := g.issued ++ ev.push.toList.map Prod.snd
  inflight := if ev.flush then [] else g.staying ev
  committed := g.committed ++ g.inflight.take ev.pops
  flushed := if ev.flush then g.flushed ++ g.staying ev else g.flushed

def Queue.empty : Queue N E W := ⟨[], [], [], []⟩

/-- The serial numbers of a list of instructions. -/
def serials (l : List (Rec N E W)) : List ℕ := l.map Rec.serial

/-- Every instruction of the queue. -/
def Queue.all (g : Queue N E W) : List (Rec N E W) :=
  g.committed ++ g.flushed ++ g.inflight

/-- The law of the queue. -/
structure Lawful (g : Queue N E W) : Prop where
  entry : ∀ r ∈ g.all, g.issued[r.serial]? = some r.entry
  once : (serials g.all).Perm (List.range g.issued.length)
  order : (serials (g.committed ++ g.inflight)).Pairwise (· < ·)

variable {g : Queue N E W} {ev : Event N E W} {r : Rec N E W}

theorem serials_append (l l' : List (Rec N E W)) :
    serials (l ++ l') = serials l ++ serials l' :=
  List.map_append

theorem lawful_empty : Lawful (Queue.empty : Queue N E W) where
  entry r hr := by simp [Queue.all, Queue.empty] at hr
  once := by simp [serials, Queue.all, Queue.empty]
  order := by simp [serials, Queue.empty]

/-! ## One cycle -/

theorem serials_staying :
    serials (g.staying ev) =
      serials (g.inflight.drop ev.pops) ++
        serials (ev.entering g.issued.length) := by
  simp [serials, Queue.staying, Rec.receive, Function.comp_def]

theorem serials_entering (n : ℕ) :
    List.range n ++ serials (ev.entering (N := N) (E := E) (W := W) n) =
      List.range (n + (ev.push.toList.map Prod.snd).length) := by
  cases hp : ev.push with
  | none => simp [serials, Event.entering, hp]
  | some p => simp [serials, Event.entering, hp, List.range_succ]

/-- The instructions after a cycle are those before it, up to the effects
they received, and the one that entered. -/
theorem all_step :
    (g.step ev).all.Perm
      (g.committed ++ g.flushed ++
        (g.inflight.take ev.pops ++ g.staying ev)) := by
  have hswap : (g.committed ++ g.inflight.take ev.pops ++
      (g.flushed ++ g.staying ev)).Perm (g.committed ++ g.flushed ++
        (g.inflight.take ev.pops ++ g.staying ev)) := by
    rw [List.append_assoc, List.append_assoc]
    refine List.Perm.append_left _ ?_
    rw [← List.append_assoc, ← List.append_assoc]
    exact List.Perm.append_right _ List.perm_append_comm
  unfold Queue.all Queue.step
  dsimp only
  split_ifs
  · rwa [List.append_nil]
  · rwa [List.append_assoc (g.committed ++ _)]

/-- The front and what stays are all that were in flight and what
enters. -/
theorem serials_take_staying :
    serials (g.inflight.take ev.pops ++ g.staying ev) =
      serials g.inflight ++ serials (ev.entering g.issued.length) := by
  rw [serials_append, serials_staying, ← List.append_assoc,
    ← serials_append, List.take_append_drop]

/-- The serial numbers after a cycle. -/
theorem serials_all_step :
    (serials (g.step ev).all).Perm
      (serials g.all ++ serials (ev.entering g.issued.length)) := by
  refine (all_step.map Rec.serial).trans (List.Perm.of_eq ?_)
  show serials _ = _
  rw [serials_append, serials_take_staying, ← List.append_assoc,
    ← serials_append]
  rfl

theorem Lawful.serial_lt (h : Lawful g) (hr : r ∈ g.all) :
    r.serial < g.issued.length :=
  (List.getElem?_eq_some_iff.mp (h.entry r hr)).1

/-- An instruction keeps its place among the issued ones. -/
theorem Lawful.entry_step (h : Lawful g) (hr : r ∈ g.all) :
    (g.step ev).issued[r.serial]? = some r.entry := by
  show (g.issued ++ _)[r.serial]? = _
  rw [List.getElem?_append_left (h.serial_lt hr)]
  exact h.entry r hr

theorem Lawful.entry_staying (h : Lawful g) (hr : r ∈ g.staying ev) :
    (g.step ev).issued[r.serial]? = some r.entry := by
  rcases List.mem_append.mp hr with hr | hr
  · obtain ⟨r', hr', rfl⟩ := List.mem_map.mp hr
    have hall : r' ∈ g.all :=
      List.mem_append_right _ (List.mem_of_mem_drop hr')
    exact h.entry_step (r := r') hall
  · unfold Event.entering at hr
    show (g.issued ++ ev.push.toList.map Prod.snd)[r.serial]? = _
    cases hp : ev.push with
    | none => simp [hp] at hr
    | some p =>
      simp only [hp, Option.toList_some, List.map_cons, List.map_nil,
        List.mem_singleton] at hr
      subst hr
      simp

/-- A cycle keeps the law. -/
theorem Lawful.step (h : Lawful g) (ev : Event N E W) :
    Lawful (g.step ev) := by
  have hlen : (g.step ev).issued.length =
      g.issued.length + (ev.push.toList.map Prod.snd).length :=
    List.length_append
  have honce : (serials (g.step ev).all).Perm
      (List.range (g.step ev).issued.length) := by
    rw [hlen, ← serials_entering]
    exact serials_all_step.trans (h.once.append_right _)
  refine ⟨fun r hr => ?_, honce, ?_⟩
  · rcases List.mem_append.mp (all_step.mem_iff.mp hr) with hold | hr
    · exact h.entry_step (List.mem_append_left _ hold)
    · rcases List.mem_append.mp hr with htake | hstay
      · exact h.entry_step
          (List.mem_append_right _ (List.mem_of_mem_take htake))
      · exact h.entry_staying hstay
  · -- the kept part is ordered, and what enters is the newest
    have hkeep : serials (g.committed ++ g.inflight.take ev.pops ++
        g.staying ev) = serials (g.committed ++ g.inflight) ++
          serials (ev.entering g.issued.length) := by
      rw [List.append_assoc, serials_append, serials_take_staying,
        ← List.append_assoc, ← serials_append]
    have hlong : (serials (g.committed ++ g.inflight.take ev.pops ++
        g.staying ev)).Pairwise (· < ·) := by
      rw [hkeep]
      refine List.pairwise_append.mpr ⟨h.order, ?_, fun m hm n hn => ?_⟩
      · unfold serials Event.entering
        cases ev.push <;> simp
      · have hn' : n = g.issued.length := by
          unfold serials Event.entering at hn
          cases hp : ev.push <;> simp_all
        obtain ⟨r, hr, rfl⟩ := List.mem_map.mp hm
        have hall : r ∈ g.all := by
          rcases List.mem_append.mp hr with hr | hr
          · exact List.mem_append_left _ (List.mem_append_left _ hr)
          · exact List.mem_append_right _ hr
        rw [hn']
        exact h.serial_lt hall
    show (serials (g.committed ++ g.inflight.take ev.pops ++
      if ev.flush then [] else g.staying ev)).Pairwise (· < ·)
    split_ifs
    · rw [List.append_nil]
      rw [serials_append] at hlong
      exact (List.pairwise_append.mp hlong).1
    · exact hlong

/-! ## What an instruction has received -/

/-- Every effect on an instruction was meant for its name. -/
def Received (P : N → W → Prop) (g : Queue N E W) : Prop :=
  ∀ r ∈ g.all, ∀ w ∈ r.effects, P r.name w

theorem Received.step {P : N → W → Prop} (h : Received P g)
    (hev : ∀ n, ∀ w ∈ ev.effects n, P n w) : Received P (g.step ev) := by
  intro r hr w hw
  rcases List.mem_append.mp (all_step.mem_iff.mp hr) with hold | hr
  · exact h r (List.mem_append_left _ hold) w hw
  · rcases List.mem_append.mp hr with htake | hstay
    · exact h r (List.mem_append_right _ (List.mem_of_mem_take htake)) w hw
    · rcases List.mem_append.mp hstay with hkept | hnew
      · obtain ⟨r', hr', rfl⟩ := List.mem_map.mp hkept
        rcases List.mem_append.mp hw with hw | hw
        · exact h r' (List.mem_append_right _ (List.mem_of_mem_drop hr')) w hw
        · exact hev _ w hw
      · obtain ⟨p, -, rfl⟩ := List.mem_map.mp hnew
        exact absurd hw List.not_mem_nil

end RetireQueue
