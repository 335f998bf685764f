import ArianeSoc.Cache.ReadPorts
import ArianeSoc.Ledger
import ArianeSoc.Sync

/-!
# Every request to the data cache is answered once

`Watch` keeps a `Ledger` of the requests of each read port, numbered in the
order in which they are granted, and the reads that the memory has
acknowledged and not answered, each with the request that it is for.  A kill
is about the latest request, and so is data from the cache; data from the
memory is about the request that the response is for.

* `Inv.owner_eq`: every answer is about the latest request.
* `Inv.owed_step`: that request is owed an answer while its controller works
  on it.
* `requests_answered`: every request is answered once, by its own data or
  its kill, and the response to a killed request answers nothing.
-/

namespace ArianeSoc.Cache

open Sync

/-! ## The account of the requests -/

/-- The read ports, the ledger of each and the reads in flight, by port and
request. -/
structure Watch (cfg : DcacheConfig) where
  ports : ReadPorts cfg
  ledger : ℕ → Ledger ℕ ℕ
  loads : List (ℕ × ℕ)

def Watch.reset (cfg : DcacheConfig) : Watch cfg :=
  ⟨ReadPorts.reset cfg, fun _ => Ledger.empty, []⟩

namespace Watch

variable {cfg : DcacheConfig} (t : Watch cfg) (i : PortsIn cfg)

/-- The latest request of a port. -/
def current (p : ℕ) : ℕ := (t.ledger p).taken.length - 1

/-- A response to a read comes in. -/
def loadRtrn : Bool := Missunit.rtrn (t.ports.missIn i) .DCACHE_LOAD_ACK

/-- The read that the memory answers. -/
def answered : Option (ℕ × ℕ) := if t.loadRtrn i then t.loads.head? else none

/-- The request that an answer of a port is about. -/
def owner (p : ℕ) : ℕ :=
  if (i.core p).killReq then t.current p
  else
    match t.answered i with
    | some (q, n) => if q = p then n else t.current p
    | none => t.current p

def answer (p : ℕ) : Option ℕ :=
  if (t.ports.out i p).dataRvalid then some (t.owner i p) else none

def granted (p : ℕ) : List ℕ :=
  if (t.ports.out i p).dataGnt then [(t.ledger p).taken.length] else []

/-- A read is acknowledged by the memory. -/
def readSent : Bool :=
  (t.ports.miss.fsm (t.ports.missIn i)).memDataReq && i.memDataAck &&
    (t.ports.miss.fsm (t.ports.missIn i)).rtype == .DCACHE_LOAD_REQ

def step : Watch cfg where
  ports := t.ports.step i
  ledger := fun p => (t.ledger p).step (fun a b => a == b) (t.granted i p)
    (t.answer i p) false
  loads := (if t.loadRtrn i then t.loads.tail else t.loads) ++
    if t.readSent i then
      [(t.ports.miss.missPortIdx (t.ports.missIn i),
        t.current (t.ports.miss.missPortIdx (t.ports.missIn i)))]
    else []

/-- What every cycle keeps. -/
structure Inv : Prop where
  ports : t.ports.Inv
  loads : t.loads = if t.ports.miss.mshrVld then
    [(t.ports.miss.mshr.missPortIdx,
      t.current t.ports.miss.mshr.missPortIdx)] else []
  owed : ∀ p, p < cfg.numPorts - 1 → (t.ledger p).owed =
    if Ctrl.Active (t.ports.ctrl p).state then [t.current p] else []
  pos : ∀ p, p < cfg.numPorts - 1 → Ctrl.Active (t.ports.ctrl p).state →
    0 < (t.ledger p).taken.length
  taken : ∀ p, (t.ledger p).taken = List.range (t.ledger p).taken.length
  stray : ∀ p, p < cfg.numPorts - 1 → (t.ledger p).stray = []
  balanced : ∀ p, (t.ledger p).Balanced
  own : ∀ p, (t.ledger p).Own fun a b => a == b
  dropped : ∀ p, (t.ledger p).dropped = []

theorem inv_reset (cfg : DcacheConfig) : (reset cfg).Inv where
  ports := ReadPorts.inv_reset cfg
  loads := rfl
  owed p _ := rfl
  pos p _ h := absurd h (by decide : ¬Ctrl.Active .IDLE)
  taken _ := rfl
  stray _ _ := rfl
  balanced _ := Ledger.balanced_empty
  own _ x hx := absurd hx List.not_mem_nil
  dropped _ := rfl

variable {t i}

section Cycle

variable (h : t.Inv)
include h

/-- The read that is answered is the one of the MSHR. -/
theorem Inv.answered_spec {p n : ℕ} (ha : t.answered i = some (p, n)) :
    t.ports.miss.loadAck (t.ports.missIn i) = true ∧
      t.ports.miss.mshr.missPortIdx = p ∧ p < cfg.numPorts - 1 ∧
      n = t.current p := by
  rw [answered] at ha
  split_ifs at ha with hrtrn
  rw [h.loads] at ha
  split_ifs at ha with hvld
  · have heq := Option.some.inj ha
    obtain ⟨hp, hn⟩ := Prod.mk.inj heq
    have hreader := h.ports.reader hvld
    refine ⟨?_, hp, hp ▸ hreader, by rw [← hn, hp]⟩
    rw [Missunit.loadAck, hvld, Bool.and_true]
    exact hrtrn
  · exact absurd ha nofun

/-- Every answer is about the latest request. -/
theorem Inv.owner_eq (p : ℕ) : t.owner i p = t.current p := by
  rw [owner]
  split_ifs
  · rfl
  · cases ha : t.answered i with
    | none => rfl
    | some r =>
      obtain ⟨q, n⟩ := r
      dsimp only
      split_ifs with hq
      · rw [(h.answered_spec ha).2.2.2, hq]
      · rfl

/-- An answer settles the request that is owed. -/
theorem Inv.answer_owed {p b : ℕ} (hp : p < cfg.numPorts - 1)
    (ha : t.answer i p = some b) :
    Ctrl.Active (t.ports.ctrl p).state ∧ b = t.current p ∧
      (t.ledger p).owed = [t.current p] := by
  rw [answer] at ha
  split_ifs at ha with hvalid
  have hactive := Ctrl.rvalid_active hvalid
  refine ⟨hactive, ?_, ?_⟩
  · rw [← Option.some.inj ha, h.owner_eq p]
  · rw [h.owed p hp, if_pos hactive]

/-- The request that is owed after a cycle. -/
theorem Inv.owed_step {p : ℕ} (hp : p < cfg.numPorts - 1) :
    ((t.step i).ledger p).owed =
      if Ctrl.Active ((t.step i).ports.ctrl p).state then
        [(t.step i).current p] else [] := by
  have hnext : Ctrl.Active ((t.step i).ports.ctrl p).state ↔
      (t.ports.out i p).dataGnt = true ∨
        Ctrl.Active (t.ports.ctrl p).state ∧
          (t.ports.out i p).dataRvalid = false := Ctrl.active_step
  have hcurrent : (t.step i).current p =
      ((t.ledger p).taken ++ t.granted i p).length - 1 := rfl
  show ((t.ledger p).step _ (t.granted i p) (t.answer i p) false).owed = _
  rw [hcurrent]
  cases hgnt : (t.ports.out i p).dataGnt with
  | true =>
    have hnew : t.granted i p = [(t.ledger p).taken.length] := by
      rw [granted, if_pos hgnt]
    rw [if_pos (hnext.mpr (Or.inl hgnt)), hnew, List.length_append]
    rcases (Ctrl.gnt_cases hgnt).2 with ⟨hidle, -, hvalid⟩ | ⟨hactive, hvalid⟩
    · have hans : t.answer i p = none := by
        rw [answer]
        exact if_neg (by rw [ReadPorts.out, hvalid]; exact Bool.false_ne_true)
      rw [hans, Ledger.owed_step_none, if_neg Bool.false_ne_true,
        h.owed p hp, if_neg hidle]
      rfl
    · -- the answered request makes room for the new one
      have hans : t.answer i p = some (t.current p) := by
        rw [answer, h.owner_eq p]
        exact if_pos hvalid
      have hpos := h.pos p hp hactive
      have howed := h.owed p hp
      rw [if_pos hactive] at howed
      rw [hans, Ledger.owed_step_some (a := t.current p)
        (by rw [howed]; simp) (by simp) (by simp), howed,
        if_neg Bool.false_ne_true]
      simp
  | false =>
    have hnew : t.granted i p = [] := by
      rw [granted, if_neg (by rw [hgnt]; exact Bool.false_ne_true)]
    rw [hnew, List.append_nil]
    cases hvalid : (t.ports.out i p).dataRvalid with
    | true =>
      have hactive := Ctrl.rvalid_active hvalid
      have hans : t.answer i p = some (t.current p) := by
        rw [answer, if_pos hvalid, h.owner_eq p]
      have howed := h.owed p hp
      rw [if_pos hactive] at howed
      rw [hans, Ledger.owed_step_some (a := t.current p)
        (by rw [howed]; simp) (by simp) (by simp), howed,
        if_neg Bool.false_ne_true, if_neg (by rw [hnext]; simp [hgnt, hvalid])]
      simp
    | false =>
      have hans : t.answer i p = none := by
        rw [answer, if_neg (by rw [hvalid]; exact Bool.false_ne_true)]
      rw [hans, Ledger.owed_step_none, if_neg Bool.false_ne_true,
        List.append_nil, h.owed p hp]
      refine if_congr ?_ rfl rfl
      rw [hnext, hgnt, hvalid]
      simp

omit h in
theorem readSent_eq : t.readSent i =
    (t.ports.miss.fsm (t.ports.missIn i)).mshrAllocate := by
  rw [readSent]
  rcases Missunit.fsm_cases (s := t.ports.miss) (i := t.ports.missIn i) with
    hq | ⟨-, hr⟩ | ⟨-, hw, -⟩ | ⟨-, hamo, halloc, -⟩
  · rw [hq.req, hq.alloc]
    rfl
  · rw [hr.req, hr.alloc, hr.rtype]
    exact Bool.and_true _
  · rw [hw.rtype, hw.alloc]
    exact Bool.and_false _
  · rw [hamo, halloc]
    exact Bool.and_false _

omit h in
theorem current_step {p : ℕ} (hgnt : (t.ports.out i p).dataGnt = false) :
    (t.step i).current p = t.current p := by
  show ((t.ledger p).taken ++ t.granted i p).length - 1 = _
  rw [granted, hgnt, if_neg Bool.false_ne_true, List.append_nil]
  rfl

/-- The reads in flight after a cycle. -/
theorem Inv.loads_step : (t.step i).loads =
    if (t.step i).ports.miss.mshrVld then
      [((t.step i).ports.miss.mshr.missPortIdx,
        (t.step i).current (t.step i).ports.miss.mshr.missPortIdx)]
    else [] := by
  have hmshr : (t.step i).ports.miss.mshr =
      t.ports.miss.mshrD (t.ports.missIn i) := rfl
  have hvld : (t.step i).ports.miss.mshrVld =
      if (t.ports.miss.fsm (t.ports.missIn i)).mshrAllocate then true
      else if t.ports.miss.loadAck (t.ports.missIn i) then false
      else t.ports.miss.mshrVld := rfl
  show _ ++ _ = _
  rw [readSent_eq, hvld, hmshr, Missunit.mshrD, h.loads]
  cases halloc : (t.ports.miss.fsm (t.ports.missIn i)).mshrAllocate with
  | true =>
    obtain ⟨hp, hreq, hfree⟩ := h.ports.reads_of_alloc halloc
    have hgnt : (t.ports.out i
        (t.ports.miss.missPortIdx (t.ports.missIn i))).dataGnt = false :=
      Ctrl.no_gnt (Or.inl hreq)
    simp only [if_pos, hfree, current_step hgnt]
    simp
  | false =>
    have hload : t.ports.miss.loadAck (t.ports.missIn i) =
        (t.loadRtrn i && t.ports.miss.mshrVld) := rfl
    rw [hload]
    simp only [if_neg Bool.false_ne_true, List.append_nil]
    cases hv : t.ports.miss.mshrVld with
    | false => cases t.loadRtrn i <;> rfl
    | true =>
      cases t.loadRtrn i with
      | true => rfl
      | false =>
        have hw := (h.ports.waits _ (h.ports.reader hv)).mpr ⟨hv, rfl⟩
        have hgnt : (t.ports.out i
            t.ports.miss.mshr.missPortIdx).dataGnt = false :=
          Ctrl.no_gnt (Or.inr hw)
        simp [current_step hgnt]

/-- Every cycle keeps the invariant. -/
theorem Inv.step : (t.step i).Inv where
  ports := h.ports.step
  loads := h.loads_step
  owed _ hp := h.owed_step hp
  pos p hp hactive := by
    show 0 < ((t.ledger p).taken ++ t.granted i p).length
    rw [List.length_append]
    rcases Ctrl.active_step.mp hactive with hgnt | ⟨hold, -⟩
    · have hgnt' : (t.ports.out i p).dataGnt = true := hgnt
      rw [granted, if_pos hgnt', List.length_singleton]
      omega
    · have hpos := h.pos p hp hold
      omega
  taken p := by
    show (t.ledger p).taken ++ t.granted i p =
      List.range ((t.ledger p).taken ++ t.granted i p).length
    rw [granted]
    split_ifs
    · rw [List.length_append, List.length_singleton, List.range_succ,
        ← h.taken p]
    · rw [List.append_nil]
      exact h.taken p
  stray p hp := by
    rw [← h.stray p hp]
    refine Ledger.stray_step fun b hb => ?_
    obtain ⟨-, heq, howed⟩ := h.answer_owed hp hb
    exact ⟨t.current p, by rw [howed]; simp, by simp [heq]⟩
  balanced p := Ledger.balanced_step (h.balanced p)
  own p := Ledger.own_step (h.own p)
  dropped p := by
    show (t.ledger p).dropped ++ _ = []
    rw [h.dropped p]
    rfl

end Cycle

/-! ## Every request is answered once -/

/-- Each request is settled once or owed, the one that is owed is the one
that the controller works on, and no answer is stray. -/
structure Exact (t : Watch cfg) (p : ℕ) : Prop where
  nodup : (t.ledger p).taken.Nodup
  perm : (t.ledger p).taken.Perm
    ((t.ledger p).settled.map Prod.fst ++ (t.ledger p).owed)
  own : ∀ x ∈ (t.ledger p).settled, x.1 = x.2
  stray : (t.ledger p).stray = []
  one : (t.ledger p).owed.length ≤ 1
  active : (t.ledger p).owed ≠ [] ↔ Ctrl.Active (t.ports.ctrl p).state

theorem Inv.exact (h : t.Inv) {p : ℕ} (hp : p < cfg.numPorts - 1) :
    t.Exact p where
  nodup := by
    rw [h.taken p]
    exact List.nodup_range
  perm := by
    have hbal := h.balanced p
    rw [Ledger.Balanced, h.dropped p, List.append_nil] at hbal
    exact hbal
  own x hx := by simpa using h.own p x hx
  stray := h.stray p hp
  one := by
    rw [h.owed p hp]
    split_ifs <;> simp
  active := by
    rw [h.owed p hp]
    split_ifs with hactive <;> simp [hactive]

/-- A kill and a response to the request that is owed settle it, a response
to another one is no answer. -/
structure Prompt (t : Watch cfg) (i : PortsIn cfg) (p : ℕ) : Prop where
  kill : (i.core p).killReq = true → (t.ledger p).owed ≠ [] →
    (t.ports.out i p).dataRvalid = true
  response : ∀ n, t.answered i = some (p, n) →
    ((t.ports.out i p).dataRvalid = true ↔ n ∈ (t.ledger p).owed)

theorem Inv.prompt (h : t.Inv) {p : ℕ} (hp : p < cfg.numPorts - 1) :
    t.Prompt i p where
  kill hk howed := Ctrl.kill_rvalid ((h.exact hp).active.mp howed) hk
  response n ha := by
    obtain ⟨hload, hport, -, hn⟩ := h.answered_spec ha
    have hvld : t.ports.miss.mshrVld = true := by
      rw [Missunit.loadAck, Bool.and_eq_true] at hload
      exact hload.2
    have hw := (h.ports.waits p hp).mpr ⟨hvld, hport⟩
    have hrtrn := (ReadPorts.missRtrnVld_reader hp).mpr ⟨hload, hport⟩
    rw [ReadPorts.out, Ctrl.rtrn_rvalid hw hrtrn, h.owed p hp, hn]
    split_ifs with hactive <;> simp [hactive]

end Watch

/-- In every run, whatever the memory answers and when, every request that a
read port takes is answered once, by its own data or by its kill, and a
response to a killed request answers none. -/
theorem requests_answered (cfg : DcacheConfig) (is : List (PortsIn cfg)) :
    Always Watch.step (fun t => ∀ p, p < cfg.numPorts - 1 → t.Exact p)
        (Watch.reset cfg) is ∧
      Along Watch.step (fun t i => ∀ p, p < cfg.numPorts - 1 → t.Prompt i p)
        (Watch.reset cfg) is := by
  have hstep : ∀ (t : Watch cfg) i, t.Inv → (t.step i).Inv :=
    fun _ _ h => h.step
  constructor
  · intro n p hp
    exact (run_invariant hstep (Watch.inv_reset cfg) (is.take n)).exact hp
  · refine (along_of_invariant hstep (Watch.inv_reset cfg) is).mono ?_
    intro t i hinv p hp
    exact hinv.prompt hp

end ArianeSoc.Cache
