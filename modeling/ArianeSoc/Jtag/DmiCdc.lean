import ArianeSoc.Sync
import Mathlib.Tactic.Common

/-!
# The clock crossing of the debug module interface

`cdc_2phase.sv` hands items from a source clock to a destination clock: the
source toggles a request for each item, the destination toggles an
acknowledge, and both levels go through two registers of the other clock
(the request through three).  A step is an edge of either clock or of both;
a register that samples a level in the step in which it changes sees the old
or the new one.

The levels form a ring, and at most one change is on its way around it
(`Single`).  From this `Exact` follows: what has been received is what has
been sent, in order, and at most the item that is on its way is missing.

`dmi_cdc.sv` has one crossing for the requests and one for the responses.
-/

namespace ArianeSoc.CommonCells

/-- The registers of `cdc_2phase_src` and `cdc_2phase_dst`. -/
structure Cdc2phase (α : Type) where
  reqSrcQ : Bool
  ackSrcQ : Bool
  ackQ : Bool
  dataSrcQ : α
  reqDstQ : Bool
  reqQ0 : Bool
  reqQ1 : Bool
  ackDstQ : Bool
  dataDstQ : α

namespace Cdc2phase

variable {α : Type}

/-- The state after a reset of both sides. -/
def reset (x : α) : Cdc2phase α :=
  ⟨false, false, false, x, false, false, false, false, x⟩

/-- The inputs of a step, with the clocks that have an edge; `reqNew` and
`ackNew` say which level is sampled if it changes in this step. -/
structure In (α : Type) where
  srcClk : Bool
  dstClk : Bool
  srcData : α
  srcValid : Bool
  dstReady : Bool
  reqNew : Bool
  ackNew : Bool

variable (q : Cdc2phase α) (i : In α)

def srcReadyO : Bool := q.reqSrcQ == q.ackQ

def dstValidO : Bool := q.ackDstQ != q.reqQ1

/-- An item is accepted by the source side. -/
def sends : Bool := i.srcClk && (i.srcValid && q.srcReadyO)

/-- An item is accepted from the destination side. -/
def receives : Bool := i.dstClk && (q.dstValidO && i.dstReady)

def reqSrcD : Bool := if q.sends i then !q.reqSrcQ else q.reqSrcQ

def ackDstD : Bool := if q.receives i then !q.ackDstQ else q.ackDstQ

/-- One step. -/
def step : Cdc2phase α where
  reqSrcQ := q.reqSrcD i
  ackSrcQ :=
    if i.srcClk then (if i.ackNew then q.ackDstD i else q.ackDstQ)
    else q.ackSrcQ
  ackQ := if i.srcClk then q.ackSrcQ else q.ackQ
  dataSrcQ := if q.sends i then i.srcData else q.dataSrcQ
  reqDstQ :=
    if i.dstClk then (if i.reqNew then q.reqSrcD i else q.reqSrcQ)
    else q.reqDstQ
  reqQ0 := if i.dstClk then q.reqDstQ else q.reqQ0
  reqQ1 := if i.dstClk then q.reqQ0 else q.reqQ1
  ackDstQ := q.ackDstD i
  dataDstQ :=
    if i.dstClk && ((q.reqQ0 != q.reqQ1) && !q.dstValidO) then q.dataSrcQ
    else q.dataDstQ

/-! ## The ring of the levels -/

/-- At most one change is on its way from the request to the acknowledge. -/
def OneChange (r d q₀ q₁ a s k : Bool) : Prop :=
  [r ^^ d, d ^^ q₀, q₀ ^^ q₁, q₁ ^^ a, a ^^ s, s ^^ k].count true ≤ 1

instance (r d q₀ q₁ a s k : Bool) : Decidable (OneChange r d q₀ q₁ a s k) :=
  inferInstanceAs (Decidable (_ ≤ _))

def Single : Prop :=
  OneChange q.reqSrcQ q.reqDstQ q.reqQ0 q.reqQ1 q.ackDstQ q.ackSrcQ q.ackQ

/-- An item has been sent and not been received. -/
def underway : Bool := q.reqSrcQ != q.ackDstQ

variable {q i}

/-- A change goes on to the next place, and a new one starts when there is
none. -/
theorem oneChange_next : ∀ r d q₀ q₁ a s k : Bool,
    OneChange r d q₀ q₁ a s k → ∀ src dst valid ready reqNew ackNew : Bool,
      let r' := if src && (valid && r == k) then !r else r
      let a' := if dst && ((a != q₁) && ready) then !a else a
      OneChange r'
        (if dst then (if reqNew then r' else r) else d)
        (if dst then d else q₀) (if dst then q₀ else q₁) a'
        (if src then (if ackNew then a' else a) else s)
        (if src then s else k) := by
  decide +kernel

theorem Single.step (h : q.Single) : (q.step i).Single :=
  oneChange_next _ _ _ _ _ _ _ h i.srcClk i.dstClk i.srcValid i.dstReady
    i.reqNew i.ackNew

/-- Nothing is underway while the source is ready. -/
theorem Single.of_ready (h : q.Single) (hr : q.srcReadyO = true) :
    q.underway = false ∧ q.dstValidO = false := by
  have hall : ∀ r d q₀ q₁ a s k : Bool, OneChange r d q₀ q₁ a s k →
      (r == k) = true → (r != a) = false ∧ (a != q₁) = false := by
    decide +kernel
  exact hall _ _ _ _ _ _ _ h hr

/-- What is offered is underway, and no request follows it. -/
theorem Single.of_valid (h : q.Single) (hv : q.dstValidO = true) :
    q.underway = true ∧ q.reqQ0 = q.reqQ1 := by
  have hall : ∀ r d q₀ q₁ a s k : Bool, OneChange r d q₀ q₁ a s k →
      (a != q₁) = true → (r != a) = true ∧ q₀ = q₁ := by
    decide +kernel
  exact hall _ _ _ _ _ _ _ h hv

/-- What is about to be offered is underway. -/
theorem Single.of_arriving (h : q.Single) (hne : (q.reqQ0 != q.reqQ1) = true) :
    q.underway = true := by
  have hall : ∀ r d q₀ q₁ a s k : Bool, OneChange r d q₀ q₁ a s k →
      (q₀ != q₁) = true → (r != a) = true := by
    decide +kernel
  exact hall _ _ _ _ _ _ _ h hne

/-- While an item is underway the source keeps it. -/
theorem Single.not_sends (h : q.Single) (hu : q.underway = true) :
    q.sends i = false := by
  refine Bool.eq_false_iff.mpr fun hs => ?_
  rw [sends, Bool.and_eq_true, Bool.and_eq_true] at hs
  have hno := (h.of_ready hs.2.2).1
  rw [hu] at hno
  cases hno

theorem reqSrcD_of_not_sends (h : q.sends i = false) :
    q.reqSrcD i = q.reqSrcQ := by
  rw [reqSrcD, h, if_neg Bool.false_ne_true]

theorem ackDstD_of_not_receives (h : q.receives i = false) :
    q.ackDstD i = q.ackDstQ := by
  rw [ackDstD, h, if_neg Bool.false_ne_true]

/-! ## Items -/

/-- The crossing with what has been sent and received so far. -/
structure Track (α : Type) where
  cdc : Cdc2phase α
  sent : List α
  received : List α

def Track.start (x : α) : Track α := ⟨reset x, [], []⟩

def Track.step (t : Track α) (i : In α) : Track α where
  cdc := t.cdc.step i
  sent := t.sent ++ if t.cdc.sends i then [i.srcData] else []
  received := t.received ++
    if t.cdc.receives i then [t.cdc.dataDstQ] else []

/-- What has been received is what has been sent, in order, but for the item
that is underway, and the destination offers nothing else. -/
structure Exact (t : Track α) : Prop where
  single : t.cdc.Single
  items : t.sent = t.received ++
    if t.cdc.underway then [t.cdc.dataSrcQ] else []
  offered : t.cdc.dstValidO = true → t.cdc.dataDstQ = t.cdc.dataSrcQ

theorem Exact.start (x : α) : Exact (Track.start x) where
  single :=
    show OneChange false false false false false false false by decide
  items := rfl
  offered h := by cases h

variable {t : Track α}

/-- The source data are kept as long as the item is underway. -/
theorem dataSrcQ_step (h : q.Single) (hu : q.underway = true) :
    (q.step i).dataSrcQ = q.dataSrcQ := by
  show (if q.sends i then _ else _) = _
  rw [h.not_sends hu]
  rfl

theorem Exact.items_step (h : Exact t) :
    (t.step i).sent = (t.step i).received ++
      if (t.step i).cdc.underway then [(t.step i).cdc.dataSrcQ] else [] := by
  show t.sent ++ _ = t.received ++ _ ++
    if t.cdc.reqSrcD i != t.cdc.ackDstD i then
      [if t.cdc.sends i then i.srcData else t.cdc.dataSrcQ] else []
  rw [h.items]
  cases hs : t.cdc.sends i with
  | true =>
    -- nothing was underway, so nothing is received
    have hready : t.cdc.srcReadyO = true := by
      rw [sends, Bool.and_eq_true, Bool.and_eq_true] at hs
      exact hs.2.2
    obtain ⟨hu, hv⟩ := h.single.of_ready hready
    have hr : t.cdc.receives i = false := by
      rw [receives, hv, Bool.false_and, Bool.and_false]
    have hnew : (t.cdc.reqSrcD i != t.cdc.ackDstD i) = true := by
      rw [reqSrcD, ackDstD, hs, hr]
      rw [underway, bne_eq_false_iff_eq] at hu
      rw [hu]
      cases t.cdc.ackDstQ <;> rfl
    rw [hu, hr, hnew]
    simp
  | false =>
    cases hr : t.cdc.receives i with
    | true =>
      have hv : t.cdc.dstValidO = true := by
        rw [receives, Bool.and_eq_true, Bool.and_eq_true] at hr
        exact hr.2.1
      have hu := (h.single.of_valid hv).1
      have hnew : (t.cdc.reqSrcD i != t.cdc.ackDstD i) = false := by
        rw [reqSrcD, ackDstD, hs, hr]
        rw [underway, bne_iff_ne] at hu
        exact bne_eq_false_iff_eq.mpr (Bool.eq_not_of_ne hu)
      rw [hu, hnew, h.offered hv]
      simp
    | false =>
      have hsame : (t.cdc.reqSrcD i != t.cdc.ackDstD i) = t.cdc.underway := by
        rw [reqSrcD_of_not_sends hs, ackDstD_of_not_receives hr, underway]
      rw [hsame]
      simp

theorem Exact.offered_step (h : Exact t)
    (hv : (t.step i).cdc.dstValidO = true) :
    (t.step i).cdc.dataDstQ = (t.step i).cdc.dataSrcQ := by
  have hv' : (t.cdc.ackDstD i != if i.dstClk then t.cdc.reqQ0
      else t.cdc.reqQ1) = true := hv
  show (if i.dstClk && ((t.cdc.reqQ0 != t.cdc.reqQ1) && !t.cdc.dstValidO)
    then t.cdc.dataSrcQ else t.cdc.dataDstQ) = (t.cdc.step i).dataSrcQ
  cases hd : t.cdc.dstValidO with
  | true =>
    obtain ⟨hu, -⟩ := h.single.of_valid hd
    rw [dataSrcQ_step h.single hu, Bool.not_true, Bool.and_false,
      Bool.and_false]
    exact h.offered hd
  | false =>
    have hr : t.cdc.receives i = false := by
      rw [receives, hd, Bool.false_and, Bool.and_false]
    have hack : t.cdc.ackDstQ = t.cdc.reqQ1 := bne_eq_false_iff_eq.mp hd
    rw [ackDstD_of_not_receives hr, hack] at hv'
    cases hclk : i.dstClk with
    | false =>
      rw [hclk, if_neg Bool.false_ne_true, bne_self_eq_false] at hv'
      cases hv'
    | true =>
      -- the request arrives, and its item with it
      rw [hclk, if_pos rfl, bne_comm] at hv'
      rw [hv', dataSrcQ_step h.single (h.single.of_arriving hv')]
      rfl

theorem Exact.step (h : Exact t) : Exact (t.step i) :=
  ⟨h.single.step, h.items_step, h.offered_step⟩

/-! ## Progress -/

/-- The edges of the destination clock until an item that is underway is
offered, and those of the source clock until it is ready again. -/
def reqLag (d q₀ q₁ a : Bool) : ℕ :=
  if a != q₁ then 0 else if q₀ != q₁ then 1 else if d != q₀ then 2 else 3

def ackLag (r s k : Bool) : ℕ :=
  if r == k then 0 else if s != k then 1 else 2

/-- An edge takes one from what is left, unless nothing is. -/
theorem le_of_lag {lag lag' n : ℕ} {edge : Bool}
    (h : lag' + (if edge then 1 else 0) ≤ max lag (if edge then 1 else 0))
    (hn : lag ≤ n + if edge then 1 else 0) : lag' ≤ n := by
  cases edge with
  | true =>
    rw [if_pos rfl] at h hn
    omega
  | false =>
    rw [if_neg Bool.false_ne_true] at h hn
    omega

/-- The logs only grow. -/
theorem length_le_run (is : List (In α)) (t : Track α) :
    t.received.length ≤ (Sync.run Track.step t is).received.length ∧
      t.sent.length ≤ (Sync.run Track.step t is).sent.length := by
  induction is generalizing t with
  | nil => exact ⟨Nat.le_refl _, Nat.le_refl _⟩
  | cons i is ih =>
    obtain ⟨hr, hs⟩ := ih (t.step i)
    have hr' : t.received.length ≤ (t.step i).received.length := by
      rw [Track.step, List.length_append]
      exact Nat.le_add_right _ _
    have hs' : t.sent.length ≤ (t.step i).sent.length := by
      rw [Track.step, List.length_append]
      exact Nat.le_add_right _ _
    exact ⟨Nat.le_trans hr' hr, Nat.le_trans hs' hs⟩

/-- An item that is underway is received or offered after three edges of the
destination clock, whatever the source clock does. -/
theorem offered_of_edges {is : List (In α)} (h : Exact t)
    (hu : t.cdc.underway = true)
    (hn : reqLag t.cdc.reqDstQ t.cdc.reqQ0 t.cdc.reqQ1 t.cdc.ackDstQ ≤
      is.countP In.dstClk) :
    let t' := Sync.run Track.step t is
    t.received.length < t'.received.length ∨ t'.cdc.dstValidO = true := by
  induction is generalizing t with
  | nil =>
    refine Or.inr ?_
    rw [List.countP_nil, Nat.le_zero] at hn
    have hall : ∀ d q₀ q₁ a : Bool, reqLag d q₀ q₁ a = 0 →
        (a != q₁) = true := by
      decide
    exact hall _ _ _ _ hn
  | cons i is ih =>
    have hnext : ∀ r d q₀ q₁ a s k : Bool, OneChange r d q₀ q₁ a s k →
        (r != a) = true → ∀ dst : Bool,
          reqLag (if dst then r else d) (if dst then d else q₀)
            (if dst then q₀ else q₁) a + (if dst then 1 else 0) ≤
              max (reqLag d q₀ q₁ a) (if dst then 1 else 0) := by
      decide +kernel
    have hsends : t.cdc.sends i = false := h.single.not_sends hu
    show t.received.length <
        (Sync.run Track.step (t.step i) is).received.length ∨ _
    cases hr : t.cdc.receives i with
    | true =>
      refine Or.inl (Nat.lt_of_lt_of_le ?_ (length_le_run is (t.step i)).1)
      rw [Track.step, hr, if_pos rfl, List.length_append,
        List.length_singleton]
      exact Nat.lt_succ_self _
    | false =>
      have hreq := reqSrcD_of_not_sends hsends
      have hack := ackDstD_of_not_receives hr
      have hlen : (t.step i).received.length = t.received.length := by
        rw [Track.step, hr, if_neg Bool.false_ne_true, List.append_nil]
      rw [← hlen]
      refine ih h.step ?_ ?_
      · show (t.cdc.reqSrcD i != t.cdc.ackDstD i) = true
        rw [hreq, hack]
        exact hu
      · have hlag := hnext _ _ _ _ _ _ _ h.single hu i.dstClk
        show reqLag (if i.dstClk then (if i.reqNew then t.cdc.reqSrcD i
          else t.cdc.reqSrcQ) else t.cdc.reqDstQ)
          (if i.dstClk then t.cdc.reqDstQ else t.cdc.reqQ0)
          (if i.dstClk then t.cdc.reqQ0 else t.cdc.reqQ1)
          (t.cdc.ackDstD i) ≤ _
        rw [hreq, hack, ite_self]
        rw [List.countP_cons] at hn
        exact le_of_lag hlag hn

/-- When nothing is underway, the source is ready again or has sent after
two edges of its clock. -/
theorem ready_of_edges {is : List (In α)} (h : Exact t)
    (hu : t.cdc.underway = false)
    (hn : ackLag t.cdc.reqSrcQ t.cdc.ackSrcQ t.cdc.ackQ ≤
      is.countP In.srcClk) :
    let t' := Sync.run Track.step t is
    t.sent.length < t'.sent.length ∨ t'.cdc.srcReadyO = true := by
  induction is generalizing t with
  | nil =>
    refine Or.inr ?_
    rw [List.countP_nil, Nat.le_zero] at hn
    have hall : ∀ r s k : Bool, ackLag r s k = 0 → (r == k) = true := by
      decide
    exact hall _ _ _ hn
  | cons i is ih =>
    have hnext : ∀ r d q₀ q₁ a s k : Bool, OneChange r d q₀ q₁ a s k →
        (r != a) = false → ∀ src : Bool,
          ackLag r (if src then a else s) (if src then s else k) +
            (if src then 1 else 0) ≤
              max (ackLag r s k) (if src then 1 else 0) := by
      decide +kernel
    have hidle : ∀ r d q₀ q₁ a s k : Bool, OneChange r d q₀ q₁ a s k →
        (r != a) = false → (a != q₁) = false := by
      decide +kernel
    have hr : t.cdc.receives i = false := by
      have hv : t.cdc.dstValidO = false := hidle _ _ _ _ _ _ _ h.single hu
      rw [receives, hv, Bool.false_and, Bool.and_false]
    show t.sent.length < (Sync.run Track.step (t.step i) is).sent.length ∨ _
    cases hs : t.cdc.sends i with
    | true =>
      refine Or.inl (Nat.lt_of_lt_of_le ?_ (length_le_run is (t.step i)).2)
      rw [Track.step, hs, if_pos rfl, List.length_append,
        List.length_singleton]
      exact Nat.lt_succ_self _
    | false =>
      have hreq := reqSrcD_of_not_sends hs
      have hack := ackDstD_of_not_receives hr
      have hlen : (t.step i).sent.length = t.sent.length := by
        rw [Track.step, hs, if_neg Bool.false_ne_true, List.append_nil]
      rw [← hlen]
      refine ih h.step ?_ ?_
      · show (t.cdc.reqSrcD i != t.cdc.ackDstD i) = false
        rw [hreq, hack]
        exact hu
      · have hlag := hnext _ _ _ _ _ _ _ h.single hu i.srcClk
        show ackLag (t.cdc.reqSrcD i) (if i.srcClk then (if i.ackNew then
          t.cdc.ackDstD i else t.cdc.ackDstQ) else t.cdc.ackSrcQ)
          (if i.srcClk then t.cdc.ackSrcQ else t.cdc.ackQ) ≤ _
        rw [hreq, hack, ite_self]
        rw [List.countP_cons] at hn
        exact le_of_lag hlag hn

end Cdc2phase

end ArianeSoc.CommonCells

/-! ## Requests and responses -/

namespace ArianeSoc.DmiCdc

open CommonCells
open Cdc2phase (Track Exact)

variable {Req Resp : Type}

/-- `i_cdc_req` and `i_cdc_resp`, with what has gone through them. -/
structure State (Req Resp : Type) where
  req : Track Req
  resp : Track Resp

def reset (x : Req) (y : Resp) : State Req Resp :=
  ⟨Track.start x, Track.start y⟩

/-- The inputs of a step; the samples belong to the two clocks. -/
structure In (Req Resp : Type) where
  tck : Bool
  clk : Bool
  jtagDmiReq : Req
  jtagDmiValid : Bool
  jtagDmiReady : Bool
  coreDmiResp : Resp
  coreDmiValid : Bool
  coreDmiReady : Bool
  reqNew : Bool × Bool
  respNew : Bool × Bool

variable (q : State Req Resp) (i : In Req Resp)

def reqIn : Cdc2phase.In Req where
  srcClk := i.tck
  dstClk := i.clk
  srcData := i.jtagDmiReq
  srcValid := i.jtagDmiValid
  dstReady := i.coreDmiReady
  reqNew := i.reqNew.1
  ackNew := i.reqNew.2

def respIn : Cdc2phase.In Resp where
  srcClk := i.clk
  dstClk := i.tck
  srcData := i.coreDmiResp
  srcValid := i.coreDmiValid
  dstReady := i.jtagDmiReady
  reqNew := i.respNew.1
  ackNew := i.respNew.2

/-- One step. -/
def step : State Req Resp := ⟨q.req.step (reqIn i), q.resp.step (respIn i)⟩

/-- What a link promises: nothing is lost, duplicated or reordered, at most
one item is missing at the other side, and it is offered there after three
edges of that clock, as the source is ready after two of its own. -/
structure Delivers {α : Type} (t : Track α) : Prop where
  items : ∃ l, t.sent = t.received ++ l ∧ l.length ≤ 1
  offered : ∀ is : List (Cdc2phase.In α),
    t.received.length < t.sent.length →
      3 ≤ is.countP Cdc2phase.In.dstClk →
        let t' := Sync.run Track.step t is
        t.received.length < t'.received.length ∨ t'.cdc.dstValidO = true
  ready : ∀ is : List (Cdc2phase.In α), t.received = t.sent →
    2 ≤ is.countP Cdc2phase.In.srcClk →
      let t' := Sync.run Track.step t is
      t.sent.length < t'.sent.length ∨ t'.cdc.srcReadyO = true

theorem delivers_of_exact {α : Type} {t : Track α} (h : Exact t) :
    Delivers t := by
  have hreq : ∀ d q₀ q₁ a : Bool, Cdc2phase.reqLag d q₀ q₁ a ≤ 3 := by
    decide
  have hack : ∀ r s k : Bool, Cdc2phase.ackLag r s k ≤ 2 := by decide
  have hitems := h.items
  refine ⟨⟨_, hitems, by split_ifs <;> simp⟩, fun is hlt hn => ?_,
    fun is heq hn => ?_⟩
  · have hu : t.cdc.underway = true := by
      refine (Bool.not_eq_false _).mp fun hno => ?_
      rw [hno, if_neg Bool.false_ne_true, List.append_nil] at hitems
      rw [hitems] at hlt
      exact Nat.lt_irrefl _ hlt
    exact Cdc2phase.offered_of_edges h hu (Nat.le_trans (hreq _ _ _ _) hn)
  · have hu : t.cdc.underway = false := by
      refine Bool.eq_false_iff.mpr fun hyes => ?_
      have hlen := congrArg List.length hitems
      rw [hyes, if_pos rfl, heq, List.length_append,
        List.length_singleton] at hlen
      omega
    exact Cdc2phase.ready_of_edges h hu (Nat.le_trans (hack _ _ _) hn)

/-- In every interleaving of the two clocks, both links deliver. -/
theorem links_deliver (x : Req) (y : Resp) (is : List (In Req Resp)) :
    let q := Sync.run step (reset x y) is
    Delivers q.req ∧ Delivers q.resp := by
  intro q
  have hall : Exact q.req ∧ Exact q.resp :=
    Sync.run_invariant (P := fun q : State Req Resp =>
        Exact q.req ∧ Exact q.resp)
      (fun _ _ h => ⟨h.1.step, h.2.step⟩)
      ⟨Exact.start x, Exact.start y⟩ is
  exact ⟨delivers_of_exact hall.1, delivers_of_exact hall.2⟩

end ArianeSoc.DmiCdc
