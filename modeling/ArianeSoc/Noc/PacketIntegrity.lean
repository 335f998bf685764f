import ArianeSoc.Noc.Router
import ArianeSoc.Sync

/-!
# Packets through a router

`Traffic` is a router with the flits that have come in, left the input
buffers and gone out so far, and the credits of those who send to it.  They
send with a credit only (`Obeys`); when the receivers behind the outputs
give credits back is up to them.

`Intact` says what the router does to packets.  The invariant is in two
parts: each input stands for a list of flits and a packet of which some have
left (`InputInv`), and an output that is planned is planned for an input
whose packet wants to go there, so that no other output sends from it
(`CrossbarInv`).
-/

namespace ArianeSoc.Noc

open Framing

/-- A router and what has passed through it. -/
structure Traffic where
  router : Router
  received : Port → List Flit
  popped : Port → List Flit
  sent : Port → List Flit
  /-- The credits of the sender behind each input. -/
  credits : Port → ℕ

namespace Traffic

def reset (storage : (i : Port) → BitVec (nibBits i) → Flit) : Traffic where
  router := Router.reset storage
  received _ := []
  popped _ := []
  sent _ := []
  credits i := 2 ^ nibBits i

variable (myLoc : Loc) (myChipId : BitVec 14) (s : Traffic)

def step (ins : RouterIn) : Traffic where
  router := s.router.next myLoc myChipId ins
  received i := s.received i ++ (ins.dataIn i).toList
  popped i := s.popped i ++
    if s.router.thanksAll i then [(s.router.inputs i).dataOut] else []
  sent o := s.sent o ++
    if s.router.validOut o then [s.router.dataOut o] else []
  credits i := s.credits i + (s.router.yummyOut i).toNat -
    (ins.dataIn i).isSome.toNat

/-- Those who send to the router have a credit for it. -/
def Obeys (ins : RouterIn) : Prop :=
  ∀ i, (ins.dataIn i).isSome = true →
    0 < s.credits i + (s.router.yummyOut i).toNat

instance (ins : RouterIn) : Decidable (s.Obeys ins) :=
  Port.decidableForall _

/-- The packets that have left an input buffer. -/
def left (i : Port) : Progress Flit := progress bodyLen (s.popped i)

/-- The packets that an output has sent. -/
def out (o : Port) : Progress Flit := progress bodyLen (s.sent o)

/-- The header of a packet requests an output. -/
def requests (o : Port) (pk : List Flit) : Bool :=
  pk.head?.any fun h => routeReq myLoc myChipId h true o

/-- What the router does to packets, in terms of the flits that have come
in, those that have left the input buffers and those that have gone out. -/
structure Intact (s : Traffic) : Prop where
  /-- No flit is lost in an input. -/
  kept : ∀ i, ∃ stored, (s.router.inputs i).nib.Holds stored ∧
    s.received i = s.popped i ++ stored
  /-- A packet that has left requests one output. -/
  routed : ∀ i, ∀ pk ∈ (s.left i).done, ∃! o, requests myLoc myChipId o pk
  /-- The packets of an output are those of the inputs that request it, and
  those of one input are in order. -/
  merged : ∀ o, Merges (fun i => (s.left i).done.filter
    (requests myLoc myChipId o)) (s.out o).done
  /-- A packet of which an output has sent a part is the one of which an
  input has sent a part. -/
  begun : ∀ o, (s.out o).rest ≠ [] → ∃ i, (s.left i).rest = (s.out o).rest ∧
    requests myLoc myChipId o (s.out o).rest
  /-- And the other way round. -/
  going : ∀ i, (s.left i).rest ≠ [] → ∃ o, (s.out o).rest = (s.left i).rest

/-! ## The invariant -/

/-- An input stands for a list of flits, and a packet of which some flits
have left. -/
structure InputInv (s : Traffic) (i : Port) (stored : List Flit) : Prop where
  holds : (s.router.inputs i).nib.Holds stored
  received : s.received i = s.popped i ++ stored
  reads : (s.router.inputs i).control.Reads (s.left i).rest stored
  credits : s.credits i + (s.router.yummyOut i).toNat + stored.length =
    2 ^ nibBits i
  located : stored ≠ [] →
    s.router.myLocF = myLoc ∧ s.router.myChipIdF = myChipId

/-- The packet at the head of an input wants to go to an output. -/
def Aims (stored : Port → List Flit) (i o : Port) : Prop :=
  requests myLoc myChipId o ((s.left i).rest ++ stored i) = true

def planned (o : Port) : Bool := (s.router.outputs o).control.plannedF

/-- Outputs are planned for inputs whose packets want to go there. -/
structure CrossbarInv (s : Traffic) (stored : Port → List Flit) : Prop where
  rests : ∀ o, (s.router.outputs o).control.Rests
  aims : ∀ o, s.planned o = true →
    s.Aims myLoc myChipId stored (s.router.currentInput o) o
  going : ∀ i, (s.left i).rest ≠ [] →
    ∃ o, s.planned o = true ∧ s.router.currentInput o = i
  begun : ∀ o, (s.out o).rest =
    if s.planned o then (s.left (s.router.currentInput o)).rest else []
  merged : ∀ o, Merges (fun i => (s.left i).done.filter
    (requests myLoc myChipId o)) (s.out o).done
  routed : ∀ i, ∀ pk ∈ (s.left i).done,
    ∃ o, requests myLoc myChipId o pk = true

/-- The invariant. -/
structure Inv (s : Traffic) (stored : Port → List Flit) : Prop where
  inputs : ∀ i, InputInv myLoc myChipId s i (stored i)
  crossbar : CrossbarInv myLoc myChipId s stored

variable {myLoc myChipId s} {stored : Port → List Flit} {ins : RouterIn}
  {i o o' : Port}

/-! ## Requests -/

/-- A packet requests one output at most. -/
theorem requests_unique {pk : List Flit}
    (h : requests myLoc myChipId o pk = true)
    (h' : requests myLoc myChipId o' pk = true) : o = o' := by
  cases pk with
  | nil => exact absurd h Bool.false_ne_true
  | cons b bs =>
    have hb : routeReq myLoc myChipId b true o = true := h
    have hb' : routeReq myLoc myChipId b true o' = true := h'
    exact Option.some.inj
      ((portTo_of_routeReq hb).symm.trans (portTo_of_routeReq hb'))

/-- What is behind the header does not matter. -/
theorem requests_append {pk : List Flit}
    (h : requests myLoc myChipId o pk = true) (xs : List Flit) :
    requests myLoc myChipId o (pk ++ xs) = true := by
  cases pk with
  | nil => exact absurd h Bool.false_ne_true
  | cons b bs => exact h

theorem requests_of_append {pk xs : List Flit} (hne : pk ≠ [])
    (h : requests myLoc myChipId o (pk ++ xs) = true) :
    requests myLoc myChipId o pk = true := by
  cases pk with
  | nil => exact absurd rfl hne
  | cons b bs => exact h

/-! ## Inputs -/

theorem left_step_idle (hthanks : s.router.thanksAll i = false) :
    (s.step myLoc myChipId ins).left i = s.left i := by
  show progress bodyLen (s.popped i ++ if _ then _ else _) = _
  rw [hthanks, if_neg Bool.false_ne_true, List.append_nil]
  rfl

theorem left_step_thanks (hthanks : s.router.thanksAll i = true) :
    (s.step myLoc myChipId ins).left i =
      (s.left i).feed bodyLen (s.router.inputs i).dataOut := by
  show progress bodyLen (s.popped i ++ if _ then _ else _) = _
  rw [hthanks, if_pos rfl]
  exact progress_snoc _ _

theorem InputInv.reset (storage : (i : Port) → BitVec (nibBits i) → Flit)
    (i : Port) : InputInv myLoc myChipId (Traffic.reset storage) i [] where
  holds := InputBlk.Holds.reset (storage i)
  received := rfl
  reads := InputControl.Reads.reset
  credits := rfl
  located h := absurd rfl h

theorem InputInv.dataOut (h : InputInv myLoc myChipId s i (stored i))
    {x : Flit} {xs : List Flit} (hx : stored i = x :: xs) :
    (s.router.inputs i).validOut = true ∧
      (s.router.inputs i).dataOut = x := by
  have hholds := h.holds
  rw [hx] at hholds
  exact ⟨hholds.dataAvail_iff.mpr (List.cons_ne_nil x xs),
    hholds.dataVal_eq⟩

/-- What an input requests, the packet at its head does. -/
theorem InputInv.request (h : InputInv myLoc myChipId s i (stored i))
    (hreq : (s.router.inputs i).routeReqOut s.router.myLocF
      s.router.myChipIdF o = true) :
    (s.left i).rest = [] ∧ s.Aims myLoc myChipId stored i o := by
  obtain ⟨hheader, -⟩ := Bool.and_eq_true_iff.mp hreq
  obtain ⟨hvalid, hrest⟩ := (h.reads.header_iff _).mp hheader
  have hne : stored i ≠ [] := h.holds.dataAvail_iff.mp hvalid
  obtain ⟨x, xs, hx⟩ := List.exists_cons_of_ne_nil hne
  obtain ⟨hloc, hchip⟩ := h.located hne
  refine ⟨hrest, ?_⟩
  unfold Aims
  unfold DynamicInputTop.routeReqOut at hreq
  rw [hheader, (h.dataOut hx).2, hloc, hchip] at hreq
  rw [hrest, hx]
  exact hreq

/-- One cycle of an input. -/
theorem InputInv.step (h : InputInv myLoc myChipId s i (stored i))
    (hobeys : s.Obeys ins)
    (hthanks : s.router.thanksAll i = true → stored i ≠ []) :
    InputInv myLoc myChipId (s.step myLoc myChipId ins) i
      (InputBlk.after (stored i) (ins.dataIn i) (s.router.thanksAll i)) := by
  have hroom : (ins.dataIn i).isSome = true →
      (stored i).length < 2 ^ nibBits i := by
    intro hin
    have hcredit := hobeys i hin
    have htotal := h.credits
    omega
  have hcredits : (ins.dataIn i).isSome.toNat ≤
      s.credits i + (s.router.yummyOut i).toNat := by
    cases hin : (ins.dataIn i).isSome with
    | false => exact Nat.zero_le _
    | true => exact hobeys i hin
  have hdata : (ins.dataIn i).toList.length =
      (ins.dataIn i).isSome.toNat := by
    cases ins.dataIn i <;> rfl
  have htotal := h.credits
  cases ht : s.router.thanksAll i with
  | false =>
    refine ⟨?_, ?_, ?_, ?_, fun _ => ⟨rfl, rfl⟩⟩
    · show InputBlk.Holds ((s.router.inputs i).nib.next _ _) _
      rw [ht]
      exact h.holds.next hroom fun ht' => absurd ht' Bool.false_ne_true
    · show s.received i ++ _ = (s.popped i ++ if _ then _ else _) ++ _
      rw [ht, h.received]
      simp [InputBlk.after]
    · rw [left_step_idle ht]
      show InputControl.Reads ((s.router.inputs i).control.next _ _ _) _ _
      rw [ht]
      refine (h.reads.next_idle fun hv => ?_).grow _
      obtain ⟨x, xs, hx⟩ := List.exists_cons_of_ne_nil
        (h.holds.dataAvail_iff.mp hv)
      exact ⟨x, xs, hx, by rw [(h.dataOut hx).2]⟩
    · show s.credits i + _ - _ + (s.router.thanksAll i).toNat + _ = _
      rw [ht]
      simp only [InputBlk.after, Bool.false_eq_true, if_false,
        List.length_append, Bool.toNat_false]
      omega
  | true =>
    obtain ⟨x, xs, hx⟩ := List.exists_cons_of_ne_nil (hthanks ht)
    obtain ⟨hvalid, hdataOut⟩ := h.dataOut hx
    refine ⟨?_, ?_, ?_, ?_, fun _ => ⟨rfl, rfl⟩⟩
    · show InputBlk.Holds ((s.router.inputs i).nib.next _ _) _
      rw [ht]
      exact h.holds.next hroom fun _ => hthanks ht
    · show s.received i ++ _ = (s.popped i ++ if _ then _ else _) ++ _
      rw [ht, if_pos rfl, h.received, hdataOut, hx]
      simp [InputBlk.after]
    · rw [left_step_thanks ht, hdataOut]
      show InputControl.Reads ((s.router.inputs i).control.next _ _ _) _ _
      rw [ht, hvalid, hdataOut, hx]
      have hreads := h.reads
      rw [hx] at hreads
      exact (hreads.next_thanks (s.left i).done).grow _
    · show s.credits i + _ - _ + (s.router.thanksAll i).toNat + _ = _
      rw [ht]
      rw [hx] at htotal ⊢
      simp only [InputBlk.after, if_true, List.tail_cons,
        List.length_append, Bool.toNat_true]
      rw [List.length_cons] at htotal
      omega

/-! ## The crossbar in one cycle -/

/-- An output sends from an input whose packet wants to go there, and for
which it is planned unless the packet starts now. -/
theorem Inv.valid_spec (h : Inv myLoc myChipId s stored)
    (hv : s.router.validOut o = true) :
    stored (s.router.currentInput o) ≠ [] ∧
      s.Aims myLoc myChipId stored (s.router.currentInput o) o ∧
      (s.planned o = false →
        (s.left (s.router.currentInput o)).rest = []) := by
  unfold Router.validOut OutputControl.validOut at hv
  simp only [Bool.and_eq_true, Bool.or_eq_true] at hv
  obtain ⟨⟨hvalid, hplan⟩, -⟩ := hv
  have hne := (h.inputs (s.router.currentInput o)).holds.dataAvail_iff.mp hvalid
  cases hp : s.planned o with
  | true => exact ⟨hne, h.crossbar.aims o hp, fun hf => absurd hf (by decide)⟩
  | false =>
    have ha : s.router.currentInput o = wiring o .a :=
      congrArg (wiring o) (h.crossbar.rests o hp)
    have hready : s.router.defaultReady o = true :=
      hplan.resolve_left (by rw [← Bool.not_eq_false]; exact not_not.mpr hp)
    rw [ha] at hne ⊢
    obtain ⟨hrest, haims⟩ := (h.inputs (wiring o .a)).request hready
    exact ⟨hne, haims, fun _ => hrest⟩

theorem Inv.thanks_stored (h : Inv myLoc myChipId s stored)
    (ht : s.router.thanksAll i = true) :
    stored i ≠ [] := by
  obtain ⟨o, hv, rfl⟩ := Router.thanksAll_iff.mp ht
  exact (h.valid_spec hv).1

/-- Who takes a flit of a packet is the output that the packet wants to go
to. -/
theorem Inv.thanks_unique (h : Inv myLoc myChipId s stored)
    (ht : s.router.thanksAll i = true)
    (ha : s.Aims myLoc myChipId stored i o) :
    s.router.validOut o = true ∧ s.router.currentInput o = i := by
  obtain ⟨o', hv, rfl⟩ := Router.thanksAll_iff.mp ht
  obtain rfl : o' = o := requests_unique (h.valid_spec hv).2.1 ha
  exact ⟨hv, rfl⟩

/-- The flit that an output sends is the last one of its packet. -/
theorem Inv.tail_iff (h : Inv myLoc myChipId s stored)
    (hv : s.router.validOut o = true) :
    s.router.tailCurrentRoute o = true ↔
      ((s.step myLoc myChipId ins).left (s.router.currentInput o)).rest =
        [] := by
  obtain ⟨x, xs, hx⟩ :=
    List.exists_cons_of_ne_nil (h.valid_spec hv).1
  have hi := h.inputs (s.router.currentInput o)
  obtain ⟨hvalid, hdata⟩ := hi.dataOut hx
  have hreads := hi.reads
  rw [hx] at hreads
  rw [left_step_thanks (Router.thanksAll_iff.mpr ⟨o, hv, rfl⟩), hdata]
  unfold Router.tailCurrentRoute DynamicInputTop.tailOut
  rw [hvalid, hdata]
  exact hreads.tail_iff

/-- A packet wants to go where it did until its last flit has left. -/
theorem Inv.aims_step (h : Inv myLoc myChipId s stored)
    (ha : s.Aims myLoc myChipId stored i o)
    (hrest : s.router.thanksAll i = true →
      ((s.step myLoc myChipId ins).left i).rest ≠ []) :
    (s.step myLoc myChipId ins).Aims myLoc myChipId
      (fun i => InputBlk.after (stored i) (ins.dataIn i)
        (s.router.thanksAll i)) i o := by
  unfold Aims at ha ⊢
  cases ht : s.router.thanksAll i with
  | false =>
    rw [left_step_idle ht]
    dsimp only [InputBlk.after]
    rw [ht, if_neg Bool.false_ne_true, ← List.append_assoc]
    exact requests_append ha _
  | true =>
    obtain ⟨x, xs, hx⟩ := List.exists_cons_of_ne_nil (h.thanks_stored ht)
    have hopen := hrest ht
    rw [left_step_thanks ht, ((h.inputs i).dataOut hx).2] at hopen ⊢
    rw [feed_open hopen]
    dsimp only [InputBlk.after]
    rw [ht, if_pos rfl, hx, List.tail_cons]
    rw [hx] at ha
    simpa using requests_append ha (ins.dataIn i).toList

/-- What the cycle does to the route of an output. -/
theorem CrossbarInv.route_cases
    (h : CrossbarInv myLoc myChipId s stored) (ins : RouterIn) (o : Port) :
    OutputControl.NextCases (s.router.outputs o).control
      ((s.step myLoc myChipId ins).router.outputs o).control
      (s.router.routeReq o) (s.router.validOut o)
      (s.router.tailCurrentRoute o) := by
  apply OutputControl.next_cases (h.rests o)
  intro hv
  unfold Router.validOut OutputControl.validOut at hv
  simp only [Bool.and_eq_true, Bool.or_eq_true] at hv
  exact hv.1.2

/-- A packet goes on: its output stays with it. -/
theorem Inv.goes_on (h : Inv myLoc myChipId s stored)
    (hg : (s.planned o || s.router.validOut o) = true)
    (hopen : s.router.validOut o = true →
      ((s.step myLoc myChipId ins).left (s.router.currentInput o)).rest ≠
        []) :
    (s.step myLoc myChipId ins).planned o = true ∧
      (s.step myLoc myChipId ins).router.currentInput o =
        s.router.currentInput o := by
  have hgoes : (s.router.outputs o).control.goesOn (s.router.validOut o)
      (s.router.tailCurrentRoute o) = true := by
    unfold OutputControl.goesOn
    rw [Bool.and_eq_true]
    refine ⟨hg, ?_⟩
    rw [Bool.not_eq_true', Bool.eq_false_iff]
    intro hend
    obtain ⟨hv, ht⟩ := Bool.and_eq_true_iff.mp hend
    exact hopen hv ((h.tail_iff hv).mp ht)
  obtain ⟨hp, hr⟩ := (h.crossbar.route_cases ins o).keeps hgoes
  exact ⟨hp, congrArg (wiring o) hr⟩

/-- An output that is planned anew is planned for a header that stays where
it is in this cycle. -/
theorem Inv.starts (h : Inv myLoc myChipId s stored)
    (hend : s.router.validOut o = false ∧ s.planned o = false ∨
      s.router.validOut o = true ∧ ((s.step myLoc myChipId ins).left
        (s.router.currentInput o)).rest = [])
    (hp : (s.step myLoc myChipId ins).planned o = true) :
    s.router.thanksAll ((s.step myLoc myChipId ins).router.currentInput o) =
        false ∧
      (s.left ((s.step myLoc myChipId ins).router.currentInput o)).rest =
        [] ∧
      s.Aims myLoc myChipId stored
        ((s.step myLoc myChipId ins).router.currentInput o) o := by
  have hgoes : (s.router.outputs o).control.goesOn (s.router.validOut o)
      (s.router.tailCurrentRoute o) = false := by
    unfold OutputControl.goesOn
    rcases hend with ⟨hv, hp⟩ | ⟨hv, ht⟩
    · have hp' : (s.router.outputs o).control.plannedF = false := hp
      rw [hv, hp']
      rfl
    · rw [hv, (h.tail_iff hv).mpr ht, Bool.true_and, Bool.not_true,
        Bool.and_false]
  obtain ⟨hreq, hne⟩ := (h.crossbar.route_cases ins o).takes hgoes hp
  obtain ⟨hrest, haims⟩ := (h.inputs _).request hreq
  refine ⟨?_, hrest, haims⟩
  rw [Bool.eq_false_iff]
  intro ht
  obtain ⟨hv, hcur⟩ := h.thanks_unique ht haims
  exact hne hv (wiring_injective hcur).symm

/-! ## Packets in one cycle -/

theorem out_step_idle (hv : s.router.validOut o = false) :
    (s.step myLoc myChipId ins).out o = s.out o := by
  show progress bodyLen (s.sent o ++ if _ then _ else _) = _
  rw [hv, if_neg Bool.false_ne_true, List.append_nil]
  rfl

theorem out_step_sent (hv : s.router.validOut o = true) :
    (s.step myLoc myChipId ins).out o =
      (s.out o).feed bodyLen (s.router.dataOut o) := by
  show progress bodyLen (s.sent o ++ if _ then _ else _) = _
  rw [hv, if_pos rfl]
  exact progress_snoc _ _

theorem left_step_sent (hv : s.router.validOut o = true) :
    (s.step myLoc myChipId ins).left (s.router.currentInput o) =
      (s.left (s.router.currentInput o)).feed bodyLen
        (s.router.dataOut o) :=
  left_step_thanks (Router.thanksAll_iff.mpr ⟨o, hv, rfl⟩)

/-- An output that sends has sent as much of the packet as has left. -/
theorem Inv.out_rest (h : Inv myLoc myChipId s stored)
    (hv : s.router.validOut o = true) :
    (s.out o).rest = (s.left (s.router.currentInput o)).rest := by
  rw [h.crossbar.begun o]
  cases hp : s.planned o with
  | true => rw [if_pos rfl]
  | false =>
    rw [if_neg Bool.false_ne_true]
    exact ((h.valid_spec hv).2.2 hp).symm

variable (ins) in
theorem Inv.out_rest_step (h : Inv myLoc myChipId s stored)
    (hv : s.router.validOut o = true) :
    ((s.step myLoc myChipId ins).out o).rest =
      ((s.step myLoc myChipId ins).left (s.router.currentInput o)).rest := by
  rw [out_step_sent hv, left_step_sent hv]
  exact feed_rest_congr (h.out_rest hv) _

/-- The packet of which an output sends the last flit. -/
theorem Inv.left_done (h : Inv myLoc myChipId s stored)
    (hv : s.router.validOut o = true)
    (hend : ((s.step myLoc myChipId ins).left
      (s.router.currentInput o)).rest = []) :
    ∃ pk, requests myLoc myChipId o pk = true ∧
      ((s.step myLoc myChipId ins).left (s.router.currentInput o)).done =
        (s.left (s.router.currentInput o)).done ++ [pk] ∧
      ((s.step myLoc myChipId ins).out o).done = (s.out o).done ++ [pk] := by
  obtain ⟨hne, haims, -⟩ := h.valid_spec hv
  obtain ⟨x, xs, hx⟩ := List.exists_cons_of_ne_nil hne
  have hdata : s.router.dataOut o = x := ((h.inputs _).dataOut hx).2
  have hout := h.out_rest_step ins hv
  rw [hend, out_step_sent hv] at hout
  rw [left_step_sent hv] at hend
  refine ⟨(s.left (s.router.currentInput o)).rest ++ [x], ?_, ?_, ?_⟩
  · unfold Aims at haims
    rw [hx, List.append_cons] at haims
    exact requests_of_append (by simp) haims
  · rw [left_step_sent hv, feed_done hend, hdata]
  · rw [out_step_sent hv, feed_done hout, hdata, h.out_rest hv]

/-- No packet is complete unless an output sends its last flit. -/
theorem left_done_open (hopen : s.router.thanksAll i = true →
    ((s.step myLoc myChipId ins).left i).rest ≠ []) :
    ((s.step myLoc myChipId ins).left i).done = (s.left i).done := by
  cases ht : s.router.thanksAll i with
  | false => rw [left_step_idle ht]
  | true =>
    have hne := hopen ht
    rw [left_step_thanks ht] at hne ⊢
    rw [feed_open hne]

/-- The packets for an output, where it does not send the last flit of
one. -/
theorem Inv.filter_step (h : Inv myLoc myChipId s stored)
    (hno : ¬ (s.router.validOut o = true ∧ s.router.currentInput o = i ∧
      ((s.step myLoc myChipId ins).left i).rest = [])) :
    ((s.step myLoc myChipId ins).left i).done.filter
        (requests myLoc myChipId o) =
      (s.left i).done.filter (requests myLoc myChipId o) := by
  by_cases hend : s.router.thanksAll i = true ∧
      ((s.step myLoc myChipId ins).left i).rest = []
  · obtain ⟨ht, hnil⟩ := hend
    obtain ⟨o', hv, rfl⟩ := Router.thanksAll_iff.mp ht
    obtain ⟨pk, hpk, hdone, -⟩ := h.left_done hv hnil
    have hother : requests myLoc myChipId o pk = false := by
      rw [Bool.eq_false_iff]
      intro ho
      obtain rfl : o' = o := requests_unique hpk ho
      exact hno ⟨hv, rfl, hnil⟩
    rw [hdone, List.filter_append, List.filter_cons, hother]
    simp
  · rw [left_done_open fun ht hnil => hend ⟨ht, hnil⟩]

/-- A packet goes on at an output, or none does. -/
theorem goes_or_ends (s : Traffic) (ins : RouterIn) (o : Port) :
    ((s.planned o || s.router.validOut o) = true ∧
      (s.router.validOut o = true → ((s.step myLoc myChipId ins).left
        (s.router.currentInput o)).rest ≠ [])) ∨
    (s.router.validOut o = false ∧ s.planned o = false ∨
      s.router.validOut o = true ∧ ((s.step myLoc myChipId ins).left
        (s.router.currentInput o)).rest = []) := by
  cases s.router.validOut o <;> cases s.planned o <;>
    simp [em']

theorem Inv.begun_step (h : Inv myLoc myChipId s stored) (o : Port) :
    ((s.step myLoc myChipId ins).out o).rest =
      if (s.step myLoc myChipId ins).planned o then
        ((s.step myLoc myChipId ins).left
          ((s.step myLoc myChipId ins).router.currentInput o)).rest
      else [] := by
  rcases goes_or_ends s ins o with ⟨hg, hopen⟩ | hend
  · obtain ⟨hp, hcur⟩ := h.goes_on hg hopen
    rw [hp, if_pos rfl, hcur]
    cases hv : s.router.validOut o with
    | true => exact h.out_rest_step ins hv
    | false =>
      have hold : s.planned o = true := by
        rwa [hv, Bool.or_false] at hg
      have hidle : s.router.thanksAll (s.router.currentInput o) = false := by
        rw [Bool.eq_false_iff]
        intro ht
        have hv' := (h.thanks_unique ht (h.crossbar.aims o hold)).1
        rw [hv] at hv'
        exact Bool.false_ne_true hv'
      rw [out_step_idle hv, left_step_idle hidle, h.crossbar.begun o, hold,
        if_pos rfl]
  · have hnil : ((s.step myLoc myChipId ins).out o).rest = [] := by
      rcases hend with ⟨hv, hp⟩ | ⟨hv, hrest⟩
      · rw [out_step_idle hv, h.crossbar.begun o, hp,
          if_neg Bool.false_ne_true]
      · rw [h.out_rest_step ins hv, hrest]
    rw [hnil]
    cases hp : (s.step myLoc myChipId ins).planned o with
    | false => rw [if_neg Bool.false_ne_true]
    | true =>
      obtain ⟨hidle, hrest, -⟩ := h.starts hend hp
      rw [if_pos rfl, left_step_idle hidle, hrest]

theorem Inv.aims_planned (h : Inv myLoc myChipId s stored)
    (hp : (s.step myLoc myChipId ins).planned o = true) :
    (s.step myLoc myChipId ins).Aims myLoc myChipId
      (fun i => InputBlk.after (stored i) (ins.dataIn i)
        (s.router.thanksAll i))
      ((s.step myLoc myChipId ins).router.currentInput o) o := by
  rcases goes_or_ends s ins o with ⟨hg, hopen⟩ | hend
  · have haims : s.Aims myLoc myChipId stored (s.router.currentInput o) o := by
      rcases Bool.or_eq_true_iff.mp hg with hold | hv
      · exact h.crossbar.aims o hold
      · exact (h.valid_spec hv).2.1
    rw [(h.goes_on hg hopen).2]
    exact h.aims_step haims fun ht => hopen (h.thanks_unique ht haims).1
  · obtain ⟨hidle, -, haims⟩ := h.starts hend hp
    exact h.aims_step haims fun ht => absurd ht (by simp [hidle])

theorem Inv.going_step (h : Inv myLoc myChipId s stored)
    (hopen : ((s.step myLoc myChipId ins).left i).rest ≠ []) :
    ∃ o, (s.step myLoc myChipId ins).planned o = true ∧
      (s.step myLoc myChipId ins).router.currentInput o = i := by
  by_cases ht : s.router.thanksAll i = true
  · obtain ⟨o, hv, rfl⟩ := Router.thanksAll_iff.mp ht
    exact ⟨o, h.goes_on (by simp [hv]) fun _ => hopen⟩
  · rw [left_step_idle (Bool.eq_false_iff.mpr ht)] at hopen
    obtain ⟨o, hp, rfl⟩ := h.crossbar.going i hopen
    refine ⟨o, h.goes_on (by simp [hp]) fun hv => ?_⟩
    exact absurd (Router.thanksAll_iff.mpr ⟨o, hv, rfl⟩) ht

theorem Inv.merged_step (h : Inv myLoc myChipId s stored) (o : Port) :
    Merges (fun i => ((s.step myLoc myChipId ins).left i).done.filter
      (requests myLoc myChipId o)) ((s.step myLoc myChipId ins).out o).done := by
  by_cases hend : s.router.validOut o = true ∧
      ((s.step myLoc myChipId ins).left (s.router.currentInput o)).rest = []
  · obtain ⟨hv, hnil⟩ := hend
    obtain ⟨pk, hpk, hleft, hout⟩ := h.left_done hv hnil
    rw [hout]
    apply (h.crossbar.merged o).snoc pk (i := s.router.currentInput o)
    · rw [hleft, List.filter_append, List.filter_cons, hpk]
      simp
    · intro j hj
      exact h.filter_step fun hall => hj hall.2.1.symm
  · have hsame : ((s.step myLoc myChipId ins).out o).done =
        (s.out o).done := by
      cases hv : s.router.validOut o with
      | false => rw [out_step_idle hv]
      | true =>
        have hopen : ((s.step myLoc myChipId ins).out o).rest ≠ [] := by
          rw [h.out_rest_step ins hv]
          exact fun hnil => hend ⟨hv, hnil⟩
        rw [out_step_sent hv] at hopen ⊢
        rw [feed_open hopen]
    rw [hsame]
    have hfilter : (fun i => ((s.step myLoc myChipId ins).left i).done.filter
        (requests myLoc myChipId o)) =
          fun i => (s.left i).done.filter (requests myLoc myChipId o) := by
      funext i
      apply h.filter_step
      rintro ⟨hv, rfl, hnil⟩
      exact hend ⟨hv, hnil⟩
    rw [hfilter]
    exact h.crossbar.merged o

theorem Inv.routed_step (h : Inv myLoc myChipId s stored) (i : Port) :
    ∀ pk ∈ ((s.step myLoc myChipId ins).left i).done,
      ∃ o, requests myLoc myChipId o pk = true := by
  by_cases hend : s.router.thanksAll i = true ∧
      ((s.step myLoc myChipId ins).left i).rest = []
  · obtain ⟨ht, hnil⟩ := hend
    obtain ⟨o, hv, rfl⟩ := Router.thanksAll_iff.mp ht
    obtain ⟨pk, hpk, hdone, -⟩ := h.left_done hv hnil
    intro pk' hpk'
    rw [hdone] at hpk'
    rcases List.mem_append.mp hpk' with hold | hnew
    · exact h.crossbar.routed _ pk' hold
    · rw [List.mem_singleton.mp hnew]
      exact ⟨o, hpk⟩
  · rw [left_done_open fun ht hnil => hend ⟨ht, hnil⟩]
    exact h.crossbar.routed i

/-- One cycle. -/
theorem Inv.step (h : Inv myLoc myChipId s stored) (hobeys : s.Obeys ins) :
    Inv myLoc myChipId (s.step myLoc myChipId ins)
      (fun i => InputBlk.after (stored i) (ins.dataIn i)
        (s.router.thanksAll i)) where
  inputs i := (h.inputs i).step hobeys h.thanks_stored
  crossbar :=
    { rests := fun o => (h.crossbar.route_cases ins o).rests
      aims := fun _ => h.aims_planned
      going := fun _ => h.going_step
      begun := h.begun_step
      merged := h.merged_step
      routed := h.routed_step }

theorem Inv.reset (storage : (i : Port) → BitVec (nibBits i) → Flit) :
    Inv myLoc myChipId (Traffic.reset storage) fun _ => [] where
  inputs := InputInv.reset storage
  crossbar :=
    { rests := fun _ _ => rfl
      aims := fun _ hp => absurd hp Bool.false_ne_true
      going := fun _ hne => absurd rfl hne
      begun := fun _ => rfl
      merged := fun _ => Merges.nil
      routed := fun _ _ hpk => absurd hpk List.not_mem_nil }

/-! ## Every run -/

theorem Inv.intact (h : Inv myLoc myChipId s stored) :
    Intact myLoc myChipId s where
  kept i := ⟨stored i, (h.inputs i).holds, (h.inputs i).received⟩
  routed i pk hpk := by
    obtain ⟨o, ho⟩ := h.crossbar.routed i pk hpk
    exact ⟨o, ho, fun o' ho' => requests_unique ho' ho⟩
  merged := h.crossbar.merged
  begun o hne := by
    have hrest := h.crossbar.begun o
    cases hp : s.planned o with
    | false =>
      rw [hp, if_neg Bool.false_ne_true] at hrest
      exact absurd hrest hne
    | true =>
      rw [hp, if_pos rfl] at hrest
      refine ⟨s.router.currentInput o, hrest.symm, ?_⟩
      have haims := h.crossbar.aims o hp
      unfold Aims at haims
      rw [hrest] at hne ⊢
      exact requests_of_append hne haims
  going i hne := by
    obtain ⟨o, hp, rfl⟩ := h.crossbar.going i hne
    exact ⟨o, by rw [h.crossbar.begun o, hp, if_pos rfl]⟩

/-- In every state of every run of the router its packets are intact. -/
theorem packet_integrity (myLoc : Loc) (myChipId : BitVec 14)
    (storage : (i : Port) → BitVec (nibBits i) → Flit) (is : List RouterIn)
    (h : Sync.Along (Traffic.step myLoc myChipId) Obeys
      (Traffic.reset storage) is) :
    Sync.Always (Traffic.step myLoc myChipId) (Intact myLoc myChipId)
      (Traffic.reset storage) is := by
  have hinv := h.always (P := fun s => ∃ stored, Inv myLoc myChipId s stored)
    (fun _ _ hobeys ⟨_, hs⟩ => ⟨_, hs.step hobeys⟩) ⟨_, Inv.reset storage⟩
  exact hinv.mono fun _ ⟨_, hs⟩ => hs.intact

/-- A packet of two flits from the north to the processor. -/
theorem packet_integrity_twoFlits :
    let is : List RouterIn :=
      [⟨fun | .n => some 0x0000040400400000#64 | _ => none, fun _ => false⟩,
        ⟨fun | .n => some 7#64 | _ => none, fun _ => false⟩,
        ⟨fun _ => none, fun _ => false⟩, ⟨fun _ => none, fun _ => false⟩]
    Sync.Always (Traffic.step ⟨1#8, 1#8⟩ 0#14) (Intact ⟨1#8, 1#8⟩ 0#14)
      (Traffic.reset fun _ _ => 0#64) is ∧
    (Sync.run (Traffic.step ⟨1#8, 1#8⟩ 0#14)
      (Traffic.reset fun _ _ => 0#64) is).sent .p =
        [0x0000040400400000#64, 7#64] :=
  ⟨packet_integrity _ _ _ _ (by decide +kernel), by decide +kernel⟩

end Traffic

end ArianeSoc.Noc
