import ArianeSoc.Noc.Buffers
import ArianeSoc.Noc.InputControl
import ArianeSoc.Noc.OutputControl

/-!
# A router

`dynamic_node_top.v`: five inputs and five outputs with a full crossbar
between them.  An output takes flits from the input of its current route
and gives `thanks` to it, which frees the flit in the buffer of that input.

`KILL_HEADERS` is 0 for all outputs, and the two `flip_bus` of a signal
cancel out.  The location of the tile and its chip are constants that reach
the router one cycle after reset.
-/

namespace ArianeSoc.Noc

/-! ## Inputs -/

/-- `dynamic_input_top_4` and `dynamic_input_top_16`, by the number of
address bits of the buffer. -/
structure DynamicInputTop (b : ℕ) where
  nib : InputBlk b Flit
  control : InputControl

namespace DynamicInputTop

variable {b : ℕ} (q : DynamicInputTop b)

def reset (storageDataF : BitVec b → Flit) : DynamicInputTop b where
  nib := InputBlk.reset storageDataF
  control := InputControl.reset

def dataOut : Flit := q.nib.dataVal

def validOut : Bool := q.nib.dataAvail

def tailOut : Bool := q.control.tail q.validOut (payloadLen q.dataOut)

/-- `route_req_n_out` to `route_req_p_out`. -/
def routeReqOut (myLoc : Loc) (myChipId : BitVec 14) (d : Port) : Bool :=
  routeReq myLoc myChipId q.dataOut (q.control.header q.validOut) d

/-- One cycle; `thanks` is that of any output. -/
def next (dataIn : Option Flit) (thanks : Bool) : DynamicInputTop b where
  nib := q.nib.next dataIn thanks
  control := q.control.next q.validOut (payloadLen q.dataOut) thanks

end DynamicInputTop

/-! ## The crossbar -/

/-- The registers of `dynamic_output_top`. -/
structure DynamicOutputTop where
  space : SpaceAvail 3
  control : OutputControl

/-- The buffer of the processor's input has 16 slots, those of the others
have four. -/
def nibBits : Port → ℕ
  | .p => 4
  | _ => 2

/-- The slots behind an output. -/
def BUFFER_SIZE : ℕ := 4

/-- The inputs that are wired to an output as `a`, `b`, `c`, `d` and `x`. -/
def wiring : Port → Route → Port
  | .n, .a => .s | .n, .b => .w | .n, .c => .p | .n, .d => .e | .n, .x => .n
  | .e, .a => .w | .e, .b => .p | .e, .c => .n | .e, .d => .s | .e, .x => .e
  | .s, .a => .n | .s, .b => .e | .s, .c => .w | .s, .d => .p | .s, .x => .s
  | .w, .a => .e | .w, .b => .s | .w, .c => .p | .w, .d => .n | .w, .x => .w
  | .p, .a => .s | .p, .b => .w | .p, .c => .n | .p, .d => .e | .p, .x => .p

theorem wiring_injective {o : Port} {r r' : Route}
    (h : wiring o r = wiring o r') : r = r' := by
  revert h
  cases o <;> cases r <;> cases r' <;> decide

/-- The registers of `dynamic_node_top`. -/
structure Router where
  inputs : (i : Port) → DynamicInputTop (nibBits i)
  outputs : Port → DynamicOutputTop
  myLocF : Loc
  myChipIdF : BitVec 14

/-- The inputs of a cycle. -/
structure RouterIn where
  /-- `some` data if the valid signal of the input is high. -/
  dataIn : Port → Option Flit
  yummyIn : Port → Bool

namespace Router

/-- The state after reset, which leaves the storage of the buffers. -/
def reset (storage : (i : Port) → BitVec (nibBits i) → Flit) : Router where
  inputs i := DynamicInputTop.reset (storage i)
  outputs _ := ⟨SpaceAvail.reset BUFFER_SIZE 3, OutputControl.reset⟩
  myLocF := ⟨0#8, 0#8⟩
  myChipIdF := 0#14

variable (q : Router)

/-- The request that an output sees on one of its inputs. -/
def routeReq (o : Port) (r : Route) : Bool :=
  (q.inputs (wiring o r)).routeReqOut q.myLocF q.myChipIdF o

/-- The input of the current route of an output. -/
def currentInput (o : Port) : Port :=
  wiring o (q.outputs o).control.currentRouteF

/-- `default_ready_s_to_n` and the like: the request on input `a`. -/
def defaultReady (o : Port) : Bool := q.routeReq o .a

def validOut (o : Port) : Bool :=
  (q.outputs o).control.validOut (q.inputs (q.currentInput o)).validOut
    (q.defaultReady o) (q.outputs o).space.spcAvail

def dataOut (o : Port) : Flit := (q.inputs (q.currentInput o)).dataOut

def tailCurrentRoute (o : Port) : Bool :=
  (q.inputs (q.currentInput o)).tailOut

/-- `thanks_n_to_e` and the like, from output `o` to input `i`. -/
def thanksTo (o i : Port) : Bool :=
  [Route.a, .b, .c, .d, .x].any fun r =>
    wiring o r = i && (q.outputs o).control.thanks (q.validOut o) r

/-- `thanks_all_temp` of an input. -/
def thanksAll (i : Port) : Bool :=
  q.thanksTo .n i || q.thanksTo .e i || q.thanksTo .s i || q.thanksTo .w i ||
    q.thanksTo .p i

def yummyOut (i : Port) : Bool := (q.inputs i).nib.yummyOutF

def next (myLoc : Loc) (myChipId : BitVec 14) (ins : RouterIn) :
    Router where
  inputs i := (q.inputs i).next (ins.dataIn i) (q.thanksAll i)
  outputs o :=
    { space :=
        (q.outputs o).space.next BUFFER_SIZE (q.validOut o) (ins.yummyIn o)
      control :=
        (q.outputs o).control.next (q.routeReq o) (q.defaultReady o)
          (q.validOut o) (q.tailCurrentRoute o) }
  myLocF := myLoc
  myChipIdF := myChipId

variable {q}

theorem thanksTo_iff {o i : Port} :
    q.thanksTo o i = true ↔ q.validOut o = true ∧ q.currentInput o = i := by
  unfold thanksTo currentInput OutputControl.thanks
  rw [List.any_eq_true]
  constructor
  · rintro ⟨r, -, h⟩
    rw [Bool.and_eq_true, decide_eq_true_iff] at h
    obtain ⟨rfl, hr⟩ := h
    split_ifs at hr with hroute
    exact ⟨hr, by rw [hroute]⟩
  · rintro ⟨hv, rfl⟩
    refine ⟨(q.outputs o).control.currentRouteF, ?_, ?_⟩
    · cases (q.outputs o).control.currentRouteF <;> decide
    · rw [if_pos rfl, hv, Bool.and_true, decide_eq_true_iff]

/-- An input is thanked by the outputs that send from it. -/
theorem thanksAll_iff {i : Port} :
    q.thanksAll i = true ↔
      ∃ o, q.validOut o = true ∧ q.currentInput o = i := by
  unfold thanksAll
  simp only [Bool.or_eq_true, thanksTo_iff]
  constructor
  · rintro ((((h | h) | h) | h) | h)
    · exact ⟨.n, h⟩
    · exact ⟨.e, h⟩
    · exact ⟨.s, h⟩
    · exact ⟨.w, h⟩
    · exact ⟨.p, h⟩
  · rintro ⟨o, h⟩
    cases o with
    | n => exact .inl (.inl (.inl (.inl h)))
    | e => exact .inl (.inl (.inl (.inr h)))
    | s => exact .inl (.inl (.inr h))
    | w => exact .inl (.inr h)
    | p => exact .inr h

end Router

end ArianeSoc.Noc
