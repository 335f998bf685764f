import Mathlib.Tactic.Common

/-!
# Which input an output sends from

`dynamic_output_control.v`.  An output has a current route, one of its five
inputs `a`, `b`, `c`, `d` and `x`, and is planned or not.  A planned output
sends what the input of its route has; one that is not may send a header of
input `a`, its default, in the cycle in which the header is there.

`next_cases` is what a cycle does to the route, from the case tables of the
source.
-/

namespace ArianeSoc.Noc

/-- `ROUTE_A` to `ROUTE_X`. -/
inductive Route where
  | a | b | c | d | x
  deriving DecidableEq

/-- The registers of `dynamic_output_control`. -/
structure OutputControl where
  currentRouteF : Route
  plannedF : Bool

namespace OutputControl

def reset : OutputControl := ⟨.a, false⟩

variable (q : OutputControl) (routeReq : Route → Bool)

def validOut (validOutTemp defaultReady spaceAvail : Bool) : Bool :=
  validOutTemp && (q.plannedF || defaultReady) && spaceAvail

/-- `thanks_a` to `thanks_x`. -/
def thanks (validOut : Bool) (r : Route) : Bool :=
  if q.currentRouteF = r then validOut else false

/-- The rotating priority encoder. -/
def newRoute : Route :=
  match q.currentRouteF with
  | .a =>
    if routeReq .b then .b else if routeReq .c then .c
    else if routeReq .d then .d else if routeReq .x then .x else .a
  | .b =>
    if routeReq .c then .c else if routeReq .d then .d
    else if routeReq .x then .x else if routeReq .a then .a else .a
  | .c =>
    if routeReq .d then .d else if routeReq .x then .x
    else if routeReq .a then .a else if routeReq .b then .b else .a
  | .d =>
    if routeReq .x then .x else if routeReq .a then .a
    else if routeReq .b then .b else if routeReq .c then .c else .a
  | .x =>
    if routeReq .a then .a else if routeReq .b then .b
    else if routeReq .c then .c else if routeReq .d then .d else .a

/-- `route_req_a_mask` to `route_req_x_mask`. -/
def mask (r : Route) : Bool :=
  if q.plannedF then q.currentRouteF ≠ r else true

def routeReqAllOrWithPlanned : Bool :=
  (routeReq .a && q.mask .a) || (routeReq .b && q.mask .b) ||
    (routeReq .c && q.mask .c) || (routeReq .d && q.mask .d) ||
    (routeReq .x && q.mask .x)

def routeReqAllButDefault : Bool :=
  routeReq .b || routeReq .c || routeReq .d || routeReq .x

/-- By `default_ready`, `valid_out_internal`, `tail_current_route` and
`planned_f`. -/
def newRouteNeeded : Bool → Bool → Bool → Bool → Bool
  | false, false, false, false => true
  | false, false, false, true => false
  | false, false, true, false => true
  | false, false, true, true => false
  | false, true, false, false => false
  | false, true, false, true => false
  | false, true, true, false => true
  | false, true, true, true => true
  | true, false, false, false => true
  | true, false, false, true => false
  | true, false, true, false => true
  | true, false, true, true => false
  | true, true, false, false => false
  | true, true, false, true => false
  | true, true, true, false => true
  | true, true, true, true => true

/-- By `route_req_all_or_with_planned`, `default_ready`,
`valid_out_internal`, `tail_current_route` and `planned_f`. -/
def plannedTemp (allButDefault : Bool) :
    Bool → Bool → Bool → Bool → Bool → Bool
  | false, false, false, false, false => false
  | false, false, false, false, true => true
  | false, false, false, true, false => false
  | false, false, false, true, true => true
  | false, false, true, false, false => false
  | false, false, true, false, true => true
  | false, false, true, true, false => false
  | false, false, true, true, true => false
  | false, true, false, false, false => false
  | false, true, false, false, true => true
  | false, true, false, true, false => false
  | false, true, false, true, true => true
  | false, true, true, false, false => false
  | false, true, true, false, true => true
  | false, true, true, true, false => false
  | false, true, true, true, true => false
  | true, false, false, false, false => true
  | true, false, false, false, true => true
  | true, false, false, true, false => true
  | true, false, false, true, true => true
  | true, false, true, false, false => true
  | true, false, true, false, true => true
  | true, false, true, true, false => true
  | true, false, true, true, true => true
  | true, true, false, false, false => true
  | true, true, false, false, true => true
  | true, true, false, true, false => true
  | true, true, false, true, true => true
  | true, true, true, false, false => true
  | true, true, true, false, true => true
  | true, true, true, true, false => allButDefault
  | true, true, true, true, true => true

/-- One cycle; `validOut` says that the output sends a flit and
`tailCurrentRoute` that the flit of the current route is a tail. -/
def next (defaultReady validOut tailCurrentRoute : Bool) :
    OutputControl where
  currentRouteF :=
    if newRouteNeeded defaultReady validOut tailCurrentRoute q.plannedF then
      q.newRoute routeReq
    else q.currentRouteF
  plannedF :=
    plannedTemp (routeReqAllButDefault routeReq)
      (q.routeReqAllOrWithPlanned routeReq) defaultReady validOut
      tailCurrentRoute q.plannedF

/-! ## What a cycle does to the route -/

/-- An output that is not planned has its default route. -/
def Rests : Prop := q.plannedF = false → q.currentRouteF = .a

/-- The packet of the current route goes on after this cycle: the output is
planned for it or has sent its header, and does not send its tail. -/
def goesOn (validOut tailCurrentRoute : Bool) : Bool :=
  (q.plannedF || validOut) && !(validOut && tailCurrentRoute)

variable {q} {routeReq}

theorem newRouteNeeded_eq (defaultReady validOut tail planned : Bool) :
    newRouteNeeded defaultReady validOut tail planned =
      if planned then validOut && tail else !validOut || tail := by
  cases defaultReady <;> cases validOut <;> cases tail <;> cases planned <;>
    rfl

theorem plannedTemp_eq (any all defaultReady validOut tail planned : Bool) :
    plannedTemp any all defaultReady validOut tail planned =
      if planned then all || !(validOut && tail)
      else all && (!(defaultReady && validOut && tail) || any) := by
  cases all <;> cases defaultReady <;> cases validOut <;> cases tail <;>
    cases planned <;> simp [plannedTemp]

/-- The new route is one that requests, other than the current one, if there
is such a route. -/
theorem newRoute_spec :
    (∃ r, r ≠ q.currentRouteF ∧ routeReq r = true) →
      routeReq (q.newRoute routeReq) = true ∧
        q.newRoute routeReq ≠ q.currentRouteF := by
  rintro ⟨r, hne, hr⟩
  unfold newRoute
  cases hq : q.currentRouteF <;> cases r <;> grind

/-- Without a request of another route the new one is the default. -/
theorem newRoute_default
    (h : ∀ r, r ≠ q.currentRouteF → routeReq r = false) :
    q.newRoute routeReq = .a := by
  unfold newRoute
  cases hq : q.currentRouteF <;> rw [hq] at h <;> simp [h]

variable (routeReq) in
theorem routeReqAllButDefault_iff :
    routeReqAllButDefault routeReq = true ↔
      ∃ r, r ≠ Route.a ∧ routeReq r = true := by
  unfold routeReqAllButDefault
  simp only [Bool.or_eq_true]
  constructor
  · rintro (((h | h) | h) | h)
    · exact ⟨.b, by decide, h⟩
    · exact ⟨.c, by decide, h⟩
    · exact ⟨.d, by decide, h⟩
    · exact ⟨.x, by decide, h⟩
  · rintro ⟨r, hne, h⟩
    cases r <;> simp_all

variable (q routeReq) in
theorem routeReqAllOrWithPlanned_iff :
    q.routeReqAllOrWithPlanned routeReq = true ↔
      ∃ r, routeReq r = true ∧ (q.plannedF = true → q.currentRouteF ≠ r) := by
  have hmask : ∀ r, q.mask r = true ↔
      (q.plannedF = true → q.currentRouteF ≠ r) := by
    intro r
    unfold mask
    cases q.plannedF <;> simp
  unfold routeReqAllOrWithPlanned
  simp only [Bool.or_eq_true, Bool.and_eq_true, hmask]
  constructor
  · rintro ((((h | h) | h) | h) | h)
    · exact ⟨.a, h⟩
    · exact ⟨.b, h⟩
    · exact ⟨.c, h⟩
    · exact ⟨.d, h⟩
    · exact ⟨.x, h⟩
  · rintro ⟨r, h⟩
    cases r with
    | a => exact .inl (.inl (.inl (.inl h)))
    | b => exact .inl (.inl (.inl (.inr h)))
    | c => exact .inl (.inl (.inr h))
    | d => exact .inl (.inr h)
    | x => exact .inr h

/-- What a cycle does: a packet that goes on keeps its route, and otherwise
the output is planned for a route that requests it, not the one of a packet
that has just ended, or rests. -/
structure NextCases (q q' : OutputControl) (routeReq : Route → Bool)
    (validOut tail : Bool) : Prop where
  rests : q'.Rests
  keeps : q.goesOn validOut tail = true →
    q'.plannedF = true ∧ q'.currentRouteF = q.currentRouteF
  takes : q.goesOn validOut tail = false → q'.plannedF = true →
    routeReq q'.currentRouteF = true ∧
      (validOut = true → q'.currentRouteF ≠ q.currentRouteF)

variable (q routeReq) in
theorem next_route (defaultReady validOut tail : Bool) :
    (q.next routeReq defaultReady validOut tail).currentRouteF =
      if (if q.plannedF then validOut && tail else !validOut || tail) then
        q.newRoute routeReq
      else q.currentRouteF := by
  rw [← newRouteNeeded_eq defaultReady]
  rfl

variable (q routeReq) in
theorem next_planned (defaultReady validOut tail : Bool) :
    (q.next routeReq defaultReady validOut tail).plannedF =
      if q.plannedF then
        q.routeReqAllOrWithPlanned routeReq || !(validOut && tail)
      else q.routeReqAllOrWithPlanned routeReq &&
        (!(defaultReady && validOut && tail) ||
          routeReqAllButDefault routeReq) :=
  plannedTemp_eq _ _ _ _ _ _

theorem next_cases_planned (hp : q.plannedF = true)
    (defaultReady validOut tail : Bool) :
    NextCases q (q.next routeReq defaultReady validOut tail) routeReq
      validOut tail := by
  have hall := routeReqAllOrWithPlanned_iff q routeReq
  have hroute := next_route q routeReq defaultReady validOut tail
  have hplanned := next_planned q routeReq defaultReady validOut tail
  rw [hp, if_pos rfl] at hroute hplanned
  rw [hp] at hall
  refine ⟨fun h => ?_, fun h => ?_, fun h h' => ?_⟩
  · rw [hplanned, Bool.or_eq_false_iff, Bool.not_eq_false'] at h
    rw [hroute, if_pos h.2]
    apply newRoute_default
    intro r hr
    rw [Bool.eq_false_iff]
    intro hreq
    rw [hall.mpr ⟨r, hreq, fun _ => Ne.symm hr⟩] at h
    exact absurd h.1 (by decide)
  · rw [goesOn, hp, Bool.true_or, Bool.true_and, Bool.not_eq_true'] at h
    rw [hplanned, hroute, h]
    exact ⟨Bool.or_true _, rfl⟩
  · rw [goesOn, hp, Bool.true_or, Bool.true_and, Bool.not_eq_false'] at h
    rw [hplanned, h, Bool.not_true, Bool.or_false, hall] at h'
    rw [hroute, if_pos h]
    obtain ⟨r, hr, hne⟩ := h'
    have hnew := newRoute_spec ⟨r, Ne.symm (hne rfl), hr⟩
    exact ⟨hnew.1, fun _ => hnew.2⟩

theorem next_cases_default (hp : q.plannedF = false)
    (ha : q.currentRouteF = .a) {validOut : Bool} (tail : Bool)
    (hvalid : validOut = true → routeReq .a = true) :
    NextCases q (q.next routeReq (routeReq .a) validOut tail) routeReq
      validOut tail := by
  have hall : q.routeReqAllOrWithPlanned routeReq = true ↔
      ∃ r, routeReq r = true := by
    rw [routeReqAllOrWithPlanned_iff, hp]
    simp
  have hany := routeReqAllButDefault_iff routeReq
  have hroute := next_route q routeReq (routeReq .a) validOut tail
  have hplanned := next_planned q routeReq (routeReq .a) validOut tail
  rw [hp, if_neg Bool.false_ne_true] at hplanned
  have hreset : (∀ r, r ≠ Route.a → routeReq r = false) →
      q.newRoute routeReq = .a :=
    fun h => newRoute_default fun r hr => h r (by rwa [ha] at hr)
  refine ⟨fun h => ?_, fun h => ?_, fun h h' => ?_⟩
  · have hothers : ∀ r, r ≠ Route.a → routeReq r = false := by
      intro r hr
      rw [Bool.eq_false_iff]
      intro hreq
      rw [hplanned, hall.mpr ⟨r, hreq⟩, hany.mpr ⟨r, hr, hreq⟩] at h
      simp at h
    rw [hroute, hreset hothers, ha, ite_self]
  · rw [goesOn, hp, Bool.false_or, Bool.and_eq_true] at h
    obtain ⟨hv, ht⟩ := h
    rw [hv, Bool.true_and, Bool.not_eq_true'] at ht
    rw [hplanned, hroute, hp, hv, ht, hall.mpr ⟨.a, hvalid hv⟩]
    simp
  · have hneeded : (!validOut || tail) = true := by
      rw [goesOn, hp] at h
      cases validOut <;> simp_all
    rw [hroute, hp, if_neg Bool.false_ne_true, if_pos hneeded]
    rw [hplanned, Bool.and_eq_true, hall] at h'
    by_cases hother : ∃ r, r ≠ Route.a ∧ routeReq r = true
    · rw [← ha] at hother
      exact ⟨(newRoute_spec hother).1, fun _ => (newRoute_spec hother).2⟩
    · have hothers : ∀ r, r ≠ Route.a → routeReq r = false :=
        fun r hr => Bool.eq_false_iff.mpr fun hreq => hother ⟨r, hr, hreq⟩
      rw [hreset hothers]
      obtain ⟨⟨r, hr⟩, hkeep⟩ := h'
      obtain rfl : r = .a := by
        by_contra hne
        exact hother ⟨r, hne, hr⟩
      refine ⟨hr, fun hv => ?_⟩
      -- the header of the default route alone ends here
      rw [hv, Bool.not_true, Bool.false_or] at hneeded
      rw [hr, hv, hneeded, Bool.eq_false_iff.mpr (mt hany.mp hother)]
        at hkeep
      exact absurd hkeep (by decide)

/-- What a cycle does to the route of an output that sends what it is
planned for or a header of its default input. -/
theorem next_cases (hrests : q.Rests) {validOut tail : Bool}
    (hvalid : validOut = true →
      q.plannedF = true ∨ routeReq .a = true) :
    NextCases q (q.next routeReq (routeReq .a) validOut tail) routeReq
      validOut tail := by
  cases hp : q.plannedF with
  | true => exact next_cases_planned hp _ _ _
  | false =>
    refine next_cases_default hp (hrests hp) _ fun hv => ?_
    exact (hvalid hv).resolve_left (by simp [hp])

end OutputControl

end ArianeSoc.Noc
