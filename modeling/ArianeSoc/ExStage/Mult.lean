import ArianeSoc.ExStage.Integer
import ArianeSoc.Serdiv.Exact

/-!
# The multiplier and divider unit

`multiplier.sv`, with its one pipeline register, and `mult.sv`, which gives
each operation to the multiplier or to the serial divider and puts out what
comes back.  A multiplication goes before a division at the output, which
the divider can hold.  A division on words gets its operands extended, and
`word_op_q` remembers to extend the lower half of the result.

* `value` is what the unit returns for an operation; `value_mulOf` and
  `value_divOf` compare it with the operations of RV64M.
* `Working` says that the divider is on its way with an operation, and
  `Working.step` and `Working.done` what becomes of it.
-/

namespace ArianeSoc.Multiplier

open ReadOperands (FuData)

/-- The pipeline register. -/
structure State where
  transId : BitVec 3
  multValid : Bool
  operator : FuOp
  multResult : BitVec 128

def reset : State := ⟨0#3, false, .MUL, 0#128⟩

def isMul : FuOp → Bool
  | .MUL | .MULH | .MULHU | .MULHSU | .MULW => true
  | _ => false

variable (d : FuData)

def signA : Bool := d.operator == .MULH || d.operator == .MULHSU

def signB : Bool := d.operator == .MULH

/-- An operand with a bit for its sign in front. -/
def withSign (s : Bool) (x : BitVec 64) : BitVec 65 :=
  BitVec.cons (x.msb && s) x

def multResultD : BitVec 128 :=
  (withSign (signA d) d.operandA).signExtend 128 *
    (withSign (signB d) d.operandB).signExtend 128

/-- `p_selmux`. -/
def resultO (q : State) : BitVec 64 :=
  match q.operator with
  | .MULH | .MULHU | .MULHSU => q.multResult.extractLsb' 64 64
  | .MULW => Alu.sext32 (q.multResult.setWidth 32)
  | _ => q.multResult.setWidth 64

/-- One cycle. -/
def step (multValid : Bool) : State where
  transId := d.transId
  multValid := multValid && isMul d.operator
  operator := d.operator
  multResult := multResultD d

end ArianeSoc.Multiplier

namespace ArianeSoc.Mult

open ReadOperands (FuData)

/-- The registers. -/
structure State where
  mul : Multiplier.State
  div : Serdiv.Regs
  wordOp : Bool

def reset : State := ⟨Multiplier.reset, Serdiv.reset, false⟩

/-- The inputs of one cycle. -/
structure In where
  flush : Bool
  multValid : Bool
  fuData : FuData

def isDiv : FuOp → Bool
  | .DIV | .DIVU | .DIVW | .DIVUW | .REM | .REMU | .REMW | .REMUW => true
  | _ => false

def isWordDiv : FuOp → Bool
  | .DIVW | .DIVUW | .REMW | .REMUW => true
  | _ => false

def divSigned : FuOp → Bool
  | .DIV | .DIVW | .REM | .REMW => true
  | _ => false

def rem : FuOp → Bool
  | .REM | .REMU | .REMW | .REMUW => true
  | _ => false

/-- An operand of a division. -/
def operand (op : FuOp) (x : BitVec 64) : BitVec 64 :=
  if isWordDiv op then
    if divSigned op then Alu.sext32 (x.setWidth 32)
    else (x.setWidth 32).setWidth 64
  else x

variable (q : State) (i : In)

/-- A new division. -/
def newDiv : Bool := i.multValid && isDiv i.fuData.operator

def mulValidOp : Bool :=
  !i.flush && i.multValid && Multiplier.isMul i.fuData.operator

def divValidOp : Bool := !i.flush && newDiv i

/-- The inputs of the divider, which are silenced without a division. -/
def divIn : Serdiv.In where
  id := i.fuData.transId
  opA := if newDiv i then operand i.fuData.operator i.fuData.operandA else 0#64
  opB := if newDiv i then operand i.fuData.operator i.fuData.operandB else 0#64
  opcode := BitVec.ofBool (rem i.fuData.operator) ++
    BitVec.ofBool (divSigned i.fuData.operator)
  inVld := divValidOp i
  flush := i.flush
  outRdy := !q.mul.multValid

def multReadyO : Bool := (Serdiv.pFsm q.div (divIn q i)).inRdy

def divValid : Bool := Serdiv.outVldO q.div (divIn q i)

def multValidO : Bool := divValid q i || q.mul.multValid

def multTransIdO : BitVec 3 :=
  if q.mul.multValid then q.mul.transId else q.div.id

def divResult : BitVec 64 :=
  if q.wordOp then Alu.sext32 ((Serdiv.resO q.div).setWidth 32)
  else Serdiv.resO q.div

def resultO : BitVec 64 :=
  if q.mul.multValid then Multiplier.resultO q.mul else divResult q

/-- One cycle. -/
def step : State where
  mul := Multiplier.step i.fuData (mulValidOp i)
  div := Serdiv.step q.div (divIn q i)
  wordOp := if newDiv i then isWordDiv i.fuData.operator else q.wordOp

end ArianeSoc.Mult

/-! ## The operations of RV64M -/

namespace ArianeSoc.Mult

open Rv64Int
open ReadOperands (FuData)
open Execute (mulOf divOf)

/-- The operands as the divider gets them. -/
def loadOf (d : FuData) : Serdiv.In where
  id := d.transId
  opA := operand d.operator d.operandA
  opB := operand d.operator d.operandB
  opcode := BitVec.ofBool (rem d.operator) ++
    BitVec.ofBool (divSigned d.operator)
  inVld := true
  flush := false
  outRdy := true

/-- What the unit returns for an operation. -/
def value (d : FuData) : BitVec 64 :=
  if Multiplier.isMul d.operator then
    Multiplier.resultO (Multiplier.step d true)
  else if isWordDiv d.operator then
    Alu.sext32 ((Serdiv.unitResult (loadOf d)).setWidth 32)
  else Serdiv.unitResult (loadOf d)

/-- The one pair of operands on which the divider is wrong. -/
def MinusOneByOne (o : DivOp) (a b : BitVec 64) : Prop :=
  o.signed = true ∧
    if o.word then a.setWidth 32 = - 1#32 ∧ b.setWidth 32 = 1#32
    else a = - 1#64 ∧ b = 1#64

instance (o : DivOp) (a b : BitVec 64) : Decidable (MinusOneByOne o a b) :=
  inferInstanceAs (Decidable (_ ∧ _))

section Meaning

variable {d : FuData} {a b : BitVec 64}

theorem signExtend_withSign (s : Bool) (x : BitVec 64) :
    (Multiplier.withSign s x).signExtend 128 =
      if s then x.signExtend 128 else x.setWidth 128 := by
  have hint : (Multiplier.withSign s x).toInt =
      if s then x.toInt else (x.toNat : ℤ) := by
    rw [Multiplier.withSign, Bool.and_comm]
    exact Alu.toInt_cons s x
  apply BitVec.eq_of_toInt_eq
  rw [BitVec.toInt_signExtend_of_le (by decide), hint]
  cases s with
  | false =>
    have hx := x.isLt
    have hwide : (x.setWidth 128).toNat = x.toNat := by
      rw [BitVec.toNat_setWidth]
      omega
    rw [if_neg Bool.false_ne_true, if_neg Bool.false_ne_true,
      BitVec.toInt_eq_toNat_of_lt (by omega), hwide]
  | true =>
    rw [if_pos rfl, if_pos rfl, BitVec.toInt_signExtend_of_le (by decide)]

/-- The product in the pipeline register. -/
theorem multResultD_eq : Multiplier.multResultD d =
    (if Multiplier.signA d then d.operandA.signExtend 128
      else d.operandA.setWidth 128) *
    if Multiplier.signB d then d.operandB.signExtend 128
      else d.operandB.setWidth 128 := by
  rw [Multiplier.multResultD, signExtend_withSign, signExtend_withSign]

/-- The unit returns the products of RV64M. -/
theorem value_mulOf {o : MulOp} (h : d.operator = mulOf o) :
    value d = o.eval d.operandA d.operandB := by
  have hmul : Multiplier.isMul d.operator = true := by
    rw [h]
    cases o <;> rfl
  have hprod := multResultD_eq (d := d)
  rw [Multiplier.signA, Multiplier.signB, h] at hprod
  have hlow : ∀ n, n ≤ 64 →
      (d.operandA.setWidth 128 * d.operandB.setWidth 128).setWidth n =
        d.operandA.setWidth n * d.operandB.setWidth n := by
    intro n hn
    rw [BitVec.setWidth_mul _ _ (by omega),
      BitVec.setWidth_setWidth_of_le _ (by omega),
      BitVec.setWidth_setWidth_of_le _ (by omega)]
  rw [value, if_pos hmul, Multiplier.resultO]
  show (match d.operator with
    | .MULH | .MULHU | .MULHSU =>
      (Multiplier.multResultD d).extractLsb' 64 64
    | .MULW => Alu.sext32 ((Multiplier.multResultD d).setWidth 32)
    | _ => (Multiplier.multResultD d).setWidth 64) = _
  rw [h, hprod]
  cases o with
  | mul =>
    refine (hlow 64 (Nat.le_refl 64)).trans ?_
    rw [BitVec.setWidth_eq, BitVec.setWidth_eq]
    rfl
  | mulh => rfl
  | mulhsu => rfl
  | mulhu => rfl
  | mulw => exact congrArg Alu.sext32 (hlow 32 (by decide))

/-- The result of the specification, as the operation of RV64M. -/
theorem riscvResult_eq_divide (o : DivOp) (i : Serdiv.In)
    (hrem : i.rem = o.rem) (hsigned : i.signed = o.signed) :
    Serdiv.riscvResult i = divide o i.opA i.opB := by
  unfold Serdiv.riscvResult divide
  rw [hrem, hsigned]
  cases o.rem <;> cases o.signed <;> rfl

/-- An operand of a division on words. -/
def extended (signed : Bool) (a : BitVec 32) : BitVec 64 :=
  if signed then a.signExtend 64 else a.setWidth 64

theorem setWidth_extended (s : Bool) (a : BitVec 32) :
    (extended s a).setWidth 32 = a := by
  refine BitVec.eq_of_getLsbD_eq fun k hk => ?_
  have h64 : k < 64 := by omega
  rw [BitVec.getLsbD_setWidth, decide_eq_true hk, Bool.true_and]
  cases s with
  | false =>
    show (a.setWidth 64).getLsbD k = _
    rw [BitVec.getLsbD_setWidth, decide_eq_true h64, Bool.true_and]
  | true =>
    show (a.signExtend 64).getLsbD k = _
    rw [BitVec.getLsbD_signExtend, decide_eq_true h64, if_pos hk,
      Bool.true_and]

theorem extended_eq_zero (s : Bool) (a : BitVec 32) :
    extended s a = 0#64 ↔ a = 0#32 := by
  constructor
  · intro h
    rw [← setWidth_extended s a, h]
    rfl
  · rintro rfl
    cases s <;> rfl

theorem setWidth_ofInt (x : ℤ) :
    (BitVec.ofInt 64 x).setWidth 32 = BitVec.ofInt 32 x := by
  apply BitVec.eq_of_toNat_eq
  rw [BitVec.toNat_setWidth, BitVec.toNat_ofInt, BitVec.toNat_ofInt]
  push_cast
  omega

/-- Division of words by division of their extensions. -/
theorem divide_extended (o : DivOp) (a b : BitVec 32) :
    (divide o (extended o.signed a) (extended o.signed b)).setWidth 32 =
      divide o a b := by
  unfold divide
  by_cases hb : b = 0#32
  · rw [if_pos ((extended_eq_zero _ b).mpr hb), if_pos hb]
    cases o.rem with
    | false =>
      rw [if_neg Bool.false_ne_true, if_neg Bool.false_ne_true]
      decide
    | true => exact setWidth_extended _ a
  · rw [if_neg (mt (extended_eq_zero _ b).mp hb), if_neg hb]
    cases hs : o.signed with
    | true =>
      have hint : ∀ x : BitVec 32, (extended true x).toInt = x.toInt :=
        fun x => BitVec.toInt_signExtend_of_le (by decide)
      rw [if_pos rfl, if_pos rfl, setWidth_ofInt, hint, hint]
    | false =>
      have hnat : ∀ x : BitVec 32, (extended false x).toNat = x.toNat := by
        intro x
        have hx := x.isLt
        show (x.setWidth 64).toNat = x.toNat
        rw [BitVec.toNat_setWidth]
        omega
      rw [if_neg Bool.false_ne_true, if_neg Bool.false_ne_true, hnat, hnat,
        BitVec.setWidth_ofNat_of_le (by decide)]

/-- What the opcode of a division says. -/
theorem divOf_fields (o : DivOp) :
    Multiplier.isMul (divOf o) = false ∧ isDiv (divOf o) = true ∧
      isWordDiv (divOf o) = o.word ∧ divSigned (divOf o) = o.signed ∧
      rem (divOf o) = o.rem := by
  obtain ⟨_ | _, _ | _, _ | _⟩ := o <;> exact ⟨rfl, rfl, rfl, rfl, rfl⟩

theorem loadOf_fields {o : DivOp} (h : d.operator = divOf o) :
    (loadOf d).rem = o.rem ∧ (loadOf d).signed = o.signed := by
  obtain ⟨-, -, -, hs, hr⟩ := divOf_fields o
  unfold Serdiv.In.rem Serdiv.In.signed loadOf
  dsimp only
  rw [h, hs, hr]
  cases o.rem <;> cases o.signed <;> exact ⟨rfl, rfl⟩

/-- The operands of the divider are those of the operation. -/
theorem loadOf_operands {o : DivOp} (h : d.operator = divOf o) :
    (loadOf d).opA =
        (if o.word then extended o.signed (d.operandA.setWidth 32)
          else d.operandA) ∧
      (loadOf d).opB =
        if o.word then extended o.signed (d.operandB.setWidth 32)
        else d.operandB := by
  obtain ⟨-, -, hw, hs, -⟩ := divOf_fields o
  unfold loadOf operand
  dsimp only
  rw [h, hw, hs]
  exact ⟨rfl, rfl⟩

theorem extended_minusOne {a : BitVec 32} :
    extended true a = - 1#64 ↔ a = - 1#32 := by
  constructor
  · intro h
    rw [← setWidth_extended true a, h]
    rfl
  · rintro rfl
    rfl

theorem extended_one {a : BitVec 32} : extended true a = 1#64 ↔ a = 1#32 := by
  constructor
  · intro h
    rw [← setWidth_extended true a, h]
    rfl
  · rintro rfl
    rfl

theorem minusOneByOne_loadOf {o : DivOp} (h : d.operator = divOf o) :
    Serdiv.MinusOneByOne (loadOf d) ↔
      MinusOneByOne o d.operandA d.operandB := by
  obtain ⟨-, hsigned⟩ := loadOf_fields h
  obtain ⟨hA, hB⟩ := loadOf_operands h
  unfold Serdiv.MinusOneByOne MinusOneByOne
  rw [hsigned, hA, hB]
  refine and_congr_right fun hs => ?_
  rw [hs]
  cases o.word with
  | false => rfl
  | true => exact and_congr extended_minusOne extended_one

/-- The unit returns the quotients and remainders of RV64M, but for one pair
of operands. -/
theorem value_divOf {o : DivOp} (h : d.operator = divOf o)
    (hno : ¬ MinusOneByOne o d.operandA d.operandB) :
    value d = o.eval d.operandA d.operandB := by
  obtain ⟨hmul, -, hw, -⟩ := divOf_fields o
  obtain ⟨hrem, hsigned⟩ := loadOf_fields h
  obtain ⟨hA, hB⟩ := loadOf_operands h
  have hres : Serdiv.unitResult (loadOf d) =
      divide o (loadOf d).opA (loadOf d).opB := by
    rw [Serdiv.unitResult_of (mt (minusOneByOne_loadOf h).mp hno),
      riscvResult_eq_divide o _ hrem hsigned]
  rw [value, h, hmul, hw, if_neg Bool.false_ne_true, hres, hA, hB,
    DivOp.eval]
  cases o.word with
  | false => simp only [Bool.false_eq_true, if_false]
  | true =>
    simp only [if_true]
    rw [divide_extended]
    rfl

end Meaning

end ArianeSoc.Mult

/-! ## The divider, cycle by cycle -/

namespace ArianeSoc.Serdiv

open Sync

variable {i i' : In} {q : Regs} {n : ℕ}

theorem stateAt_congr {js js' : ℕ → In} {n : ℕ}
    (h : ∀ m, m < n → js m = js' m) :
    stateAt step q js n = stateAt step q js' n := by
  induction n with
  | zero => rfl
  | succ n ih =>
    show step (stateAt step q js n) (js n) =
      step (stateAt step q js' n) (js' n)
    rw [ih fun m hm => h m (by omega), h n (by omega)]

/-- `n` cycles after the load of `i`, nothing has been put out before. -/
structure Working (i : In) (n : ℕ) (q : Regs) : Prop where
  busy : q.state ≠ .IDLE
  id : q.id = i.id
  run : ∃ q₀ js, q₀.state = .IDLE ∧ js 0 = i ∧ i.inVld = true ∧
    (∀ m, (js m).flush = false) ∧ q = stateAt step q₀ js (n + 1) ∧
      ∀ m, m ≤ n → ¬ Done (stateAt step q₀ js m)

theorem Working.load (hs : q.state = .IDLE) (hv : i.inVld = true)
    (hf : i.flush = false) : Working i 0 (step q i) where
  busy := by
    rw [step_load hs hv hf]
    exact fun h => by cases h
  id := by rw [step_load hs hv hf]
  run := by
    refine ⟨q, fun _ => i, hs, rfl, hv, fun _ => hf, rfl, fun m hm => ?_⟩
    obtain rfl := Nat.le_zero.mp hm
    exact not_done_idle hs

theorem Working.step (h : Working i n q) (hd : ¬ Done q)
    (hf : i'.flush = false) : Working i (n + 1) (Serdiv.step q i') := by
  obtain ⟨hbusy, hid, q₀, js, hs, h0, hv, hjs, hq, hno⟩ := h
  have hstate : q.state = .DIVIDE ∧ q.divResZero = false := by
    cases hst : q.state with
    | IDLE => exact absurd hst hbusy
    | DIVIDE =>
      exact ⟨rfl, Bool.eq_false_iff.mpr fun hz => hd (.inr ⟨hst, hz⟩)⟩
    | FINISH => exact absurd (.inl hst) hd
  -- the run goes on with the inputs of this cycle
  let js' := Function.update js (n + 1) i'
  have hsame : ∀ m, m < n + 1 → js m = js' m := fun m hm =>
    (Function.update_of_ne (by omega) i' js).symm
  have heq : ∀ m, m ≤ n + 1 →
      stateAt Serdiv.step q₀ js m = stateAt Serdiv.step q₀ js' m :=
    fun m hm => stateAt_congr fun k hk => hsame k (by omega)
  refine ⟨?_, ?_, q₀, js', hs, (hsame 0 (by omega)).symm.trans h0, hv,
    fun m => ?_, ?_, fun m hm => ?_⟩
  · rw [step_divide hstate.1 hstate.2 hf]
    dsimp only
    split_ifs <;> simp
  · rw [step_divide hstate.1 hstate.2 hf]
    exact hid
  · by_cases hm : m = n + 1
    · rw [hm]
      show (Function.update js (n + 1) i' (n + 1)).flush = false
      rw [Function.update_self]
      exact hf
    · show (Function.update js (n + 1) i' m).flush = false
      rw [Function.update_of_ne hm]
      exact hjs m
  · show _ = Serdiv.step (stateAt Serdiv.step q₀ js' (n + 1)) (js' (n + 1))
    rw [← heq (n + 1) (Nat.le_refl _), ← hq]
    show _ = Serdiv.step q (Function.update js (n + 1) i' (n + 1))
    rw [Function.update_self]
  · rw [← heq m hm]
    rcases Nat.lt_or_eq_of_le hm with hlt | rfl
    · exact hno m (by omega)
    · rw [← hq]
      exact hd

/-- The cycles of a run from a load. -/
theorem Working.answers (h : Working i n q) :
    n < 66 ∧ (Done q → Answer i q) := by
  obtain ⟨-, -, q₀, js, hs, h0, hv, hjs, hq, hno⟩ := h
  obtain ⟨k, hk, hbefore, hdone, hans⟩ :=
    Serdiv.answers hs (by rw [h0]; exact hv) hjs
  have hlt : n < k := by
    by_contra hge
    exact hno k (by omega) hdone
  refine ⟨by omega, fun hd => ?_⟩
  have heq : k = n + 1 := by
    by_contra hne
    rw [hq] at hd
    exact hbefore (n + 1) (by omega) hd
  rw [heq, h0, ← hq] at hans
  exact hans

/-- What is put out at the end is the result of the load. -/
theorem Working.done (h : Working i n q) (hd : Done q) :
    resO q = unitResult i :=
  (h.answers.2 hd).resO

end ArianeSoc.Serdiv

namespace ArianeSoc.Mult

open ReadOperands (FuData)

variable {q : State} {i : In} {d : FuData}

/-- The divider is on its way with the operation `d`. -/
structure Dividing (q : State) (d : FuData) : Prop where
  isDiv : isDiv d.operator = true
  word : q.wordOp = isWordDiv d.operator
  working : ∃ n i, Serdiv.Working i n q.div ∧
    Serdiv.unitResult i = Serdiv.unitResult (loadOf d) ∧ i.id = d.transId

theorem not_isMul_of_isDiv {op : FuOp} (h : isDiv op = true) :
    Multiplier.isMul op = false := by
  revert h
  cases op <;> decide

theorem Dividing.busy (h : Dividing q d) : q.div.state ≠ .IDLE := by
  obtain ⟨n, i, hw, -⟩ := h.working
  exact hw.busy

theorem Dividing.id (h : Dividing q d) : q.div.id = d.transId := by
  obtain ⟨n, i, hw, -, hid⟩ := h.working
  exact hw.id.trans hid

/-- A division enters an idle divider. -/
theorem dividing_load (hs : q.div.state = .IDLE) (hf : i.flush = false)
    (hv : i.multValid = true) (hd : Mult.isDiv i.fuData.operator = true) :
    Dividing (step q i) i.fuData := by
  have hnew : newDiv i = true := by rw [newDiv, hv, hd]; rfl
  refine ⟨hd, if_pos hnew, 0, divIn q i, Serdiv.Working.load hs ?_ hf, ?_,
    rfl⟩
  · show divValidOp i = true
    rw [divValidOp, hf, hnew]
    rfl
  · have hopA : (divIn q i).opA = (loadOf i.fuData).opA := if_pos hnew
    have hopB : (divIn q i).opB = (loadOf i.fuData).opB := if_pos hnew
    have hload : divIn q i =
        { loadOf i.fuData with
          inVld := divValidOp i
          flush := i.flush
          outRdy := !q.mul.multValid } := by
      show (⟨_, _, _, _, _, _, _⟩ : Serdiv.In) = ⟨_, _, _, _, _, _, _⟩
      rw [if_pos hnew, if_pos hnew]
      rfl
    rw [hload]
    rfl

/-- A division goes on until it is done. -/
theorem Dividing.next (h : Dividing q d) (hd : ¬ Serdiv.Done q.div)
    (hf : i.flush = false) (hv : i.multValid = false) :
    Dividing (step q i) d := by
  obtain ⟨hdiv, hword, n, j, hw, hres, hid⟩ := h
  have hnew : newDiv i = false := by rw [newDiv, hv]; rfl
  refine ⟨hdiv, ?_, n + 1, j, hw.step hd hf, hres, hid⟩
  show (if newDiv i then _ else q.wordOp) = _
  rw [hnew]
  exact hword

/-- A division that is done returns its result. -/
theorem Dividing.done (h : Dividing q d) (hd : Serdiv.Done q.div) :
    divResult q = value d := by
  obtain ⟨hdiv, hword, n, j, hw, hres, -⟩ := h
  rw [divResult, value, not_isMul_of_isDiv hdiv, hword, hw.done hd, hres]
  rfl

end ArianeSoc.Mult
