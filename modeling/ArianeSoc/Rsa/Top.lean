import ArianeSoc.Rsa.ModExp

/-!
# Key generation and the RSA accelerator

`inverter.v` looks for an exponent `e` that is prime to the totient and for
its inverse `d` with the extended Euclidean algorithm, one division a cycle;
`rsa_top.v` feeds one of the two to the exponentiation.

The search starts at `e = 1`, which passes at once (`keygen_eq`): the public
exponent is one for all primes, and encryption changes nothing.
-/

namespace ArianeSoc.Rsa

open Sync

namespace Inverter

/-- `` `UPDATING ``, `` `CHECK `` and `` `HOLDING ``. -/
abbrev UPDATING : BitVec 3 := 1#3
abbrev CHECK : BitVec 3 := 2#3
abbrev HOLDING : BitVec 3 := 3#3

/-- The registers; `w` is `WIDTH`. -/
structure Regs (w : ℕ) where
  totientReg : BitVec (w * 2)
  a : BitVec (w * 2)
  b : BitVec (w * 2)
  y : BitVec (w * 2)
  yPrev : BitVec (w * 2)
  state : BitVec 3
  eReg : BitVec (w * 2)

structure In (w : ℕ) where
  p : BitVec w
  q : BitVec w
  rstN : Bool

variable {w : ℕ}

/-- `(p-1)*(q-1)`, in the width of the wire. -/
def totient (i : In w) : BitVec (w * 2) :=
  (i.p.setWidth (w * 2) - 1#(w * 2)) * (i.q.setWidth (w * 2) - 1#(w * 2))

namespace Regs

variable (r : Regs w) (i : In w)

def quotient : BitVec (w * 2) := Mod.Q r.a r.b

def bNext : BitVec (w * 2) := Mod.R r.a r.b

def yNext : BitVec (w * 2) := r.yPrev - r.quotient * r.y

/-- `e_plus3`. -/
def ePlus3 : BitVec (w * 2) := r.eReg + 2#(w * 2)

def finish : Bool := r.state = HOLDING

def e : BitVec (w * 2) := r.eReg

def d : BitVec (w * 2) :=
  if r.eReg = 1#(w * 2) then totient i + 1#(w * 2) else r.yPrev

/-- The assignments of the reset, which the `case` behind them overwrites. -/
def resetAssigns : Regs w :=
  if i.rstN = false then
    { totientReg := totient i
      a := totient i
      b := 1#(w * 2)
      eReg := 1#(w * 2)
      y := 1#(w * 2)
      yPrev := 0#(w * 2)
      state := UPDATING }
  else r

/-- One cycle. -/
def next : Regs w :=
  let d := r.resetAssigns i
  if r.state = UPDATING then
    if r.b ≠ 0#(w * 2) then
      { d with
        a := r.b
        b := r.bNext
        y := r.yNext
        yPrev := r.y
        state := UPDATING }
    else { d with state := CHECK }
  else if r.state = CHECK then
    if r.a = 1#(w * 2) ∧ r.yPrev.getLsbD (w * 2 - 1) = false then
      { d with state := HOLDING }
    else
      { d with
        a := r.totientReg
        b := r.ePlus3
        eReg := r.ePlus3
        y := 1#(w * 2)
        yPrev := 0#(w * 2)
        state := UPDATING }
  else d

end Regs

end Inverter

/-! ## The top module -/

namespace Top

/-- The inputs. -/
structure In (w : ℕ) where
  rstN : Bool
  rst1N : Bool
  /-- High for encryption. -/
  encryptDecrypt : Bool
  p : BitVec w
  q : BitVec w
  msgIn : BitVec (w * 2)

/-- The registers that delay the inputs of the exponentiation by a cycle,
and the two modules. -/
structure Regs (w : ℕ) where
  expReg : BitVec (w * 2)
  msgReg : BitVec (w * 2)
  modReg : BitVec (w * 2)
  inverter : Inverter.Regs w
  modExp : ModExp.Regs w

variable {w : ℕ}

def In.inverter (i : In w) : Inverter.In w := ⟨i.p, i.q, i.rstN⟩

namespace Regs

variable (r : Regs w) (i : In w)

def exponent : BitVec (w * 2) :=
  if i.encryptDecrypt then r.inverter.e else r.inverter.d i.inverter

def modulo : BitVec (w * 2) := i.p.setWidth (w * 2) * i.q.setWidth (w * 2)

def msgOut : BitVec (w * 2) := r.modExp.result

/-- `mod_exp_finish_o`. -/
def modExpFinish : Bool := r.modExp.finish

def next : Regs w where
  expReg := r.exponent i
  msgReg := i.msgIn
  modReg := modulo i
  inverter := r.inverter.next i.inverter
  modExp := r.modExp.next
    ⟨r.msgReg, r.modReg, r.expReg, i.rst1N⟩

end Regs

/-! ## What is asked of it -/

/-- A reset of the inverter for one cycle, and `n` cycles behind it. -/
def keygen (p q : BitVec w) (n : ℕ) : List (In w) :=
  ⟨false, true, true, p, q, 0#(w * 2)⟩ ::
    List.replicate n ⟨true, true, true, p, q, 0#(w * 2)⟩

/-- A message is put in with the exponentiation in reset, for as long as the
registers on its way need, and `n` cycles behind it. -/
def crypt (enc : Bool) (p q : BitVec w) (msg : BitVec (w * 2)) (n : ℕ) :
    List (In w) :=
  List.replicate 2 ⟨true, false, enc, p, q, msg⟩ ++
    List.replicate n ⟨true, true, enc, p, q, msg⟩

/-- `(p-1)*(q-1)`. -/
def phi (p q : BitVec w) : ℕ := (p.toNat - 1) * (q.toNat - 1)

/-- The outputs of the inverter are a pair of exponents. -/
def KeyPair (p q : BitVec w) (e d : ℕ) : Prop :=
  1 < e ∧ e < phi p q ∧ e.gcd (phi p q) = 1 ∧ e * d % phi p q = 1 % phi p q

/-- What is encrypted from `r` on and then decrypted is the message. -/
def RoundTrip (p q : BitVec w) (r : Regs w) : Prop :=
  ∀ (m : BitVec (w * 2)) (n n' : ℕ), m.toNat < p.toNat * q.toNat →
    let r1 := run Regs.next r (crypt true p q m n)
    r1.modExpFinish = true →
      let r2 := run Regs.next r1 (crypt false p q r1.msgOut n')
      r2.modExpFinish = true → r2.msgOut = m

/-- From every state in which no search is going on, a key generation that
finishes gives a key pair with which every message makes the round trip. -/
def Works (p q : BitVec w) : Prop :=
  ∀ r n, r.inverter.state ≠ Inverter.UPDATING →
    r.inverter.state ≠ Inverter.CHECK →
    let s := run Regs.next r (keygen p q n)
    s.inverter.finish = true →
      KeyPair p q s.inverter.e.toNat
        (s.inverter.d ⟨p, q, true⟩).toNat ∧ RoundTrip p q s

/-! ## Key generation -/

variable {p q : BitVec w}

/-- The totient is that of the primes. -/
theorem totient_toNat (hp : 0 < p.toNat) (hq : 0 < q.toNat) (b : Bool) :
    (Inverter.totient ⟨p, q, b⟩).toNat = phi p q := by
  have hpw := p.isLt
  have hqw := q.isLt
  have hsplit := ArianeSoc.Rsa.Mod.two_pow_double w
  have hle : 2 ^ w ≤ 2 ^ (w * 2) := Nat.pow_le_pow_right (by decide) (by omega)
  have hone : (1#(w * 2)).toNat = 1 := by
    rw [BitVec.toNat_ofNat]
    exact Nat.mod_eq_of_lt (by omega)
  have hpred : ∀ x : BitVec w, 0 < x.toNat →
      (x.setWidth (w * 2) - 1#(w * 2)).toNat = x.toNat - 1 := by
    intro x hx
    have hxw := x.isLt
    have hset : (x.setWidth (w * 2)).toNat = x.toNat :=
      BitVec.toNat_setWidth_of_le (by omega)
    rw [BitVec.toNat_sub_of_le (by rw [BitVec.le_def, hone, hset]; exact hx),
      hone, hset]
  unfold Inverter.totient phi
  rw [BitVec.toNat_mul, hpred p hp, hpred q hq]
  refine Nat.mod_eq_of_lt ?_
  rw [hsplit]
  exact Nat.mul_lt_mul'' (by omega) (by omega)

/-- A cycle of the inverter in which no search is going on. -/
theorem next_idle {r : Inverter.Regs w} {i : Inverter.In w}
    (hu : r.state ≠ Inverter.UPDATING) (hc : r.state ≠ Inverter.CHECK) :
    r.next i = r.resetAssigns i := by
  unfold Inverter.Regs.next
  rw [if_neg hu, if_neg hc]

/-- The search from one: it divides the totient by one, and passes. -/
theorem inverter_search (hw : 0 < w) {r : Inverter.Regs w}
    {i : Inverter.In w} (hi : i.rstN = true)
    (hr : r = { totientReg := Inverter.totient i
                a := Inverter.totient i
                b := 1#(w * 2)
                eReg := 1#(w * 2)
                y := 1#(w * 2)
                yPrev := 0#(w * 2)
                state := Inverter.UPDATING }) :
    (((r.next i).next i).next i).state = Inverter.HOLDING ∧
      (((r.next i).next i).next i).eReg = 1#(w * 2) := by
  have hwidth : 1 < 2 ^ (w * 2) := Nat.one_lt_two_pow (by omega)
  have hone : (1#(w * 2)).toNat = 1 := by
    rw [BitVec.toNat_ofNat]
    exact Nat.mod_eq_of_lt hwidth
  have hne : 1#(w * 2) ≠ 0#(w * 2) := by
    intro h
    have hnat := congrArg BitVec.toNat h
    rw [hone] at hnat
    simp at hnat
  have hrem : Mod.R (Inverter.totient i) 1#(w * 2) = 0#(w * 2) := by
    apply BitVec.eq_of_toNat_eq
    have hsign : Mod.SignRight (w * 2) (Inverter.totient i).toNat
        (1#(w * 2)).toNat := by
      rw [hone]
      exact .inl (Nat.two_pow_pos _)
    rw [(Mod.mod_of_signRight (by omega) hsign).1, hone, Nat.mod_one]
    rfl
  have hsign : (1#(w * 2)).getLsbD (w * 2 - 1) = false := by
    rw [BitVec.getLsbD, hone]
    apply Nat.testBit_lt_two_pow
    exact Nat.one_lt_two_pow (by omega)
  have hreset : ∀ r : Inverter.Regs w, r.resetAssigns i = r := by
    intro r
    unfold Inverter.Regs.resetAssigns
    rw [if_neg (by simp [hi])]
  have hdivide : (r.next i).state = Inverter.UPDATING ∧
      (r.next i).a = 1#(w * 2) ∧ (r.next i).b = 0#(w * 2) ∧
      (r.next i).yPrev = 1#(w * 2) ∧ (r.next i).eReg = 1#(w * 2) := by
    subst hr
    unfold Inverter.Regs.next
    rw [if_pos rfl, if_pos hne, hreset]
    exact ⟨rfl, rfl, hrem, rfl, rfl⟩
  obtain ⟨hst, ha, hb, hy, he⟩ := hdivide
  have hcheck : (r.next i).next i =
      { r.next i with state := Inverter.CHECK } := by
    generalize r.next i = r' at hst hb ⊢
    unfold Inverter.Regs.next
    rw [if_pos hst, if_neg (not_not.mpr hb), hreset]
  rw [hcheck]
  generalize r.next i = r' at ha hy he ⊢
  have hlast : ({ r' with state := Inverter.CHECK } : Inverter.Regs w).next i =
      { r' with state := Inverter.HOLDING } := by
    have hne' : Inverter.CHECK ≠ Inverter.UPDATING := by decide
    unfold Inverter.Regs.next
    rw [if_neg hne', if_pos rfl,
      if_pos ⟨ha, by rw [hy]; exact hsign⟩, hreset]
  rw [hlast]
  exact ⟨rfl, he⟩

/-- Every key generation finishes after three cycles, with one as the public
exponent. -/
theorem keygen_eq (hw : 0 < w) (r : Regs w)
    (hu : r.inverter.state ≠ Inverter.UPDATING)
    (hc : r.inverter.state ≠ Inverter.CHECK) :
    (run Regs.next r (keygen p q 3)).inverter.finish = true ∧
      (run Regs.next r (keygen p q 3)).inverter.e = 1#(w * 2) := by
  have hstart : r.inverter.next ⟨p, q, false⟩ = _ := next_idle hu hc
  obtain ⟨hst, he⟩ := inverter_search hw (r := r.inverter.next ⟨p, q, false⟩)
    (i := ⟨p, q, true⟩) rfl hstart
  exact ⟨decide_eq_true hst, he⟩

/-- The private exponent that goes with it is its inverse. -/
theorem keygen_d (hp : 0 < p.toNat) (hq : 0 < q.toNat) {r : Regs w}
    (he : r.inverter.e = 1#(w * 2)) :
    (r.inverter.d ⟨p, q, true⟩).toNat = phi p q + 1 := by
  have hpw := p.isLt
  have hqw := q.isLt
  have hsplit := ArianeSoc.Rsa.Mod.two_pow_double w
  have hphi : phi p q < (2 ^ w - 1) * (2 ^ w - 1) :=
    Nat.mul_lt_mul'' (by omega) (by omega)
  have hroom : (2 ^ w - 1) * (2 ^ w - 1) ≤ (2 ^ w - 1) * 2 ^ w :=
    Nat.mul_le_mul_left _ (Nat.sub_le _ _)
  have hlast : (2 ^ w - 1) * 2 ^ w = 2 ^ w * 2 ^ w - 2 ^ w := by
    rw [Nat.sub_mul, Nat.one_mul]
  have hone : (1#(w * 2)).toNat = 1 := by
    rw [BitVec.toNat_ofNat]
    exact Nat.mod_eq_of_lt (by omega)
  have he' : r.inverter.eReg = 1#(w * 2) := he
  unfold Inverter.Regs.d
  rw [if_pos he', BitVec.toNat_add, totient_toNat hp hq, hone]
  exact Nat.mod_eq_of_lt (by omega)

/-- No two numbers make the module work: the public exponent is one. -/
theorem not_works (hw : 0 < w) (p q : BitVec w) : ¬ Works p q := by
  intro h
  let r : Regs w := ⟨0#_, 0#_, 0#_, ⟨0#_, 0#_, 0#_, 0#_, 0#_, 0#3, 0#_⟩,
    ⟨0#_, 0#_, 0#_, 0#_, 0#2⟩⟩
  have hu : r.inverter.state ≠ Inverter.UPDATING := by
    show 0#3 ≠ _
    decide
  have hc : r.inverter.state ≠ Inverter.CHECK := by
    show 0#3 ≠ _
    decide
  obtain ⟨hfin, he⟩ := keygen_eq (p := p) (q := q) hw r hu hc
  have hlt := (h r 3 hu hc hfin).1.1
  rw [he, BitVec.toNat_ofNat] at hlt
  have hle := Nat.mod_le 1 (2 ^ (w * 2))
  omega

/-- The primes eleven and thirteen. -/
theorem not_works_primes : ¬ Works 11#4 13#4 :=
  not_works (by decide) 11#4 13#4

/-- With these primes a message does not make the round trip either. -/
theorem round_trip_wrong :
    ¬ RoundTrip 11#4 13#4 (run Regs.next ⟨0#8, 0#8, 0#8,
      ⟨0#8, 0#8, 0#8, 0#8, 0#8, 0#3, 0#8⟩, ⟨0#8, 0#8, 0#8, 0#8, 0#2⟩⟩
        (keygen 11#4 13#4 3)) := by
  intro h
  have hm := h 20#8 3 9 (by decide) (by decide +kernel) (by decide +kernel)
  exact absurd hm (by decide +kernel)

end Top

end ArianeSoc.Rsa
