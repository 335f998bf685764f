import Mathlib.Algebra.Group.Nat.Defs
import Mathlib.Algebra.Ring.Int.Defs
import Mathlib.Data.Int.Basic
import Mathlib.Data.List.GetD
import Mathlib.Logic.Function.Basic
import Mathlib.Tactic.Common

/-!
# Formatted output in the proxy kernel

`vsnprintf` of `pk/util/snprintf.c`.  It counts in `pos` what it would print
and writes what fits into the buffer.  The arguments lie in slots of eight
bytes, an `int` sign-extended, and `va_arg` reads the next of them.

A format is a list of `Item`s, each a character or a conversion with its
argument.  `Item.text` is what is to be printed for it and `Item.printed`
what is; they differ for `%llx` and for the smallest 64-bit number.

* `run_items`: the buffer and the count after a format.
* `hidden_iff`: when a difference of the two texts is not seen.
-/

namespace ArianeSoc.Pk.Snprintf

abbrev Byte := BitVec 8

/-- An ASCII character. -/
def ch (c : Char) : Byte := BitVec.ofNat 8 c.toNat

/-! ## The code -/

/-- The local variables, with the buffer and the slot that is read next. -/
structure State where
  out : ℕ → Byte
  pos : ℕ
  vl : ℕ
  format : Bool
  longarg : Bool
  longlongarg : Bool

/-- A value of `size_t`. -/
def sizeT (x : ℕ) : ℕ := x % 2 ^ 64

/-- `'0' + d` or `'a' + d - 10`. -/
def hexDigit (d : BitVec 64) : Byte :=
  if d.toNat < 10 then ch '0' + d.setWidth 8 else ch 'a' + d.setWidth 8 - 10#8

theorem natAbs_tdiv_lt {nn : ℤ} (h : nn.tdiv 10 ≠ 0) :
    (nn.tdiv 10).natAbs < nn.natAbs := by
  rw [Int.natAbs_tdiv]
  refine Nat.div_lt_self (Nat.pos_of_ne_zero fun hz => h ?_) (by decide)
  rw [Int.natAbs_eq_zero.mp hz]
  rfl

/-- The number of steps until `nn /= 10` is zero. -/
def digits (nn : ℤ) : ℕ :=
  if h : nn.tdiv 10 = 0 then 1 else digits (nn.tdiv 10) + 1
termination_by nn.natAbs
decreasing_by exact natAbs_tdiv_lt h

section Code

variable (slots : ℕ → BitVec 64) (strAt : BitVec 64 → List Byte) (n : ℕ)

/-- `if (++pos < n) out[pos-1] = c`. -/
def put (st : State) (c : Byte) : State :=
  { st with
    pos := sizeT (st.pos + 1)
    out :=
      if sizeT (st.pos + 1) < n then
        Function.update st.out (sizeT (sizeT (st.pos + 1) + (2 ^ 64 - 1))) c
      else st.out }

/-- `va_arg`. -/
def arg (st : State) : BitVec 64 := slots st.vl

def next (st : State) : State := { st with vl := st.vl + 1 }

/-- `case 'x'`. -/
def convX (st : State) : State :=
  let num := if st.longarg then arg slots st else ((arg slots st).setWidth 32).signExtend 64
  let len := if st.longarg then 16 else 8
  let text := (List.range len).reverse.map fun i => hexDigit (num.sshiftRight (4 * i) &&& 0xF#64)
  { text.foldl (put n) (next st) with longarg := false, format := false }

/-- `case 'p'`, which falls through to `case 'x'`. -/
def convP (st : State) : State :=
  convX slots n (put n (put n { st with longarg := true } (ch '0')) (ch 'x'))

/-- The loop over the digits, the last one first. -/
def putDigits (pos : ℕ) : ℕ → ℤ → (ℕ → Byte) → ℕ → Byte
  | 0, _, out => out
  | i + 1, num, out =>
    putDigits pos i (num.tdiv 10)
      (if sizeT (pos + i + 1) < n then
        Function.update out (sizeT (pos + i)) (ch '0' + BitVec.ofInt 8 (num.tmod 10))
      else out)

/-- `case 'd'`. -/
def convD (st : State) : State :=
  let num :=
    if st.longarg || st.longlongarg then arg slots st
    else ((arg slots st).setWidth 32).signExtend 64
  let st := if num.slt 0#64 then put n (next st) (ch '-') else next st
  let num := (if num.slt 0#64 then -num else num).toInt
  { st with
    out := putDigits n st.pos (digits num) num st.out
    pos := sizeT (st.pos + digits num)
    longarg := false
    longlongarg := false
    format := false }

/-- `case 's'`. -/
def convS (st : State) : State :=
  { (strAt (arg slots st)).foldl (put n) (next st) with longarg := false, format := false }

/-- `case 'c'`; the argument is read where the character is written. -/
def convC (st : State) : State :=
  let st' :=
    if sizeT (st.pos + 1) < n then put n (next st) ((arg slots st).setWidth 8)
    else { st with pos := sizeT (st.pos + 1) }
  { st' with longarg := false, format := false }

/-- One character of the format. -/
def step (st : State) (c : Byte) : State :=
  if st.format then
    if c = ch 'l' then { st with longarg := true }
    else if c = ch 'p' then convP slots n st
    else if c = ch 'x' then convX slots n st
    else if c = ch 'd' then convD slots n st
    else if c = ch 's' then convS slots strAt n st
    else if c = ch 'c' then convC slots n st
    else st
  else if c = ch '%' then { st with format := true }
  else put n st c

/-- The loop over the format. -/
def run (st : State) : List Byte → State
  | [] => st
  | [c] => step slots strAt n st c
  | c :: c' :: s =>
    if st.format && c == ch 'l' && c' == ch 'l' then run { st with longlongarg := true } s
    else run (step slots strAt n st c) (c' :: s)

/-- The buffer and the result of `vsnprintf`. -/
def vsnprintf (out : ℕ → Byte) (s : List Byte) : (ℕ → Byte) × ℤ :=
  let st := run slots strAt n ⟨out, 0, 0, false, false, false⟩ s
  (if st.pos < n then Function.update st.out st.pos 0#8
    else if n ≠ 0 then Function.update st.out (n - 1) 0#8
    else st.out,
    (BitVec.ofNat 32 st.pos).toInt)

end Code

/-! ## What is to be printed -/

/-- A number in decimal. -/
def decimal (v : ℤ) : List Byte :=
  (if v < 0 then [ch '-'] else []) ++ (Nat.toDigits 10 v.natAbs).map ch

/-- The last `len` hexadecimal digits of a number. -/
def hex (len v : ℕ) : List Byte :=
  (List.range len).reverse.map fun i => ch (Nat.digitChar (v / 16 ^ i % 16))

/-- The smallest `long` and `long long`. -/
def LLONG_MIN : BitVec 64 := BitVec.intMin 64

/-- A character of the format, or a conversion with its argument. -/
inductive Item
  | lit (b : Byte) (hpercent : b ≠ ch '%') (hzero : b ≠ 0#8)
  | d (v : BitVec 32)
  | ld (v : BitVec 64)
  | lld (v : BitVec 64)
  | x (v : BitVec 32)
  | lx (v : BitVec 64)
  | llx (v : BitVec 64)
  | p (v : BitVec 64)
  | s (v : BitVec 64)
  | c (v : BitVec 32)

namespace Item

/-- The characters in the format string. -/
def format : Item → List Byte
  | lit b .. => [b]
  | d _ => [ch '%', ch 'd']
  | ld _ => [ch '%', ch 'l', ch 'd']
  | lld _ => [ch '%', ch 'l', ch 'l', ch 'd']
  | x _ => [ch '%', ch 'x']
  | lx _ => [ch '%', ch 'l', ch 'x']
  | llx _ => [ch '%', ch 'l', ch 'l', ch 'x']
  | p _ => [ch '%', ch 'p']
  | s _ => [ch '%', ch 's']
  | c _ => [ch '%', ch 'c']

/-- The slot of the argument; an `int` is sign-extended. -/
def slot : Item → Option (BitVec 64)
  | lit .. => none
  | d v | x v | c v => some (v.signExtend 64)
  | ld v | lld v | lx v | llx v | p v | s v => some v

variable (strAt : BitVec 64 → List Byte)

/-- What is to be printed. -/
def text : Item → List Byte
  | lit b .. => [b]
  | d v => decimal v.toInt
  | ld v | lld v => decimal v.toInt
  | x v => hex 8 v.toNat
  | lx v | llx v => hex 16 v.toNat
  | p v => [ch '0', ch 'x'] ++ hex 16 v.toNat
  | s v => strAt v
  | c v => [v.setWidth 8]

def isLit : Item → Bool
  | lit .. => true
  | _ => false

def isC : Item → Bool
  | c _ => true
  | _ => false

end Item

/-! ## Numbers -/

/-- The digits that `putDigits` writes. -/
def digitsText : ℕ → ℤ → List Byte
  | 0, _ => []
  | k + 1, num => digitsText k (num.tdiv 10) ++ [ch '0' + BitVec.ofInt 8 (num.tmod 10)]

theorem length_digitsText (k : ℕ) (num : ℤ) : (digitsText k num).length = k := by
  induction k generalizing num with
  | zero => rfl
  | succ k ih =>
    rw [digitsText, List.length_append, ih]
    rfl

theorem digitChar_eq {d : ℕ} (hd : d < 10) :
    ch '0' + BitVec.ofInt 8 (d : ℤ) = ch (Nat.digitChar d) := by
  revert d
  decide

theorem digits_natCast (m : ℕ) : digits (m : ℤ) = (Nat.toDigits 10 m).length := by
  induction m using Nat.strong_induction_on with
  | _ m ih =>
    have hdiv : (m : ℤ).tdiv 10 = ((m / 10 : ℕ) : ℤ) := rfl
    rw [digits, hdiv]
    rcases Nat.lt_or_ge m 10 with hlt | hge
    · rw [Nat.div_eq_of_lt hlt, Nat.toDigits_of_lt_base hlt]
      rfl
    · have hne : ((m / 10 : ℕ) : ℤ) ≠ 0 := by omega
      rw [dif_neg hne, ih (m / 10) (by omega), Nat.toDigits_of_base_le (by decide) hge,
        List.length_append]
      rfl

theorem digits_neg (num : ℤ) : digits (-num) = digits num := by
  have hneg := Int.neg_tdiv num 10
  induction num using digits.induct with
  | case1 num h =>
    have h' : (-num).tdiv 10 = 0 := by omega
    rw [digits, dif_pos h']
    conv_rhs => rw [digits, dif_pos h]
  | case2 num h ih =>
    have h' : (-num).tdiv 10 ≠ 0 := by omega
    rw [digits, dif_neg h', hneg, ih (Int.neg_tdiv _ 10)]
    conv_rhs => rw [digits, dif_neg h]

theorem digits_eq (num : ℤ) : digits num = (Nat.toDigits 10 num.natAbs).length := by
  rcases Int.natAbs_eq num with h | h
  · conv_lhs => rw [h]
    exact digits_natCast _
  · conv_lhs => rw [h]
    rw [digits_neg]
    exact digits_natCast _

theorem digitsText_natCast (m : ℕ) :
    digitsText (digits m) m = (Nat.toDigits 10 m).map ch := by
  induction m using Nat.strong_induction_on with
  | _ m ih =>
    have hdiv : (m : ℤ).tdiv 10 = ((m / 10 : ℕ) : ℤ) := rfl
    have hmod : (m : ℤ).tmod 10 = ((m % 10 : ℕ) : ℤ) := rfl
    have hlast := digitChar_eq (Nat.mod_lt m (show 0 < 10 by decide))
    rw [digits, hdiv]
    rcases Nat.lt_or_ge m 10 with hlt | hge
    · rw [Nat.div_eq_of_lt hlt, Nat.toDigits_of_lt_base hlt]
      rw [Nat.mod_eq_of_lt hlt] at hlast hmod
      show [ch '0' + BitVec.ofInt 8 ((m : ℤ).tmod 10)] = _
      rw [hmod, hlast]
      rfl
    · have hne : ((m / 10 : ℕ) : ℤ) ≠ 0 := by omega
      rw [dif_neg hne, digitsText, hdiv, hmod, hlast, ih (m / 10) (by omega),
        Nat.toDigits_of_base_le (by decide) hge, List.map_append]
      rfl

/-! ## Printing -/

section Print

variable {n pos : ℕ} {out : ℕ → Byte} {cs ds : List Byte} {st : State}

/-- The buffer with `cs` printed at `pos`, as far as it fits before the last
byte. -/
def write (n pos : ℕ) (cs : List Byte) (out : ℕ → Byte) (i : ℕ) : Byte :=
  if pos ≤ i ∧ i + 1 < n then cs.getD (i - pos) (out i) else out i

/-- The state with `cs` printed. -/
def emit (n : ℕ) (st : State) (cs : List Byte) : State :=
  { st with out := write n st.pos cs st.out, pos := st.pos + cs.length }

theorem write_nil : write n pos [] out = out := by
  funext i
  simp [write]

theorem write_append (a b : List Byte) :
    write n (pos + a.length) b (write n pos a out) = write n pos (a ++ b) out := by
  funext i
  unfold write
  by_cases hi : i + 1 < n
  · rcases Nat.lt_or_ge i pos with hlt | hge
    · simp [hi, Nat.not_le.mpr hlt, show ¬ pos + a.length ≤ i by omega]
    · rcases Nat.lt_or_ge i (pos + a.length) with hin | hout
      · rw [if_neg (by omega), if_pos ⟨hge, hi⟩, if_pos ⟨hge, hi⟩,
          List.getD_append _ _ _ _ (by omega)]
      · rw [if_pos ⟨hout, hi⟩, if_pos ⟨hge, hi⟩, if_pos ⟨hge, hi⟩,
          List.getD_append_right _ _ _ _ (by omega),
          List.getD_eq_default a _ (by omega), Nat.sub_sub]
  · simp [hi]

/-- What is printed behind may be printed first. -/
theorem write_comm (a b : List Byte) :
    write n pos a (write n (pos + a.length) b out) = write n pos (a ++ b) out := by
  rw [← write_append]
  funext i
  unfold write
  by_cases hi : i + 1 < n
  · rcases Nat.lt_or_ge i pos with hlt | hge
    · simp [hi, Nat.not_le.mpr hlt]
    · rcases Nat.lt_or_ge i (pos + a.length) with hin | hout
      · simp [hi, hge, Nat.not_le.mpr hin]
      · rw [if_pos ⟨hge, hi⟩, if_pos ⟨hout, hi⟩, if_pos ⟨hout, hi⟩, if_pos ⟨hge, hi⟩,
          List.getD_eq_default a _ (by omega), List.getD_eq_default a _ (by omega)]
  · simp [hi]

theorem emit_nil : emit n st [] = st := by
  unfold emit
  rw [write_nil]
  rfl

theorem emit_append : emit n (emit n st cs) ds = emit n st (cs ++ ds) := by
  unfold emit
  rw [write_append, List.length_append, ← Nat.add_assoc]

theorem write_singleton (c : Byte) :
    write n pos [c] out = if pos + 1 < n then Function.update out pos c else out := by
  funext i
  unfold write
  rcases eq_or_ne i pos with rfl | hne
  · split_ifs <;> simp_all
  · have hget : [c].getD (i - pos) (out i) = out i ∨ ¬ pos ≤ i := by
      rcases Nat.lt_or_ge i pos with hlt | hge
      · exact Or.inr (Nat.not_le.mpr hlt)
      · exact Or.inl (List.getD_eq_default _ _ (by simp; omega))
    split_ifs <;> simp_all

theorem sizeT_of_lt {x : ℕ} (h : x < 2 ^ 64) : sizeT x = x := Nat.mod_eq_of_lt h

theorem put_eq (h : st.pos + 1 < 2 ^ 64) (c : Byte) : put n st c = emit n st [c] := by
  have hindex : sizeT (st.pos + 1 + (2 ^ 64 - 1)) = st.pos := by
    unfold sizeT
    omega
  rw [put, emit, sizeT_of_lt h, hindex, write_singleton]
  rfl

theorem foldl_put (h : st.pos + cs.length < 2 ^ 64) :
    cs.foldl (put n) st = emit n st cs := by
  induction cs generalizing st with
  | nil => exact emit_nil.symm
  | cons c cs ih =>
    rw [List.length_cons] at h
    rw [List.foldl_cons, put_eq (by omega), ih (by simp [emit]; omega), emit_append]
    rfl

theorem putDigits_eq {k : ℕ} (num : ℤ) (h : pos + k < 2 ^ 64) :
    putDigits n pos k num out = write n pos (digitsText k num) out := by
  induction k generalizing num out with
  | zero => exact write_nil.symm
  | succ k ih =>
    have hlen := length_digitsText k (num.tdiv 10)
    rw [putDigits, sizeT_of_lt (show pos + k + 1 < 2 ^ 64 by omega),
      sizeT_of_lt (show pos + k < 2 ^ 64 by omega), ih _ (by omega), digitsText,
      ← write_comm, hlen, write_singleton]

end Print

/-! ## The conversions -/

/-- What `case 'd'` prints. -/
def signed (num : BitVec 64) : List Byte :=
  let m := (if num.slt 0#64 then -num else num).toInt
  (if num.slt 0#64 then [ch '-'] else []) ++ digitsText (digits m) m

/-- What `case 'x'` prints. -/
def nibbles (len : ℕ) (num : BitVec 64) : List Byte :=
  (List.range len).reverse.map fun i => hexDigit (num.sshiftRight (4 * i) &&& 0xF#64)

/-- What is printed for an item. -/
def Item.printed (strAt : BitVec 64 → List Byte) : Item → List Byte
  | .lit b .. => [b]
  | .d v => signed (v.signExtend 64)
  | .ld v | .lld v => signed v
  | .x v => nibbles 8 (v.signExtend 64)
  | .lx v => nibbles 16 v
  | .llx v => nibbles 8 ((v.setWidth 32).signExtend 64)
  | .p v => [ch '0', ch 'x'] ++ nibbles 16 v
  | .s v => strAt v
  | .c v => [v.setWidth 8]

theorem signed_eq {num : BitVec 64} (h : num ≠ LLONG_MIN) : signed num = decimal num.toInt := by
  have hslt : num.slt 0#64 = decide (num.toInt < 0) := by
    rw [BitVec.slt, BitVec.toInt_zero]
  unfold signed decimal
  rw [hslt]
  by_cases hneg : num.toInt < 0
  · have hm : (-num).toInt = (num.toInt.natAbs : ℤ) := by
      rw [BitVec.toInt_neg_of_ne_intMin h]
      omega
    simp only [hneg, decide_true, if_true, hm, digitsText_natCast]
  · have hm : num.toInt = (num.toInt.natAbs : ℤ) := by omega
    simp only [hneg, decide_false, Bool.false_eq_true, if_false]
    rw [hm, digitsText_natCast, Int.natAbs_natCast]

theorem hexDigit_eq {d : BitVec 64} (h : d.toNat < 16) :
    hexDigit d = ch (Nat.digitChar d.toNat) := by
  have hall : ∀ k < 16, hexDigit (BitVec.ofNat 64 k) = ch (Nat.digitChar k) := by decide
  have hd := hall d.toNat h
  rwa [BitVec.ofNat_toNat, BitVec.setWidth_eq] at hd

theorem nibble_toNat {w len i : ℕ} {v : BitVec w} {num : BitVec 64}
    (hbits : ∀ j < 4 * len, num.getLsbD j = v.getLsbD j) (hlen : 4 * len ≤ 64)
    (hi : i < len) :
    (num.sshiftRight (4 * i) &&& 0xF#64).toNat = v.toNat / 16 ^ i % 16 := by
  apply Nat.eq_of_testBit_eq
  intro j
  rw [show (16 : ℕ) = 2 ^ 4 from rfl, ← Nat.pow_mul, Nat.testBit_mod_two_pow,
    Nat.testBit_div_two_pow, BitVec.testBit_toNat, BitVec.testBit_toNat, BitVec.getLsbD_and,
    BitVec.getLsbD_sshiftRight]
  have hmask : (0xF#64).getLsbD j = decide (j < 4) := by
    rw [BitVec.getLsbD_ofNat, show (0xF : ℕ) = 2 ^ 4 - 1 from rfl, Nat.testBit_two_pow_sub_one]
    by_cases hj : j < 4
    · simp [hj, show j < 64 by omega]
    · simp [hj]
  rw [hmask]
  by_cases hj : j < 4
  · have hbit := hbits (4 * i + j) (by omega)
    simp only [hj, decide_true, Bool.and_true, Bool.true_and]
    rw [if_pos (by omega), hbit, Nat.add_comm]
    simp
    omega
  · simp [hj]

theorem nibbles_eq {w len : ℕ} {v : BitVec w} {num : BitVec 64}
    (hbits : ∀ j < 4 * len, num.getLsbD j = v.getLsbD j) (hlen : 4 * len ≤ 64) :
    nibbles len num = hex len v.toNat := by
  refine List.map_congr_left fun i hi => ?_
  have hlt : i < len := List.mem_range.mp (List.mem_reverse.mp hi)
  have hnat := nibble_toNat hbits hlen hlt
  rw [hexDigit_eq (hnat ▸ Nat.mod_lt _ (by decide)), hnat]

section Conversions

variable {slots : ℕ → BitVec 64} {strAt : BitVec 64 → List Byte} {n : ℕ} {st : State}

theorem length_nibbles (len : ℕ) (num : BitVec 64) : (nibbles len num).length = len := by
  simp [nibbles]

theorem convX_eq {num : BitVec 64} {len : ℕ}
    (hnum : (if st.longarg then arg slots st else ((arg slots st).setWidth 32).signExtend 64) =
      num) (hlen : (if st.longarg then 16 else 8) = len) (hpos : st.pos + len < 2 ^ 64) :
    convX slots n st =
      { emit n (next st) (nibbles len num) with longarg := false, format := false } := by
  unfold convX
  rw [hnum, hlen]
  show ({ (nibbles len num).foldl (put n) (next st) with longarg := false, format := false } :
    State) = _
  rw [foldl_put]
  rw [length_nibbles]
  exact hpos

theorem convD_eq {num : BitVec 64}
    (hnum : (if st.longarg || st.longlongarg then arg slots st
      else ((arg slots st).setWidth 32).signExtend 64) = num)
    (hpos : st.pos + (signed num).length < 2 ^ 64) :
    convD slots n st =
      { emit n (next st) (signed num) with
        longarg := false, longlongarg := false, format := false } := by
  unfold convD
  rw [hnum]
  unfold signed at hpos ⊢
  rw [List.length_append, length_digitsText] at hpos
  cases hneg : num.slt 0#64 with
  | true =>
    simp only [hneg, if_true, List.length_singleton] at hpos ⊢
    have hone : (next st).pos + 1 < 2 ^ 64 := by
      show st.pos + 1 < _
      omega
    have hput : put n (next st) (ch '-') = emit n (next st) [ch '-'] := put_eq hone _
    have hbound : (emit n (next st) [ch '-']).pos + digits (-num).toInt < 2 ^ 64 := by
      show st.pos + 1 + _ < _
      omega
    rw [hput, putDigits_eq _ hbound, sizeT_of_lt hbound, ← emit_append]
    simp only [emit, length_digitsText]
  | false =>
    simp only [hneg, Bool.false_eq_true, if_false, List.length_nil, Nat.zero_add] at hpos ⊢
    have hbound : (next st).pos + digits num.toInt < 2 ^ 64 := hpos
    rw [putDigits_eq _ hbound, sizeT_of_lt hbound, List.nil_append]
    simp only [emit, length_digitsText]

theorem convS_eq (hpos : st.pos + (strAt (arg slots st)).length < 2 ^ 64) :
    convS slots strAt n st =
      { emit n (next st) (strAt (arg slots st)) with longarg := false, format := false } := by
  unfold convS
  rw [foldl_put]
  exact hpos

theorem convC_eq (hpos : st.pos + 1 < 2 ^ 64) :
    convC slots n st =
      { emit n st [(arg slots st).setWidth 8] with
        vl := st.vl + (if st.pos + 1 < n then 1 else 0)
        longarg := false
        format := false } := by
  unfold convC
  rw [sizeT_of_lt hpos]
  split_ifs with hfit
  · have hone : (next st).pos + 1 < 2 ^ 64 := hpos
    rw [put_eq hone]
    rfl
  · simp only [emit, write_singleton, if_neg hfit, List.length_singleton, Nat.add_zero]

/-! ## The format -/

variable {c : Byte} {rest : List Byte}

theorem run_cons
    (h : st.format = false ∨ c ≠ ch 'l' ∨ rest.head? ≠ some (ch 'l')) :
    run slots strAt n st (c :: rest) = run slots strAt n (step slots strAt n st c) rest := by
  cases rest with
  | nil => rfl
  | cons c' rest =>
    rw [run, if_neg]
    simp only [Bool.and_eq_true, beq_iff_eq]
    rintro ⟨⟨hf, hc⟩, hc'⟩
    rcases h with h | h | h
    · exact Bool.false_ne_true (h.symm.trans hf)
    · exact h hc
    · exact h (congrArg some hc')

theorem run_ll (h : st.format = true) :
    run slots strAt n st (ch 'l' :: ch 'l' :: rest) =
      run slots strAt n { st with longlongarg := true } rest := by
  rw [run, if_pos (by simp [h])]

theorem run_percent (h : st.format = false) :
    run slots strAt n st (ch '%' :: rest) =
      run slots strAt n { st with format := true } rest := by
  rw [run_cons (Or.inl h), step, h, if_neg Bool.false_ne_true, if_pos rfl]

theorem run_l (h : st.format = true) (hrest : rest.head? ≠ some (ch 'l')) :
    run slots strAt n st (ch 'l' :: rest) =
      run slots strAt n { st with longarg := true } rest := by
  rw [run_cons (Or.inr (Or.inr hrest)), step, h, if_pos rfl, if_pos rfl]

theorem run_d (h : st.format = true) :
    run slots strAt n st (ch 'd' :: rest) = run slots strAt n (convD slots n st) rest := by
  rw [run_cons (Or.inr (Or.inl (by decide))), step, h]
  rfl

theorem run_x (h : st.format = true) :
    run slots strAt n st (ch 'x' :: rest) = run slots strAt n (convX slots n st) rest := by
  rw [run_cons (Or.inr (Or.inl (by decide))), step, h]
  rfl

theorem run_p (h : st.format = true) :
    run slots strAt n st (ch 'p' :: rest) = run slots strAt n (convP slots n st) rest := by
  rw [run_cons (Or.inr (Or.inl (by decide))), step, h]
  rfl

theorem run_s (h : st.format = true) :
    run slots strAt n st (ch 's' :: rest) =
      run slots strAt n (convS slots strAt n st) rest := by
  rw [run_cons (Or.inr (Or.inl (by decide))), step, h]
  rfl

theorem run_c (h : st.format = true) :
    run slots strAt n st (ch 'c' :: rest) = run slots strAt n (convC slots n st) rest := by
  rw [run_cons (Or.inr (Or.inl (by decide))), step, h]
  rfl

/-- The slots that are read for an item that is printed at `pos`. -/
def reads (n pos : ℕ) (it : Item) : ℕ :=
  if it.isLit then 0 else if it.isC then if pos + 1 < n then 1 else 0 else 1

theorem getLsbD_signExtend_of_lt (v : BitVec 32) {j : ℕ} (hj : j < 32) :
    (v.signExtend 64).getLsbD j = v.getLsbD j := by
  rw [BitVec.getLsbD_signExtend, if_pos hj]
  simp [show j < 64 by omega]

theorem setWidth_signExtend {m : ℕ} (hm : m ≤ 32) (v : BitVec 32) :
    (v.signExtend 64).setWidth m = v.setWidth m := by
  apply BitVec.eq_of_getLsbD_eq
  intro j hj
  rw [BitVec.getLsbD_setWidth, BitVec.getLsbD_setWidth,
    getLsbD_signExtend_of_lt v (by omega)]

/-- An `int` that is passed is the `int` that is read. -/
theorem passed_int (v : BitVec 32) :
    ((v.signExtend 64).setWidth 32).signExtend 64 = v.signExtend 64 := by
  rw [setWidth_signExtend (Nat.le_refl 32), BitVec.setWidth_eq]

/-- One item of the format. -/
theorem run_item (it : Item) (hf : st.format = false) (hl : st.longarg = false)
    (hslot : ∀ w, it.slot = some w → slots st.vl = w)
    (hpos : st.pos + (it.printed strAt).length < 2 ^ 64) :
    ∃ b, run slots strAt n st (it.format ++ rest) =
      run slots strAt n
        { emit n st (it.printed strAt) with
          vl := st.vl + reads n st.pos it
          format := false
          longarg := false
          longlongarg := b } rest := by
  cases it with
  | lit b hpercent hzero =>
    refine ⟨st.longlongarg, ?_⟩
    show run slots strAt n st (b :: rest) = _
    rw [run_cons (Or.inl hf), step, hf, if_neg Bool.false_ne_true, if_neg hpercent,
      put_eq hpos]
    obtain ⟨out, pos, vl, format, longarg, longlongarg⟩ := st
    obtain rfl : format = false := hf
    obtain rfl : longarg = false := hl
    rfl
  | d v =>
    have hnum : (if st.longarg || st.longlongarg then slots st.vl
        else ((slots st.vl).setWidth 32).signExtend 64) = v.signExtend 64 := by
      rw [hslot _ rfl, passed_int, ite_self]
    refine ⟨false, ?_⟩
    show run slots strAt n st (ch '%' :: ch 'd' :: rest) = _
    rw [run_percent hf, run_d rfl,
      @convD_eq slots n { st with format := true } _ hnum hpos]
    rfl
  | ld v =>
    refine ⟨false, ?_⟩
    show run slots strAt n st (ch '%' :: ch 'l' :: ch 'd' :: rest) = _
    rw [run_percent hf, run_l rfl (by simp; decide), run_d rfl,
      @convD_eq slots n { st with format := true, longarg := true } v (hslot _ rfl) hpos]
    rfl
  | lld v =>
    have hnum : (if st.longarg || true then slots st.vl
        else ((slots st.vl).setWidth 32).signExtend 64) = v := by
      rw [Bool.or_true, if_pos rfl, hslot _ rfl]
    refine ⟨false, ?_⟩
    show run slots strAt n st (ch '%' :: ch 'l' :: ch 'l' :: ch 'd' :: rest) = _
    rw [run_percent hf, run_ll rfl, run_d rfl,
      @convD_eq slots n { st with format := true, longlongarg := true } v hnum hpos]
    rfl
  | x v =>
    have hnum : (if st.longarg then slots st.vl
        else ((slots st.vl).setWidth 32).signExtend 64) = v.signExtend 64 := by
      rw [hslot _ rfl, passed_int, ite_self]
    refine ⟨st.longlongarg, ?_⟩
    show run slots strAt n st (ch '%' :: ch 'x' :: rest) = _
    rw [run_percent hf, run_x rfl,
      @convX_eq slots n { st with format := true } _ 8 hnum (by simp [hl]) hpos]
    rfl
  | lx v =>
    refine ⟨st.longlongarg, ?_⟩
    show run slots strAt n st (ch '%' :: ch 'l' :: ch 'x' :: rest) = _
    rw [run_percent hf, run_l rfl (by simp; decide), run_x rfl,
      @convX_eq slots n { st with format := true, longarg := true } v 16 (hslot _ rfl) rfl hpos]
    rfl
  | llx v =>
    have hnum : (if st.longarg then slots st.vl
        else ((slots st.vl).setWidth 32).signExtend 64) =
        (v.setWidth 32).signExtend 64 := by
      rw [hl, if_neg Bool.false_ne_true, hslot _ rfl]
    refine ⟨true, ?_⟩
    show run slots strAt n st (ch '%' :: ch 'l' :: ch 'l' :: ch 'x' :: rest) = _
    rw [run_percent hf, run_ll rfl, run_x rfl,
      @convX_eq slots n { st with format := true, longlongarg := true } _ 8 hnum
        (by simp [hl]) hpos]
    rfl
  | p v =>
    have hlen : (Item.printed strAt (.p v)).length = 18 := by
      simp [Item.printed, length_nibbles]
    rw [hlen] at hpos
    have hput : put n (put n { st with format := true, longarg := true } (ch '0')) (ch 'x') =
        emit n { st with format := true, longarg := true } [ch '0', ch 'x'] := by
      have htwo := @foldl_put n [ch '0', ch 'x'] { st with format := true, longarg := true }
        (show st.pos + 2 < 2 ^ 64 by omega)
      exact htwo
    refine ⟨st.longlongarg, ?_⟩
    show run slots strAt n st (ch '%' :: ch 'p' :: rest) = _
    rw [run_percent hf, run_p rfl, convP, hput,
      @convX_eq slots n (emit n { st with format := true, longarg := true } [ch '0', ch 'x'])
        v 16 (hslot _ rfl) rfl (show st.pos + 2 + 16 < 2 ^ 64 from hpos)]
    show run slots strAt n ({ emit n (emit n (next { st with format := true, longarg := true })
      [ch '0', ch 'x']) (nibbles 16 v) with longarg := false, format := false }) rest = _
    rw [emit_append]
    rfl
  | s v =>
    have harg : slots st.vl = v := hslot _ rfl
    refine ⟨st.longlongarg, ?_⟩
    show run slots strAt n st (ch '%' :: ch 's' :: rest) = _
    rw [run_percent hf, run_s rfl,
      @convS_eq slots strAt n { st with format := true } (show st.pos +
        (strAt (slots st.vl)).length < 2 ^ 64 by rw [harg]; exact hpos)]
    show run slots strAt n ({ emit n _ (strAt (slots st.vl)) with
      longarg := false, format := false }) rest = _
    rw [harg]
    rfl
  | c v =>
    have hbyte : (slots st.vl).setWidth 8 = v.setWidth 8 := by
      rw [hslot _ rfl, setWidth_signExtend (by decide)]
    refine ⟨st.longlongarg, ?_⟩
    show run slots strAt n st (ch '%' :: ch 'c' :: rest) = _
    rw [run_percent hf, run_c rfl, @convC_eq slots n { st with format := true } hpos]
    show run slots strAt n ({ emit n _ [(slots st.vl).setWidth 8] with
      vl := _, longarg := false, format := false }) rest = _
    rw [hbyte]
    rfl

/-! ## The whole format -/

/-- The slots from `k` on hold the arguments of the items. -/
def Passed (slots : ℕ → BitVec 64) : ℕ → List Item → Prop
  | _, [] => True
  | k, it :: its =>
    match it.slot with
    | none => Passed slots k its
    | some w => slots k = w ∧ Passed slots (k + 1) its

/-- A `%c` with a conversion behind it is printed where it fits. -/
def Spaced (strAt : BitVec 64 → List Byte) (n : ℕ) : ℕ → List Item → Prop
  | _, [] => True
  | pos, it :: its =>
    (it.isC = true → pos + 1 < n ∨ ∀ it' ∈ its, it'.isLit = true) ∧
      Spaced strAt n (pos + (it.printed strAt).length) its

theorem slot_of_isLit {it : Item} (h : it.isLit = true) : it.slot = none := by
  cases it <;> first | rfl | cases h

theorem passed_of_isLit {its : List Item} (h : ∀ it ∈ its, it.isLit = true) (k : ℕ) :
    Passed slots k its := by
  induction its with
  | nil => trivial
  | cons it its ih =>
    rw [Passed, slot_of_isLit (h it List.mem_cons_self)]
    exact ih fun it' hit' => h it' (List.mem_cons_of_mem it hit')

/-- The next item finds its argument. -/
theorem passed_next {it : Item} {its : List Item} {k pos : ℕ}
    (hp : Passed slots k (it :: its)) (hs : Spaced strAt n pos (it :: its)) :
    (∀ w, it.slot = some w → slots k = w) ∧ Passed slots (k + reads n pos it) its := by
  rw [Passed] at hp
  cases hslot : it.slot with
  | none =>
    rw [hslot] at hp
    refine ⟨fun w hw => (nomatch hw), ?_⟩
    have hlit : it.isLit = true := by
      cases it <;> first | rfl | cases hslot
    rw [reads, if_pos hlit]
    exact hp
  | some w =>
    rw [hslot] at hp
    refine ⟨fun w' hw' => hp.1.trans (Option.some.inj hw'), ?_⟩
    have hlit : it.isLit = false := by
      cases it <;> first | rfl | cases hslot
    rw [reads, hlit, if_neg Bool.false_ne_true]
    split_ifs with hc hfit
    · exact hp.2
    · exact passed_of_isLit ((hs.1 hc).resolve_left hfit) _
    · exact hp.2

theorem run_items (its : List Item) (hf : st.format = false) (hl : st.longarg = false)
    (hp : Passed slots st.vl its) (hs : Spaced strAt n st.pos its)
    (hpos : st.pos + (its.flatMap (Item.printed strAt)).length < 2 ^ 64) :
    (run slots strAt n st (its.flatMap Item.format)).out =
        write n st.pos (its.flatMap (Item.printed strAt)) st.out ∧
      (run slots strAt n st (its.flatMap Item.format)).pos =
        st.pos + (its.flatMap (Item.printed strAt)).length := by
  induction its generalizing st with
  | nil =>
    rw [List.flatMap_nil, List.flatMap_nil, write_nil]
    exact ⟨rfl, rfl⟩
  | cons it its ih =>
    rw [List.flatMap_cons, List.length_append] at hpos
    obtain ⟨hslot, hnext⟩ := passed_next hp hs
    have hone : st.pos + (it.printed strAt).length < 2 ^ 64 := by omega
    obtain ⟨b, hrun⟩ := run_item it hf hl hslot hone
    rw [List.flatMap_cons, hrun]
    rw [List.flatMap_cons, List.length_append, ← write_append, ← Nat.add_assoc]
    refine ih rfl rfl hnext hs.2 ?_
    show st.pos + (it.printed strAt).length + _ < _
    omega

end Conversions

/-! ## Where the two texts differ -/

section Texts

variable {strAt : BitVec 64 → List Byte} {n pos : ℕ}

def Item.isLlx : Item → Bool
  | .llx _ => true
  | _ => false

/-- The smallest number of 64 bits in decimal. -/
def Item.isMin : Item → Bool
  | .ld v | .lld v => v == LLONG_MIN
  | _ => false

theorem length_signed (num : BitVec 64) : (signed num).length = (decimal num.toInt).length := by
  have hslt : num.slt 0#64 = decide (num.toInt < 0) := by
    rw [BitVec.slt, BitVec.toInt_zero]
  have habs : (if num.toInt < 0 then -num else num).toInt.natAbs = num.toInt.natAbs := by
    split_ifs
    · rcases eq_or_ne num LLONG_MIN with rfl | hne
      · rfl
      · rw [BitVec.toInt_neg_of_ne_intMin hne, Int.natAbs_neg]
    · rfl
  unfold signed decimal
  simp only [hslt, decide_eq_true_eq, List.length_append, length_digitsText, digits_eq, habs,
    List.length_map]

theorem signExtend_ne (v : BitVec 32) : v.signExtend 64 ≠ LLONG_MIN := by
  intro h
  have hlt := v.le_toInt
  have hint := congrArg BitVec.toInt h
  rw [BitVec.toInt_signExtend_of_le (by decide)] at hint
  have hmin : LLONG_MIN.toInt = -2 ^ 63 := by decide
  omega

theorem length_printed (strAt : BitVec 64 → List Byte) (it : Item) :
    (it.printed strAt).length + (if it.isLlx then 8 else 0) = (it.text strAt).length := by
  have hhex : ∀ len v, (hex len v).length = len := fun len v => by simp [hex]
  cases it with
  | d v =>
    show (signed _).length + 0 = (decimal v.toInt).length
    rw [length_signed, BitVec.toInt_signExtend_of_le (by decide)]
    rfl
  | ld v => exact length_signed v
  | lld v => exact length_signed v
  | x v => exact (length_nibbles _ _).trans (hhex _ _).symm
  | lx v => exact (length_nibbles _ _).trans (hhex _ _).symm
  | llx v =>
    show (nibbles _ _).length + 8 = (hex _ _).length
    rw [length_nibbles, hhex]
  | p v =>
    show ([ch '0', ch 'x'] ++ nibbles 16 v).length + 0 = ([ch '0', ch 'x'] ++ hex 16 _).length
    rw [List.length_append, List.length_append, length_nibbles, hhex]
  | lit _ _ _ | s v | c v => rfl

theorem printed_eq (it : Item) (hllx : it.isLlx = false) (hmin : it.isMin = false) :
    it.printed strAt = it.text strAt := by
  cases it with
  | d v =>
    show signed _ = decimal v.toInt
    rw [signed_eq (signExtend_ne v), BitVec.toInt_signExtend_of_le (by decide)]
  | ld v => exact signed_eq (beq_eq_false_iff_ne.mp hmin)
  | lld v => exact signed_eq (beq_eq_false_iff_ne.mp hmin)
  | x v => exact nibbles_eq (fun j hj => getLsbD_signExtend_of_lt v hj) (by decide)
  | lx v => exact nibbles_eq (fun _ _ => rfl) (by decide)
  | llx v => cases hllx
  | p v =>
    show [ch '0', ch 'x'] ++ nibbles 16 v = [ch '0', ch 'x'] ++ hex 16 v.toNat
    rw [nibbles_eq (fun _ _ => rfl) (by decide)]
  | lit _ _ _ | s v | c v => rfl

/-- The two texts are the same where they are seen from `pos` on. -/
def Agrees (n pos : ℕ) (a b : List Byte) : Prop :=
  ∀ i, pos + i + 1 < n → a[i]? = b[i]?

theorem agrees_append {a b c d : List Byte} (hlen : a.length = b.length) :
    Agrees n pos (a ++ c) (b ++ d) ↔ Agrees n pos a b ∧ Agrees n (pos + a.length) c d := by
  constructor
  · intro h
    constructor
    · intro i hi
      rcases Nat.lt_or_ge i a.length with hin | hout
      · have hboth := h i hi
        rwa [List.getElem?_append_left hin, List.getElem?_append_left (hlen ▸ hin)] at hboth
      · rw [List.getElem?_eq_none hout, List.getElem?_eq_none (hlen ▸ hout)]
    · intro i hi
      have hboth := h (a.length + i) (by omega)
      rw [List.getElem?_append_right (by omega), List.getElem?_append_right (by omega), hlen,
        Nat.add_sub_cancel_left] at hboth
      exact hboth
  · rintro ⟨hab, hcd⟩ i hi
    rcases Nat.lt_or_ge i a.length with hin | hout
    · rw [List.getElem?_append_left hin, List.getElem?_append_left (hlen ▸ hin)]
      exact hab i hi
    · rw [List.getElem?_append_right hout, List.getElem?_append_right (hlen ▸ hout), ← hlen]
      exact hcd (i - a.length) (by omega)

/-- The first digit of the smallest number is not seen where it is printed. -/
def Hidden (strAt : BitVec 64 → List Byte) (n : ℕ) : ℕ → List Item → Prop
  | _, [] => True
  | pos, it :: its =>
    (it.isMin = true → n ≤ pos + 2) ∧ Hidden strAt n (pos + (it.text strAt).length) its

theorem signed_min : (signed LLONG_MIN)[0]? = some (ch '-') ∧
    (signed LLONG_MIN)[1]? = some (ch '\'') := by
  have hslt : LLONG_MIN.slt 0#64 = true := by decide
  have hdigits : digits (-LLONG_MIN).toInt = 19 := by
    rw [digits_eq]
    decide +kernel
  unfold signed
  simp only [hslt, if_true, hdigits]
  decide +kernel

theorem decimal_min : (decimal LLONG_MIN.toInt)[0]? = some (ch '-') ∧
    (decimal LLONG_MIN.toInt)[1]? = some (ch '9') := by
  decide +kernel

theorem agrees_min :
    Agrees n pos (signed LLONG_MIN) (decimal LLONG_MIN.toInt) ↔ n ≤ pos + 2 := by
  obtain ⟨hs0, hs1⟩ := signed_min
  obtain ⟨hd0, hd1⟩ := decimal_min
  constructor
  · intro h
    by_contra hlt
    have hone := h 1 (by omega)
    rw [hs1, hd1] at hone
    exact absurd hone (by decide)
  · intro hle i hi
    obtain rfl : i = 0 := by omega
    rw [hs0, hd0]

theorem agrees_item (it : Item) (hllx : it.isLlx = false) :
    Agrees n pos (it.printed strAt) (it.text strAt) ↔ (it.isMin = true → n ≤ pos + 2) := by
  cases hmin : it.isMin with
  | false =>
    rw [printed_eq it hllx hmin]
    exact iff_of_true (fun _ _ => rfl) (fun h => absurd h Bool.false_ne_true)
  | true =>
    simp only [forall_const]
    cases it with
    | ld v =>
      obtain rfl : v = LLONG_MIN := eq_of_beq hmin
      exact agrees_min
    | lld v =>
      obtain rfl : v = LLONG_MIN := eq_of_beq hmin
      exact agrees_min
    | _ => cases hmin

/-- The differences that are left without `%llx` are not seen. -/
theorem hidden_iff (its : List Item) (hllx : ∀ it ∈ its, it.isLlx = false) :
    Agrees n pos (its.flatMap (Item.printed strAt)) (its.flatMap (Item.text strAt)) ↔
      Hidden strAt n pos its := by
  induction its generalizing pos with
  | nil => exact iff_of_true (fun _ _ => rfl) trivial
  | cons it its ih =>
    have hit := hllx it List.mem_cons_self
    have hlen := length_printed strAt it
    rw [hit, if_neg Bool.false_ne_true, Nat.add_zero] at hlen
    rw [List.flatMap_cons, List.flatMap_cons, agrees_append hlen, agrees_item it hit, hlen,
      ih fun it' hit' => hllx it' (List.mem_cons_of_mem it hit')]
    exact Iff.rfl

theorem length_flatMap_printed (strAt : BitVec 64 → List Byte) (its : List Item) :
    (its.flatMap (Item.printed strAt)).length + 8 * its.countP Item.isLlx =
      (its.flatMap (Item.text strAt)).length := by
  induction its with
  | nil => rfl
  | cons it its ih =>
    have hlen := length_printed strAt it
    rw [List.flatMap_cons, List.flatMap_cons, List.length_append, List.length_append,
      List.countP_cons]
    split_ifs at hlen ⊢ <;> omega

end Texts

/-! ## The result -/

section Result

variable {slots : ℕ → BitVec 64} {strAt : BitVec 64 → List Byte} {n : ℕ}
  {out : ℕ → Byte} {its : List Item} {res : (ℕ → Byte) × ℤ}

/-- The buffer shows the text as far as it fits, with a terminator, and is
left alone behind its end. -/
structure Shown (n : ℕ) (out : ℕ → Byte) (cs : List Byte) (buf : ℕ → Byte) : Prop where
  text : ∀ i b, i + 1 < n → cs[i]? = some b → buf i = b
  terminated : 0 < n → buf (min cs.length (n - 1)) = 0#8
  outside : ∀ i, n ≤ i → buf i = out i

/-- The buffer shows the text of the items, and the result is its length. -/
def Formats (strAt : BitVec 64 → List Byte) (n : ℕ) (out : ℕ → Byte) (its : List Item)
    (res : (ℕ → Byte) × ℤ) : Prop :=
  res.2 = (its.flatMap (Item.text strAt)).length ∧
    Shown n out (its.flatMap (Item.text strAt)) res.1

theorem shown_write (text : List Byte) :
    Shown n out text
      (if text.length < n then Function.update (write n 0 text out) text.length 0#8
      else if n ≠ 0 then Function.update (write n 0 text out) (n - 1) 0#8
      else write n 0 text out) where
  text := by
    intro i b hi hb
    have hlt := (List.getElem?_eq_some_iff.mp hb).1
    have hwrite : write n 0 text out i = b := by
      rw [write, if_pos ⟨Nat.zero_le i, hi⟩, Nat.sub_zero, List.getD_eq_getElem?_getD, hb]
      rfl
    split_ifs
    · rw [Function.update_of_ne (by omega), hwrite]
    · rw [Function.update_of_ne (by omega), hwrite]
    · exact hwrite
  terminated := by
    intro hn
    split_ifs with hfit hzero
    · rw [Nat.min_eq_left (by omega), Function.update_self]
    · rw [Nat.min_eq_right (by omega), Function.update_self]
    · omega
  outside := by
    intro i hi
    have hwrite : write n 0 text out i = out i := if_neg (by omega)
    split_ifs
    · rw [Function.update_of_ne (by omega), hwrite]
    · rw [Function.update_of_ne (by omega), hwrite]
    · exact hwrite

theorem vsnprintf_printed (out : ℕ → Byte) (hp : Passed slots 0 its) (hs : Spaced strAt n 0 its)
    (hlen : (its.flatMap (Item.printed strAt)).length < 2 ^ 64) :
    Shown n out (its.flatMap (Item.printed strAt))
        (vsnprintf slots strAt n out (its.flatMap Item.format)).1 ∧
      (vsnprintf slots strAt n out (its.flatMap Item.format)).2 =
        (BitVec.ofNat 32 (its.flatMap (Item.printed strAt)).length).toInt := by
  obtain ⟨hout, hpos⟩ :=
    @run_items slots strAt n ⟨out, 0, 0, false, false, false⟩ its rfl rfl hp hs
      (by rw [Nat.zero_add]; exact hlen)
  rw [Nat.zero_add] at hpos
  unfold vsnprintf
  dsimp only
  rw [hout, hpos]
  exact ⟨shown_write _, rfl⟩

/-- `vsnprintf` shows the text of the items and returns its length if and
only if none of them is `%llx`, the first digit of the smallest number is
nowhere to be seen, and the length is an `int`. -/
theorem vsnprintf_formats_iff (hp : Passed slots 0 its) (hs : Spaced strAt n 0 its) :
    Formats strAt n out its (vsnprintf slots strAt n out (its.flatMap Item.format)) ↔
      (∀ it ∈ its, it.isLlx = false) ∧ Hidden strAt n 0 its ∧
        (its.flatMap (Item.text strAt)).length < 2 ^ 31 := by
  have hcount := length_flatMap_printed strAt its
  have hint : ∀ k : ℕ, k < 2 ^ 31 → (BitVec.ofNat 32 k).toInt = k := by
    intro k hk
    rw [BitVec.toInt_eq_toNat_of_lt] <;> rw [BitVec.toNat_ofNat, Nat.mod_eq_of_lt] <;> omega
  constructor
  · rintro ⟨hres, hshown⟩
    have hlt : (its.flatMap (Item.text strAt)).length < 2 ^ 31 := by
      have hbound := (BitVec.ofNat 32 (run slots strAt n ⟨out, 0, 0, false, false, false⟩
        (its.flatMap Item.format)).pos).toInt_lt
      change (vsnprintf slots strAt n out (its.flatMap Item.format)).2 < _ at hbound
      omega
    obtain ⟨hprinted, hret⟩ := vsnprintf_printed out hp hs (by omega)
    rw [hret, hint _ (by omega)] at hres
    have hnone : its.countP Item.isLlx = 0 := by omega
    have hllx : ∀ it ∈ its, it.isLlx = false := fun it hit =>
      Bool.eq_false_iff.mpr (List.countP_eq_zero.mp hnone it hit)
    refine ⟨hllx, (hidden_iff its hllx).mp fun i hi => ?_, hlt⟩
    rw [Nat.zero_add] at hi
    have hlen : (its.flatMap (Item.printed strAt)).length =
        (its.flatMap (Item.text strAt)).length := by omega
    rcases Nat.lt_or_ge i (its.flatMap (Item.text strAt)).length with hin | hout
    · have hp' := List.getElem?_eq_getElem (hlen ▸ hin)
      have ht' := List.getElem?_eq_getElem hin
      rw [hp', ht', ← hprinted.text i _ hi hp', ← hshown.text i _ hi ht']
    · rw [List.getElem?_eq_none hout, List.getElem?_eq_none (hlen ▸ hout)]
  · rintro ⟨hllx, hhidden, hlt⟩
    have hnone : its.countP Item.isLlx = 0 :=
      List.countP_eq_zero.mpr fun it hit => Bool.eq_false_iff.mp (hllx it hit)
    have hagree := (hidden_iff its hllx).mpr hhidden
    obtain ⟨hprinted, hret⟩ := vsnprintf_printed out hp hs (by omega)
    refine ⟨?_, ?_, ?_, hprinted.outside⟩
    · rw [hret, hint _ (by omega)]
      omega
    · intro i b hi hb
      exact hprinted.text i b hi ((hagree i (by omega)).trans hb)
    · intro hn
      have hterm := hprinted.terminated hn
      rwa [show (its.flatMap (Item.printed strAt)).length =
        (its.flatMap (Item.text strAt)).length by omega] at hterm

/-- `"n=%d%c"` with 42 and an exclamation mark. -/
theorem vsnprintf_formats_42 :
    Formats (fun _ => []) 16 (fun _ => 0#8)
      [.lit (ch 'n') (by decide) (by decide), .lit (ch '=') (by decide) (by decide),
        .d 42#32, .c 33#32]
      (vsnprintf (fun k => [42#64, 33#64].getD k 0) (fun _ => []) 16 (fun _ => 0#8)
        [ch 'n', ch '=', ch '%', ch 'd', ch '%', ch 'c']) := by
  refine (vsnprintf_formats_iff ?_ ?_).mpr ⟨by decide, ?_, by decide⟩
  · simp [Passed, Item.slot]
  · simp [Spaced, Item.isC]
  · simp [Hidden, Item.isMin]

/-- `%llx` reads and prints half of its argument.  A `%c` behind the end of
the buffer reads no argument, so that the next conversion reads the
character, here as a string. -/
theorem not_formats :
    ¬ Formats (fun _ => []) 32 (fun _ => 0#8) [.llx 1#64]
        (vsnprintf (fun _ => 1#64) (fun _ => []) 32 (fun _ => 0#8)
          [ch '%', ch 'l', ch 'l', ch 'x']) ∧
      ¬ Formats (fun p => if p = 1000#64 then [ch 'h', ch 'i'] else []) 0 (fun _ => 0#8)
        [.c 97#32, .s 1000#64]
        (vsnprintf (fun k => [97#64, 1000#64].getD k 0)
          (fun p => if p = 1000#64 then [ch 'h', ch 'i'] else []) 0 (fun _ => 0#8)
          [ch '%', ch 'c', ch '%', ch 's']) :=
  ⟨fun h => absurd h.1 (by decide), fun h => absurd h.1 (by decide)⟩

end Result

end ArianeSoc.Pk.Snprintf
