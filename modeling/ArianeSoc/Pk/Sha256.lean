import ArianeSoc.Hashing
import ArianeSoc.Loop
import ArianeSoc.Pk.Driver
import Mathlib.Data.List.GetD

/-!
# The SHA-256 driver

`sha256_hashString` and `sha256_addPadding` of `machine/sha256.c`, down to
the register writes they make.  The waits for `SHA256_READY` and
`SHA256_VALID` write nothing and are left out; an `int` is the low 32 bits
of what it counts.

`sent` reads the writes the way `sha256_wrapper` takes them: a rising start
bit hands over the sixteen text registers as a block.  `messageBlocks` is
the message with its padding as SHA-256 defines it.
-/

namespace ArianeSoc.Pk.Sha256

abbrev TEXT_BITS : ℕ := 512
abbrev TEXT_BYTES : ℕ := 64
abbrev TEXT_WORDS : ℕ := 16
abbrev NEXT_INIT : ℕ := 0
abbrev TEXT_BASE : ℕ := 1

/-- A string without its terminator. -/
structure CString where
  bytes : List Byte
  noNul : ∀ c ∈ bytes, c ≠ 0#8

/-! ## The driver -/

/-- Byte `k` of a 64-bit number, byte `0` on top. -/
def byteAt (x : BitVec 64) (k : ℕ) : Byte := (x >>> (56 - 8 * k)).setWidth 8

/-- The byte that the loop of `sha256_addPadding` puts at `i`. -/
def padByte (pMessageBits : BitVec 64) (startByte sizeStartByte i : ℕ) :
    Byte :=
  if i = startByte then 0x80#8
  else if sizeStartByte ≤ i then
    byteAt pMessageBits (i - sizeStartByte)
  else 0#8

/-- `sha256_addPadding`: the number of bytes it adds, and the buffer. -/
def addPadding (pMessageBits : BitVec 64) (buffer : ℕ → Byte) :
    ℕ × (ℕ → Byte) :=
  let extraBits := pMessageBits.toNat % TEXT_BITS
  let paddingBits :=
    if extraBits > 448 then 2 * TEXT_BITS - extraBits
    else TEXT_BITS - extraBits
  let startByte := extraBits / 8
  let sizeStartByte := startByte + (paddingBits / 8 - 8)
  (paddingBits / 8,
    Loop.writes id (padByte pMessageBits startByte sizeStartByte)
      (List.range' startByte (sizeStartByte + 8 - startByte)) buffer)

/-- The inner loop of `sha256_hashString`: at most `n` bytes of the string
for the message, the rest of the string, and whether its end was met. -/
def nextPortion : ℕ → List Byte → List Byte × List Byte × Bool
  | 0, p => ([], p, false)
  | _ + 1, [] => ([], [], true)
  | n + 1, c :: p =>
    if c = 0#8 then ([], c :: p, true)
    else
      let r := nextPortion n p
      (c :: r.1, r.2.1, r.2.2)

/-- The two writes that start the hash of a block. -/
def strobe (data : Word) : List Write := [⟨NEXT_INIT, data⟩, ⟨NEXT_INIT, 0#32⟩]

theorem nextPortion_length (n : ℕ) (p : List Byte)
    (h : (nextPortion n p).2.2 = false) :
    (nextPortion n p).2.1.length + n = p.length := by
  induction n generalizing p with
  | zero => rfl
  | succ n ih =>
    cases p with
    | nil => exact nomatch h
    | cons c p =>
      unfold nextPortion at h ⊢
      split_ifs at h ⊢ with hc
      have := ih p h
      simp only [List.length_cons]
      omega

/-- The outer loop of `sha256_hashString`. -/
def hashLoop (pString : List Byte) (firstTime : Bool)
    (totalBytes : BitVec 32) : List Write :=
  let portion := nextPortion TEXT_BYTES pString
  let totalBytes := totalBytes + BitVec.ofNat 32 portion.1.length
  let message := fun i => portion.1.getD i 0#8
  let start := strobe (if firstTime then 1#32 else 2#32)
  if _h : portion.2.2 = true then
    let padded := addPadding ((totalBytes * 8#32).signExtend 64) message
    writeMultichar TEXT_BASE padded.2 TEXT_BYTES ++ start ++
      if padded.1 > TEXT_BYTES then
        writeMulti TEXT_BASE (leWord fun i => padded.2 (TEXT_BYTES + i))
          TEXT_WORDS ++ strobe 2#32
      else []
  else
    writeMultichar TEXT_BASE message TEXT_BYTES ++ start ++
      hashLoop portion.2.1 false totalBytes
termination_by pString.length
decreasing_by
  have hlen := nextPortion_length 64 pString (by simpa using _h)
  show (nextPortion 64 pString).2.1.length < pString.length
  omega

/-- `sha256_hashString`. -/
def hashString (s : CString) : List Write :=
  hashLoop (s.bytes ++ [0#8]) true 0#32

/-! ## What the peripheral takes -/

/-- The block in the text registers, its words from the front. -/
def text (regs : ℕ → Word) : List Word :=
  (List.range TEXT_WORDS).map fun j => regs (TEXT_BASE + (TEXT_WORDS - 1 - j))

/-- The blocks that `sha256_wrapper` hands to its engine for a list of
writes, each with `true` for init and `false` for next. -/
def sent (regs : ℕ → Word) : List Write → List (Bool × List Word)
  | [] => []
  | w :: ws =>
    (if w.offset = NEXT_INIT ∧ w.data.getLsbD 0 ∧ ¬ (regs NEXT_INIT).getLsbD 0
      then [(true, text regs)] else []) ++
    (if w.offset = NEXT_INIT ∧ w.data.getLsbD 1 ∧ ¬ (regs NEXT_INIT).getLsbD 1
      then [(false, text regs)] else []) ++
    sent (Function.update regs w.offset w.data) ws

/-! ## What SHA-256 hashes -/

/-- What follows a message of `n` bytes: `0x80`, zeros and its length in
bits. -/
def padding (n : ℕ) : List Byte :=
  0x80#8 :: (List.replicate (Hashing.zeros 64 8 n) 0#8 ++
    (List.range 8).map (byteAt (BitVec.ofNat 64 (8 * n))))

def paddedMessage (m : List Byte) : List Byte := m ++ padding m.length

/-- The blocks of padded bytes, the first one with init. -/
def blocksOf (first : Bool) (m : List Byte) : List (Bool × List Word) :=
  if _h : m.length < TEXT_BYTES then []
  else
    (first, (List.range TEXT_WORDS).map (beWord fun i => m.getD i 0#8)) ::
      blocksOf false (m.drop TEXT_BYTES)
termination_by m.length
decreasing_by
  rw [List.length_drop]
  have hpos : TEXT_BYTES = 64 := rfl
  omega

/-- The blocks of a message. -/
def messageBlocks (m : List Byte) : List (Bool × List Word) :=
  blocksOf true (paddedMessage m)

/-! ## The writes of one block -/

section Sent

variable {regs : ℕ → Word} {ws : ℕ → Word} {ws' : List Write}

/-- Writes beside the start register hand over nothing. -/
theorem sent_append {l : List Write} (h : ∀ w ∈ l, w.offset ≠ NEXT_INIT) :
    sent regs (l ++ ws') =
      sent (Loop.writes Write.offset Write.data l regs) ws' := by
  induction l generalizing regs with
  | nil => rfl
  | cons w l ih =>
    have hw : w.offset ≠ NEXT_INIT := h w List.mem_cons_self
    rw [List.cons_append, sent, if_neg fun hc => hw hc.1,
      if_neg fun hc => hw hc.1]
    exact ih fun w' hw' => h w' (List.mem_cons_of_mem w hw')

theorem text_writeMulti :
    text (Loop.writes Write.offset Write.data
      (writeMulti TEXT_BASE ws TEXT_WORDS) regs) =
        (List.range TEXT_WORDS).map ws := by
  refine List.map_congr_left fun j hj => ?_
  have hnodup : ((writeMulti TEXT_BASE ws TEXT_WORDS).map
      Write.offset).Nodup := by
    unfold writeMulti
    rw [List.map_map]
    show ((List.range 16).map fun i => 1 + (16 - 1 - i)).Nodup
    decide
  exact Loop.writes_of_mem hnodup
    (List.mem_map_of_mem hj : (⟨TEXT_BASE + (TEXT_WORDS - 1 - j), ws j⟩ :
      Write) ∈ writeMulti TEXT_BASE ws TEXT_WORDS) regs

/-- Sixteen words and the strobe behind them hand over one block. -/
theorem sent_block (ws : ℕ → Word) (hregs : regs NEXT_INIT = 0#32)
    (first : Bool) :
    ∃ regs', regs' NEXT_INIT = 0#32 ∧ ∀ ws',
      sent regs (writeMulti TEXT_BASE ws TEXT_WORDS ++
          strobe (if first then 1#32 else 2#32) ++ ws') =
        (first, (List.range TEXT_WORDS).map ws) :: sent regs' ws' := by
  have hoff : ∀ w ∈ writeMulti TEXT_BASE ws TEXT_WORDS,
      w.offset ≠ NEXT_INIT := by
    intro w hw
    obtain ⟨i, -, rfl⟩ := List.mem_map.mp hw
    show 1 + (16 - 1 - i) ≠ 0
    omega
  have hzero : Loop.writes Write.offset Write.data
      (writeMulti TEXT_BASE ws TEXT_WORDS) regs NEXT_INIT = 0#32 := by
    rw [Loop.writes_of_notMem, hregs]
    rintro hmem
    obtain ⟨w, hw, he⟩ := List.mem_map.mp hmem
    exact hoff w hw he
  refine ⟨Function.update (Function.update
    (Loop.writes Write.offset Write.data
      (writeMulti TEXT_BASE ws TEXT_WORDS) regs) NEXT_INIT
      (if first then 1#32 else 2#32)) NEXT_INIT 0#32,
    Function.update_self _ _ _, fun ws' => ?_⟩
  rw [List.append_assoc, sent_append hoff]
  unfold strobe
  rw [List.cons_append, List.cons_append, List.nil_append, sent, sent,
    text_writeMulti, hzero]
  cases first
  · rfl
  · rfl

end Sent

/-! ## The loop over the string -/

section Portion

variable {t : List Byte}

theorem nextPortion_short {n : ℕ} (ht : ∀ c ∈ t, c ≠ 0#8)
    (h : t.length < n) :
    nextPortion n (t ++ [0#8]) = (t, [0#8], true) := by
  induction t generalizing n with
  | nil =>
    obtain ⟨n, rfl⟩ : ∃ m, n = m + 1 := ⟨n - 1, by simp at h; omega⟩
    rfl
  | cons c t ih =>
    obtain ⟨n, rfl⟩ : ∃ m, n = m + 1 :=
      ⟨n - 1, by rw [List.length_cons] at h; omega⟩
    rw [List.length_cons] at h
    have hc : c ≠ 0#8 := ht c List.mem_cons_self
    rw [List.cons_append, nextPortion, if_neg hc,
      ih (fun c' hc' => ht c' (List.mem_cons_of_mem c hc')) (by omega)]

theorem nextPortion_long {n : ℕ} (ht : ∀ c ∈ t, c ≠ 0#8)
    (h : n ≤ t.length) :
    nextPortion n (t ++ [0#8]) = (t.take n, t.drop n ++ [0#8], false) := by
  induction t generalizing n with
  | nil =>
    obtain rfl : n = 0 := by simpa using h
    rfl
  | cons c t ih =>
    cases n with
    | zero => rfl
    | succ n =>
      rw [List.length_cons] at h
      have hc : c ≠ 0#8 := ht c List.mem_cons_self
      rw [List.cons_append, nextPortion, if_neg hc,
        ih (fun c' hc' => ht c' (List.mem_cons_of_mem c hc')) (by omega)]
      rfl

/-- The text registers are written word by word. -/
theorem writeMultichar_text (bytes : ℕ → Byte) :
    writeMultichar TEXT_BASE bytes TEXT_BYTES =
      writeMulti TEXT_BASE (beWord bytes) TEXT_WORDS :=
  writeMultichar_four TEXT_BASE bytes 16

/-- A whole portion is sent as it is. -/
theorem hashLoop_long (ht : ∀ c ∈ t, c ≠ 0#8) (h : TEXT_BYTES ≤ t.length)
    (firstTime : Bool) (totalBytes : BitVec 32) :
    hashLoop (t ++ [0#8]) firstTime totalBytes =
      writeMulti TEXT_BASE (beWord fun i => (t.take TEXT_BYTES).getD i 0#8)
          TEXT_WORDS ++ strobe (if firstTime then 1#32 else 2#32) ++
        hashLoop (t.drop TEXT_BYTES ++ [0#8]) false
          (totalBytes + BitVec.ofNat 32 TEXT_BYTES) := by
  rw [hashLoop, nextPortion_long ht h]
  dsimp only
  rw [dif_neg Bool.false_ne_true, List.length_take, Nat.min_eq_left h,
    writeMultichar_text]

/-- The last portion is sent with its padding. -/
theorem hashLoop_short (ht : ∀ c ∈ t, c ≠ 0#8) (h : t.length < TEXT_BYTES)
    (firstTime : Bool) (totalBytes : BitVec 32) :
    hashLoop (t ++ [0#8]) firstTime totalBytes =
      let padded := addPadding
        (((totalBytes + BitVec.ofNat 32 t.length) * 8#32).signExtend 64)
        fun i => t.getD i 0#8
      writeMulti TEXT_BASE (beWord padded.2) TEXT_WORDS ++
        strobe (if firstTime then 1#32 else 2#32) ++
        if padded.1 > TEXT_BYTES then
          writeMulti TEXT_BASE (leWord fun i => padded.2 (TEXT_BYTES + i))
            TEXT_WORDS ++ strobe 2#32
        else [] := by
  rw [hashLoop, nextPortion_short ht h]
  dsimp only
  rw [dif_pos rfl, writeMultichar_text]

end Portion

/-! ## The length -/

/-- The length that `sha256_hashString` pads with for `n` bytes: an `int`
in bits, widened to 64 bits. -/
def paddedLength (n : ℕ) : BitVec 64 :=
  (BitVec.ofNat 32 n * 8#32).signExtend 64

theorem paddedLength_toNat (n : ℕ) :
    (paddedLength n).toNat =
      8 * n % 2 ^ 32 + if 8 * n % 2 ^ 32 < 2 ^ 31 then 0 else 2 ^ 64 - 2 ^ 32 := by
  have hlow : (BitVec.ofNat 32 n * 8#32).toNat = 8 * n % 2 ^ 32 := by
    rw [BitVec.toNat_mul, BitVec.toNat_ofNat, BitVec.toNat_ofNat]
    omega
  unfold paddedLength
  rw [BitVec.toNat_signExtend, BitVec.toNat_setWidth, hlow,
    BitVec.msb_eq_decide, hlow]
  by_cases h : 8 * n % 2 ^ 32 < 2 ^ 31
  · rw [if_pos h, if_neg (by simpa using h)]
    omega
  · rw [if_neg h, if_pos (by simpa using h)]
    omega

theorem byteAt_toNat (x : BitVec 64) (k : ℕ) :
    (byteAt x k).toNat = x.toNat / 2 ^ (56 - 8 * k) % 256 := by
  unfold byteAt
  rw [BitVec.toNat_setWidth, BitVec.toNat_ushiftRight,
    Nat.shiftRight_eq_div_pow]

theorem eq_of_byteAt {x y : BitVec 64}
    (h : ∀ k, k < 8 → byteAt x k = byteAt y k) : x = y := by
  have hbit : ∀ (z : BitVec 64) (i : ℕ), i < 64 →
      z.getLsbD i = (byteAt z (7 - i / 8)).getLsbD (i % 8) := by
    intro z i hi
    unfold byteAt
    rw [BitVec.getLsbD_setWidth, BitVec.getLsbD_ushiftRight,
      show 56 - 8 * (7 - i / 8) + i % 8 = i by omega,
      decide_eq_true (by omega : i % 8 < 8), Bool.true_and]
  refine BitVec.eq_of_getLsbD_eq fun i hi => ?_
  rw [hbit x i hi, hbit y i hi, h (7 - i / 8) (by omega)]

/-- The length of the message as a 64-bit number is one that an `int`
widens to. -/
def LengthFits (n : ℕ) : Prop :=
  8 * n % 2 ^ 64 < 2 ^ 31 ∨ 2 ^ 64 - 2 ^ 31 ≤ 8 * n % 2 ^ 64

/-- The low word of the length is the same in both byte orders. -/
def ReadsAlike (n : ℕ) : Prop :=
  8 * n / 2 ^ 24 % 256 = 8 * n % 256 ∧
    8 * n / 2 ^ 16 % 256 = 8 * n / 2 ^ 8 % 256

theorem paddedLength_eq_iff (n : ℕ) :
    paddedLength n = BitVec.ofNat 64 (8 * n) ↔ LengthFits n := by
  rw [← BitVec.toNat_inj, paddedLength_toNat, BitVec.toNat_ofNat, LengthFits]
  split_ifs <;> omega

/-! ## The padded bytes -/

section Bytes

variable {e : ℕ} {len : BitVec 64} {buffer : ℕ → Byte}

/-- What `sha256_addPadding` does to a last portion of `e` bytes. -/
theorem addPadding_eq (he : e < 64) (hlen : len.toNat % 512 = 8 * e) :
    addPadding len buffer =
      if e ≤ 56 then
        (64 - e, Loop.writes id (padByte len e 56)
          (List.range' e (64 - e)) buffer)
      else
        (128 - e, Loop.writes id (padByte len e 120)
          (List.range' e (128 - e)) buffer) := by
  unfold addPadding
  rw [hlen]
  dsimp only
  rw [show 8 * e / 8 = e by omega]
  by_cases h : e ≤ 56
  · rw [if_pos h, if_neg (by omega : ¬ 8 * e > 448),
      show (TEXT_BITS - 8 * e) / 8 = 64 - e by
        show (512 - 8 * e) / 8 = 64 - e
        omega,
      show e + (64 - e - 8) = 56 by omega]
  · rw [if_neg h, if_pos (by omega : 8 * e > 448),
      show (2 * TEXT_BITS - 8 * e) / 8 = 128 - e by
        show (2 * 512 - 8 * e) / 8 = 128 - e
        omega,
      show e + (128 - e - 8) = 120 by omega]

/-- The buffer behind the loop of `sha256_addPadding`. -/
theorem padded_byte (size n i : ℕ) :
    Loop.writes id (padByte len e size) (List.range' e n) buffer i =
      if e ≤ i ∧ i < e + n then padByte len e size i else buffer i := by
  split_ifs with h
  · have hmem : i ∈ List.range' e n := List.mem_range'_1.mpr h
    refine Loop.writes_of_mem ?_ hmem buffer
    rw [List.map_id]
    exact List.nodup_range'
  · refine Loop.writes_of_notMem ?_ buffer
    rw [List.map_id, List.mem_range'_1]
    exact h

/-- The padding that SHA-256 asks for, byte by byte. -/
theorem padding_getD {n z i : ℕ} (hz : Hashing.zeros 64 8 n = z)
    (hi : e ≤ i) (hi' : i < e + z + 9) :
    (padding n).getD (i - e) 0#8 =
      padByte (BitVec.ofNat 64 (8 * n)) e (e + z + 1) i := by
  unfold padding padByte
  rw [hz]
  by_cases h₁ : i = e
  · subst h₁
    rw [if_pos rfl, Nat.sub_self]
    rfl
  · obtain ⟨j, rfl⟩ : ∃ j, i = e + (j + 1) := ⟨i - e - 1, by omega⟩
    rw [if_neg h₁, Nat.add_sub_cancel_left, List.getD_cons_succ]
    by_cases h₂ : j < z
    · rw [if_neg (by omega), List.getD_append _ _ _ _ (by simpa using h₂),
        List.getD_replicate _ h₂]
    · rw [if_pos (by omega), List.getD_append_right _ _ _ _ (by simpa using h₂),
        List.length_replicate]
      have hj : j - z < 8 := by omega
      rw [List.getD_eq_getElem _ _ (by simpa using hj), List.getElem_map,
        List.getElem_range]
      congr 1
      omega

/-- Before the length the padding does not depend on it. -/
theorem padByte_before {size i : ℕ} (h : i < size) (x y : BitVec 64) :
    padByte x e size i = padByte y e size i := by
  unfold padByte
  rw [if_neg (by omega : ¬ size ≤ i), if_neg (by omega : ¬ size ≤ i)]

theorem padByte_length {size : ℕ} (h : e < size) (x : BitVec 64) (k : ℕ) :
    padByte x e size (size + k) = byteAt x k := by
  unfold padByte
  rw [if_neg (by omega), if_pos (by omega), Nat.add_sub_cancel_left]

theorem padding_length (n : ℕ) :
    (padding n).length = Hashing.zeros 64 8 n + 9 := by
  unfold padding
  simp

theorem zeros_eq (n : ℕ) :
    Hashing.zeros 64 8 n =
      if n % 64 < 56 then 55 - n % 64 else 119 - n % 64 := by
  unfold Hashing.zeros
  split_ifs <;> omega

end Bytes

/-! ## The words of a block -/

section Words

variable {f g : ℕ → Byte}

theorem beWords_inj :
    (List.range TEXT_WORDS).map (beWord f) =
        (List.range TEXT_WORDS).map (beWord g) ↔
      ∀ i, i < 64 → f i = g i := by
  rw [List.map_inj_left]
  constructor
  · intro h i hi
    have hw := be32_inj.mp
      (h (i / 4) (List.mem_range.mpr (by show i / 4 < 16; omega)))
    obtain ⟨h₀, h₁, h₂, h₃⟩ := hw
    have hcases : i = 4 * (i / 4) ∨ i = 4 * (i / 4) + 1 ∨
        i = 4 * (i / 4) + 2 ∨ i = 4 * (i / 4) + 3 := by omega
    rcases hcases with h | h | h | h <;> rw [h] <;> assumption
  · intro h j hj
    have hj' : j < 16 := List.mem_range.mp hj
    exact be32_inj.mpr ⟨h _ (by omega), h _ (by omega), h _ (by omega),
      h _ (by omega)⟩

/-- Words in the two byte orders. -/
theorem leWords_eq :
    (List.range TEXT_WORDS).map (leWord f) =
        (List.range TEXT_WORDS).map (beWord g) ↔
      ∀ j, j < 16 → f (4 * j + 3) = g (4 * j) ∧
        f (4 * j + 2) = g (4 * j + 1) ∧ f (4 * j + 1) = g (4 * j + 2) ∧
        f (4 * j) = g (4 * j + 3) := by
  rw [List.map_inj_left]
  constructor
  · intro h j hj
    exact be32_inj.mp (h j (List.mem_range.mpr hj))
  · intro h j hj
    exact be32_inj.mpr (h j (List.mem_range.mp hj))

/-- Two blocks of zeros and a length, in the two byte orders. -/
theorem lengthBlocks_eq {x y : BitVec 64}
    (hf₀ : ∀ i, i < 56 → f i = 0#8) (hg₀ : ∀ i, i < 56 → g i = 0#8)
    (hf : ∀ k, k < 8 → f (56 + k) = byteAt x k)
    (hg : ∀ k, k < 8 → g (56 + k) = byteAt y k) :
    (List.range TEXT_WORDS).map (leWord f) =
        (List.range TEXT_WORDS).map (beWord g) ↔
      ∀ k, k < 4 → byteAt x (3 - k) = byteAt y k ∧
        byteAt x (7 - k) = byteAt y (4 + k) := by
  have hfg : ∀ i j, i < 8 → j < 8 →
      (f (56 + i) = g (56 + j) ↔ byteAt x i = byteAt y j) := by
    intro i j hi hj
    rw [hf i hi, hg j hj]
  rw [leWords_eq]
  constructor
  · intro h k hk
    obtain ⟨h₀, h₁, h₂, h₃⟩ := h 14 (by omega)
    obtain ⟨k₀, k₁, k₂, k₃⟩ := h 15 (by omega)
    obtain rfl | rfl | rfl | rfl : k = 0 ∨ k = 1 ∨ k = 2 ∨ k = 3 := by omega
    · exact ⟨(hfg 3 0 (by omega) (by omega)).mp h₀,
        (hfg 7 4 (by omega) (by omega)).mp k₀⟩
    · exact ⟨(hfg 2 1 (by omega) (by omega)).mp h₁,
        (hfg 6 5 (by omega) (by omega)).mp k₁⟩
    · exact ⟨(hfg 1 2 (by omega) (by omega)).mp h₂,
        (hfg 5 6 (by omega) (by omega)).mp k₂⟩
    · exact ⟨(hfg 0 3 (by omega) (by omega)).mp h₃,
        (hfg 4 7 (by omega) (by omega)).mp k₃⟩
  · intro h j hj
    have hj' : j < 14 ∨ j = 14 ∨ j = 15 := by omega
    rcases hj' with hj | rfl | rfl
    · rw [hf₀ _ (by omega), hf₀ _ (by omega), hf₀ _ (by omega),
        hf₀ _ (by omega), hg₀ _ (by omega), hg₀ _ (by omega),
        hg₀ _ (by omega), hg₀ _ (by omega)]
      exact ⟨rfl, rfl, rfl, rfl⟩
    · exact ⟨(hfg 3 0 (by omega) (by omega)).mpr (h 0 (by omega)).1,
        (hfg 2 1 (by omega) (by omega)).mpr (h 1 (by omega)).1,
        (hfg 1 2 (by omega) (by omega)).mpr (h 2 (by omega)).1,
        (hfg 0 3 (by omega) (by omega)).mpr (h 3 (by omega)).1⟩
    · exact ⟨(hfg 7 4 (by omega) (by omega)).mpr (h 0 (by omega)).2,
        (hfg 6 5 (by omega) (by omega)).mpr (h 1 (by omega)).2,
        (hfg 5 6 (by omega) (by omega)).mpr (h 2 (by omega)).2,
        (hfg 4 7 (by omega) (by omega)).mpr (h 3 (by omega)).2⟩

end Words

/-! ## The last portion -/

section Last

variable {t : List Byte} {n : ℕ}

theorem paddedLength_mod (n : ℕ) :
    (paddedLength n).toNat % 512 = 8 * (n % 64) := by
  rw [paddedLength_toNat]
  split_ifs <;> omega

/-- The sign fills the upper word of the length. -/
theorem paddedLength_high {j k : ℕ} (hj : j < 4) (hk : k < 4) :
    byteAt (paddedLength n) j = byteAt (paddedLength n) k := by
  have hfill : ∀ i, i < 4 → (byteAt (paddedLength n) i).toNat =
      if 8 * n % 2 ^ 32 < 2 ^ 31 then 0 else 255 := by
    intro i hi
    rw [byteAt_toNat, paddedLength_toNat]
    obtain rfl | rfl | rfl | rfl : i = 0 ∨ i = 1 ∨ i = 2 ∨ i = 3 := by omega
    all_goals split_ifs <;> omega
  rw [← BitVec.toNat_inj, hfill j hj, hfill k hk]

/-- The lower word of the length is right. -/
theorem paddedLength_low {k : ℕ} (hk : k < 4) :
    byteAt (paddedLength n) (4 + k) =
      byteAt (BitVec.ofNat 64 (8 * n)) (4 + k) := by
  rw [← BitVec.toNat_inj, byteAt_toNat, byteAt_toNat, paddedLength_toNat,
    BitVec.toNat_ofNat]
  obtain rfl | rfl | rfl | rfl : k = 0 ∨ k = 1 ∨ k = 2 ∨ k = 3 := by omega
  all_goals split_ifs <;> omega

theorem readsAlike_iff (n : ℕ) :
    ReadsAlike n ↔
      byteAt (BitVec.ofNat 64 (8 * n)) 4 =
          byteAt (BitVec.ofNat 64 (8 * n)) 7 ∧
        byteAt (BitVec.ofNat 64 (8 * n)) 5 =
          byteAt (BitVec.ofNat 64 (8 * n)) 6 := by
  have hbyte : ∀ k, k < 4 →
      (byteAt (BitVec.ofNat 64 (8 * n)) (4 + k)).toNat =
        8 * n / 2 ^ (24 - 8 * k) % 256 := by
    intro k hk
    rw [byteAt_toNat, BitVec.toNat_ofNat]
    obtain rfl | rfl | rfl | rfl : k = 0 ∨ k = 1 ∨ k = 2 ∨ k = 3 := by omega
    all_goals omega
  rw [← BitVec.toNat_inj, ← BitVec.toNat_inj, hbyte 0 (by omega),
    hbyte 1 (by omega), hbyte 2 (by omega), hbyte 3 (by omega)]
  simp [ReadsAlike]

/-- A length in the other byte order is the right one only if it is the
same in both. -/
theorem swapped_iff (n : ℕ) :
    (∀ k, k < 4 →
        byteAt (paddedLength n) (3 - k) =
            byteAt (BitVec.ofNat 64 (8 * n)) k ∧
          byteAt (paddedLength n) (7 - k) =
            byteAt (BitVec.ofNat 64 (8 * n)) (4 + k)) ↔
      LengthFits n ∧ ReadsAlike n := by
  rw [← paddedLength_eq_iff, readsAlike_iff]
  constructor
  · intro h
    have heq : paddedLength n = BitVec.ofNat 64 (8 * n) := by
      refine eq_of_byteAt fun k hk => ?_
      by_cases hk' : k < 4
      · rw [← (h k hk').1]
        exact paddedLength_high hk' (by omega)
      · obtain ⟨j, rfl⟩ : ∃ j, k = 4 + j := ⟨k - 4, by omega⟩
        exact paddedLength_low (by omega)
    have h₀ := (h 0 (by omega)).2
    have h₁ := (h 1 (by omega)).2
    rw [heq] at h₀ h₁
    exact ⟨heq, h₀.symm, h₁.symm⟩
  · rintro ⟨heq, h₀, h₁⟩ k hk
    constructor
    · rw [← heq]
      exact paddedLength_high (by omega) hk
    · rw [heq]
      obtain rfl | rfl | rfl | rfl : k = 0 ∨ k = 1 ∨ k = 2 ∨ k = 3 := by
        omega
      · exact h₀.symm
      · exact h₁.symm
      · exact h₁
      · exact h₀

/-- The bytes behind the last portion, as SHA-256 asks for them. -/
theorem specByte {i z : ℕ} (hz : Hashing.zeros 64 8 n = z)
    (hi : i < t.length + z + 9) :
    (t ++ padding n).getD i 0#8 =
      if t.length ≤ i then
        padByte (BitVec.ofNat 64 (8 * n)) t.length (t.length + z + 1) i
      else t.getD i 0#8 := by
  split_ifs with h
  · rw [List.getD_append_right _ _ _ _ h, padding_getD hz h hi]
  · rw [List.getD_append _ _ _ _ (by omega)]

theorem blocksOf_cons {first : Bool} {m : List Byte}
    (h : TEXT_BYTES ≤ m.length) :
    blocksOf first m =
      (first, (List.range TEXT_WORDS).map (beWord fun i => m.getD i 0#8)) ::
        blocksOf false (m.drop TEXT_BYTES) := by
  rw [blocksOf, dif_neg (by omega)]

theorem blocksOf_nil {first : Bool} {m : List Byte}
    (h : m.length < TEXT_BYTES) : blocksOf first m = [] := by
  rw [blocksOf, dif_pos h]

variable {regs : ℕ → Word} {first : Bool} {totalBytes : BitVec 32}

/-- What the last portion sends. -/
theorem sent_last (ht : ∀ c ∈ t, c ≠ 0#8) (h : t.length < TEXT_BYTES)
    (hregs : regs NEXT_INIT = 0#32)
    (hn : totalBytes + BitVec.ofNat 32 t.length = BitVec.ofNat 32 n) :
    sent regs (hashLoop (t ++ [0#8]) first totalBytes) =
      let padded := addPadding (paddedLength n) fun i => t.getD i 0#8
      (first, (List.range TEXT_WORDS).map (beWord padded.2)) ::
        if padded.1 > TEXT_BYTES then
          [(false, (List.range TEXT_WORDS).map
            (leWord fun i => padded.2 (TEXT_BYTES + i)))]
        else [] := by
  rw [hashLoop_short ht h, hn]
  dsimp only
  show sent regs (writeMulti TEXT_BASE (beWord (addPadding (paddedLength n)
    _).2) TEXT_WORDS ++ _ ++ _) = _
  obtain ⟨regs', hregs', hsent⟩ := sent_block
    (beWord (addPadding (paddedLength n) fun i => t.getD i 0#8).2)
    hregs first
  rw [hsent]
  congr 1
  unfold paddedLength
  split_ifs
  · obtain ⟨regs'', -, hsent'⟩ := sent_block
      (leWord fun i => (addPadding
        ((BitVec.ofNat 32 n * 8#32).signExtend 64)
          fun i => t.getD i 0#8).2 (TEXT_BYTES + i)) hregs' false
    have hnil := hsent' []
    rw [List.append_nil] at hnil
    exact hnil
  · rfl

/-- The length puts the end of the message into the last portion. -/
theorem last_short (ht : ∀ c ∈ t, c ≠ 0#8) (hregs : regs NEXT_INIT = 0#32)
    (hn : totalBytes + BitVec.ofNat 32 t.length = BitVec.ofNat 32 n)
    (he : t.length = n % 64) (h : n % 64 < 56) :
    sent regs (hashLoop (t ++ [0#8]) first totalBytes) =
        blocksOf first (t ++ padding n) ↔ LengthFits n := by
  have hz : Hashing.zeros 64 8 n = 55 - t.length := by
    rw [zeros_eq, if_pos h, he]
  have hlen : (t ++ padding n).length = 64 := by
    rw [List.length_append, padding_length, hz]
    omega
  rw [sent_last ht (by show _ < 64; omega) hregs hn,
    addPadding_eq (e := t.length) (by omega)
      (by rw [paddedLength_mod, he]), if_pos (by omega)]
  dsimp only
  rw [if_neg (by show ¬ 64 - t.length > 64; omega),
    blocksOf_cons (by show 64 ≤ _; omega),
    blocksOf_nil (by rw [List.length_drop, hlen]; decide),
    List.cons.injEq, Prod.mk.injEq, beWords_inj, ← paddedLength_eq_iff]
  simp only [true_and, and_true]
  have hcode : ∀ i, i < 64 →
      Loop.writes id (padByte (paddedLength n) t.length 56)
          (List.range' t.length (64 - t.length)) (fun i => t.getD i 0#8) i =
        if t.length ≤ i then padByte (paddedLength n) t.length 56 i
        else t.getD i 0#8 := by
    intro i hi
    rw [padded_byte]
    exact if_congr (by omega) rfl rfl
  have hspec : ∀ i, i < 64 → (t ++ padding n).getD i 0#8 =
      if t.length ≤ i then padByte (BitVec.ofNat 64 (8 * n)) t.length 56 i
      else t.getD i 0#8 := by
    intro i hi
    rw [specByte hz (by omega),
      show t.length + (55 - t.length) + 1 = 56 by omega]
  constructor
  · intro hw
    refine eq_of_byteAt fun k hk => ?_
    have hi := hw (56 + k) (by omega)
    rwa [hcode _ (by omega), hspec _ (by omega), if_pos (by omega),
      if_pos (by omega), padByte_length (by omega),
      padByte_length (by omega)] at hi
  · intro hfit i hi
    rw [hcode i hi, hspec i hi, hfit]

/-- A portion of 56 bytes leaves no room for the length, which the driver
does not see: it sends one block where SHA-256 has two. -/
theorem last_full (ht : ∀ c ∈ t, c ≠ 0#8) (hregs : regs NEXT_INIT = 0#32)
    (hn : totalBytes + BitVec.ofNat 32 t.length = BitVec.ofNat 32 n)
    (he : t.length = n % 64) (h : n % 64 = 56) :
    sent regs (hashLoop (t ++ [0#8]) first totalBytes) ≠
      blocksOf first (t ++ padding n) := by
  have hz : Hashing.zeros 64 8 n = 63 := by
    rw [zeros_eq, if_neg (by omega), h]
  have hlen : (t ++ padding n).length = 128 := by
    rw [List.length_append, padding_length, hz]
    omega
  rw [sent_last ht (by show _ < 64; omega) hregs hn,
    addPadding_eq (e := t.length) (by omega)
      (by rw [paddedLength_mod, he]), if_pos (by omega)]
  dsimp only
  rw [if_neg (by show ¬ 64 - t.length > 64; omega),
    blocksOf_cons (by show 64 ≤ _; omega),
    blocksOf_cons (by rw [List.length_drop, hlen]; decide)]
  intro heq
  have hlengths := congrArg List.length heq
  rw [List.length_cons, List.length_cons, List.length_cons] at hlengths
  simp at hlengths

/-- The length goes into a block of its own, in the other byte order. -/
theorem last_long (ht : ∀ c ∈ t, c ≠ 0#8) (hregs : regs NEXT_INIT = 0#32)
    (hn : totalBytes + BitVec.ofNat 32 t.length = BitVec.ofNat 32 n)
    (he : t.length = n % 64) (h : 56 < n % 64) :
    sent regs (hashLoop (t ++ [0#8]) first totalBytes) =
        blocksOf first (t ++ padding n) ↔ LengthFits n ∧ ReadsAlike n := by
  have hz : Hashing.zeros 64 8 n = 119 - t.length := by
    rw [zeros_eq, if_neg (by omega), he]
  have hlen : (t ++ padding n).length = 128 := by
    rw [List.length_append, padding_length, hz]
    omega
  have hcode : ∀ i, i < 128 →
      Loop.writes id (padByte (paddedLength n) t.length 120)
          (List.range' t.length (128 - t.length)) (fun i => t.getD i 0#8) i =
        if t.length ≤ i then padByte (paddedLength n) t.length 120 i
        else t.getD i 0#8 := by
    intro i hi
    rw [padded_byte]
    exact if_congr (by omega) rfl rfl
  have hspec : ∀ i, i < 128 → (t ++ padding n).getD i 0#8 =
      if t.length ≤ i then
        padByte (BitVec.ofNat 64 (8 * n)) t.length 120 i
      else t.getD i 0#8 := by
    intro i hi
    rw [specByte hz (by omega),
      show t.length + (119 - t.length) + 1 = 120 by omega]
  have hdrop : ∀ i, ((t ++ padding n).drop TEXT_BYTES).getD i 0#8 =
      (t ++ padding n).getD (64 + i) 0#8 := by
    intro i
    rw [List.getD_eq_getElem?_getD, List.getD_eq_getElem?_getD,
      List.getElem?_drop]
  have hzero : ∀ i, i < 56 → ∀ x : BitVec 64,
      padByte x t.length 120 (64 + i) = 0#8 := by
    intro i hi x
    unfold padByte
    rw [if_neg (by omega), if_neg (by omega)]
  rw [sent_last ht (by show _ < 64; omega) hregs hn,
    addPadding_eq (e := t.length) (by omega)
      (by rw [paddedLength_mod, he]), if_neg (by omega)]
  dsimp only
  rw [if_pos (by show 128 - t.length > 64; omega),
    blocksOf_cons (by show 64 ≤ _; omega),
    blocksOf_cons (by rw [List.length_drop, hlen]; decide),
    blocksOf_nil (by rw [List.length_drop, List.length_drop, hlen]; decide),
    List.cons.injEq, List.cons.injEq, Prod.mk.injEq, Prod.mk.injEq,
    beWords_inj, ← swapped_iff,
    lengthBlocks_eq (x := paddedLength n) (y := BitVec.ofNat 64 (8 * n))]
  · simp only [true_and, and_true]
    refine and_iff_right fun i hi => ?_
    rw [hcode i (by omega), hspec i (by omega), padByte_before (by omega)]
  · intro i hi
    show Loop.writes id _ _ _ (64 + i) = _
    rw [hcode _ (by omega), if_pos (by omega), hzero i hi]
  · intro i hi
    rw [hdrop, hspec _ (by omega), if_pos (by omega), hzero i hi]
  · intro k hk
    show Loop.writes id _ _ _ (64 + (56 + k)) = _
    rw [hcode _ (by omega), if_pos (by omega),
      show 64 + (56 + k) = 120 + k by omega, padByte_length (by omega)]
  · intro k hk
    rw [hdrop, hspec _ (by omega), if_pos (by omega),
      show 64 + (56 + k) = 120 + k by omega, padByte_length (by omega)]

end Last

/-! ## The whole message -/

/-- The lengths for which the driver frames a message: the last portion has
room for the length, and an `int` holds it.  (Behind 56 bytes the length
has to read the same in both byte orders.) -/
def Framed (n : ℕ) : Prop :=
  LengthFits n ∧ (n % 64 < 56 ∨ 56 < n % 64 ∧ ReadsAlike n)

/-- The lengths below `2 ^ 60` bytes. -/
theorem framed_iff {n : ℕ} (h : n < 2 ^ 60) :
    Framed n ↔ n < 2 ^ 28 ∧ n % 64 < 56 := by
  unfold Framed LengthFits ReadsAlike
  rw [Nat.mod_eq_of_lt (by omega : 8 * n < 2 ^ 64)]
  constructor
  · rintro ⟨hfit, hroom | ⟨hroom, htop, -⟩⟩
    · omega
    · have hlt : 8 * n / 2 ^ 24 < 2 ^ 7 := by omega
      have hlow : n % 64 % 32 = n % 32 :=
        Nat.mod_mod_of_dvd n (by decide : 32 ∣ 64)
      have hend : n % 64 < 64 := Nat.mod_lt n (by decide)
      rw [Nat.mod_eq_of_lt (by omega), show (256 : ℕ) = 8 * 32 by rfl,
        Nat.mul_mod_mul_left, ← hlow] at htop
      generalize n % 64 = r at hroom hend htop
      omega
  · rintro ⟨hlt, hroom⟩
    omega

/-- What is sent of the rest `t` of a message of `n` bytes. -/
theorem sent_hashLoop_iff {n : ℕ} {t : List Byte} (ht : ∀ c ∈ t, c ≠ 0#8)
    {regs : ℕ → Word} (hregs : regs NEXT_INIT = 0#32) {first : Bool}
    {totalBytes : BitVec 32}
    (hn : totalBytes + BitVec.ofNat 32 t.length = BitVec.ofNat 32 n)
    (he : t.length % 64 = n % 64) :
    sent regs (hashLoop (t ++ [0#8]) first totalBytes) =
        blocksOf first (t ++ padding n) ↔ Framed n := by
  by_cases h : TEXT_BYTES ≤ t.length
  · obtain ⟨regs', hregs', hsent⟩ := sent_block
      (beWord fun i => (t.take TEXT_BYTES).getD i 0#8) hregs first
    have hdrop : t.length = 64 + (t.drop TEXT_BYTES).length := by
      rw [List.length_drop]
      exact (Nat.add_sub_of_le h).symm
    have hblock : (List.range TEXT_WORDS).map
          (beWord fun i => (t.take TEXT_BYTES).getD i 0#8) =
        (List.range TEXT_WORDS).map
          (beWord fun i => (t ++ padding n).getD i 0#8) := by
      rw [beWords_inj]
      intro i hi
      have hi' : i < t.length := by omega
      rw [List.getD_append _ _ _ _ hi', List.getD_eq_getElem?_getD,
        List.getD_eq_getElem?_getD, List.getElem?_take_of_lt hi]
    rw [hashLoop_long ht h, hsent, blocksOf_cons
      (by rw [List.length_append]; omega), hblock, List.cons.injEq,
      List.drop_append_of_le_length h]
    rw [and_iff_right rfl]
    refine sent_hashLoop_iff
      (fun c hc => ht c (List.mem_of_mem_drop hc)) hregs' ?_ (by omega)
    rw [← hn, hdrop, BitVec.ofNat_add, BitVec.add_assoc]
  · have hlt : t.length < 64 := Nat.not_le.mp h
    have he' : t.length = n % 64 := by omega
    unfold Framed
    rcases Nat.lt_trichotomy (n % 64) 56 with h₁ | h₁ | h₁
    · rw [last_short ht hregs hn he' h₁]
      exact (and_iff_left (Or.inl h₁)).symm
    · refine iff_of_false (last_full ht hregs hn he' h₁) ?_
      rintro ⟨-, h₂ | ⟨h₂, -⟩⟩ <;> omega
    · rw [last_long ht hregs hn he' h₁]
      exact and_congr_right' ⟨fun h₂ => Or.inr ⟨h₁, h₂⟩,
        fun h₂ => (h₂.resolve_left (by omega)).2⟩
termination_by t.length
decreasing_by
  rw [hdrop]
  omega

/-- The driver sends the padded message for the lengths that it frames and
for no other. -/
theorem hashString_sends_message (regs : ℕ → Word) (s : CString) :
    sent (Function.update regs NEXT_INIT 0#32) (hashString s) =
      messageBlocks s.bytes ↔ Framed s.bytes.length := by
  refine sent_hashLoop_iff s.noNul (Function.update_self _ _ _) ?_ rfl
  rw [BitVec.zero_add]

/-- 56 letters are sent as one block, with the mark on the top byte of the
length. -/
theorem hashString_misses_message :
    sent (fun _ => 0#32)
        (hashString ⟨List.replicate 56 0x61#8, by decide⟩) ≠
      messageBlocks (List.replicate 56 0x61#8) := by
  unfold hashString hashLoop messageBlocks blocksOf blocksOf
  decide +kernel

end ArianeSoc.Pk.Sha256
