import ArianeSoc.Decoder

/-!
# The words that the system opcode accepts

`LegalSystem` lists the encodings bit by bit: the privileged instructions
with the levels at which they are permitted, and the CSR instructions.  A
CSR instruction is accepted at every level and for every address, since
`csr_regfile` checks the access when the instruction executes.

Of three kinds of words the decoder leaves fields unchecked
(`Unchecked`); outside them it accepts the encodings of the list and
nothing else (`system_accepts_iff`).
-/

namespace ArianeSoc.Decoder

/-! ## Encodings -/

/-- A privileged instruction without operands. -/
def privWord (k : BitVec 12) : Instr :=
  k ++ 0#5 ++ 0#3 ++ 0#5 ++ OpcodeSystem

/-- SFENCE.VMA with its two operands. -/
def sfenceWord (r1 r2 : BitVec 5) : Instr :=
  0b0001001#7 ++ r2 ++ r1 ++ 0#3 ++ 0#5 ++ OpcodeSystem

/-- The six CSR instructions. -/
def csrFunct3 : List (BitVec 3) := [1#3, 2#3, 3#3, 5#3, 6#3, 7#3]

/-- A CSR instruction, with any address and operands. -/
def csrWord (a : BitVec 12) (r1 : BitVec 5) (f3 : BitVec 3) (r : BitVec 5) :
    Instr :=
  a ++ r1 ++ f3 ++ r ++ OpcodeSystem

/-- SRET needs S mode without `tsr`, or M mode. -/
def sretPermitted (i : In) : Prop :=
  i.privLvl ≠ PRIV_LVL_U ∧ ¬ (i.privLvl = PRIV_LVL_S ∧ i.tsr = true)

/-- WFI is not available in U mode, and in S mode only without `tw`. -/
def wfiPermitted (i : In) : Prop :=
  i.privLvl ≠ PRIV_LVL_U ∧ ¬ (i.privLvl = PRIV_LVL_S ∧ i.tw = true)

/-- MRET needs M mode. -/
def mretPermitted (i : In) : Prop :=
  i.privLvl ≠ PRIV_LVL_U ∧ i.privLvl ≠ PRIV_LVL_S

/-- SFENCE.VMA needs S mode without `tvm`, or M mode. -/
def sfencePermitted (i : In) : Prop :=
  i.privLvl = PRIV_LVL_M ∨ i.privLvl = PRIV_LVL_S ∧ i.tvm = false

/-- The legal encodings of the system opcode. -/
inductive LegalSystem (i : In) : Prop where
  | ecall (h : i.instruction = privWord 0x000#12)
  | ebreak (h : i.instruction = privWord 0x001#12)
  | sret (h : i.instruction = privWord 0x102#12) (hp : sretPermitted i)
  | mret (h : i.instruction = privWord 0x302#12) (hp : mretPermitted i)
  | dret (h : i.instruction = privWord 0x7B2#12) (hp : i.debugMode = true)
  | wfi (h : i.instruction = privWord 0x105#12) (hp : wfiPermitted i)
  | sfence (r1 r2 : BitVec 5) (h : i.instruction = sfenceWord r1 r2)
      (hp : sfencePermitted i)
  | csr (a : BitVec 12) (r1 : BitVec 5) (f3 : BitVec 3) (r : BitVec 5)
      (h : i.instruction = csrWord a r1 f3 r) (hf : f3 ∈ csrFunct3)

/-- The values of `funct12` that name an instruction. -/
def privFunct12 : List (BitVec 12) :=
  [0x000#12, 0x001#12, 0x102#12, 0x302#12, 0x7B2#12, 0x105#12]

/-- Words that pass although a field is wrong: DRET with operands,
SFENCE.VMA with a destination, and a `funct12` that names no instruction. -/
def Unchecked (i : In) : Prop :=
  funct3 i.instruction = 0#3 ∧
    (imm i.instruction = 0x7B2#12 ∧ i.debugMode = true ∧
        ¬ (rs1 i.instruction = 0#5 ∧ rd i.instruction = 0#5) ∨
      funct7 i.instruction = 0b0001001#7 ∧ sfencePermitted i ∧
        rd i.instruction ≠ 0#5 ∨
      imm i.instruction ∉ privFunct12 ∧
        funct7 i.instruction ≠ 0b0001001#7 ∧
        rs1 i.instruction = 0#5 ∧ rd i.instruction = 0#5)

section Facts

variable {i : In} {w : Instr}

/-- The fields of a word of five parts. -/
theorem fields_of_parts (a : BitVec 12) (r1 : BitVec 5) (f3 : BitVec 3)
    (r : BitVec 5) :
    opcode (csrWord a r1 f3 r) = OpcodeSystem ∧ rd (csrWord a r1 f3 r) = r ∧
      funct3 (csrWord a r1 f3 r) = f3 ∧ rs1 (csrWord a r1 f3 r) = r1 ∧
      imm (csrWord a r1 f3 r) = a := by
  have hcat : (csrWord a r1 f3 r).toNat =
      (((a.toNat * 2 ^ 5 + r1.toNat) * 2 ^ 3 + f3.toNat) * 2 ^ 5 +
        r.toNat) * 2 ^ 7 + OpcodeSystem.toNat := by
    unfold csrWord
    rw [BitField.toNat_append_add, BitField.toNat_append_add,
      BitField.toNat_append_add, BitField.toNat_append_add]
  have h1 := r1.isLt
  have h2 := f3.isLt
  have h3 := r.isLt
  have h4 := a.isLt
  have h5 : OpcodeSystem.toNat = 115 := rfl
  refine ⟨?_, ?_, ?_, ?_, ?_⟩
  all_goals
    apply BitVec.eq_of_toNat_eq
    simp only [opcode, rd, funct3, rs1, imm, BitVec.extractLsb'_toNat,
      Nat.shiftRight_eq_div_pow, hcat]
    omega

/-- A word of the system opcode is put together from its fields. -/
theorem eq_csrWord_iff (a : BitVec 12) (r1 : BitVec 5) (f3 : BitVec 3)
    (r : BitVec 5) :
    w = csrWord a r1 f3 r ↔ opcode w = OpcodeSystem ∧ rd w = r ∧
      funct3 w = f3 ∧ rs1 w = r1 ∧ imm w = a := by
  obtain ⟨h1, h2, h3, h4, h5⟩ := fields_of_parts a r1 f3 r
  constructor
  · rintro rfl
    exact ⟨h1, h2, h3, h4, h5⟩
  · rintro ⟨g1, g2, g3, g4, g5⟩
    exact eq_of_fields (g1.trans h1.symm) (g2.trans h2.symm)
      (g3.trans h3.symm) (g4.trans h4.symm) (g5.trans h5.symm)

theorem eq_privWord_iff (k : BitVec 12) :
    w = privWord k ↔ opcode w = OpcodeSystem ∧ rd w = 0#5 ∧
      funct3 w = 0#3 ∧ rs1 w = 0#5 ∧ imm w = k :=
  eq_csrWord_iff k 0#5 0#3 0#5

theorem funct7_eq (w : Instr) : funct7 w = (imm w).extractLsb' 5 7 := by
  apply BitVec.eq_of_toNat_eq
  simp only [funct7, imm, BitVec.extractLsb'_toNat, Nat.shiftRight_eq_div_pow]
  have hw := w.isLt
  omega

theorem rs2_eq (w : Instr) : rs2 w = (imm w).extractLsb' 0 5 := by
  apply BitVec.eq_of_toNat_eq
  simp only [rs2, imm, BitVec.extractLsb'_toNat, Nat.shiftRight_eq_div_pow]
  have hw := w.isLt
  omega

theorem eq_sfenceWord_iff :
    (∃ r1 r2, w = sfenceWord r1 r2) ↔ opcode w = OpcodeSystem ∧
      rd w = 0#5 ∧ funct3 w = 0#3 ∧ funct7 w = 0b0001001#7 := by
  have hcat : ∀ r1 r2 : BitVec 5, sfenceWord r1 r2 =
      csrWord (0b0001001#7 ++ r2) r1 0#3 0#5 := fun _ _ => rfl
  constructor
  · rintro ⟨r1, r2, h⟩
    rw [hcat, eq_csrWord_iff] at h
    obtain ⟨h1, h2, h3, -, h5⟩ := h
    refine ⟨h1, h2, h3, ?_⟩
    rw [funct7_eq, h5]
    exact BitVec.extractLsb'_append_eq_left
  · rintro ⟨h1, h2, h3, h7⟩
    refine ⟨rs1 w, rs2 w, ?_⟩
    rw [hcat, eq_csrWord_iff]
    refine ⟨h1, h2, h3, rfl, ?_⟩
    rw [← h7, funct7_eq, rs2_eq]
    apply BitVec.eq_of_toNat_eq
    rw [BitField.toNat_append_add, BitVec.extractLsb'_toNat,
      BitVec.extractLsb'_toNat, Nat.shiftRight_eq_div_pow]
    have himm := (imm w).isLt
    omega

/-- The legal encodings, field by field. -/
theorem legalSystem_iff (hop : opcode i.instruction = OpcodeSystem) :
    LegalSystem i ↔
      funct3 i.instruction = 0#3 ∧ rd i.instruction = 0#5 ∧
          (rs1 i.instruction = 0#5 ∧
              (imm i.instruction = 0x000#12 ∨ imm i.instruction = 0x001#12 ∨
                imm i.instruction = 0x102#12 ∧ sretPermitted i ∨
                imm i.instruction = 0x302#12 ∧ mretPermitted i ∨
                imm i.instruction = 0x7B2#12 ∧ i.debugMode = true ∨
                imm i.instruction = 0x105#12 ∧ wfiPermitted i) ∨
            funct7 i.instruction = 0b0001001#7 ∧ sfencePermitted i) ∨
        funct3 i.instruction ∈ csrFunct3 := by
  constructor
  · intro h
    cases h with
    | sfence r1 r2 h hp =>
      obtain ⟨-, h1, h2, h3⟩ := eq_sfenceWord_iff.mp ⟨r1, r2, h⟩
      exact .inl ⟨h2, h1, .inr ⟨h3, hp⟩⟩
    | csr a r1 f3 r h hf =>
      rw [((eq_csrWord_iff a r1 f3 r).mp h).2.2.1]
      exact .inr hf
    | ecall h | ebreak h | sret h | mret h | dret h | wfi h =>
      obtain ⟨-, h1, h2, h3, h4⟩ := (eq_privWord_iff _).mp h
      refine .inl ⟨h2, h1, .inl ⟨h3, ?_⟩⟩
      simp_all
  · rintro (⟨h2, h1, ⟨h3, h⟩ | ⟨h7, hp⟩⟩ | hf)
    · have hword : ∀ k, imm i.instruction = k → i.instruction = privWord k :=
        fun k hk => (eq_privWord_iff k).mpr ⟨hop, h1, h2, h3, hk⟩
      rcases h with h | h | ⟨h, hp⟩ | ⟨h, hp⟩ | ⟨h, hp⟩ | ⟨h, hp⟩
      · exact .ecall (hword _ h)
      · exact .ebreak (hword _ h)
      · exact .sret (hword _ h) hp
      · exact .mret (hword _ h) hp
      · exact .dret (hword _ h) hp
      · exact .wfi (hword _ h) hp
    · obtain ⟨r1, r2, h⟩ := eq_sfenceWord_iff.mpr ⟨hop, h1, h2, h7⟩
      exact .sfence r1 r2 h hp
    · exact .csr _ _ _ _ ((eq_csrWord_iff _ _ _ _).mpr
        ⟨hop, rfl, rfl, rfl, rfl⟩) hf

/-- No other privileged instruction has the upper bits of SFENCE.VMA. -/
theorem funct7_ne {k : BitVec 12} (himm : imm i.instruction = k)
    (hk : k ∈ privFunct12) : funct7 i.instruction ≠ 0b0001001#7 := by
  have hall : (privFunct12.all fun k =>
      k.extractLsb' 5 7 != 0b0001001#7) = true := by decide
  rw [funct7_eq, himm]
  exact bne_iff_ne.mp (List.all_eq_true.mp hall k hk)

theorem sret_condition :
    (i.privLvl = PRIV_LVL_U ∨ i.privLvl = PRIV_LVL_S ∧ i.tsr = true) ↔
      ¬ sretPermitted i := by
  unfold sretPermitted
  tauto

theorem wfi_condition :
    (i.privLvl = PRIV_LVL_S ∧ i.tw = true ∨ i.privLvl = PRIV_LVL_U) ↔
      ¬ wfiPermitted i := by
  unfold wfiPermitted
  tauto

theorem sfence_condition :
    (¬ (i.privLvl = PRIV_LVL_M ∨ i.privLvl = PRIV_LVL_S) ∨
      i.privLvl = PRIV_LVL_S ∧ i.tvm = true) ↔ ¬ sfencePermitted i := by
  unfold sfencePermitted
  have hne : i.privLvl = PRIV_LVL_M → i.privLvl ≠ PRIV_LVL_S := by
    intro h
    rw [h]
    decide
  cases i.tvm with
  | false => simp
  | true =>
    simp only [and_true, Bool.true_eq_false, and_false, or_false]
    tauto

/-- What `funct3` zero lets through. -/
theorem decodePriv_accepts {d : Decoded} (hd : d.illegalInstr = false)
    (hf3 : funct3 i.instruction = 0#3) :
    (decodePriv i d).illegalInstr = false ↔
      rd i.instruction = 0#5 ∧
          (rs1 i.instruction = 0#5 ∧
              (imm i.instruction = 0x000#12 ∨ imm i.instruction = 0x001#12 ∨
                imm i.instruction = 0x102#12 ∧ sretPermitted i ∨
                imm i.instruction = 0x302#12 ∧ mretPermitted i ∨
                imm i.instruction = 0x7B2#12 ∧ i.debugMode = true ∨
                imm i.instruction = 0x105#12 ∧ wfiPermitted i) ∨
            funct7 i.instruction = 0b0001001#7 ∧ sfencePermitted i) ∨
        Unchecked i := by
  unfold Unchecked decodePriv
  dsimp only
  by_cases h0 : imm i.instruction = 0x000#12
  · have h7 := funct7_ne h0 (by decide)
    simp [Decoded.illegalIf, hd, hf3, h0, h7, privFunct12, and_comm]
  rw [if_neg h0]
  by_cases h1 : imm i.instruction = 0x001#12
  · have h7 := funct7_ne h1 (by decide)
    simp [Decoded.illegalIf, hd, hf3, h1, h7, privFunct12, and_comm]
  rw [if_neg h1]
  by_cases h2 : imm i.instruction = 0x102#12
  · have h7 := funct7_ne h2 (by decide)
    rw [if_pos h2]
    by_cases hp : sretPermitted i
    · rw [if_neg fun h => sret_condition.mp h hp]
      simp [Decoded.illegalIf, hd, hf3, h2, h7, privFunct12, and_comm, hp]
    · rw [if_pos (sret_condition.mpr hp)]
      simp [h2, h7, privFunct12, hp]
  rw [if_neg h2]
  by_cases h3 : imm i.instruction = 0x302#12
  · have h7 := funct7_ne h3 (by decide)
    rw [if_pos h3]
    simp only [Decoded.illegalIf, hd, hf3, h3, h7, privFunct12]
    simp [mretPermitted]
    tauto
  rw [if_neg h3]
  by_cases h4 : imm i.instruction = 0x7B2#12
  · have h7 := funct7_ne h4 (by decide)
    simp [hf3, h4, h7, privFunct12]
    tauto
  rw [if_neg h4]
  by_cases h5 : imm i.instruction = 0x105#12
  · have h7 := funct7_ne h5 (by decide)
    rw [if_pos h5]
    by_cases hp : wfiPermitted i
    · rw [if_neg fun h => wfi_condition.mp h hp]
      simp [Decoded.illegalIf, hd, hf3, h5, h7, privFunct12, and_comm, hp]
    · rw [if_pos (wfi_condition.mpr hp)]
      simp [h5, h7, privFunct12, hp]
  rw [if_neg h5]
  by_cases h7 : funct7 i.instruction = 0b0001001#7
  · rw [if_pos h7]
    dsimp only
    rw [decide_eq_false_iff_not, sfence_condition, not_not]
    by_cases hr : rd i.instruction = 0#5 <;>
      simp [hf3, h0, h1, h2, h3, h4, h5, h7, privFunct12, hr]
  · rw [if_neg h7]
    simp [Decoded.illegalIf, hd, hf3, h0, h1, h2, h3, h4, h5, h7,
      privFunct12]

/-- The words of the system opcode that pass. -/
theorem system_accepts (hex : i.ex.valid = false)
    (hop : opcode i.instruction = OpcodeSystem) :
    (decodeInstr i).illegalInstr = false ↔ LegalSystem i ∨ Unchecked i := by
  rw [legalSystem_iff hop]
  by_cases hf3 : funct3 i.instruction = 0#3
  · rw [decodeInstr_priv hex hop hf3, decodePriv_accepts rfl hf3, hf3]
    simp [csrFunct3]
  · have hun : ¬ Unchecked i := fun h => hf3 h.1
    simp only [hf3, false_and, false_or, hun, or_false]
    unfold decodeInstr
    rw [if_neg (by simp [hex]), if_pos hop]
    have hall : ∀ f3 : BitVec 3, f3 ≠ 0#3 → f3 = 1#3 ∨ f3 = 2#3 ∨
        f3 = 3#3 ∨ f3 = 4#3 ∨ f3 = 5#3 ∨ f3 = 6#3 ∨ f3 = 7#3 := by
      decide
    unfold decodeSystem csrFunct3
    rcases hall _ hf3 with h | h | h | h | h | h | h <;> simp [h]

/-- Outside the unchecked words the decoder accepts the encodings of the
list and nothing else. -/
theorem system_accepts_iff (i : In) (hex : i.ex.valid = false)
    (hop : opcode i.instruction = OpcodeSystem) (hun : ¬ Unchecked i) :
    (decodeInstr i).illegalInstr = false ↔ LegalSystem i := by
  rw [system_accepts hex hop]
  exact or_iff_left hun

end Facts

/-- The decoder outside debug mode, at the given level. -/
def atLevel (p : PrivLvl) (w : Instr) : In where
  debugReq := false
  pc := 0#64
  isCompressed := false
  compressedInstr := 0#16
  isIllegal := false
  instruction := w
  predictAddress := 0#64
  ex := ExceptionT.none
  irq := 0#2
  irqCtrl := ⟨0#64, 0#64, 0#64, false, false⟩
  privLvl := p
  debugMode := false
  fs := 0#2
  frm := 0#3
  tvm := false
  tw := false
  tsr := false

/-- MRET in M mode. -/
theorem system_accepts_iff_mret :
    (decodeInstr (atLevel PRIV_LVL_M MRET_WORD)).illegalInstr = false ↔
      LegalSystem (atLevel PRIV_LVL_M MRET_WORD) :=
  system_accepts_iff (atLevel PRIV_LVL_M MRET_WORD) rfl (by decide)
    fun h => h.2.elim
      (fun h => absurd h.1 (by decide))
      fun h => h.elim (fun h => absurd h.1 (by decide))
        fun h => absurd h.1 (by decide)

/-- In U mode the decoder accepts a write to `mstatus`, whose address is one
of M mode. -/
theorem system_accepts_mstatus :
    opcode (csrWord CsrReg.MSTATUS.addr 1#5 1#3 0#5) = OpcodeSystem ∧
      (decodeInstr (atLevel PRIV_LVL_U
        (csrWord CsrReg.MSTATUS.addr 1#5 1#3 0#5))).illegalInstr = false ∧
      csrPrivLvl CsrReg.MSTATUS.addr = PRIV_LVL_M := by
  decide

end ArianeSoc.Decoder
