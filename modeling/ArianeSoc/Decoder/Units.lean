import ArianeSoc.Decoder

/-!
# Operations, units and destinations

What the decoder makes sure of: fences go to the CSR unit and atomics to
the store unit, no CSR operation names a floating-point register, and an
instruction without a result names register zero.  `Matched` collects these
facts, and every major opcode has its lemma.
-/

namespace ArianeSoc.Decoder

/-- The memory ordering instructions. -/
def isFence (op : FuOp) : Bool :=
  op = .FENCE ∨ op = .FENCE_I ∨ op = .SFENCE_VMA

/-- Neither a fence nor an atomic. -/
def plain (op : FuOp) : Bool := !isFence op && !isAmo op

/-- The units whose instructions write a register. -/
def computes : FuT → Bool
  | .LOAD | .ALU | .CTRL_FLOW | .MULT | .FPU => true
  | _ => false

/-- A store or a fence other than SFENCE.VMA, which has no result. -/
def noResult (fu : FuT) (op : FuOp) : Bool :=
  fu = .STORE ∧ isAmo op = false ∨ op = .FENCE ∨ op = .FENCE_I

/-- What holds of every decoded instruction. -/
structure Decoded.Matched (d : Decoded) : Prop where
  fence : isFence d.op = true → d.fu = .CSR
  amo : isAmo d.op = true → d.fu = .STORE
  csr : d.fu = .CSR → isRdFpr d.op = false
  none : d.fu = .NONE → d.rd = 0#6 ∧ isRdFpr d.op = false
  dest : d.illegalInstr = false → noResult d.fu d.op = true →
    d.rd = 0#6 ∧ isRdFpr d.op = false

section Facts

variable {d : Decoded} {i : In} {w : Instr}

theorem matched_of_computes (h : plain d.op = true)
    (hfu : computes d.fu = true) : d.Matched := by
  simp only [plain, Bool.and_eq_true, Bool.not_eq_true'] at h
  have hno : noResult d.fu d.op = false := by
    have hop := h.1
    simp only [isFence, decide_eq_false_iff_not, not_or] at hop
    have hst : d.fu ≠ .STORE := by
      rintro hst
      rw [hst] at hfu
      exact absurd hfu (by decide)
    simp [noResult, hop.1, hop.2.1, hst]
  refine ⟨fun hf => absurd hf (by simp [h.1]),
    fun ha => absurd ha (by simp [h.2]), fun hc => ?_, fun hc => ?_,
    fun _ hn => absurd hn (by simp [hno])⟩
  all_goals
    rw [hc] at hfu
    exact absurd hfu (by decide)

/-- An instruction without a destination. -/
theorem matched_of_noDest (h : plain d.op = true) (hfu : d.fu ≠ .CSR)
    (hrd : d.rd = 0#6) (hop : isRdFpr d.op = false) : d.Matched := by
  simp only [plain, Bool.and_eq_true, Bool.not_eq_true'] at h
  exact ⟨fun hf => absurd hf (by simp [h.1]),
    fun ha => absurd ha (by simp [h.2]), fun hc => absurd hc hfu,
    fun _ => ⟨hrd, hop⟩, fun _ _ => ⟨hrd, hop⟩⟩

theorem matched_illegal : ({ illegalInstr := true } : Decoded).Matched :=
  matched_of_noDest rfl (by decide) rfl rfl

theorem ite_matched {c : Prop} [Decidable c] {a b : Decoded}
    (ha : a.Matched) (hb : b.Matched) : (if c then a else b).Matched := by
  by_cases hc : c
  · rwa [if_pos hc]
  · rwa [if_neg hc]

theorem select_op {p : FuOp → Bool} {r : Bool} {o : Option FuOp}
    (hd : p d.op = r) (ho : ∀ op ∈ o, p op = r) : p (d.select o).op = r := by
  cases o with
  | none => exact hd
  | some op => exact ho op rfl

@[simp] theorem select_rd (o : Option FuOp) : (d.select o).rd = d.rd := by
  cases o <;> rfl

@[simp] theorem illegalIf_rd (p : Prop) [Decidable p] :
    (d.illegalIf p).rd = d.rd := rfl

/-! ## The operation tables -/

theorem regRegOp_plain : ∀ op ∈ regRegOp w, plain op = true := by
  unfold regRegOp
  split <;> simp <;> decide

theorem regRegOp32_plain : ∀ op ∈ regRegOp32 w, plain op = true := by
  unfold regRegOp32
  split <;> simp <;> decide

/-- A store has no result in either register file. -/
def storing (op : FuOp) : Bool := plain op && !isRdFpr op

theorem storeOp_storing : ∀ op ∈ storeOp w, storing op = true := by
  unfold storeOp
  split <;> simp <;> decide

theorem storeFpOp_storing : ∀ op ∈ storeFpOp w, storing op = true := by
  unfold storeFpOp
  split <;> simp <;> decide

theorem loadOp_plain : ∀ op ∈ loadOp w, plain op = true := by
  unfold loadOp
  split <;> simp <;> decide

theorem loadFpOp_plain : ∀ op ∈ loadFpOp w, plain op = true := by
  unfold loadFpOp
  split <;> simp <;> decide

theorem branchOp_plain : ∀ op ∈ branchOp w, plain op = true := by
  unfold branchOp
  split <;> simp <;> decide

theorem amoOp_isAmo {word : Bool} :
    ∀ op ∈ amoOp word w, isAmo op = true := by
  unfold amoOp
  cases word <;> dsimp only <;> split <;> simp <;> decide

/-! ## The major opcodes -/

theorem decodeOp_matched : (decodeOp w).Matched := by
  refine ite_matched matched_illegal (matched_of_computes ?_ ?_)
  · exact select_op rfl regRegOp_plain
  · rw [select_fu, regReg]
    dsimp only
    split_ifs <;> rfl

theorem decodeOp32_matched : (decodeOp32 w).Matched := by
  refine matched_of_computes (select_op rfl regRegOp32_plain) ?_
  rw [decodeOp32, select_fu, regReg]
  dsimp only
  split_ifs <;> rfl

theorem decodeOpImm_matched : (decodeOpImm w).Matched := by
  apply matched_of_computes
  · unfold decodeOpImm
    dsimp only
    split
    case h_8 =>
      refine select_op rfl ?_
      split_ifs <;> simp <;> decide
    all_goals rfl
  · unfold decodeOpImm
    dsimp only
    split <;> simp [regImm] <;> rfl

theorem decodeOpImm32_matched : (decodeOpImm32 w).Matched := by
  apply matched_of_computes
  · unfold decodeOpImm32
    dsimp only
    split
    case h_3 =>
      refine select_op rfl ?_
      split_ifs <;> simp <;> decide
    all_goals rfl
  · unfold decodeOpImm32
    dsimp only
    split <;> simp [regImm] <;> rfl

theorem select_store_matched {o : Option FuOp}
    (ho : ∀ op ∈ o, storing op = true) :
    ((storeFormat w).select o).Matched := by
  have hop : storing ((storeFormat w).select o).op = true :=
    select_op rfl ho
  simp only [storing, Bool.and_eq_true, Bool.not_eq_true'] at hop
  exact matched_of_noDest hop.1 (by simp [storeFormat]) (by simp [storeFormat])
    hop.2

theorem select_load_matched {o : Option FuOp}
    (ho : ∀ op ∈ o, plain op = true) :
    ((regImm .LOAD w).select o).Matched :=
  matched_of_computes (select_op rfl ho) (by simp [regImm, computes])

/-- The atomics are the only operations of their opcode that the decoder
does not reject. -/
theorem decodeAmo_matched : (decodeAmo w).Matched := by
  have hfu : (decodeAmo w).fu = .STORE := by
    unfold decodeAmo
    dsimp only
    split_ifs
    · rw [illegalIf_fu, select_fu]
    · rfl
  have hop : isAmo (decodeAmo w).op = true ∨
      (decodeAmo w).op = .ADD ∧ (decodeAmo w).illegalInstr = true := by
    unfold decodeAmo
    dsimp only
    split_ifs
    · rw [illegalIf_op]
      cases ho : amoOp (funct3 w = 2#3) w with
      | none => exact Or.inr ⟨rfl, rfl⟩
      | some op => exact Or.inl (amoOp_isAmo op ho)
    · exact Or.inr ⟨rfl, rfl⟩
  have hamo : ∀ op : FuOp, isAmo op = true → isFence op = false := by
    intro op
    cases op <;> decide
  refine ⟨fun hf => ?_, fun _ => hfu, fun hc => ?_, fun hc => ?_,
    fun hl hn => ?_⟩
  · rcases hop with hop | ⟨hop, -⟩
    · exact absurd hf (by simp [hamo _ hop])
    · rw [hop] at hf
      exact absurd hf (by decide)
  · rw [hfu] at hc
    exact absurd hc (by decide)
  · rw [hfu] at hc
    exact absurd hc (by decide)
  · rcases hop with hop | ⟨-, hill⟩
    · have hnf := hamo _ hop
      simp only [isFence, decide_eq_false_iff_not, not_or] at hnf
      exact absurd hn (by simp [noResult, hop, hnf.1, hnf.2.1])
    · exact absurd hl (by simp [hill])

theorem decodeFma_matched : (decodeFma i).Matched := by
  refine ite_matched matched_illegal (matched_of_computes ?_ rfl)
  rw [illegalIf_op]
  unfold fmaOp
  dsimp only
  split_ifs <;> rfl

theorem opFpSelect_plain (hd : plain d.op = true) :
    plain (opFpSelect w d).1.op = true := by
  unfold opFpSelect
  dsimp only
  split
  case h_12 =>
    refine select_op hd ?_
    split_ifs <;> simp <;> decide
  case h_14 => exact hd
  all_goals rfl

theorem decodeOpFp_matched : (decodeOpFp i).Matched := by
  refine ite_matched matched_illegal (matched_of_computes ?_ ?_)
  · exact opFpSelect_plain rfl
  · show computes (opFpSelect i.instruction (fpFormat i.instruction)).1.fu =
      true
    rw [opFpSelect_fu]
    rfl

theorem decodeUnit_matched : (decodeUnit i).Matched := by
  unfold decodeUnit
  refine ite_matched decodeOp_matched <| ite_matched decodeOp32_matched <|
    ite_matched decodeOpImm_matched <| ite_matched decodeOpImm32_matched <|
    ite_matched (select_store_matched storeOp_storing) <|
    ite_matched (select_load_matched loadOp_plain) <|
    ite_matched
      (ite_matched matched_illegal (select_store_matched storeFpOp_storing)) <|
    ite_matched
      (ite_matched matched_illegal (select_load_matched loadFpOp_plain)) <|
    ite_matched decodeFma_matched <| ite_matched decodeOpFp_matched <|
    ite_matched decodeAmo_matched <| ite_matched ?branch <|
    ite_matched ?jalr <| ite_matched ?jal <| ite_matched ?auipc <|
    ite_matched ?lui matched_illegal
  case branch =>
    exact matched_of_computes (select_op rfl branchOp_plain)
      (by simp [decodeBranch, computes])
  all_goals exact matched_of_computes rfl rfl

/-- The instructions of the CSR unit. -/
theorem matched_of_csr (hfu : d.fu = .CSR) (hamo : isAmo d.op = false)
    (hop : isRdFpr d.op = false)
    (hrd : noResult d.fu d.op = true → d.rd = 0#6) : d.Matched :=
  ⟨fun _ => hfu, fun h => absurd h (by simp [hamo]), fun _ => hop,
    fun h => absurd (hfu.symm.trans h) (by decide),
    fun _ h => ⟨hrd h, hop⟩⟩

/-- The operations of the system opcode. -/
def isSystem (op : FuOp) : Bool :=
  !isAmo op && !isRdFpr op && op ≠ .FENCE && op ≠ .FENCE_I

theorem decodeSystem_matched : (decodeSystem i).Matched := by
  have hpriv : ∀ d : Decoded, isSystem d.op = true →
      isSystem (decodePriv i d).op = true := by
    intro d hd
    unfold decodePriv
    dsimp only
    split_ifs <;> first | exact hd | rfl
  have hset : ∀ op, isSystem op = true →
      isSystem (csrSetOp i.instruction op) = true := by
    intro op hop
    unfold csrSetOp
    split_ifs
    · rfl
    · exact hop
  have hfu : (decodeSystem i).fu = .CSR := by
    unfold decodeSystem decodePriv
    dsimp only
    split
    case h_1 => split_ifs <;> rfl
    all_goals rfl
  have hop : isSystem (decodeSystem i).op = true := by
    unfold decodeSystem
    dsimp only
    split
    case h_1 => exact hpriv _ rfl
    all_goals first | rfl | exact hset _ rfl
  simp only [isSystem, Bool.and_eq_true, Bool.not_eq_true',
    decide_eq_true_eq] at hop
  refine matched_of_csr hfu hop.1.1.1 hop.1.1.2 fun hn => ?_
  simp [noResult, hfu, hop.1.2, hop.2] at hn

theorem decodeMiscMem_matched : (decodeMiscMem w).Matched := by
  have hd : (decodeMiscMem w).fu = .CSR ∧ (decodeMiscMem w).rd = 0#6 := by
    unfold decodeMiscMem
    dsimp only
    rw [illegalIf_fu, illegalIf_rd]
    split <;> exact ⟨rfl, rfl⟩
  rcases @decodeMiscMem_op w with hop | hop | hop <;>
    exact matched_of_csr hd.1 (by rw [hop]; rfl) (by rw [hop]; rfl)
      fun _ => hd.2

/-- Every decoded instruction, rejected or not. -/
theorem decodeInstr_matched : (decodeInstr i).Matched := by
  unfold decodeInstr
  refine ite_matched ?_ <| ite_matched decodeSystem_matched <|
    ite_matched decodeMiscMem_matched decodeUnit_matched
  exact matched_of_noDest rfl (by decide) rfl rfl

end Facts

end ArianeSoc.Decoder
