import ArianeSoc.Decoder

/-!
# The expansion of compressed instructions

`compressedDecoder` is `compressed_decoder`, which looks at the lower half of
the fetched word.  `c0`, `c1` and `c2` are the quadrants, each with the
expanded word and `illegal_instr_o`; the concatenations are those of the
source, with the immediate of the expansion in parentheses.

`decodeFetched` is the decoder as `id_stage` connects it.
-/

namespace ArianeSoc.Decoder

/-- The outputs of the module. -/
structure Expanded where
  instr : Instr
  illegalInstr : Bool
  isCompressed : Bool
  deriving DecidableEq, Repr

/-! ## Fields -/

/-- The register fields of three bits name `x8` to `x15`. -/
def rdPrime (w : Instr) : BitVec 5 := 0b01#2 ++ w.extractLsb 4 2
def rs1Prime (w : Instr) : BitVec 5 := 0b01#2 ++ w.extractLsb 9 7
def crd (w : Instr) : BitVec 5 := w.extractLsb 11 7
def crs2 (w : Instr) : BitVec 5 := w.extractLsb 6 2

/-- `instr_i[12]`, replicated. -/
def sign (n : Nat) (w : Instr) : BitVec n := BitVec.fill n (w.getLsbD 12)

/-! ## The quadrants -/

def c0 (w : Instr) : Instr × Bool :=
  match (w.extractLsb 15 13).toNat with
  | 0 =>
    ((0b00#2 ++ w.extractLsb 10 7 ++ w.extractLsb 12 11 ++ w.extractLsb 5 5 ++
        w.extractLsb 6 6 ++ 0b00#2) ++ 2#5 ++ 0b000#3 ++ rdPrime w ++
        OpcodeOpImm,
      w.extractLsb 12 5 = 0#8)
  | 1 =>
    ((0#4 ++ w.extractLsb 6 5 ++ w.extractLsb 12 10 ++ 0b000#3) ++
      rs1Prime w ++ 0b011#3 ++ rdPrime w ++ OpcodeLoadFp, false)
  | 2 =>
    ((0#5 ++ w.extractLsb 5 5 ++ w.extractLsb 12 10 ++ w.extractLsb 6 6 ++
      0b00#2) ++ rs1Prime w ++ 0b010#3 ++ rdPrime w ++ OpcodeLoad, false)
  | 3 =>
    ((0#4 ++ w.extractLsb 6 5 ++ w.extractLsb 12 10 ++ 0b000#3) ++
      rs1Prime w ++ 0b011#3 ++ rdPrime w ++ OpcodeLoad, false)
  | 5 =>
    ((0#4 ++ w.extractLsb 6 5 ++ w.extractLsb 12 12) ++ rdPrime w ++
      rs1Prime w ++ 0b011#3 ++ (w.extractLsb 11 10 ++ 0b000#3) ++
      OpcodeStoreFp, false)
  | 6 =>
    ((0#5 ++ w.extractLsb 5 5 ++ w.extractLsb 12 12) ++ rdPrime w ++
      rs1Prime w ++ 0b010#3 ++
      (w.extractLsb 11 10 ++ w.extractLsb 6 6 ++ 0b00#2) ++ OpcodeStore,
      false)
  | 7 =>
    ((0#4 ++ w.extractLsb 6 5 ++ w.extractLsb 12 12) ++ rdPrime w ++
      rs1Prime w ++ 0b011#3 ++ (w.extractLsb 11 10 ++ 0b000#3) ++
      OpcodeStore, false)
  | _ => (w, true)

/-- The register-register operations of `OpcodeC1MiscAlu`. -/
def c1RegReg (w : Instr) : Instr × Bool :=
  match (w.extractLsb 12 12 ++ w.extractLsb 6 5).toNat with
  | 0 =>
    ((0b01#2 ++ 0#5) ++ rdPrime w ++ rs1Prime w ++ 0b000#3 ++ rs1Prime w ++
      OpcodeOp, false)
  | 1 =>
    (0#7 ++ rdPrime w ++ rs1Prime w ++ 0b100#3 ++ rs1Prime w ++ OpcodeOp,
      false)
  | 2 =>
    (0#7 ++ rdPrime w ++ rs1Prime w ++ 0b110#3 ++ rs1Prime w ++ OpcodeOp,
      false)
  | 3 =>
    (0#7 ++ rdPrime w ++ rs1Prime w ++ 0b111#3 ++ rs1Prime w ++ OpcodeOp,
      false)
  | 4 =>
    ((0b01#2 ++ 0#5) ++ rdPrime w ++ rs1Prime w ++ 0b000#3 ++ rs1Prime w ++
      OpcodeOp32, false)
  | 5 =>
    ((0b00#2 ++ 0#5) ++ rdPrime w ++ rs1Prime w ++ 0b000#3 ++ rs1Prime w ++
      OpcodeOp32, false)
  | _ => (w, true)

def c1MiscAlu (w : Instr) : Instr × Bool :=
  match (w.extractLsb 11 10).toNat with
  | 0 | 1 =>
    ((0#1 ++ w.extractLsb 10 10 ++ 0#4 ++ w.extractLsb 12 12 ++
      w.extractLsb 6 2) ++ rs1Prime w ++ 0b101#3 ++ rs1Prime w ++
      OpcodeOpImm, false)
  | 2 =>
    ((sign 6 w ++ w.extractLsb 12 12 ++ w.extractLsb 6 2) ++ rs1Prime w ++
      0b111#3 ++ rs1Prime w ++ OpcodeOpImm, false)
  | _ => c1RegReg w

def c1 (w : Instr) : Instr × Bool :=
  match (w.extractLsb 15 13).toNat with
  | 0 =>
    ((sign 6 w ++ w.extractLsb 12 12 ++ w.extractLsb 6 2) ++ crd w ++
      0b000#3 ++ crd w ++ OpcodeOpImm, false)
  | 1 =>
    if crd w ≠ 0#5 then
      ((sign 6 w ++ w.extractLsb 12 12 ++ w.extractLsb 6 2) ++ crd w ++
        0b000#3 ++ crd w ++ OpcodeOpImm32, false)
    else (w, true)
  | 2 =>
    ((sign 6 w ++ w.extractLsb 12 12 ++ w.extractLsb 6 2) ++ 0#5 ++
      0b000#3 ++ crd w ++ OpcodeOpImm, false)
  | 3 =>
    (if crd w = 2#5 then
        (sign 3 w ++ w.extractLsb 4 3 ++ w.extractLsb 5 5 ++
          w.extractLsb 2 2 ++ w.extractLsb 6 6 ++ 0#4) ++ 2#5 ++ 0b000#3 ++
          2#5 ++ OpcodeOpImm
      else (sign 15 w ++ w.extractLsb 6 2) ++ crd w ++ OpcodeLui,
      w.extractLsb 12 12 ++ w.extractLsb 6 2 = 0#6)
  | 4 => c1MiscAlu w
  | 5 =>
    ((w.extractLsb 12 12 ++ w.extractLsb 8 8 ++ w.extractLsb 10 9 ++
      w.extractLsb 6 6 ++ w.extractLsb 7 7 ++ w.extractLsb 2 2 ++
      w.extractLsb 11 11 ++ w.extractLsb 5 3 ++ sign 9 w) ++
      (0#4 ++ ~~~ w.extractLsb 15 15) ++ OpcodeJal, false)
  | _ =>
    ((sign 4 w ++ w.extractLsb 6 5 ++ w.extractLsb 2 2) ++ 0#5 ++
      rs1Prime w ++ (0b00#2 ++ w.extractLsb 13 13) ++
      (w.extractLsb 11 10 ++ w.extractLsb 4 3 ++ w.extractLsb 12 12) ++
      OpcodeBranch, false)

/-- `OpcodeC2JalrMvAdd`. -/
def c2JalrMvAdd (w : Instr) : Instr × Bool :=
  if w.extractLsb 12 12 = 0#1 then
    if crs2 w = 0#5 then
      (0#12 ++ crd w ++ 0b000#3 ++ 0#5 ++ OpcodeJalr, crd w = 0#5)
    else (0#7 ++ crs2 w ++ 0#5 ++ 0b000#3 ++ crd w ++ OpcodeOp, false)
  else if crd w = 0#5 ∧ crs2 w = 0#5 then (0x00100073#32, false)
  else if crd w ≠ 0#5 ∧ crs2 w = 0#5 then
    (0#12 ++ crd w ++ 0b000#3 ++ 0b00001#5 ++ OpcodeJalr, false)
  else (0#7 ++ crs2 w ++ crd w ++ 0b000#3 ++ crd w ++ OpcodeOp, false)

def c2 (w : Instr) : Instr × Bool :=
  match (w.extractLsb 15 13).toNat with
  | 0 =>
    ((0#6 ++ w.extractLsb 12 12 ++ w.extractLsb 6 2) ++ crd w ++ 0b001#3 ++
      crd w ++ OpcodeOpImm, false)
  | 1 =>
    ((0#3 ++ w.extractLsb 4 2 ++ w.extractLsb 12 12 ++ w.extractLsb 6 5 ++
      0b000#3) ++ 2#5 ++ 0b011#3 ++ crd w ++ OpcodeLoadFp, false)
  | 2 =>
    ((0#4 ++ w.extractLsb 3 2 ++ w.extractLsb 12 12 ++ w.extractLsb 6 4 ++
      0b00#2) ++ 2#5 ++ 0b010#3 ++ crd w ++ OpcodeLoad, crd w = 0#5)
  | 3 =>
    ((0#3 ++ w.extractLsb 4 2 ++ w.extractLsb 12 12 ++ w.extractLsb 6 5 ++
      0b000#3) ++ 2#5 ++ 0b011#3 ++ crd w ++ OpcodeLoad, crd w = 0#5)
  | 4 => c2JalrMvAdd w
  | 5 =>
    ((0#3 ++ w.extractLsb 9 7 ++ w.extractLsb 12 12) ++ crs2 w ++ 2#5 ++
      0b011#3 ++ (w.extractLsb 11 10 ++ 0b000#3) ++ OpcodeStoreFp, false)
  | 6 =>
    ((0#4 ++ w.extractLsb 8 7 ++ w.extractLsb 12 12) ++ crs2 w ++ 2#5 ++
      0b010#3 ++ (w.extractLsb 11 9 ++ 0b00#2) ++ OpcodeStore, false)
  | _ =>
    ((0#3 ++ w.extractLsb 9 7 ++ w.extractLsb 12 12) ++ crs2 w ++ 2#5 ++
      0b011#3 ++ (w.extractLsb 11 10 ++ 0b000#3) ++ OpcodeStore, false)

/-- An illegal instruction is passed on as it is. -/
def Expanded.ofQuadrant (w : Instr) (x : Instr × Bool) : Expanded :=
  ⟨if x.2 then w else x.1, x.2, true⟩

/-- The module. -/
def compressedDecoder (w : Instr) : Expanded :=
  match (w.extractLsb 1 0).toNat with
  | 0 => .ofQuadrant w (c0 w)
  | 1 => .ofQuadrant w (c1 w)
  | 2 => .ofQuadrant w (c2 w)
  | _ => ⟨w, false, false⟩

/-- The inputs of the decoder for the fetched word `w`. -/
def idStage (i : In) (w : Instr) : In :=
  { i with
    isCompressed := (compressedDecoder w).isCompressed
    compressedInstr := w.extractLsb 15 0
    isIllegal := (compressedDecoder w).illegalInstr
    instruction := (compressedDecoder w).instr }

/-- The scoreboard entry of a fetched word. -/
def decodeFetched (i : In) (w : Instr) : ScoreboardEntry :=
  decoder (idStage i w)

end ArianeSoc.Decoder
