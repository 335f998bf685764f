import Mathlib.Algebra.Group.Nat.Defs
import Mathlib.Tactic.Common
import ArianeSoc.Noc.Msg

/-!
# Where a router sends a packet

`dynamic_input_route_request_calc.v` with the fields of the header that
`dynamic_input_top_4.v` and `dynamic_input_top_16.v` hand to it: a packet
goes east or west until it is in the column of its destination, then north
or south, and leaves at its destination by the port that its final bits
name.  A packet for another chip has the off-chip node as its destination.

`Journey` follows the requests from router to router of a mesh that is
wired as in `chip.v.pyv`, until the packet is at its destination.
-/

namespace ArianeSoc.Noc

/-- The ports of a router: four neighbours and the processor. -/
inductive Port where
  | n | e | s | w | p
  deriving DecidableEq

theorem Port.forall_iff {P : Port → Prop} :
    (∀ d, P d) ↔ P .n ∧ P .e ∧ P .s ∧ P .w ∧ P .p := by
  constructor
  · exact fun h => ⟨h .n, h .e, h .s, h .w, h .p⟩
  · rintro ⟨hn, he, hs, hw, hp⟩ d
    cases d <;> assumption

instance Port.decidableForall (P : Port → Prop) [DecidablePred P] :
    Decidable (∀ d, P d) :=
  decidable_of_iff' _ Port.forall_iff

/-! ## The header -/

def absChipId (header : Flit) : BitVec 14 := header.extractLsb' 50 14

def absX (header : Flit) : BitVec 8 := header.extractLsb' 42 8

def absY (header : Flit) : BitVec 8 := header.extractLsb' 34 8

def finalBits (header : Flit) : BitVec 3 := header.extractLsb' 30 3

/-- The number of flits behind the header. -/
def payloadLen (header : Flit) : BitVec 8 := header.extractLsb' 22 8

def FINAL_NONE : BitVec 3 := 0b000
def FINAL_WEST : BitVec 3 := 0b010
def FINAL_SOUTH : BitVec 3 := 0b011
def FINAL_EAST : BitVec 3 := 0b100
def FINAL_NORTH : BitVec 3 := 0b101

/-- The port that the final bits name. -/
def exitPort (bits : BitVec 3) : Option Port :=
  if bits = FINAL_NONE then some .p
  else if bits = FINAL_WEST then some .w
  else if bits = FINAL_SOUTH then some .s
  else if bits = FINAL_EAST then some .e
  else if bits = FINAL_NORTH then some .n
  else none

/-! ## The requests -/

/-- The place of a router. -/
@[ext] structure Loc where
  x : BitVec 8
  y : BitVec 8
  deriving DecidableEq

def OFF_CHIP_NODE_X : BitVec 8 := 0
def OFF_CHIP_NODE_Y : BitVec 8 := 0

section Calc

variable (myLoc : Loc) (myChipId : BitVec 14) (header : Flit)

def offChip : Bool := absChipId header ≠ myChipId

def moreX : Bool :=
  if offChip myChipId header then OFF_CHIP_NODE_X > myLoc.x
  else absX header > myLoc.x

def moreY : Bool :=
  if offChip myChipId header then OFF_CHIP_NODE_Y > myLoc.y
  else absY header > myLoc.y

def lessX : Bool :=
  if offChip myChipId header then OFF_CHIP_NODE_X < myLoc.x
  else absX header < myLoc.x

def lessY : Bool :=
  if offChip myChipId header then OFF_CHIP_NODE_Y < myLoc.y
  else absY header < myLoc.y

def doneX : Bool :=
  if offChip myChipId header then OFF_CHIP_NODE_X = myLoc.x
  else absX header = myLoc.x

def doneY : Bool :=
  if offChip myChipId header then OFF_CHIP_NODE_Y = myLoc.y
  else absY header = myLoc.y

def done : Bool := doneX myLoc myChipId header && doneY myLoc myChipId header

def north : Bool :=
  (doneX myLoc myChipId header && lessY myLoc myChipId header) ||
    (finalBits header = FINAL_NORTH && done myLoc myChipId header)

def south : Bool :=
  (doneX myLoc myChipId header && moreY myLoc myChipId header) ||
    (finalBits header = FINAL_SOUTH && done myLoc myChipId header)

def east : Bool :=
  moreX myLoc myChipId header ||
    (finalBits header = FINAL_EAST && done myLoc myChipId header)

def west : Bool :=
  lessX myLoc myChipId header ||
    (finalBits header = FINAL_WEST && done myLoc myChipId header)

def proc : Bool :=
  finalBits header = FINAL_NONE && done myLoc myChipId header

/-- The request for a port; `headerIn` says that the flit is a header. -/
def routeReq (headerIn : Bool) (d : Port) : Bool :=
  headerIn &&
    match d with
    | .n => north myLoc myChipId header
    | .e => east myLoc myChipId header
    | .s => south myLoc myChipId header
    | .w => west myLoc myChipId header
    | .p => proc myLoc myChipId header

end Calc

/-! ## The destination -/

/-- Where the packet leaves the mesh of a chip. -/
def destination (chipId : BitVec 14) (header : Flit) : Loc :=
  if absChipId header = chipId then ⟨absX header, absY header⟩
  else ⟨OFF_CHIP_NODE_X, OFF_CHIP_NODE_Y⟩

/-- East or west to the column of the destination, then north or south, then
out by the port of the final bits. -/
def portTo (dest l : Loc) (bits : BitVec 3) : Option Port :=
  if l.x < dest.x then some .e
  else if dest.x < l.x then some .w
  else if l.y < dest.y then some .s
  else if dest.y < l.y then some .n
  else exitPort bits

variable {header : Flit} {chipId : BitVec 14} {l l' : Loc} {d : Port}

theorem exitPort_cases {bits : BitVec 3} (h : exitPort bits = some d) :
    bits = FINAL_NORTH ∧ d = .n ∨ bits = FINAL_SOUTH ∧ d = .s ∨
      bits = FINAL_EAST ∧ d = .e ∨ bits = FINAL_WEST ∧ d = .w ∨
        bits = FINAL_NONE ∧ d = .p := by
  unfold exitPort at h
  split_ifs at h with h₁ h₂ h₃ h₄ h₅ <;> cases h <;> simp [*]

/-- The comparisons are with the destination. -/
theorem compare_destination (l : Loc) (chipId : BitVec 14) (header : Flit) :
    let dest := destination chipId header
    moreX l chipId header = decide (l.x < dest.x) ∧
      lessX l chipId header = decide (dest.x < l.x) ∧
      moreY l chipId header = decide (l.y < dest.y) ∧
      lessY l chipId header = decide (dest.y < l.y) ∧
      doneX l chipId header = decide (dest.x = l.x) ∧
      doneY l chipId header = decide (dest.y = l.y) := by
  unfold moreX lessX moreY lessY doneX doneY destination offChip
  by_cases h : absChipId header = chipId
  · simp [h]
  · simp [h]

/-- A request is for the one port to the destination. -/
theorem routeReq_iff (hf : (exitPort (finalBits header)).isSome = true) :
    routeReq l chipId header true d = true ↔
      portTo (destination chipId header) l (finalBits header) = some d := by
  obtain ⟨x, hx⟩ := Option.isSome_iff_exists.mp hf
  obtain ⟨hmx, hlx, hmy, hly, hdx, hdy⟩ :=
    compare_destination l chipId header
  have hcases := exitPort_cases hx
  unfold routeReq north south east west proc done portTo
  rw [hmx, hlx, hmy, hly, hdx, hdy, hx]
  generalize destination chipId header = dest
  generalize finalBits header = bits at hcases
  have hne : ∀ {a b : BitVec 8}, a < b → ¬ b < a ∧ ¬ a = b ∧ ¬ b = a := by
    intro a b h
    refine ⟨BitVec.not_lt.mpr (BitVec.le_of_lt h), ?_, ?_⟩
    · exact fun he => BitVec.lt_irrefl a (by rwa [← he] at h)
    · exact fun he => BitVec.lt_irrefl b (by rwa [← he] at h)
  rcases BitVec.lt_trichotomy l.x dest.x with hx | hx | hx
  · cases d <;> simp [hx, hne hx]
  · rw [hx]
    rcases BitVec.lt_trichotomy l.y dest.y with hy | hy | hy
    · cases d <;> simp [hy, hne hy, BitVec.lt_irrefl]
    · rw [hy]
      rcases hcases with ⟨rfl, rfl⟩ | ⟨rfl, rfl⟩ | ⟨rfl, rfl⟩ | ⟨rfl, rfl⟩ |
        ⟨rfl, rfl⟩ <;> cases d <;> simp [BitVec.lt_irrefl] <;> decide
    · cases d <;> simp [hy, hne hy, BitVec.lt_irrefl]
  · cases d <;> simp [hx, hne hx]

/-- A flit that requests a port has it as its destination, also one with
undefined final bits. -/
theorem portTo_of_routeReq {headerIn : Bool}
    (h : routeReq l chipId header headerIn d = true) :
    portTo (destination chipId header) l (finalBits header) = some d := by
  obtain ⟨rfl, -⟩ : headerIn = true ∧ _ := Bool.and_eq_true_iff.mp h
  by_cases hf : (exitPort (finalBits header)).isSome = true
  · exact (routeReq_iff hf).mp h
  · have hnone : exitPort (finalBits header) = none := by simpa using hf
    obtain ⟨hmx, hlx, hmy, hly, hdx, hdy⟩ :=
      compare_destination l chipId header
    unfold exitPort at hnone
    split_ifs at hnone with hp hw hs he hn
    unfold routeReq north south east west proc done at h
    rw [hmx, hlx, hmy, hly, hdx, hdy] at h
    unfold portTo
    cases d <;> simp [hp, hw, hs, he, hn] at h ⊢ <;> grind

/-! ## The mesh -/

/-- A rectangle of routers of one chip; the coordinates have eight bits. -/
structure Mesh where
  xTiles : ℕ
  yTiles : ℕ
  chipId : BitVec 14
  xTiles_le : xTiles ≤ 256
  yTiles_le : yTiles ≤ 256

namespace Mesh

variable (m : Mesh)

def Contains (l : Loc) : Prop := l.x.toNat < m.xTiles ∧ l.y.toNat < m.yTiles

/-- The router behind a port of another one. -/
def neighbour (l : Loc) : Port → Option Loc
  | .n => if l.y.toNat = 0 then none else some ⟨l.x, l.y - 1⟩
  | .e => if l.x.toNat + 1 < m.xTiles then some ⟨l.x + 1, l.y⟩ else none
  | .s => if l.y.toNat + 1 < m.yTiles then some ⟨l.x, l.y + 1⟩ else none
  | .w => if l.x.toNat = 0 then none else some ⟨l.x - 1, l.y⟩
  | .p => none

/-- Hops from router to router that follow the requests for a header, until
the packet is at its destination. -/
inductive Journey (header : Flit) : Loc → List Port → Loc → Prop where
  | nil (l : Loc) : Journey header l [] l
  | cons {l l' l'' : Loc} {d : Port} {ds : List Port}
      (hmore : l ≠ destination m.chipId header)
      (hreq : routeReq l m.chipId header true d = true)
      (hop : m.neighbour l d = some l')
      (hrest : Journey header l' ds l'') : Journey header l (d :: ds) l''

end Mesh

def Port.vertical (d : Port) : Prop := d = .n ∨ d = .s

def Port.horizontal (d : Port) : Prop := d = .e ∨ d = .w

/-- No hop to the north or south comes before one to the east or west. -/
def NoTurn (ds : List Port) : Prop :=
  ds.Pairwise fun d d' => d.vertical → ¬ d'.horizontal

/-- The number of hops between two routers. -/
def distance (l l' : Loc) : ℕ :=
  ((l.x.toNat : ℤ) - l'.x.toNat).natAbs +
    ((l.y.toNat : ℤ) - l'.y.toNat).natAbs

variable {m : Mesh} {ds : List Port}

/-- What one request leads to. -/
structure Hop (m : Mesh) (dest l : Loc) (d : Port) (l' : Loc) : Prop where
  neighbour : m.neighbour l d = some l'
  contains : m.Contains l'
  nearer : distance l' dest + 1 = distance l dest
  vertical : d.vertical → l.x = dest.x
  horizontal : d.horizontal → l.x ≠ dest.x
  column : l.x = dest.x → l'.x = dest.x

theorem toNat_add_one {a b : BitVec 8} (h : a < b) :
    (a + 1).toNat = a.toNat + 1 := by
  rw [BitVec.lt_def] at h
  rw [BitVec.toNat_add]
  show (a.toNat + 1) % 2 ^ 8 = _
  omega

theorem toNat_sub_one {a b : BitVec 8} (h : b < a) :
    (a - 1).toNat = a.toNat - 1 := by
  rw [BitVec.lt_def] at h
  rw [BitVec.toNat_sub]
  show (2 ^ 8 - 1 + a.toNat) % 2 ^ 8 = _
  omega

theorem not_vertical_e : ¬ Port.vertical .e := by
  rintro (h | h) <;> cases h

theorem not_vertical_w : ¬ Port.vertical .w := by
  rintro (h | h) <;> cases h

theorem not_horizontal_s : ¬ Port.horizontal .s := by
  rintro (h | h) <;> cases h

theorem not_horizontal_n : ¬ Port.horizontal .n := by
  rintro (h | h) <;> cases h

/-- A packet that is not at its destination has a router before it that is
one hop nearer. -/
theorem exists_hop {dest : Loc} {bits : BitVec 3} (hl : m.Contains l)
    (hdest : m.Contains dest) (hmore : l ≠ dest)
    (hd : portTo dest l bits = some d) : ∃ l', Hop m dest l d l' := by
  obtain ⟨hlx, hly⟩ := hl
  obtain ⟨hdx, hdy⟩ := hdest
  unfold portTo at hd
  split_ifs at hd with he hw hs hn
  · cases hd
    have hadd := toNat_add_one he
    rw [BitVec.lt_def] at he
    refine ⟨⟨l.x + 1, l.y⟩, if_pos (by omega), ⟨?_, hly⟩, ?_,
      fun h => absurd h not_vertical_e, fun _ heq => ?_, fun heq => ?_⟩
    · rw [hadd]
      omega
    · unfold distance
      dsimp only
      rw [hadd]
      omega
    · rw [heq] at he
      omega
    · rw [heq] at he
      omega
  · cases hd
    have hsub := toNat_sub_one hw
    rw [BitVec.lt_def] at hw
    refine ⟨⟨l.x - 1, l.y⟩, if_neg (by omega), ⟨?_, hly⟩, ?_,
      fun h => absurd h not_vertical_w, fun _ heq => ?_, fun heq => ?_⟩
    · rw [hsub]
      omega
    · unfold distance
      dsimp only
      rw [hsub]
      omega
    · rw [heq] at hw
      omega
    · rw [heq] at hw
      omega
  all_goals
    have hx : l.x = dest.x :=
      BitVec.le_antisymm (BitVec.not_lt.mp hw) (BitVec.not_lt.mp he)
  · cases hd
    have hadd := toNat_add_one hs
    rw [BitVec.lt_def] at hs
    refine ⟨⟨l.x, l.y + 1⟩, if_pos (by omega), ⟨hlx, ?_⟩, ?_, fun _ => hx,
      fun h => absurd h not_horizontal_s, fun _ => hx⟩
    · rw [hadd]
      omega
    · unfold distance
      dsimp only
      rw [hadd]
      omega
  · cases hd
    have hsub := toNat_sub_one hn
    rw [BitVec.lt_def] at hn
    refine ⟨⟨l.x, l.y - 1⟩, if_neg (by omega), ⟨hlx, ?_⟩, ?_, fun _ => hx,
      fun h => absurd h not_horizontal_n, fun _ => hx⟩
    · rw [hsub]
      omega
    · unfold distance
      dsimp only
      rw [hsub]
      omega
  · have hy : l.y = dest.y :=
      BitVec.le_antisymm (BitVec.not_lt.mp hn) (BitVec.not_lt.mp hs)
    exact absurd (Loc.ext hx hy) hmore

/-! ## The journey -/

/-- A journey stays in the mesh, gets one hop nearer each time and never
turns from north or south to east or west. -/
theorem Mesh.Journey.spec (h : m.Journey header l ds l')
    (hf : (exitPort (finalBits header)).isSome = true) (hl : m.Contains l)
    (hdest : m.Contains (destination m.chipId header)) :
    m.Contains l' ∧
      ds.length + distance l' (destination m.chipId header) =
        distance l (destination m.chipId header) ∧
      NoTurn ds ∧
      (l.x = (destination m.chipId header).x → ∀ d ∈ ds, ¬ d.horizontal) := by
  induction h with
  | nil l =>
    refine ⟨hl, Nat.zero_add _, List.Pairwise.nil, fun _ d hd => ?_⟩
    exact absurd hd List.not_mem_nil
  | @cons l l' l'' d ds hmore hreq hop hrest ih =>
    obtain ⟨k, hk⟩ := exists_hop hl hdest hmore ((routeReq_iff hf).mp hreq)
    obtain rfl : l' = k := Option.some.inj (hop.symm.trans hk.neighbour)
    obtain ⟨hin, hlength, hturn, hcolumn⟩ := ih hk.contains
    have hnearer := hk.nearer
    refine ⟨hin, ?_, List.Pairwise.cons (fun d' hd' hv => ?_) hturn,
      fun hx d' hd' => ?_⟩
    · rw [List.length_cons]
      omega
    · exact hcolumn (hk.column (hk.vertical hv)) d' hd'
    · rcases List.mem_cons.mp hd' with rfl | hd'
      · exact fun hh => hk.horizontal hh hx
      · exact hcolumn (hk.column hx) d' hd'

theorem portTo_isSome (dest l : Loc) {bits : BitVec 3}
    (h : (exitPort bits).isSome = true) :
    (portTo dest l bits).isSome = true := by
  unfold portTo
  split_ifs
  · rfl
  · rfl
  · rfl
  · rfl
  · exact h

/-- There is a journey to the destination. -/
theorem Mesh.exists_journey
    (hf : (exitPort (finalBits header)).isSome = true) (hl : m.Contains l)
    (hdest : m.Contains (destination m.chipId header)) :
    ∃ ds, m.Journey header l ds (destination m.chipId header) := by
  induction hn : distance l (destination m.chipId header) generalizing l with
  | zero =>
    unfold distance at hn
    have hx : l.x = (destination m.chipId header).x :=
      BitVec.eq_of_toNat_eq (by omega)
    have hy : l.y = (destination m.chipId header).y :=
      BitVec.eq_of_toNat_eq (by omega)
    refine ⟨[], ?_⟩
    rw [show l = destination m.chipId header from Loc.ext hx hy]
    exact .nil _
  | succ n ih =>
    have hmore : l ≠ destination m.chipId header := by
      intro heq
      rw [← heq] at hn
      unfold distance at hn
      omega
    obtain ⟨d, hd⟩ := Option.isSome_iff_exists.mp
      (portTo_isSome (destination m.chipId header) l hf)
    obtain ⟨k, hk⟩ := exists_hop hl hdest hmore hd
    have hnearer := hk.nearer
    obtain ⟨ds, hds⟩ := ih hk.contains (by omega)
    exact ⟨d :: ds, .cons hmore ((routeReq_iff hf).mpr hd) hk.neighbour hds⟩

theorem portTo_self (dest : Loc) (bits : BitVec 3) :
    portTo dest dest bits = exitPort bits := by
  unfold portTo
  rw [if_neg (BitVec.lt_irrefl _), if_neg (BitVec.lt_irrefl _),
    if_neg (BitVec.lt_irrefl _), if_neg (BitVec.lt_irrefl _)]

/-- What the requests of a mesh do with a header: every router makes one
request; a packet gets from anywhere to its destination, on the way it
cannot but come nearer and never turns from north or south to east or west;
and it leaves by the port of its final bits. -/
structure Routes (m : Mesh) (header : Flit) : Prop where
  one : ∀ l chipId, ∃! d, routeReq l chipId header true d = true
  arrives : ∀ l, m.Contains l → ∃ ds,
    m.Journey header l ds (destination m.chipId header) ∧
      ds.length = distance l (destination m.chipId header)
  nearer : ∀ l ds l', m.Contains l → m.Journey header l ds l' →
    m.Contains l' ∧ NoTurn ds ∧
      ds.length + distance l' (destination m.chipId header) =
        distance l (destination m.chipId header)
  leaves : ∀ d, routeReq (destination m.chipId header) m.chipId header true
    d = true ↔ exitPort (finalBits header) = some d

/-- The off-chip node is a router of every mesh that has one. -/
theorem contains_destination (hl : m.Contains l)
    (hdest : absChipId header = m.chipId →
      m.Contains ⟨absX header, absY header⟩) :
    m.Contains (destination m.chipId header) := by
  obtain ⟨hx, hy⟩ := hl
  unfold destination
  split_ifs with hchip
  · exact hdest hchip
  · exact ⟨Nat.zero_lt_of_lt hx, Nat.zero_lt_of_lt hy⟩

/-- Every header with defined final bits is routed to its destination,
which for a packet of the chip has to be a router of the mesh. -/
theorem mesh_routes (m : Mesh) (header : Flit)
    (hf : (exitPort (finalBits header)).isSome = true)
    (hdest : absChipId header = m.chipId →
      m.Contains ⟨absX header, absY header⟩) : Routes m header where
  one l chipId := by
    obtain ⟨d, hd⟩ := Option.isSome_iff_exists.mp
      (portTo_isSome (destination chipId header) l hf)
    refine ⟨d, (routeReq_iff hf).mpr hd, fun d' hd' => ?_⟩
    exact Option.some.inj (((routeReq_iff hf).mp hd').symm.trans hd)
  arrives l hl := by
    have hto := contains_destination hl hdest
    obtain ⟨ds, hds⟩ := m.exists_journey hf hl hto
    have hlength := (hds.spec hf hl hto).2.1
    refine ⟨ds, hds, ?_⟩
    rw [← hlength]
    unfold distance
    omega
  nearer l ds l' hl hds := by
    obtain ⟨hin, hlength, hturn, -⟩ :=
      hds.spec hf hl (contains_destination hl hdest)
    exact ⟨hin, hturn, hlength⟩
  leaves d := by
    rw [routeReq_iff hf, portTo_self]

/-- A packet for the processor of a tile of a mesh of three by two, and one
for another chip. -/
theorem mesh_routes_threeByTwo :
    let m : Mesh := ⟨3, 2, 5, by decide, by decide⟩
    Routes m 0x0014080400000000 ∧ Routes m 0x0018080480000000 :=
  ⟨mesh_routes _ _ (by decide) fun _ => ⟨by decide, by decide⟩,
    mesh_routes _ _ (by decide) fun h => absurd h (by decide)⟩

end ArianeSoc.Noc
