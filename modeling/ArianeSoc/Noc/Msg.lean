import ArianeSoc.BitField
import Mathlib.Tactic.Common

/-!
# The words of the networks and the messages in them

The fields of the header and of the address flit, and the types of the
requests that the chipset answers (`define.h.pyv`).
-/

namespace ArianeSoc.Noc

/-- `NOC_DATA_WIDTH` bits. -/
abbrev Flit := BitVec 64

end ArianeSoc.Noc

namespace ArianeSoc.Chipset

open Noc (Flit)

/-- The number of flits behind the header. -/
def MSG_LENGTH : BitField 64 8 := ⟨22⟩
def MSG_TYPE : BitField 64 8 := ⟨14⟩
def MSG_DST_X : BitField 64 8 := ⟨42⟩
def MSG_MSHRID : BitField 64 8 := ⟨6⟩

/-- The address and the size, in the flit behind the header. -/
def MSG_ADDR_ : BitField 64 40 := ⟨16⟩
def MSG_DATA_SIZE_ : BitField 64 3 := ⟨8⟩

def MSG_DATA_SIZE_0B : BitVec 3 := 0b000#3
def MSG_DATA_SIZE_1B : BitVec 3 := 0b001#3
def MSG_DATA_SIZE_2B : BitVec 3 := 0b010#3
def MSG_DATA_SIZE_4B : BitVec 3 := 0b011#3
def MSG_DATA_SIZE_8B : BitVec 3 := 0b100#3

/-- The source, in the flit behind the address. -/
def MSG_SRC_CHIPID_ : BitField 64 14 := ⟨50⟩
def MSG_SRC_X_ : BitField 64 8 := ⟨42⟩
def MSG_SRC_Y_ : BitField 64 8 := ⟨34⟩
def MSG_SRC_FBITS_ : BitField 64 4 := ⟨30⟩

def MSG_TYPE_NC_LOAD_REQ : BitVec 8 := 14#8
def MSG_TYPE_NC_STORE_REQ : BitVec 8 := 15#8
def MSG_TYPE_LOAD_MEM : BitVec 8 := 19#8
def MSG_TYPE_STORE_MEM : BitVec 8 := 20#8
def MSG_TYPE_LOAD_REQ : BitVec 8 := 31#8
def MSG_TYPE_STORE_REQ : BitVec 8 := 2#8
def MSG_TYPE_LOAD_MEM_ACK : BitVec 8 := 24#8
def MSG_TYPE_STORE_MEM_ACK : BitVec 8 := 25#8
def MSG_TYPE_NC_LOAD_MEM_ACK : BitVec 8 := 26#8
def MSG_TYPE_NC_STORE_MEM_ACK : BitVec 8 := 27#8

/-- The number of flits behind a header. -/
def payload (h : Flit) : ℕ := (MSG_LENGTH.get h).toNat

/-- A flit that has come in, and whether the UART loaded the memory then. -/
structure Beat where
  data : Flit
  uartBootEn : Bool

def Beat.payload (b : Beat) : ℕ := Chipset.payload b.data

end ArianeSoc.Chipset
