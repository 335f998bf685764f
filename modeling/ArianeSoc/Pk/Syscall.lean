import ArianeSoc.Pk.Driver
import Mathlib.Data.List.Basic
import Mathlib.Tactic.Common

/-!
# The system calls of the proxy kernel

`do_syscall` of `pk/syscall.c` with the handlers of its tables.  A handler
is the trace of what it does with memory: the checks it makes of a user
range with their answers, the user ranges it loads from or stores to, and
the parts of its own stack buffers it uses.  Elements that a loop or an
initializer takes one after the other are one range.  What the machine
mode does in the `ecall` of a handler is not part of the trace.

* The checks: `validUserRange`, `validUserRangeU` and the conditions that
  the handlers build from them.
* The handlers, in the order of the source.
* The tables: `SyscallTable` and `doSyscall`.
-/

namespace ArianeSoc.Pk

/-- `len` bytes from `ptr` on. -/
structure Range where
  ptr : BitVec 64
  len : ℕ

/-- What a system call does with memory.  `stack size off len` is an access
to `len` bytes at offset `off` of a stack buffer of `size` bytes. -/
inductive Event where
  | check (r : Range) (ok : Bool)
  | user (r : Range)
  | stack (size off len : ℕ)

/-- What a system call depends on besides its arguments.  `pk_vm_init` caps
the memory and with it `current.mmap_max` to 2 GiB. -/
structure Env where
  mmapMax : BitVec 64
  mmapMax_le : mmapMax.toNat ≤ 2 ^ 31
  /-- The number of bytes before the terminator. -/
  strlen : BitVec 64 → BitVec 64
  demandPaging : Bool
  fileOpen : BitVec 32 → Bool
  vmrFree : Bool

variable (env : Env)

/-! ## The checks -/

/-- `__valid_user_range`. -/
def validUserRange (r : Range) : Bool :=
  let len := BitVec.ofNat 64 r.len
  if r.ptr + len < r.ptr then false else decide (r.ptr + len ≤ env.mmapMax)

/-- `__valid_user_range_u`, which tests for a wrap on `int`. -/
def validUserRangeU (r : Range) : Bool :=
  let len := BitVec.ofNat 64 r.len
  if (r.ptr.setWidth 32 + len.setWidth 32).slt (r.ptr.setWidth 32) then false
  else decide (r.ptr + len ≤ env.mmapMax)

/-- A condition of the source: what evaluating it does, and its value. -/
structure Cond where
  trace : List Event
  holds : Bool

/-- One check of a range. -/
def check (valid : Range → Bool) (r : Range) : Cond :=
  ⟨[.check r (valid r)], valid r⟩

/-- `&&` evaluates its right side only if the left one holds. -/
def Cond.and (c d : Cond) : Cond :=
  if c.holds then ⟨c.trace ++ d.trace, d.holds⟩ else c

/-- `!`. -/
def Cond.not (c : Cond) : Cond := { c with holds := !c.holds }

/-- The checks of several ranges, joined by `&&`. -/
def checks (valid : Range → Bool) : List Range → Cond
  | [] => ⟨[], true⟩
  | r :: rs => (check valid r).and (checks valid rs)

/-- `if (c) return 0;` before the rest of a handler. -/
def returnIf (c : Cond) (body : List Event) : List Event :=
  c.trace ++ if c.holds then [] else body

/-- `!(check && ... && check)` as the condition to return. -/
def unlessValid (rs : List Range) (body : List Event) : List Event :=
  returnIf (checks (validUserRange env) rs).not body

/-- The bytes of `n` words at `p`. -/
def words (p : BitVec 64) (n : ℕ) : Range := ⟨p, 4 * n⟩

/-- `n` words at `p` and all of a stack array of `n` words. -/
def copyWords (p : BitVec 64) (n : ℕ) : List Event :=
  [.user (words p n), .stack (4 * n) 0 (4 * n)]

/-! ## The handlers -/

/-- `sys_uname`; each `strcpy` stores a string with its terminator. -/
def sysUname (buf : BitVec 64) : List Event :=
  unlessValid env [⟨buf, 65 * 5⟩]
    [.user ⟨buf + 0 * 65, 13⟩, .user ⟨buf + 1 * 65, 1⟩,
      .user ⟨buf + 2 * 65, 7⟩, .user ⟨buf + 3 * 65, 1⟩,
      .user ⟨buf + 4 * 65, 1⟩, .user ⟨buf + 5 * 65, 1⟩]

/-- The bits of the `flags` of `mmap`. -/
abbrev MAP_PRIVATE : BitVec 32 := 0x2

abbrev MAP_FIXED : BitVec 32 := 0x10

abbrev MAP_ANONYMOUS : BitVec 32 := 0x20

abbrev MAP_POPULATE : BitVec 32 := 0x8000

/-- `__handle_page_fault` on a page that is not populated yet. -/
def populatePage (a : BitVec 64) : List Event :=
  returnIf (check (validUserRange env) ⟨a, 1⟩).not [.user ⟨a, 4096⟩]

/-- `sys_mmap`.  Where the kernel chooses the address, none is user
supplied. -/
def sysMmap (addr length : BitVec 64) (flags fd : BitVec 32)
    (offset : BitVec 64) : List Event :=
  if flags &&& MAP_PRIVATE = 0 ∨ length = 0 ∨ offset &&& 4095 ≠ 0 then []
  else if flags &&& MAP_ANONYMOUS = 0 ∧ env.fileOpen fd = false then []
  else if flags &&& MAP_FIXED = 0 then []
  else if addr &&& 4095 ≠ 0 then []
  else
    unlessValid env [⟨addr, length.toNat⟩]
      (if env.vmrFree ∧ (env.demandPaging = false ∨ flags &&& MAP_POPULATE ≠ 0)
        then (List.range ((length.toNat + 4095) / 4096)).flatMap fun k =>
          populatePage env (addr + BitVec.ofNat 64 (4096 * k))
        else [])

/-- `sys_times`. -/
def sysTimes (loc : BitVec 64) : List Event :=
  unlessValid env [⟨loc, 2 * 8⟩] [.user ⟨loc, 4 * 8⟩]

/-- `sys_gettimeofday`. -/
def sysGettimeofday (loc : BitVec 64) : List Event :=
  unlessValid env [⟨loc, 2 * 8⟩] [.user ⟨loc, 2 * 8⟩]

/-- `sys_clock_gettime`. -/
def sysClockGettime (loc : BitVec 64) : List Event :=
  unlessValid env [⟨loc, 2 * 8⟩] [.user ⟨loc, 2 * 8⟩]

/-- `sys_rsa_write_prime_num`. -/
def sysRsaWritePrimeNum (pNum : BitVec 64) : List Event :=
  unlessValid env [⟨pNum, 256⟩] (copyWords pNum 64)

/-- `sys_rsa_write_msg_in`. -/
def sysRsaWriteMsgIn (msgIn : BitVec 64) : List Event :=
  unlessValid env [⟨msgIn, 256⟩] (copyWords msgIn 64)

/-- `sys_rsa_read_msg_out`. -/
def sysRsaReadMsgOut (msgOut : BitVec 64) : List Event :=
  unlessValid env [⟨msgOut, 256⟩] (copyWords msgOut 64)

/-- `sys_rng_read_data`. -/
def sysRngReadData (randnum : BitVec 64) : List Event :=
  unlessValid env [⟨randnum, 8⟩] (copyWords randnum 2)

/-- The guard and the copies that three of the `sys_rng` handlers share:
`if (!(A && B && C) && D) return 0;`. -/
def rngFour (p128 p64 p32 p16 : BitVec 64) : List Event :=
  returnIf
    ((checks (validUserRange env) [⟨p128, 16⟩, ⟨p64, 8⟩, ⟨p32, 4⟩]).not.and
      (check (validUserRange env) ⟨p16, 4⟩))
    (copyWords p128 4 ++ copyWords p64 2 ++ copyWords p32 1 ++ copyWords p16 1)

/-- `sys_rng_read_poly`. -/
def sysRngReadPoly (poly128 poly64 poly32 poly16 : BitVec 64) : List Event :=
  rngFour env poly128 poly64 poly32 poly16

/-- `sys_rng_write_poly`. -/
def sysRngWritePoly (poly128 poly64 poly32 poly16 : BitVec 64) :
    List Event :=
  rngFour env poly128 poly64 poly32 poly16

/-- `sys_rng_read_seed`. -/
def sysRngReadSeed (seed128 seed64 seed32 seed16 : BitVec 64) : List Event :=
  rngFour env seed128 seed64 seed32 seed16

/-- `sys_rng_write_seed` takes words `0`, `1`, `2` and `4`. -/
def sysRngWriteSeed (seed : BitVec 64) : List Event :=
  unlessValid env [⟨seed, 16⟩]
    [.user (words seed 3), .user (words (seed + 16) 1), .stack 16 0 16]

/-- `sys_rng_read_rand_seg`. -/
def sysRngReadRandSeg (randSeg : BitVec 64) : List Event :=
  unlessValid env [⟨randSeg, 8⟩] (copyWords randSeg 2)

/-- `sys_rng_read_state_counter`. -/
def sysRngReadStateCounter (stCnt : BitVec 64) : List Event :=
  unlessValid env [⟨stCnt, 4⟩] (copyWords stCnt 1)

/-- The decryption handlers check both of their blocks. -/
def aesStartDecry (ct st : BitVec 64) : List Event :=
  unlessValid env [⟨ct, 16⟩, ⟨st, 16⟩] (copyWords ct 4 ++ copyWords st 4)

/-- `sys_aes0_start_decry`. -/
def sysAes0StartDecry (ct st : BitVec 64) : List Event :=
  aesStartDecry env ct st

/-- `sys_aes2_start_decry`. -/
def sysAes2StartDecry (ct st : BitVec 64) : List Event :=
  aesStartDecry env ct st

/-- The encryption handlers check one of their blocks. -/
def aesStartEncry (pt st : BitVec 64) : List Event :=
  unlessValid env [⟨st, 16⟩] (copyWords pt 4 ++ copyWords st 4)

/-- `sys_aes0_start_encry`. -/
def sysAes0StartEncry (pt st : BitVec 64) : List Event :=
  aesStartEncry env pt st

/-- `sys_aes2_start_encry`. -/
def sysAes2StartEncry (pt st : BitVec 64) : List Event :=
  aesStartEncry env pt st

/-- `sys_aes0_data_out`. -/
def sysAes0DataOut (t : BitVec 64) : List Event :=
  unlessValid env [⟨t, 16⟩] (copyWords t 4)

/-- `sys_aes2_data_out`. -/
def sysAes2DataOut (t : BitVec 64) : List Event :=
  unlessValid env [⟨t, 16⟩] (copyWords t 4)

/-- `sys_aes1_read_data`. -/
def sysAes1ReadData (res : BitVec 64) : List Event :=
  unlessValid env [⟨res, 12⟩] (copyWords res 4)

/-- `sys_aes1_read_config`. -/
def sysAes1ReadConfig (conf : BitVec 64) : List Event :=
  unlessValid env [⟨conf, 4⟩] (copyWords conf 1)

/-- `sys_aes1_write_data`. -/
def sysAes1WriteData (bk : BitVec 64) : List Event :=
  unlessValid env [⟨bk, 16⟩] (copyWords bk 4)

/-- The bytes that `strlen(pString)` loads. -/
def stringBytes (pString : BitVec 64) : Range :=
  ⟨pString, (env.strlen pString).toNat + 1⟩

/-- `strlen(pString)+1`, a `size_t`. -/
def stringSize (pString : BitVec 64) : ℕ := (env.strlen pString + 1).toNat

/-- `sys_sha256_hash`. -/
def sysSha256Hash (pString hash : BitVec 64) : List Event :=
  .user (stringBytes env pString) ::
    unlessValid env [⟨pString, stringSize env pString⟩, ⟨hash, 8 * 4⟩]
      ([.user (stringBytes env pString), .user ⟨pString, stringSize env pString⟩,
        .stack 500 0 (stringSize env pString)] ++ copyWords hash 8)

/-- `sys_dma_copy_to_perif`; `length+1` and `2*length` are `uint32_t`. -/
def sysDmaCopyToPerif (sAddr : BitVec 64) (length : BitVec 32) : List Event :=
  unlessValid env [⟨sAddr, (length + 1).toNat⟩]
    (if length > 32 then []
    else
      [.user (words sAddr (2 * length).toNat),
        .stack (4 * 64) 0 (4 * (2 * length).toNat)])

/-- `sys_dma_copy_from_perif`. -/
def sysDmaCopyFromPerif (dAddr : BitVec 64) (length : BitVec 32) :
    List Event :=
  unlessValid env [⟨dAddr, (length + 1).toNat⟩]
    (if length > 32 then []
    else
      [.stack (4 * 64) 0 (4 * 64),
        .stack (4 * 64) 0 (4 * (2 * length).toNat),
        .user (words dAddr (2 * length).toNat)])

/-- `sys_hmac_hash`. -/
def sysHmacHash (pString hash : BitVec 64) : List Event :=
  .user (stringBytes env pString) ::
    unlessValid env [⟨pString, stringSize env pString⟩, ⟨hash, 8 * 4⟩]
      ([.user ⟨pString, 64⟩, .stack 65 0 64, .stack 65 64 1] ++
        copyWords hash 8)

/-- `sys_cmp`. -/
def sysCmp (expectedData receivedData : BitVec 64) (blockSize : BitVec 32)
    (equality : BitVec 64) : List Event :=
  returnIf (checks (validUserRangeU env)
      [⟨expectedData, blockSize.toNat⟩, ⟨receivedData, blockSize.toNat⟩,
        ⟨equality, 4⟩]).not
    (if blockSize > 1024 then []
    else
      [.user (words expectedData blockSize.toNat),
        .stack (4 * 1024) 0 (4 * blockSize.toNat),
        .user (words receivedData blockSize.toNat),
        .stack (4 * 1024) 0 (4 * blockSize.toNat),
        .user ⟨equality, 4⟩])

/-- `sys_puts`. -/
def sysPuts (buf : BitVec 64) (bufLen : BitVec 32) : List Event :=
  unlessValid env [⟨buf, bufLen.toNat⟩]
    [.user ⟨buf, bufLen.toNat⟩, .stack 64 0 bufLen.toNat]

/-! ## The tables -/

/-- The arguments `a0` to `a5`. -/
structure Args where
  a0 : BitVec 64
  a1 : BitVec 64
  a2 : BitVec 64
  a3 : BitVec 64
  a4 : BitVec 64
  a5 : BitVec 64

/-- The handlers of `syscall_table`; `noPointer` are those that neither
load nor store through an argument. -/
inductive Handler where
  | noPointer
  | uname
  | mmap
  | times
  | gettimeofday
  | clockGettime
  | aes0StartEncry
  | aes0StartDecry
  | aes0DataOut
  | aes2StartEncry
  | aes2StartDecry
  | aes2DataOut
  | aes1ReadData
  | aes1WriteData
  | aes1ReadConfig
  | sha256Hash
  | hmacHash
  | dmaCopyToPerif
  | dmaCopyFromPerif
  | cmp
  | puts
  | rngReadData
  | rngReadPoly
  | rngWritePoly
  | rngReadSeed
  | rngWriteSeed
  | rngReadRandSeg
  | rngReadStateCounter
  | rsaWritePrimeNum
  | rsaWriteMsgIn
  | rsaReadMsgOut

/-- The numbers whose handler is a stub, ends the program, starts or awaits
a peripheral, or changes a mapping without touching the memory. -/
def noPointerCalls : List ℕ :=
  [93, 94, 63, 67, 64, 56, 57, 80, 62, 79, 37, 35, 34, 38, 17, 214, 172, 174,
    175, 176, 177, 215, 216, 226, 261, 134, 66, 48, 25, 46, 61, 23, 24, 78,
    135, 29, 165, 163, 164, 49, 96, 99, 233, 1023, 1020, 1060, 1009, 1016,
    1007, 1050, 1067, 1066]

/-- `syscall_table`. -/
def syscallTable (n : ℕ) : Option Handler :=
  match n with
  | 160 => some .uname
  | 222 => some .mmap
  | 169 => some .gettimeofday
  | 153 => some .times
  | 113 => some .clockGettime
  | 1022 => some .aes0StartEncry
  | 1021 => some .aes0StartDecry
  | 1019 => some .aes0DataOut
  | 1058 => some .aes2StartEncry
  | 1059 => some .aes2StartDecry
  | 1061 => some .aes2DataOut
  | 1012 => some .aes1ReadData
  | 1011 => some .aes1WriteData
  | 1010 => some .aes1ReadConfig
  | 1018 => some .sha256Hash
  | 1017 => some .hmacHash
  | 1015 => some .dmaCopyToPerif
  | 1014 => some .dmaCopyFromPerif
  | 1013 => some .cmp
  | 1008 => some .puts
  | 1051 => some .rngReadData
  | 1052 => some .rngReadPoly
  | 1053 => some .rngWritePoly
  | 1054 => some .rngReadSeed
  | 1055 => some .rngWriteSeed
  | 1056 => some .rngReadRandSeg
  | 1057 => some .rngReadStateCounter
  | 1063 => some .rsaWritePrimeNum
  | 1064 => some .rsaWriteMsgIn
  | 1065 => some .rsaReadMsgOut
  | _ => if n ∈ noPointerCalls then some .noPointer else none

/-- The call of a handler with the arguments of the trap; `uint32_t` and
`int` parameters take the low half of a register. -/
def Handler.run (h : Handler) (x : Args) : List Event :=
  match h with
  | .noPointer => []
  | .uname => sysUname env x.a0
  | .mmap => sysMmap env x.a0 x.a1 (x.a3.setWidth 32) (x.a4.setWidth 32) x.a5
  | .times => sysTimes env x.a0
  | .gettimeofday => sysGettimeofday env x.a0
  | .clockGettime => sysClockGettime env x.a1
  | .aes0StartEncry => sysAes0StartEncry env x.a0 x.a1
  | .aes0StartDecry => sysAes0StartDecry env x.a0 x.a1
  | .aes0DataOut => sysAes0DataOut env x.a0
  | .aes2StartEncry => sysAes2StartEncry env x.a0 x.a1
  | .aes2StartDecry => sysAes2StartDecry env x.a0 x.a1
  | .aes2DataOut => sysAes2DataOut env x.a0
  | .aes1ReadData => sysAes1ReadData env x.a0
  | .aes1WriteData => sysAes1WriteData env x.a0
  | .aes1ReadConfig => sysAes1ReadConfig env x.a0
  | .sha256Hash => sysSha256Hash env x.a0 x.a1
  | .hmacHash => sysHmacHash env x.a0 x.a1
  | .dmaCopyToPerif => sysDmaCopyToPerif env x.a0 (x.a2.setWidth 32)
  | .dmaCopyFromPerif => sysDmaCopyFromPerif env x.a1 (x.a2.setWidth 32)
  | .cmp => sysCmp env x.a0 x.a1 (x.a2.setWidth 32) x.a3
  | .puts => sysPuts env x.a0 (x.a1.setWidth 32)
  | .rngReadData => sysRngReadData env x.a0
  | .rngReadPoly => sysRngReadPoly env x.a0 x.a1 x.a2 x.a3
  | .rngWritePoly => sysRngWritePoly env x.a0 x.a1 x.a2 x.a3
  | .rngReadSeed => sysRngReadSeed env x.a0 x.a1 x.a2 x.a3
  | .rngWriteSeed => sysRngWriteSeed env x.a0
  | .rngReadRandSeg => sysRngReadRandSeg env x.a0
  | .rngReadStateCounter => sysRngReadStateCounter env x.a0
  | .rsaWritePrimeNum => sysRsaWritePrimeNum env x.a0
  | .rsaWriteMsgIn => sysRsaWriteMsgIn env x.a0
  | .rsaReadMsgOut => sysRsaReadMsgOut env x.a0

/-- `do_syscall`.  The last number of `syscall_table` is 1067, and
`old_syscall_table` is asked only for larger numbers, where it has no
entry: its first number is 1024 and its last one 1062.  A number without a
handler ends in `panic`. -/
def doSyscall (n : ℕ) (x : Args) : List Event :=
  if n < 1068 then
    match syscallTable n with
    | some h => h.run env x
    | none => []
  else []

end ArianeSoc.Pk
