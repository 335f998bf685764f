import ArianeSoc.Pk.UserMemory

/-!
# The stack buffers of the system calls

A trace is `Bounded` if it uses its stack buffers within their sizes.  The
buffers of `sys_sha256_hash` and `sys_puts` have no length check behind the
range check; all others are used within their bounds, whatever the
arguments.
-/

namespace ArianeSoc.Pk

/-- Every access to a stack buffer is within its bounds. -/
def Bounded (tr : List Event) : Prop :=
  ∀ size off len, .stack size off len ∈ tr → off + len ≤ size

variable {env : Env} {rs : List Range} {body : List Event}
  {valid : Range → Bool}

theorem bounded_nil : Bounded [] :=
  fun _ _ _ h => absurd h List.not_mem_nil

theorem bounded_append {tr tr' : List Event} :
    Bounded (tr ++ tr') ↔ Bounded tr ∧ Bounded tr' := by
  constructor
  · intro h
    exact ⟨fun s o l hm => h s o l (List.mem_append_left _ hm),
      fun s o l hm => h s o l (List.mem_append_right _ hm)⟩
  · rintro ⟨h, h'⟩ s o l hm
    rcases List.mem_append.mp hm with hm | hm
    · exact h s o l hm
    · exact h' s o l hm

theorem bounded_copyWords (p : BitVec 64) (n : ℕ) :
    Bounded (copyWords p n) := by
  intro s o l hm
  simp only [copyWords, List.mem_cons, reduceCtorEq, Event.stack.injEq,
    List.not_mem_nil, or_false, false_or] at hm
  omega

/-- The checks use no buffer. -/
theorem bounded_checks : Bounded (checks valid rs).trace := by
  induction rs with
  | nil => exact bounded_nil
  | cons c rs ih =>
    intro s o l hm
    unfold checks Cond.and check at hm
    split_ifs at hm
    · simp only [List.singleton_append, List.mem_cons, reduceCtorEq,
        false_or] at hm
      exact ih s o l hm
    · simp at hm

theorem bounded_returnIf :
    Bounded (returnIf (checks valid rs).not body) ↔
      ((∀ c ∈ rs, valid c = true) → Bounded body) := by
  unfold returnIf Cond.not
  rw [bounded_append, and_iff_right bounded_checks, ← checks_holds]
  by_cases h : (checks valid rs).holds = true
  · rw [h, imp_iff_right rfl]
    exact Iff.rfl
  · rw [eq_false_of_ne_true h]
    exact iff_of_true bounded_nil nofun

theorem bounded_unlessValid (hlen : ∀ c ∈ rs, c.len < 2 ^ 64) :
    Bounded (unlessValid env rs body) ↔
      ((∀ c ∈ rs, InUser env c) → Bounded body) := by
  unfold unlessValid
  rw [bounded_returnIf]
  refine imp_congr_left ?_
  exact forall₂_congr fun c hc => validUserRange_iff (hlen c hc)

/-- A handler whose copies fit behind any checks. -/
theorem bounded_of_body (h : Bounded body) (c : Cond)
    (hc : Bounded c.trace) : Bounded (returnIf c body) := by
  unfold returnIf
  refine bounded_append.mpr ⟨hc, ?_⟩
  split_ifs
  · exact bounded_nil
  · exact h

/-! ## The handlers that copy what the user measures -/

theorem stringSize_lt (p : BitVec 64) : stringSize env p < 2 ^ 64 :=
  (env.strlen p + 1).isLt

/-- The buffer has room for 499 bytes and the terminator. -/
theorem sysSha256Hash_bounded (pString hash : BitVec 64) :
    Bounded (sysSha256Hash env pString hash) ↔
      (InUser env ⟨pString, stringSize env pString⟩ →
        InUser env ⟨hash, 32⟩ → stringSize env pString ≤ 500) := by
  unfold sysSha256Hash
  rw [← List.singleton_append, bounded_append,
    and_iff_right (by intro s o l; simp),
    bounded_unlessValid (by simpa using stringSize_lt pString),
    bounded_append, and_iff_left (bounded_copyWords hash 8)]
  simp only [List.mem_cons, List.not_mem_nil, or_false, forall_eq_or_imp,
    forall_eq, and_imp]
  refine imp_congr_right fun _ => imp_congr_right fun _ => ?_
  constructor
  · intro h
    have hfit := h 500 0 (stringSize env pString) (by simp)
    omega
  · intro h s o l hm
    simp only [List.mem_cons, reduceCtorEq, Event.stack.injEq,
      List.not_mem_nil, or_false, false_or] at hm
    omega

/-- The terminator has a place of its own behind the 64 bytes. -/
theorem sysHmacHash_bounded (pString hash : BitVec 64) :
    Bounded (sysHmacHash env pString hash) := by
  unfold sysHmacHash
  rw [← List.singleton_append, bounded_append]
  refine ⟨by intro s o l; simp, ?_⟩
  refine (bounded_unlessValid (by simpa using stringSize_lt pString)).mpr
    fun _ => bounded_append.mpr ⟨?_, bounded_copyWords hash 8⟩
  intro s o l hm
  simp only [List.mem_cons, reduceCtorEq, Event.stack.injEq,
    List.not_mem_nil, or_false, false_or] at hm
  omega

/-- Nothing compares the length with the size of the buffer. -/
theorem sysPuts_bounded (buf : BitVec 64) (bufLen : BitVec 32) :
    Bounded (sysPuts env buf bufLen) ↔
      (InUser env ⟨buf, bufLen.toNat⟩ → bufLen.toNat ≤ 64) := by
  have hlen : bufLen.toNat < 2 ^ 64 :=
    Nat.lt_of_lt_of_le bufLen.isLt (by decide)
  unfold sysPuts
  rw [bounded_unlessValid (by simpa using hlen)]
  simp only [List.mem_singleton, forall_eq]
  refine imp_congr_right fun _ => ?_
  constructor
  · intro h
    have hfit := h 64 0 bufLen.toNat (by simp)
    omega
  · intro h s o l hm
    simp only [List.mem_cons, reduceCtorEq, Event.stack.injEq,
      List.not_mem_nil, or_false, false_or] at hm
    omega

/-- A length that is let through is at most 32 double words. -/
theorem dma_length {length : BitVec 32} (h : ¬ length > 32) :
    4 * (2 * length).toNat ≤ 4 * 64 := by
  have hle : length.toNat ≤ 32 := Nat.not_lt.mp h
  have h2 : (2 : BitVec 32).toNat = 2 := rfl
  rw [BitVec.toNat_mul, h2]
  omega

theorem sysDmaCopyToPerif_bounded (sAddr : BitVec 64)
    (length : BitVec 32) : Bounded (sysDmaCopyToPerif env sAddr length) := by
  refine bounded_returnIf.mpr fun _ => ?_
  split_ifs with h
  · exact bounded_nil
  · have hfit := dma_length h
    intro s o l hm
    simp only [List.mem_cons, reduceCtorEq, Event.stack.injEq,
      List.not_mem_nil, or_false, false_or] at hm
    omega

theorem sysDmaCopyFromPerif_bounded (dAddr : BitVec 64)
    (length : BitVec 32) :
    Bounded (sysDmaCopyFromPerif env dAddr length) := by
  refine bounded_returnIf.mpr fun _ => ?_
  split_ifs with h
  · exact bounded_nil
  · have hfit := dma_length h
    intro s o l hm
    simp only [List.mem_cons, reduceCtorEq, Event.stack.injEq,
      List.not_mem_nil, or_false] at hm
    omega

/-- The arrays are not touched for more than 1024 words. -/
theorem sysCmp_bounded (expectedData receivedData : BitVec 64)
    (blockSize : BitVec 32) (equality : BitVec 64) :
    Bounded (sysCmp env expectedData receivedData blockSize equality) := by
  refine bounded_returnIf.mpr fun _ => ?_
  split_ifs with h
  · exact bounded_nil
  · have hfit : blockSize.toNat ≤ 1024 := Nat.not_lt.mp h
    intro s o l hm
    simp only [List.mem_cons, reduceCtorEq, Event.stack.injEq,
      List.not_mem_nil, or_false, false_or] at hm
    omega

/-! ## The other handlers -/

/-- A handler that copies arrays of a fixed number of words. -/
theorem bounded_fixed (h : Bounded body) : Bounded (unlessValid env rs body) :=
  bounded_returnIf.mpr fun _ => h

theorem bounded_users {tr : List Event}
    (h : ∀ s o l, .stack s o l ∉ tr) : Bounded tr :=
  fun s o l hm => absurd hm (h s o l)

theorem rngFour_bounded (p128 p64 p32 p16 : BitVec 64) :
    Bounded (rngFour env p128 p64 p32 p16) := by
  refine bounded_of_body ?_ _ ?_
  · simp only [bounded_append, bounded_copyWords, and_self]
  · unfold Cond.and Cond.not
    split_ifs
    · exact bounded_append.mpr ⟨bounded_checks, by intro s o l; simp [check]⟩
    · exact bounded_checks

theorem sysMmap_bounded (addr length : BitVec 64) (flags fd : BitVec 32)
    (offset : BitVec 64) :
    Bounded (sysMmap env addr length flags fd offset) := by
  have hpage : ∀ a, Bounded (populatePage env a) := fun a =>
    bounded_of_body (by intro s o l; simp) _ (by intro s o l; simp [check, Cond.not])
  unfold sysMmap
  split_ifs
  any_goals exact bounded_nil
  · refine bounded_fixed fun s o l hm => ?_
    obtain ⟨k, -, hk⟩ := List.mem_flatMap.mp hm
    exact hpage _ s o l hk
  · exact bounded_fixed bounded_nil

/-! ## The table -/

/-- Which system calls with which arguments keep to their buffers. -/
def BoundedArgs (env : Env) (h : Handler) (x : Args) : Prop :=
  match h with
  | .sha256Hash =>
    InUser env ⟨x.a0, stringSize env x.a0⟩ → InUser env ⟨x.a1, 32⟩ →
      stringSize env x.a0 ≤ 500
  | .puts =>
    InUser env ⟨x.a0, (x.a1.setWidth 32 : BitVec 32).toNat⟩ →
      (x.a1.setWidth 32 : BitVec 32).toNat ≤ 64
  | _ => True

theorem bounded_run_iff (h : Handler) (x : Args) :
    Bounded (h.run env x) ↔ BoundedArgs env h x := by
  have hbounded : ∀ {tr : List Event}, Bounded tr → (Bounded tr ↔ True) :=
    fun hb => iff_of_true hb trivial
  have hcopy : ∀ {rs p n}, Bounded (unlessValid env rs (copyWords p n)) :=
    bounded_fixed (bounded_copyWords _ _)
  have hcopies : ∀ {rs p q m n}, Bounded (unlessValid env rs
      (copyWords p m ++ copyWords q n)) :=
    bounded_fixed (bounded_append.mpr
      ⟨bounded_copyWords _ _, bounded_copyWords _ _⟩)
  cases h with
  | noPointer => exact hbounded bounded_nil
  | uname => exact hbounded (bounded_fixed (bounded_users (by simp)))
  | mmap => exact hbounded (sysMmap_bounded _ _ _ _ _)
  | times => exact hbounded (bounded_fixed (bounded_users (by simp)))
  | gettimeofday => exact hbounded (bounded_fixed (bounded_users (by simp)))
  | clockGettime => exact hbounded (bounded_fixed (bounded_users (by simp)))
  | aes0StartEncry => exact hbounded hcopies
  | aes0StartDecry => exact hbounded hcopies
  | aes0DataOut => exact hbounded hcopy
  | aes2StartEncry => exact hbounded hcopies
  | aes2StartDecry => exact hbounded hcopies
  | aes2DataOut => exact hbounded hcopy
  | aes1ReadData => exact hbounded hcopy
  | aes1WriteData => exact hbounded hcopy
  | aes1ReadConfig => exact hbounded hcopy
  | sha256Hash => exact sysSha256Hash_bounded _ _
  | hmacHash => exact hbounded (sysHmacHash_bounded _ _)
  | dmaCopyToPerif => exact hbounded (sysDmaCopyToPerif_bounded _ _)
  | dmaCopyFromPerif => exact hbounded (sysDmaCopyFromPerif_bounded _ _)
  | cmp => exact hbounded (sysCmp_bounded _ _ _ _)
  | puts => exact sysPuts_bounded _ _
  | rngReadData => exact hbounded hcopy
  | rngReadPoly => exact hbounded (rngFour_bounded _ _ _ _)
  | rngWritePoly => exact hbounded (rngFour_bounded _ _ _ _)
  | rngReadSeed => exact hbounded (rngFour_bounded _ _ _ _)
  | rngWriteSeed =>
    refine hbounded (bounded_fixed fun s o l hm => ?_)
    simp only [List.mem_cons, reduceCtorEq, Event.stack.injEq,
      List.not_mem_nil, or_false, false_or] at hm
    omega
  | rngReadRandSeg => exact hbounded hcopy
  | rngReadStateCounter => exact hbounded hcopy
  | rsaWritePrimeNum => exact hbounded hcopy
  | rsaWriteMsgIn => exact hbounded hcopy
  | rsaReadMsgOut => exact hbounded hcopy

/-- A system call keeps to its stack buffers exactly for the arguments of
the table. -/
theorem syscall_bounded_iff (env : Env) (n : ℕ) (x : Args) :
    Bounded (doSyscall env n x) ↔
      ∀ h, n < 1068 → syscallTable n = some h → BoundedArgs env h x := by
  unfold doSyscall
  by_cases hn : n < 1068
  · rw [if_pos hn]
    cases hh : syscallTable n with
    | none => exact iff_of_true bounded_nil fun h _ hs => nomatch hs
    | some h =>
      refine (bounded_run_iff h x).trans ⟨fun hs h' _ he => ?_, fun hs => ?_⟩
      · cases he
        exact hs
      · exact hs h hn rfl
  · rw [if_neg hn]
    exact iff_of_true bounded_nil fun h hlt => absurd hlt hn

/-- `puts` of 65 bytes. -/
theorem puts_overflows :
    ¬ Bounded (doSyscall smallEnv 1008 ⟨0x1000, 65, 0, 0, 0, 0⟩) := by
  intro h
  have hfit := (bounded_run_iff .puts ⟨0x1000, 65, 0, 0, 0, 0⟩).mp h
  exact absurd (hfit (by decide)) (by decide)

end ArianeSoc.Pk
