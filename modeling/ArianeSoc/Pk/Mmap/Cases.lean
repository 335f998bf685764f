import ArianeSoc.Pk.Mmap.State
import Mathlib.Tactic.Common

/-!
# What an operation can have done

Each lemma here takes an operation of `mmap.c` that came to its end and
gives the ways in which it can have done so, down to `doMmapPages`,
`doMunmapPages` and `doMprotect`.  Nothing here says what these do.
-/

namespace ArianeSoc.Pk.Mmap

variable {c : Config} {s s' : Vm}

/-! ## `mmap` -/

/-- The requests that `do_mmap` hands on. -/
structure Accepted (length : Addr) (flags : BitVec 32) (file : Option ℕ)
    (offset : Addr) : Prop where
  isPrivate : flags &&& MAP_PRIVATE ≠ 0
  length_ne : length ≠ 0
  offset_aligned : offset &&& 4095 = 0
  file_some : flags &&& MAP_ANONYMOUS = 0 → file ≠ none

/-- `-EINVAL`, `-EBADF` and `(uintptr_t)-1`. -/
def IsError (r : Addr) : Prop := r = -22 ∨ r = -9 ∨ r = FAILED

instance (r : Addr) : Decidable (IsError r) :=
  inferInstanceAs (Decidable (_ ∨ _))

/-- The file of a request. -/
def requestFile (flags : BitVec 32) (file : Option ℕ) : Option ℕ :=
  if flags &&& MAP_ANONYMOUS = 0 then file else none

/-- `do_mmap` moves `brk_max` down to the address. -/
def lowerMax (r : Addr) (s : Vm) : Vm :=
  if r < s.brkMax then { s with brkMax := r } else s

section Mmap

variable {io : ℕ → Bool} {addr length : Addr} {prot flags : BitVec 32}
  {file : Option ℕ} {offset r : Addr}

theorem doMmap_rejected (h : ¬ Accepted length flags file offset) :
    ∃ r, IsError r ∧
      doMmap c io addr length prot flags file offset s = some (s, r) := by
  unfold doMmap
  generalize (if flags &&& MAP_ANONYMOUS = 0 then file else none) = f
  split_ifs with hargs hfile
  · exact ⟨-22, .inl rfl, rfl⟩
  · exact ⟨-9, .inr (.inl rfl), rfl⟩
  · refine absurd ?_ h
    rw [not_or, not_or, not_not] at hargs
    exact ⟨hargs.1, hargs.2.1, hargs.2.2, fun hf hn => hfile ⟨hf, hn⟩⟩

theorem doMmap_accepted (h : Accepted length flags file offset) :
    doMmap c io addr length prot flags file offset s =
      (doMmapPages c io addr length prot flags (requestFile flags file)
        offset s).map fun r => (lowerMax r.2 r.1, r.2) := by
  have hargs : ¬ (flags &&& MAP_PRIVATE = 0 ∨ length = 0 ∨
      offset &&& 4095 ≠ 0) := by
    rw [not_or, not_or, not_not]
    exact ⟨h.isPrivate, h.length_ne, h.offset_aligned⟩
  have hfile : ¬ (flags &&& MAP_ANONYMOUS = 0 ∧ file = none) :=
    fun hf => h.file_some hf.1 hf.2
  unfold doMmap
  rw [if_neg hargs, if_neg hfile]
  rfl

theorem doMmap_cases
    (h : doMmap c io addr length prot flags file offset s = some (s', r)) :
    IsError r ∧ s' = s ∨
      Accepted length flags file offset ∧ ∃ t, s' = lowerMax r t ∧
        doMmapPages c io addr length prot flags (requestFile flags file)
          offset s = some (t, r) := by
  by_cases hacc : Accepted length flags file offset
  · rw [doMmap_accepted hacc] at h
    obtain ⟨⟨t, r'⟩, ht, heq⟩ := Option.map_eq_some_iff.mp h
    cases heq
    exact .inr ⟨hacc, t, rfl, ht⟩
  · obtain ⟨e, he, heq⟩ := doMmap_rejected (c := c) (s := s) hacc
    rw [heq] at h
    cases h
    exact .inl ⟨he, rfl⟩

end Mmap

theorem lowerMax_pte (r : Addr) (s : Vm) : (lowerMax r s).pte = s.pte := by
  unfold lowerMax
  split_ifs <;> rfl

theorem lowerMax_vmr (r : Addr) (s : Vm) : (lowerMax r s).vmr = s.vmr := by
  unfold lowerMax
  split_ifs <;> rfl

theorem lowerMax_pool (r : Addr) (s : Vm) :
    (lowerMax r s).pool = s.pool := by
  unfold lowerMax
  split_ifs <;> rfl

theorem lowerMax_brk (r : Addr) (s : Vm) :
    (lowerMax r s).brk = s.brk ∧ (lowerMax r s).brkMin = s.brkMin := by
  unfold lowerMax
  split_ifs <;> exact ⟨rfl, rfl⟩

/-! ## `munmap`, the break and faults -/

theorem doMunmap_cases {addr length r : Addr}
    (h : doMunmap c addr length s = some (s', r)) :
    s' = s ∨ doMunmapPages addr length s = some s' := by
  unfold doMunmap at h
  split_ifs at h
  · cases h
    exact .inl rfl
  · obtain ⟨t, ht, heq⟩ := Option.map_eq_some_iff.mp h
    cases heq
    exact .inr ht

/-- The state with its break set. -/
def Vm.setBrk (s : Vm) : Vm := { s with brk := s.theBrk }

/-- The heap shrinks, grows, or stays as it is. -/
theorem doBrk_cases {addr r : Addr}
    (h : doBrk c addr s = some (s', r)) :
    ∃ t, s' = { t with brk := roundup (clampBrk addr s) } ∧
      (roundup (clampBrk addr s) < s.theBrk ∧
          doMunmapPages (roundup (clampBrk addr s))
            (s.theBrk - roundup (clampBrk addr s)) s.setBrk = some t ∨
        s.theBrk < roundup (clampBrk addr s) ∧
          doMmapPages c (fun _ => true) s.theBrk
            (roundup (clampBrk addr s) - s.theBrk) (-1)
            (MAP_FIXED ||| MAP_PRIVATE ||| MAP_ANONYMOUS) none 0 s.setBrk =
            some (t, s.theBrk) ∨
        s.theBrk = roundup (clampBrk addr s) ∧ t = s.setBrk) := by
  obtain ⟨t, ht, heq⟩ := Option.map_eq_some_iff.mp h
  cases heq
  refine ⟨t, rfl, ?_⟩
  dsimp only at ht
  split_ifs at ht with hgt hlt
  · exact .inl ⟨hgt, ht⟩
  · obtain ⟨⟨u, r⟩, hu, ht⟩ := Option.bind_eq_some_iff.mp ht
    dsimp only at ht
    split_ifs at ht with hr
    cases ht
    subst hr
    exact .inr (.inl ⟨hlt, hu⟩)
  · cases ht
    refine .inr (.inr ⟨?_, rfl⟩)
    exact BitVec.le_antisymm (BitVec.not_lt.mp hgt) (BitVec.not_lt.mp hlt)

theorem fault_cases {io : ℕ → Bool} {vaddr : Addr} {prot : BitVec 32}
    (h : (Op.fault io vaddr prot).run c s = some s') :
    handlePageFault c io vaddr prot s = some (s', true) := by
  obtain ⟨⟨t, ok⟩, ht, h⟩ := Option.bind_eq_some_iff.mp h
  dsimp only at h
  split_ifs at h with hok
  cases h
  rw [hok] at ht
  exact ht

/-! ## `mprotect` -/

/-- A page that takes its protection changes a descriptor or its entry. -/
theorem mprotectPage_cases {prot : BitVec 32} {a : Addr}
    (h : mprotectPage prot s a = .ok s') :
    (∃ v, s.pte (vpn a) = .lazy v ∧
        ((s.vmr v).prot ^^^ prot) &&& ~~~(s.vmr v).prot = 0 ∧
        s' = s.setVmr v { s.vmr v with prot := prot }) ∨
      ∃ ppn type, s.pte (vpn a) = .leaf ppn type ∧ type &&& PTE_U ≠ 0 ∧
        (prot &&& PROT_READ ≠ 0 → type &&& PTE_R ≠ 0) ∧
        (prot &&& PROT_WRITE ≠ 0 → type &&& PTE_W ≠ 0) ∧
        (prot &&& PROT_EXEC ≠ 0 → type &&& PTE_X ≠ 0) ∧
        s' = s.setPte (vpn a) (pteCreate ppn (protToType prot true)) := by
  unfold mprotectPage at h
  split at h
  · cases h
  · rename_i v hv
    split_ifs at h with hbad
    cases h
    exact .inl ⟨v, hv, not_not.mp hbad, rfl⟩
  · rename_i ppn type hl
    split_ifs at h with hbad
    cases h
    simp only [not_or, not_and] at hbad
    exact .inr ⟨ppn, type, hl, hbad.1, hbad.2.1, hbad.2.2.1, hbad.2.2.2,
      rfl⟩

/-- A property that every page keeps is kept by `mprotect`. -/
theorem doMprotect_invariant {P : Vm → Prop} {addr length r : Addr}
    {prot : BitVec 32}
    (hpage : ∀ s a t, P s → mprotectPage prot s a = .ok t → P t)
    (hs : P s) (h : doMprotect addr length prot s = some (s', r)) :
    P s' := by
  have hloop : ∀ n a s, P s →
      mprotectLoop prot (addr + length) n a s = some (s', r) → P s' := by
    intro n
    induction n with
    | zero =>
      intro a s hs h
      cases h
    | succ n ih =>
      intro a s hs h
      unfold mprotectLoop at h
      split_ifs at h
      · cases hp : mprotectPage prot s a with
        | error e =>
          rw [hp] at h
          cases h
          exact hs
        | ok t =>
          rw [hp] at h
          exact ih (a + 4096) t (hpage s a t hs hp) h
      · cases h
        exact hs
  unfold doMprotect at h
  split_ifs at h
  · cases h
    exact hs
  · exact hloop forever addr s hs h

/-! ## The loader -/

/-- The start of the pages of a segment, and what of it the file fills. -/
def Segment.start (g : Segment) : Addr := g.vaddr - (g.vaddr &&& 4095)

def Segment.fileLen (g : Segment) : Addr := g.filesz + (g.vaddr &&& 4095)

/-- The bytes of the segment that the pages of the file have room for. -/
def Segment.mapped (g : Segment) : Addr :=
  roundup g.fileLen - (g.vaddr &&& 4095)

/-- `current.brk_min` moves up to the end of the segment. -/
def raiseMin (g : Segment) (s : Vm) : Vm :=
  if g.vaddr + g.memsz > s.brkMin then
    { s with brkMin := g.vaddr + g.memsz }
  else s

/-- The pages of the file, their protection, and the pages of zeros. -/
theorem loadSegment_cases {g : Segment} (h : loadSegment c g s = some s') :
    ∃ t u, doMmapPages c (fun _ => true) g.start g.fileLen
        (g.prot ||| PROT_WRITE) (MAP_FIXED ||| MAP_PRIVATE ||| MAP_POPULATE)
        none 0 (raiseMin g s) = some (t, g.start) ∧
      (g.prot &&& PROT_WRITE ≠ 0 ∧ u = t ∨
        doMprotect g.start g.fileLen g.prot t = some (u, 0)) ∧
      (g.memsz ≤ g.mapped ∧ s' = u ∨
        g.mapped < g.memsz ∧
          doMmapPages c (fun _ => true) (g.vaddr + g.mapped)
            (g.memsz - g.mapped) g.prot
            (MAP_FIXED ||| MAP_PRIVATE ||| MAP_ANONYMOUS) none 0 u =
            some (s', g.vaddr + g.mapped)) := by
  obtain ⟨⟨t, r⟩, ht, h⟩ := Option.bind_eq_some_iff.mp h
  dsimp only at h
  by_cases hr : r ≠ g.vaddr - (g.vaddr &&& 4095)
  · rw [if_pos hr] at h
    cases h
  rw [if_neg hr] at h
  obtain ⟨u, hu, h⟩ := Option.bind_eq_some_iff.mp h
  refine ⟨t, u, ?_, ?_, ?_⟩
  · rw [not_not.mp hr] at ht
    exact ht
  · split_ifs at hu with hwrite
    · obtain ⟨⟨w, e⟩, hw, hu⟩ := Option.bind_eq_some_iff.mp hu
      dsimp only at hu
      split_ifs at hu with he
      cases hu
      rw [not_not.mp he] at hw
      exact .inr hw
    · cases hu
      exact .inl ⟨hwrite, rfl⟩
  · split_ifs at h with hmore
    · obtain ⟨⟨w, e⟩, hw, h⟩ := Option.bind_eq_some_iff.mp h
      dsimp only at h
      split_ifs at h with he
      cases h
      rw [not_not.mp he] at hw
      exact .inr ⟨hmore, hw⟩
    · cases h
      exact .inl ⟨BitVec.not_lt.mp hmore, rfl⟩

/-- A relation that every segment keeps is kept by the loader. -/
theorem loadElf_invariant {P : Vm → Prop} {segs : List Segment}
    (hseg : ∀ g s t, P s → loadSegment c g s = some t → P t) (hs : P s)
    (h : loadElf c segs s = some s') : P s' := by
  unfold loadElf at h
  induction segs generalizing s with
  | nil =>
    cases h
    exact hs
  | cons g segs ih =>
    rw [List.foldlM_cons] at h
    obtain ⟨t, ht, h⟩ := Option.bind_eq_some_iff.mp h
    exact ih (hseg g s t hs ht) h

end ArianeSoc.Pk.Mmap
