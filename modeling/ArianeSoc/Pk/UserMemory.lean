import ArianeSoc.Pk.Syscall

/-!
# User memory that the system calls touch

A trace is `Safe` if every user range it touches lies in one that a check
accepted and that really ends at or below `mmap_max`, and if it touches
none at all once a check refuses.

* `safe_unlessValid`: a handler that checks some ranges and then touches
  others.
* One lemma for each kind of handler, with the exact condition.
* `syscall_safe_iff` puts them together; `SafeArgs` is the table of the
  conditions.
-/

namespace ArianeSoc.Pk

/-- The range ends at or below `mmap_max`, without a wrap. -/
def InUser (env : Env) (r : Range) : Prop :=
  r.ptr.toNat + r.len ≤ env.mmapMax.toNat

/-- The range `r` lies in `c`. -/
def Range.Within (r c : Range) : Prop :=
  c.ptr.toNat ≤ r.ptr.toNat ∧ r.ptr.toNat + r.len ≤ c.ptr.toNat + c.len

instance (env : Env) (r : Range) : Decidable (InUser env r) :=
  inferInstanceAs (Decidable (_ ≤ _))

instance (r c : Range) : Decidable (r.Within c) :=
  inferInstanceAs (Decidable (_ ∧ _))

/-- What a system call may do with user memory. -/
structure Safe (env : Env) (tr : List Event) : Prop where
  covered : ∀ r, .user r ∈ tr → 0 < r.len →
    ∃ c, .check c true ∈ tr ∧ InUser env c ∧ r.Within c
  refused : ∀ c, .check c false ∈ tr → ∀ r, .user r ∈ tr → r.len = 0

variable {env : Env} {rs : List Range} {pre body : List Event}
  {valid : Range → Bool}

/-! ## Checks -/

/-- `__valid_user_range` accepts the ranges below `mmap_max`. -/
theorem validUserRange_iff {r : Range} (h : r.len < 2 ^ 64) :
    validUserRange env r = true ↔ InUser env r := by
  unfold validUserRange InUser
  have hlen : (BitVec.ofNat 64 r.len).toNat = r.len := by
    rw [BitVec.toNat_ofNat, Nat.mod_eq_of_lt h]
  have hptr := r.ptr.isLt
  have hmax := env.mmapMax.isLt
  simp only [BitVec.lt_def, BitVec.le_def, BitVec.toNat_add, hlen]
  split_ifs with hw
  · simp
    omega
  · simp
    omega

theorem checks_user_free (r : Range) :
    .user r ∉ (checks valid rs).trace := by
  induction rs with
  | nil => exact List.not_mem_nil
  | cons c rs ih =>
    unfold checks Cond.and check
    split_ifs <;> simp [ih]

theorem checks_holds :
    (checks valid rs).holds = true ↔ ∀ c ∈ rs, valid c = true := by
  induction rs with
  | nil => simp [checks]
  | cons c rs ih =>
    unfold checks Cond.and check
    by_cases h : valid c = true
    · simp [h, ih]
    · simp [h]

/-- The checks that are made, with their answers, if all accept. -/
theorem checks_accepted (h : (checks valid rs).holds = true) {c : Range}
    {ok : Bool} :
    .check c ok ∈ (checks valid rs).trace ↔ c ∈ rs ∧ ok = true := by
  induction rs with
  | nil => simp [checks]
  | cons d rs ih =>
    have hd : valid d = true := checks_holds.mp h d List.mem_cons_self
    have hrs : (checks valid rs).holds = true :=
      checks_holds.mpr fun e he => checks_holds.mp h e (List.mem_cons_of_mem d he)
    unfold checks Cond.and check
    rw [if_pos hd]
    simp only [List.cons_append, List.nil_append, List.mem_cons,
      Event.check.injEq, ih hrs, hd]
    constructor
    · rintro (⟨rfl, rfl⟩ | ⟨hc, rfl⟩)
      · exact ⟨Or.inl rfl, rfl⟩
      · exact ⟨Or.inr hc, rfl⟩
    · rintro ⟨rfl | hc, rfl⟩
      · exact Or.inl ⟨rfl, rfl⟩
      · exact Or.inr ⟨hc, rfl⟩

/-- One check refuses if not all accept. -/
theorem checks_refused (h : ¬ (checks valid rs).holds = true) :
    ∃ c, .check c false ∈ (checks valid rs).trace := by
  induction rs with
  | nil => exact absurd rfl h
  | cons d rs ih =>
    unfold checks Cond.and check at h ⊢
    by_cases hd : valid d = true
    · rw [if_pos hd] at h ⊢
      obtain ⟨c, hc⟩ := ih h
      exact ⟨c, List.mem_append_right _ hc⟩
    · rw [if_neg hd]
      exact ⟨d, by simp [eq_false_of_ne_true hd]⟩

/-! ## Handlers that check and then touch -/

/-- The events make no check. -/
def Plain (tr : List Event) : Prop := ∀ c ok, .check c ok ∉ tr

/-- If all checks accept, the ranges have to lie in the checked ones; if
one refuses, nothing may have been touched before. -/
theorem safe_returnIf (env : Env) (valid : Range → Bool) (rs : List Range)
    (hpre : Plain pre) (hbody : Plain body) :
    Safe env (pre ++ returnIf (checks valid rs).not body) ↔
      if ∀ c ∈ rs, valid c = true then
        ∀ r, .user r ∈ pre ++ body → 0 < r.len →
          ∃ c ∈ rs, InUser env c ∧ r.Within c
      else ∀ r, .user r ∈ pre → r.len = 0 := by
  unfold returnIf Cond.not
  dsimp only
  by_cases h : (checks valid rs).holds = true
  · rw [if_pos (checks_holds.mp h), h]
    have huser : ∀ r, .user r ∈ pre ++ ((checks valid rs).trace ++ body) ↔
        .user r ∈ pre ++ body := by
      intro r
      simp [checks_user_free]
    have hcheck : ∀ c ok,
        .check c ok ∈ pre ++ ((checks valid rs).trace ++ body) ↔
          c ∈ rs ∧ ok = true := by
      intro c ok
      simp [hpre c ok, hbody c ok, checks_accepted h]
    constructor
    · intro hs r hr hlen
      obtain ⟨c, hc, hin, hw⟩ := hs.covered r ((huser r).mpr hr) hlen
      exact ⟨c, ((hcheck c true).mp hc).1, hin, hw⟩
    · intro hall
      refine ⟨fun r hr hlen => ?_, fun c hc => ?_⟩
      · obtain ⟨c, hc, hin, hw⟩ := hall r ((huser r).mp hr) hlen
        exact ⟨c, (hcheck c true).mpr ⟨hc, rfl⟩, hin, hw⟩
      · exact absurd ((hcheck c false).mp hc).2 Bool.false_ne_true
  · rw [if_neg fun hall => h (checks_holds.mpr hall),
      eq_false_of_ne_true h]
    obtain ⟨c, hc⟩ := checks_refused h
    have huser : ∀ r, .user r ∈ pre ++ ((checks valid rs).trace ++ []) ↔
        .user r ∈ pre := by
      intro r
      simp [checks_user_free]
    constructor
    · intro hs r hr
      refine hs.refused c ?_ r ((huser r).mpr hr)
      exact List.mem_append_right _ (List.mem_append_left _ hc)
    · intro hall
      refine ⟨fun r hr hlen => ?_, fun _ _ r hr => hall r ((huser r).mp hr)⟩
      have hzero := hall r ((huser r).mp hr)
      omega

/-- A handler that checks with `__valid_user_range`. -/
theorem safe_unlessValid (hlen : ∀ c ∈ rs, c.len < 2 ^ 64)
    (hbody : Plain body) :
    Safe env (unlessValid env rs body) ↔
      ((∀ c ∈ rs, InUser env c) → ∀ r, .user r ∈ body → 0 < r.len →
        ∃ c ∈ rs, r.Within c) := by
  have hiff : (∀ c ∈ rs, validUserRange env c = true) ↔
      ∀ c ∈ rs, InUser env c :=
    forall₂_congr fun c hc => validUserRange_iff (hlen c hc)
  have hnil : Plain [] := fun _ _ => List.not_mem_nil
  have hsafe := safe_returnIf env (validUserRange env) rs hnil hbody
  rw [List.nil_append] at hsafe
  unfold unlessValid
  rw [hsafe]
  by_cases h : ∀ c ∈ rs, InUser env c
  · rw [if_pos (hiff.mpr h)]
    constructor
    · intro hall _ r hr hpos
      obtain ⟨c, hc, -, hw⟩ := hall r hr hpos
      exact ⟨c, hc, hw⟩
    · intro hall r hr hpos
      obtain ⟨c, hc, hw⟩ := hall h r hr hpos
      exact ⟨c, hc, h c hc, hw⟩
  · rw [if_neg fun hv => h (hiff.mp hv)]
    exact iff_of_true (fun r hr => absurd hr List.not_mem_nil)
      fun hv => absurd hv h

/-- A handler that touches user memory before it checks: all its checks
have to accept. -/
theorem safe_cons_unlessValid {r₀ : Range} (hpos : 0 < r₀.len)
    (hlen : ∀ c ∈ rs, c.len < 2 ^ 64) (hbody : Plain body) :
    Safe env (.user r₀ :: unlessValid env rs body) ↔
      (∀ c ∈ rs, InUser env c) ∧
        ∀ r, .user r ∈ .user r₀ :: body → 0 < r.len →
          ∃ c ∈ rs, r.Within c := by
  have hiff : (∀ c ∈ rs, validUserRange env c = true) ↔
      ∀ c ∈ rs, InUser env c :=
    forall₂_congr fun c hc => validUserRange_iff (hlen c hc)
  have hpre : Plain [.user r₀] := by
    intro c ok
    simp
  have hsafe := safe_returnIf env (validUserRange env) rs hpre hbody
  unfold unlessValid
  rw [← List.singleton_append, hsafe]
  by_cases h : ∀ c ∈ rs, InUser env c
  · rw [if_pos (hiff.mpr h), and_iff_right h]
    constructor
    · intro hall r hr hpos
      obtain ⟨c, hc, -, hw⟩ := hall r hr hpos
      exact ⟨c, hc, hw⟩
    · intro hall r hr hpos
      obtain ⟨c, hc, hw⟩ := hall r hr hpos
      exact ⟨c, hc, h c hc, hw⟩
  · rw [if_neg fun hv => h (hiff.mp hv)]
    refine iff_of_false (fun hall => ?_) fun hall => h hall.1
    have hzero := hall r₀ List.mem_cons_self
    omega

/-! ## The handlers, kind by kind -/

theorem within_self (r : Range) : r.Within r := ⟨Nat.le_refl _, Nat.le_refl _⟩

theorem within_same {p : BitVec 64} {m n : ℕ} :
    Range.Within ⟨p, m⟩ ⟨p, n⟩ ↔ m ≤ n := by
  unfold Range.Within
  simp

theorem plain_copyWords (p : BitVec 64) (n : ℕ) : Plain (copyWords p n) := by
  intro c ok
  simp [copyWords]

theorem Plain.append {tr tr' : List Event} (h : Plain tr) (h' : Plain tr') :
    Plain (tr ++ tr') := by
  intro c ok
  simp [h c ok, h' c ok]

theorem user_copyWords {p : BitVec 64} {n : ℕ} {r : Range} :
    .user r ∈ copyWords p n ↔ r = words p n := by
  simp [copyWords]

/-- A handler that copies the words it checks. -/
theorem safe_copyWords (p : BitVec 64) {n : ℕ} (hn : 4 * n < 2 ^ 64) :
    Safe env (unlessValid env [⟨p, 4 * n⟩] (copyWords p n)) := by
  refine (safe_unlessValid ?_ (plain_copyWords p n)).mpr fun _ r hr _ => ?_
  · intro c hc
    rw [List.mem_singleton.mp hc]
    exact hn
  · rw [user_copyWords.mp hr]
    exact ⟨_, List.mem_singleton_self _, within_self _⟩

/-- A handler that touches one range behind one check at the same
address. -/
theorem safe_single {p : BitVec 64} {m n : ℕ} (hm : m < 2 ^ 64)
    (hbody : Plain body) (hpos : 0 < n)
    (huser : ∀ r, .user r ∈ body → r = ⟨p, n⟩)
    (hmem : .user ⟨p, n⟩ ∈ body) :
    Safe env (unlessValid env [⟨p, m⟩] body) ↔
      (InUser env ⟨p, m⟩ → n ≤ m) := by
  rw [safe_unlessValid (by simpa using hm) hbody]
  simp only [List.mem_singleton, forall_eq, exists_eq_left]
  constructor
  · intro h hin
    exact within_same.mp (h hin _ hmem hpos)
  · intro h hin r hr _
    rw [huser r hr]
    exact within_same.mpr (h hin)

/-- A handler that touches a range outside the checked one. -/
theorem safe_outside {c r : Range} (hlen : c.len < 2 ^ 64)
    (hbody : Plain body) (hmem : .user r ∈ body) (hpos : 0 < r.len)
    (hout : InUser env c → ¬ r.Within c) :
    Safe env (unlessValid env [c] body) ↔ ¬ InUser env c := by
  rw [safe_unlessValid (by simpa using hlen) hbody]
  simp only [List.mem_singleton, forall_eq, exists_eq_left]
  constructor
  · intro h hin
    exact hout hin (h hin r hmem hpos)
  · intro h hin
    exact absurd hin h

/-- The address `p + k` of a range that does not wrap. -/
theorem toNat_add_of_inUser {p k : BitVec 64} {n : ℕ}
    (hin : InUser env ⟨p, n⟩) (hk : k.toNat < 2 ^ 32) :
    (p + k).toNat = p.toNat + k.toNat := by
  unfold InUser at hin
  have hmax := env.mmapMax_le
  rw [BitVec.toNat_add]
  dsimp only at hin
  omega

/-- The last string lies behind the checked bytes. -/
theorem sysUname_safe (buf : BitVec 64) :
    Safe env (sysUname env buf) ↔ ¬ InUser env ⟨buf, 325⟩ := by
  refine safe_outside (r := ⟨buf + 5 * 65, 1⟩) (by simp)
    (by intro c ok; simp) (by simp) Nat.one_pos fun hin hw => ?_
  have hptr := toNat_add_of_inUser (k := 5 * 65) hin (by decide)
  have hend := hw.2
  rw [show (⟨buf + 5 * 65, 1⟩ : Range).ptr = buf + 5 * 65 from rfl, hptr] at hend
  have hk : (5 * 65 : BitVec 64).toNat = 325 := rfl
  dsimp only at hend
  omega

/-- Word `4` lies behind the checked bytes. -/
theorem sysRngWriteSeed_safe (seed : BitVec 64) :
    Safe env (sysRngWriteSeed env seed) ↔ ¬ InUser env ⟨seed, 16⟩ := by
  refine safe_outside (r := words (seed + 16) 1) (by simp)
    (by intro c ok; simp) (by simp) (by simp [words]) fun hin hw => ?_
  have hptr := toNat_add_of_inUser (k := 16) hin (by decide)
  have hend := hw.2
  rw [show (words (seed + 16) 1).ptr = seed + 16 from rfl, hptr] at hend
  have hk : (16 : BitVec 64).toNat = 16 := rfl
  simp only [words] at hend
  omega

theorem aesStartDecry_safe (ct st : BitVec 64) :
    Safe env (aesStartDecry env ct st) := by
  unfold aesStartDecry
  refine (safe_unlessValid (by simp)
    ((plain_copyWords ct 4).append (plain_copyWords st 4))).mpr
    fun _ r hr _ => ?_
  rcases List.mem_append.mp hr with hr | hr
  · rw [user_copyWords.mp hr]
    exact ⟨⟨ct, 16⟩, by simp, within_self _⟩
  · rw [user_copyWords.mp hr]
    exact ⟨⟨st, 16⟩, by simp, within_self _⟩

/-- The block that is not checked has to be the one that is. -/
theorem aesStartEncry_safe (pt st : BitVec 64) :
    Safe env (aesStartEncry env pt st) ↔
      (InUser env ⟨st, 16⟩ → pt = st) := by
  unfold aesStartEncry
  rw [safe_unlessValid (by simp)
    ((plain_copyWords pt 4).append (plain_copyWords st 4))]
  simp only [List.mem_singleton, forall_eq, exists_eq_left]
  constructor
  · intro h hin
    have hw := h hin (words pt 4) (by simp [copyWords]) (by simp [words])
    unfold Range.Within words at hw
    apply BitVec.eq_of_toNat_eq
    simp only at hw
    omega
  · intro h hin r hr _
    obtain rfl := h hin
    rcases List.mem_append.mp hr with hr | hr
    all_goals
      rw [user_copyWords.mp hr]
      exact within_self _

/-- The three blocks that the shared guard checks first. -/
def firstThree (p128 p64 p32 : BitVec 64) : List Range :=
  [⟨p128, 16⟩, ⟨p64, 8⟩, ⟨p32, 4⟩]

/-- The last block is checked only if the first three are refused. -/
theorem rngFour_safe (p128 p64 p32 p16 : BitVec 64) :
    Safe env (rngFour env p128 p64 p32 p16) ↔
      if ∀ c ∈ firstThree p128 p64 p32, InUser env c then
        ∃ c ∈ firstThree p128 p64 p32, Range.Within ⟨p16, 4⟩ c
      else InUser env ⟨p16, 4⟩ := by
  have hlen : ∀ c ∈ firstThree p128 p64 p32,
      c.len < 2 ^ 64 := by simp [firstThree]
  have hiff : (checks (validUserRange env)
      (firstThree p128 p64 p32)).holds = true ↔
        ∀ c ∈ firstThree p128 p64 p32,
          InUser env c :=
    checks_holds.trans (forall₂_congr fun c hc => validUserRange_iff (hlen c hc))
  have hlast : validUserRange env ⟨p16, 4⟩ = true ↔ InUser env ⟨p16, 4⟩ :=
    validUserRange_iff (by simp)
  have hguard : rngFour env p128 p64 p32 p16 =
      returnIf ((checks (validUserRange env) (firstThree p128 p64 p32)).not.and
        (check (validUserRange env) ⟨p16, 4⟩))
        (copyWords p128 4 ++ copyWords p64 2 ++ copyWords p32 1 ++
          copyWords p16 1) := rfl
  have hbody : Plain (copyWords p128 4 ++ copyWords p64 2 ++
      copyWords p32 1 ++ copyWords p16 1) :=
    (((plain_copyWords _ _).append (plain_copyWords _ _)).append
      (plain_copyWords _ _)).append (plain_copyWords _ _)
  have hpre : Plain [] := fun _ _ => List.not_mem_nil
  by_cases h : ∀ c ∈ firstThree p128 p64 p32,
      InUser env c
  · rw [if_pos h]
    have hsame : rngFour env p128 p64 p32 p16 =
        unlessValid env (firstThree p128 p64 p32)
          (copyWords p128 4 ++ copyWords p64 2 ++ copyWords p32 1 ++
            copyWords p16 1) := by
      rw [hguard]
      unfold unlessValid Cond.and Cond.not
      dsimp only
      rw [hiff.mpr h]
      rfl
    rw [hsame, safe_unlessValid hlen hbody]
    constructor
    · intro hall
      exact hall h (words p16 1) (by simp [copyWords]) (by simp [words])
    · rintro ⟨c, hc, hw⟩ - r hr -
      simp only [List.mem_append, user_copyWords] at hr
      rcases hr with ((rfl | rfl) | rfl) | rfl
      · exact ⟨⟨p128, 16⟩, by simp [firstThree], within_self _⟩
      · exact ⟨⟨p64, 8⟩, by simp [firstThree], within_self _⟩
      · exact ⟨⟨p32, 4⟩, by simp [firstThree], within_self _⟩
      · exact ⟨c, hc, hw⟩
  · rw [if_neg h]
    have hrefused := checks_refused fun hc => h (hiff.mp hc)
    obtain ⟨c, hc⟩ := hrefused
    by_cases hok : InUser env ⟨p16, 4⟩
    · refine iff_of_true ⟨fun r hr => ?_, fun c' _ r hr => ?_⟩ hok
      all_goals
        rw [hguard] at hr
        unfold returnIf Cond.and Cond.not check at hr
        simp [hlast.mpr hok, eq_false_of_ne_true fun hc => h (hiff.mp hc),
          checks_user_free] at hr
    · refine iff_of_false (fun hs => ?_) hok
      have hfalse := eq_false_of_ne_true fun hv => hok (hlast.mp hv)
      have hzero := hs.refused c (by
        rw [hguard]
        unfold returnIf Cond.and Cond.not check
        simp [hfalse, eq_false_of_ne_true fun hc => h (hiff.mp hc), hc])
        (words p16 1) (by
        rw [hguard]
        unfold returnIf Cond.and Cond.not check
        simp [hfalse, eq_false_of_ne_true fun hc => h (hiff.mp hc), copyWords])
      simp [words] at hzero

/-- A string in user memory is as long as its size says. -/
theorem stringSize_of_inUser {p : BitVec 64}
    (h : InUser env (stringBytes env p)) :
    stringSize env p = (stringBytes env p).len := by
  unfold InUser stringBytes at h
  unfold stringSize stringBytes
  have hmax := env.mmapMax_le
  dsimp only at h ⊢
  rw [BitVec.toNat_add]
  show ((env.strlen p).toNat + 1) % _ = _
  omega

/-- The handlers that measure a string before they check it: both checks
have to accept, and the rest has to lie in the string or the hash. -/
theorem safe_string {p hash : BitVec 64} (hbody : Plain body) :
    Safe env (.user (stringBytes env p) ::
        unlessValid env [⟨p, stringSize env p⟩, ⟨hash, 8 * 4⟩] body) ↔
      (InUser env (stringBytes env p) ∧ InUser env ⟨hash, 32⟩) ∧
        ∀ r, .user r ∈ body → 0 < r.len →
          r.Within (stringBytes env p) ∨ r.Within ⟨hash, 32⟩ := by
  have hpos : 0 < (stringBytes env p).len := Nat.succ_pos _
  have hsize : stringSize env p < 2 ^ 64 := (env.strlen p + 1).isLt
  rw [safe_cons_unlessValid hpos (by simpa using hsize) hbody]
  have hchecked : InUser env (stringBytes env p) →
      (⟨p, stringSize env p⟩ : Range) = stringBytes env p := by
    intro hin
    rw [stringSize_of_inUser hin]
    rfl
  constructor
  · rintro ⟨hin, hall⟩
    have hsz := hin ⟨p, stringSize env p⟩ (by simp)
    have hhash : InUser env ⟨hash, 32⟩ := hin ⟨hash, 8 * 4⟩ (by simp)
    -- the string lies in a checked range, so its size does not wrap
    have hstr : InUser env (stringBytes env p) := by
      obtain ⟨c, hc, hw⟩ := hall _ List.mem_cons_self hpos
      rcases List.mem_cons.mp hc with rfl | hc
      · exact Nat.le_trans hw.2 hsz
      · rw [List.mem_singleton.mp hc] at hw
        exact Nat.le_trans hw.2 hhash
    refine ⟨⟨hstr, hhash⟩, fun r hr hlen => ?_⟩
    obtain ⟨c, hc, hw⟩ := hall r (List.mem_cons_of_mem _ hr) hlen
    rw [hchecked hstr] at hc
    rcases List.mem_cons.mp hc with rfl | hc
    · exact Or.inl hw
    · rw [List.mem_singleton.mp hc] at hw
      exact Or.inr hw
  · rintro ⟨⟨hstr, hhash⟩, hall⟩
    rw [hchecked hstr]
    refine ⟨?_, fun r hr hlen => ?_⟩
    · intro c hc
      rcases List.mem_cons.mp hc with rfl | hc
      · exact hstr
      · rw [List.mem_singleton.mp hc]
        exact hhash
    · rcases List.mem_cons.mp hr with hr | hr
      · cases hr
        exact ⟨_, List.mem_cons_self, within_self _⟩
      · rcases hall r hr hlen with hw | hw
        · exact ⟨_, List.mem_cons_self, hw⟩
        · exact ⟨⟨hash, 8 * 4⟩, by simp, hw⟩

theorem sysSha256Hash_safe (pString hash : BitVec 64) :
    Safe env (sysSha256Hash env pString hash) ↔
      InUser env (stringBytes env pString) ∧ InUser env ⟨hash, 32⟩ := by
  unfold sysSha256Hash
  rw [safe_string (Plain.append (by intro c ok; simp)
    (plain_copyWords hash 8))]
  refine and_iff_left_of_imp fun hin r hr _ => ?_
  simp only [List.mem_append, List.mem_cons, Event.user.injEq, reduceCtorEq,
    List.not_mem_nil, or_false, user_copyWords] at hr
  rcases hr with (rfl | rfl) | rfl
  · exact Or.inl (within_self _)
  · rw [stringSize_of_inUser hin.1]
    exact Or.inl (within_self _)
  · exact Or.inr (within_self _)

/-- The copy of 64 bytes may go on behind a shorter string. -/
theorem sysHmacHash_safe (pString hash : BitVec 64) :
    Safe env (sysHmacHash env pString hash) ↔
      (InUser env (stringBytes env pString) ∧ InUser env ⟨hash, 32⟩) ∧
        63 ≤ (env.strlen pString).toNat := by
  unfold sysHmacHash
  rw [safe_string (Plain.append (by intro c ok; simp)
    (plain_copyWords hash 8))]
  refine and_congr_right fun _ => ?_
  constructor
  · intro hall
    rcases hall ⟨pString, 64⟩ (by simp) (by simp) with hw | hw
    · have hle := within_same.mp hw
      omega
    · have hstart := hw.1
      have hend := hw.2
      dsimp only at hstart hend
      omega
  · intro hlong r hr _
    simp only [List.mem_append, List.mem_cons, Event.user.injEq, reduceCtorEq,
      List.not_mem_nil, or_false, user_copyWords] at hr
    rcases hr with rfl | rfl
    · exact Or.inl (within_same.mpr (by omega))
    · exact Or.inr (within_self _)

/-- What is checked are `length + 1` bytes, and what is copied are
`8 * length`. -/
theorem safe_dma {p : BitVec 64} {length : BitVec 32} (hbody : Plain body)
    (huser : ∀ r, .user r ∈ body ↔
      ¬ length > 32 ∧ r = words p (2 * length).toNat) :
    Safe env (unlessValid env [⟨p, (length + 1).toNat⟩] body) ↔
      (InUser env ⟨p, (length + 1).toNat⟩ → length = 0 ∨ length > 32) := by
  have hlen : (length + 1).toNat < 2 ^ 64 :=
    Nat.lt_of_lt_of_le (length + 1).isLt (by decide)
  have hsmall : ¬ length > 32 → length.toNat ≤ 32 ∧
      (2 * length).toNat = 2 * length.toNat ∧
      (length + 1).toNat = length.toNat + 1 := by
    intro h
    have hle : length.toNat ≤ 32 := Nat.not_lt.mp h
    have h1 : (1 : BitVec 32).toNat = 1 := rfl
    have h2 : (2 : BitVec 32).toNat = 2 := rfl
    rw [BitVec.toNat_mul, BitVec.toNat_add, h1, h2]
    omega
  rw [safe_unlessValid (by simpa using hlen) hbody]
  simp only [List.mem_singleton, forall_eq, exists_eq_left, huser]
  refine forall_congr' fun hin => ?_
  by_cases h : length > 32
  · exact iff_of_true (fun r hr => absurd h hr.1) (Or.inr h)
  · obtain ⟨hle, h2, h1⟩ := hsmall h
    constructor
    · intro hall
      by_contra hno
      have hne : length.toNat ≠ 0 := by
        intro h0
        exact hno (Or.inl (BitVec.eq_of_toNat_eq h0))
      have hw := within_same.mp (hall (words p (2 * length).toNat) ⟨h, rfl⟩
        (by simp only [words]; omega))
      omega
    · rintro (rfl | hlt) r ⟨-, rfl⟩ hpos
      · exact absurd hpos (Nat.lt_irrefl 0)
      · exact absurd hlt h

theorem sysDmaCopyToPerif_safe (sAddr : BitVec 64) (length : BitVec 32) :
    Safe env (sysDmaCopyToPerif env sAddr length) ↔
      (InUser env ⟨sAddr, (length + 1).toNat⟩ →
        length = 0 ∨ length > 32) := by
  refine safe_dma (fun c ok => ?_) fun r => ?_
  · split_ifs <;> simp
  · by_cases h : length > 32
    · rw [if_pos h]
      exact iff_of_false List.not_mem_nil fun hr => hr.1 h
    · rw [if_neg h, and_iff_right h]
      simp only [List.mem_cons, Event.user.injEq, reduceCtorEq,
        List.not_mem_nil, or_false]

theorem sysDmaCopyFromPerif_safe (dAddr : BitVec 64)
    (length : BitVec 32) :
    Safe env (sysDmaCopyFromPerif env dAddr length) ↔
      (InUser env ⟨dAddr, (length + 1).toNat⟩ →
        length = 0 ∨ length > 32) := by
  refine safe_dma (fun c ok => ?_) fun r => ?_
  · split_ifs <;> simp
  · by_cases h : length > 32
    · rw [if_pos h]
      exact iff_of_false List.not_mem_nil fun hr => hr.1 h
    · rw [if_neg h, and_iff_right h]
      simp only [List.mem_cons, Event.user.injEq, reduceCtorEq,
        List.not_mem_nil, or_false, false_or]

/-- The ranges that `sys_cmp` checks. -/
def cmpChecked (expectedData receivedData : BitVec 64)
    (blockSize : BitVec 32) (equality : BitVec 64) : List Range :=
  [⟨expectedData, blockSize.toNat⟩, ⟨receivedData, blockSize.toNat⟩,
    ⟨equality, 4⟩]

/-- What is checked are `block_size` bytes, and what is loaded are as many
words; the only range with room for them is that of the result. -/
theorem sysCmp_safe (expectedData receivedData : BitVec 64)
    (blockSize : BitVec 32) (equality : BitVec 64) :
    Safe env (sysCmp env expectedData receivedData blockSize equality) ↔
      ((∀ c ∈ cmpChecked expectedData receivedData blockSize equality,
          validUserRangeU env c = true) →
        blockSize > 1024 ∨
          InUser env ⟨equality, 4⟩ ∧
            (blockSize = 0 ∨
              blockSize = 1 ∧ expectedData = equality ∧
                receivedData = equality)) := by
  have hpre : Plain [] := fun _ _ => List.not_mem_nil
  have hbody : Plain (if blockSize > 1024 then [] else
      [.user (words expectedData blockSize.toNat),
        .stack (4 * 1024) 0 (4 * blockSize.toNat),
        .user (words receivedData blockSize.toNat),
        .stack (4 * 1024) 0 (4 * blockSize.toNat),
        .user ⟨equality, 4⟩]) := by
    intro c ok
    split_ifs <;> simp
  have hsafe := safe_returnIf env (validUserRangeU env)
    (cmpChecked expectedData receivedData blockSize equality) hpre hbody
  rw [List.nil_append, List.nil_append] at hsafe
  unfold sysCmp
  refine hsafe.trans ?_
  by_cases hv : ∀ c ∈ cmpChecked expectedData receivedData blockSize equality,
      validUserRangeU env c = true
  swap
  · rw [if_neg hv]
    exact iff_of_true (fun r hr => absurd hr List.not_mem_nil)
      fun h => absurd h hv
  rw [if_pos hv]
  by_cases hbig : blockSize > 1024
  · rw [if_pos hbig]
    exact iff_of_true (fun r hr => absurd hr List.not_mem_nil)
      fun _ => Or.inl hbig
  rw [if_neg hbig, imp_iff_right hv, or_iff_right hbig]
  have hchecked : ∀ {Q : Range → Prop},
      (∃ c ∈ cmpChecked expectedData receivedData blockSize equality, Q c) ↔
        Q ⟨expectedData, blockSize.toNat⟩ ∨ Q ⟨receivedData, blockSize.toNat⟩ ∨
          Q ⟨equality, 4⟩ := by
    intro Q
    simp [cmpChecked]
  simp only [List.mem_cons, Event.user.injEq, reduceCtorEq, false_or,
    List.not_mem_nil, or_false, hchecked]
  unfold Range.Within words
  constructor
  · intro hall
    have hexp := hall ⟨expectedData, 4 * blockSize.toNat⟩ (Or.inl rfl)
    have hrec := hall ⟨receivedData, 4 * blockSize.toNat⟩
      (Or.inr (Or.inl rfl))
    have heq := hall ⟨equality, 4⟩ (Or.inr (Or.inr rfl)) (by simp)
    dsimp only at hexp hrec heq
    rcases Nat.eq_zero_or_pos blockSize.toNat with h0 | hpos
    · refine ⟨?_, Or.inl (BitVec.eq_of_toNat_eq h0)⟩
      rcases heq with h | h | h
      · omega
      · omega
      · exact h.1
    · rcases hexp (by omega) with he | he | ⟨hin, he⟩
      · omega
      · omega
      rcases hrec (by omega) with hr | hr | ⟨-, hr⟩
      · omega
      · omega
      exact ⟨hin, Or.inr ⟨BitVec.eq_of_toNat_eq (by show _ = 1; omega),
        BitVec.eq_of_toNat_eq (by omega), BitVec.eq_of_toNat_eq (by omega)⟩⟩
  · rintro ⟨hin, h0 | ⟨h1, rfl, rfl⟩⟩ r hr hlen
    · have hb : blockSize.toNat = 0 := congrArg BitVec.toNat h0
      rcases hr with rfl | rfl | rfl
      · dsimp only at hlen
        omega
      · dsimp only at hlen
        omega
      · exact Or.inr (Or.inr ⟨hin, Nat.le_refl _, Nat.le_refl _⟩)
    · have hb : blockSize.toNat = 1 := congrArg BitVec.toNat h1
      rw [hb] at hr
      refine Or.inr (Or.inr ⟨hin, ?_⟩)
      rcases hr with rfl | rfl | rfl
      all_goals exact ⟨Nat.le_refl _, Nat.le_refl _⟩

theorem sysPuts_safe (buf : BitVec 64) (bufLen : BitVec 32) :
    Safe env (sysPuts env buf bufLen) := by
  have hlen : bufLen.toNat < 2 ^ 64 :=
    Nat.lt_of_lt_of_le bufLen.isLt (by decide)
  refine (safe_unlessValid (by simpa using hlen)
    (by intro c ok; simp)).mpr fun _ r hr _ => ?_
  simp only [List.mem_cons, Event.user.injEq, reduceCtorEq,
    List.not_mem_nil, or_false] at hr
  rw [hr]
  exact ⟨_, List.mem_singleton_self _, within_self _⟩

/-! ## Populated mappings -/

/-- The call of `mmap` clears the pages at an address of the user. -/
def MmapPopulates (env : Env) (addr length : BitVec 64) (flags fd : BitVec 32)
    (offset : BitVec 64) : Prop :=
  ¬ (flags &&& MAP_PRIVATE = 0 ∨ length = 0 ∨ offset &&& 4095 ≠ 0) ∧
    ¬ (flags &&& MAP_ANONYMOUS = 0 ∧ env.fileOpen fd = false) ∧
    ¬ flags &&& MAP_FIXED = 0 ∧ ¬ addr &&& 4095 ≠ 0 ∧
    (env.vmrFree ∧ (env.demandPaging = false ∨ flags &&& MAP_POPULATE ≠ 0)) ∧
    InUser env ⟨addr, length.toNat⟩

/-- The pages of a range in user memory are all below `mmap_max`. -/
theorem populatePage_eq {addr : BitVec 64} {n k : ℕ}
    (hin : InUser env ⟨addr, n⟩) (hk : 4096 * k < n) :
    (addr + BitVec.ofNat 64 (4096 * k)).toNat = addr.toNat + 4096 * k ∧
      populatePage env (addr + BitVec.ofNat 64 (4096 * k)) =
        [.check ⟨addr + BitVec.ofNat 64 (4096 * k), 1⟩ true,
          .user ⟨addr + BitVec.ofNat 64 (4096 * k), 4096⟩] := by
  have hmax := env.mmapMax_le
  have hin' : addr.toNat + n ≤ env.mmapMax.toNat := hin
  have hptr : (addr + BitVec.ofNat 64 (4096 * k)).toNat =
      addr.toNat + 4096 * k := by
    rw [BitVec.toNat_add, BitVec.toNat_ofNat]
    omega
  have hpage : InUser env ⟨addr + BitVec.ofNat 64 (4096 * k), 1⟩ := by
    unfold InUser
    dsimp only
    omega
  refine ⟨hptr, ?_⟩
  unfold populatePage returnIf Cond.not check
  rw [(validUserRange_iff (by simp)).mpr hpage]
  rfl

/-- The pages of a checked range lie in it only if it is a number of whole
pages. -/
theorem safe_pages {addr : BitVec 64} {n : ℕ} (hin : InUser env ⟨addr, n⟩)
    (hpos : 0 < n) :
    Safe env (.check ⟨addr, n⟩ true ::
        (List.range ((n + 4095) / 4096)).flatMap fun k =>
          populatePage env (addr + BitVec.ofNat 64 (4096 * k))) ↔
      4096 ∣ n := by
  have hpage : ∀ e, e ∈ (List.range ((n + 4095) / 4096)).flatMap (fun k =>
      populatePage env (addr + BitVec.ofNat 64 (4096 * k))) ↔
        ∃ k, 4096 * k < n ∧
          (e = .check ⟨addr + BitVec.ofNat 64 (4096 * k), 1⟩ true ∨
            e = .user ⟨addr + BitVec.ofNat 64 (4096 * k), 4096⟩) := by
    intro e
    simp only [List.mem_flatMap, List.mem_range]
    refine exists_congr fun k => ?_
    have hk : k < (n + 4095) / 4096 ↔ 4096 * k < n := by omega
    rw [hk]
    refine and_congr_right fun hlt => ?_
    rw [(populatePage_eq hin hlt).2]
    simp
  constructor
  · intro hs
    -- the last page reaches up to the next multiple of the page size
    have hlast : 4096 * ((n - 1) / 4096) < n := by omega
    obtain ⟨c, hc, -, hw⟩ := hs.covered _ (List.mem_cons_of_mem _
      ((hpage _).mpr ⟨_, hlast, Or.inr rfl⟩)) (by simp)
    have hptr := (populatePage_eq hin hlast).1
    have hend := hw.2
    have hstart := hw.1
    rcases List.mem_cons.mp hc with hc | hc
    · cases hc
      dsimp only at hend
      omega
    · obtain ⟨k, -, hc | hc⟩ := (hpage _).mp hc
      · cases hc
        dsimp only at hend hstart
        omega
      · cases hc
  · rintro ⟨m, rfl⟩
    refine ⟨fun r hr _ => ?_, fun c hc => ?_⟩
    · refine ⟨_, List.mem_cons_self, hin, ?_⟩
      rcases List.mem_cons.mp hr with hr | hr
      · cases hr
      · obtain ⟨k, hk, hr | hr⟩ := (hpage _).mp hr
        · cases hr
        · cases hr
          have hptr := (populatePage_eq hin hk).1
          unfold Range.Within
          dsimp only
          omega
    · rcases List.mem_cons.mp hc with hc | hc
      · cases hc
      · obtain ⟨k, -, hc | hc⟩ := (hpage _).mp hc
        · cases hc
        · cases hc

/-- Whole pages are cleared behind a check of the bytes asked for. -/
theorem sysMmap_safe (addr length : BitVec 64) (flags fd : BitVec 32)
    (offset : BitVec 64) :
    Safe env (sysMmap env addr length flags fd offset) ↔
      (MmapPopulates env addr length flags fd offset →
        4096 ∣ length.toNat) := by
  have hnone : Safe env [] :=
    ⟨fun r hr => absurd hr List.not_mem_nil,
      fun c hc => absurd hc List.not_mem_nil⟩
  unfold sysMmap MmapPopulates
  by_cases h₁ : flags &&& MAP_PRIVATE = 0 ∨ length = 0 ∨ offset &&& 4095 ≠ 0
  · rw [if_pos h₁]
    exact iff_of_true hnone fun h => absurd h₁ h.1
  rw [if_neg h₁]
  by_cases h₂ : flags &&& MAP_ANONYMOUS = 0 ∧ env.fileOpen fd = false
  · rw [if_pos h₂]
    exact iff_of_true hnone fun h => absurd h₂ h.2.1
  rw [if_neg h₂]
  by_cases h₃ : flags &&& MAP_FIXED = 0
  · rw [if_pos h₃]
    exact iff_of_true hnone fun h => absurd h₃ h.2.2.1
  rw [if_neg h₃]
  by_cases h₄ : addr &&& 4095 ≠ 0
  · rw [if_pos h₄]
    exact iff_of_true hnone fun h => absurd h₄ h.2.2.2.1
  rw [if_neg h₄]
  by_cases h₅ : env.vmrFree ∧
      (env.demandPaging = false ∨ flags &&& MAP_POPULATE ≠ 0)
  swap
  · rw [if_neg h₅]
    refine iff_of_true ?_ fun h => absurd h.2.2.2.2.1 h₅
    exact (safe_unlessValid (by simpa using length.isLt)
      fun _ _ => List.not_mem_nil).mpr
        fun _ r hr => absurd hr List.not_mem_nil
  rw [if_pos h₅]
  have hvalid : validUserRange env ⟨addr, length.toNat⟩ = true ↔
      InUser env ⟨addr, length.toNat⟩ := validUserRange_iff length.isLt
  by_cases hin : InUser env ⟨addr, length.toNat⟩
  swap
  · refine iff_of_true ?_ fun h => absurd h.2.2.2.2.2 hin
    have hno := eq_false_of_ne_true fun hv => hin (hvalid.mp hv)
    unfold unlessValid returnIf Cond.not checks checks Cond.and check
    rw [if_neg (by rw [hno]; exact Bool.false_ne_true), hno]
    exact ⟨fun r hr => by simp at hr, fun c _ r hr => by simp at hr⟩
  have hpos : 0 < length.toNat := by
    rw [not_or, not_or] at h₁
    refine Nat.pos_of_ne_zero fun h0 => h₁.2.1 (BitVec.eq_of_toNat_eq h0)
  rw [imp_iff_right ⟨h₁, h₂, h₃, h₄, h₅, hin⟩]
  unfold unlessValid returnIf Cond.not checks checks Cond.and check
  rw [if_pos (by rw [hvalid.mpr hin]), hvalid.mpr hin]
  exact safe_pages hin hpos

/-! ## The table -/

/-- Which system calls with which arguments keep to validated memory. -/
def SafeArgs (env : Env) (h : Handler) (x : Args) : Prop :=
  match h with
  | .uname => ¬ InUser env ⟨x.a0, 325⟩
  | .mmap =>
    MmapPopulates env x.a0 x.a1 (x.a3.setWidth 32) (x.a4.setWidth 32) x.a5 →
      4096 ∣ x.a1.toNat
  | .times => ¬ InUser env ⟨x.a0, 16⟩
  | .rngReadPoly | .rngWritePoly | .rngReadSeed =>
    if ∀ c ∈ firstThree x.a0 x.a1 x.a2, InUser env c then
      ∃ c ∈ firstThree x.a0 x.a1 x.a2, Range.Within ⟨x.a3, 4⟩ c
    else InUser env ⟨x.a3, 4⟩
  | .rngWriteSeed => ¬ InUser env ⟨x.a0, 16⟩
  | .aes0StartEncry | .aes2StartEncry =>
    InUser env ⟨x.a1, 16⟩ → x.a0 = x.a1
  | .aes1ReadData => ¬ InUser env ⟨x.a0, 12⟩
  | .sha256Hash =>
    InUser env (stringBytes env x.a0) ∧ InUser env ⟨x.a1, 32⟩
  | .hmacHash =>
    (InUser env (stringBytes env x.a0) ∧ InUser env ⟨x.a1, 32⟩) ∧
      63 ≤ (env.strlen x.a0).toNat
  | .dmaCopyToPerif =>
    InUser env ⟨x.a0, ((x.a2.setWidth 32 : BitVec 32) + 1).toNat⟩ →
      (x.a2.setWidth 32 : BitVec 32) = 0 ∨
        (x.a2.setWidth 32 : BitVec 32) > 32
  | .dmaCopyFromPerif =>
    InUser env ⟨x.a1, ((x.a2.setWidth 32 : BitVec 32) + 1).toNat⟩ →
      (x.a2.setWidth 32 : BitVec 32) = 0 ∨
        (x.a2.setWidth 32 : BitVec 32) > 32
  | .cmp =>
    (∀ c ∈ cmpChecked x.a0 x.a1 (x.a2.setWidth 32) x.a3,
        validUserRangeU env c = true) →
      (x.a2.setWidth 32 : BitVec 32) > 1024 ∨
        InUser env ⟨x.a3, 4⟩ ∧
          ((x.a2.setWidth 32 : BitVec 32) = 0 ∨
            (x.a2.setWidth 32 : BitVec 32) = 1 ∧ x.a0 = x.a3 ∧ x.a1 = x.a3)
  | _ => True

/-- The check is of fewer bytes than the handler stores. -/
theorem safe_short {p : BitVec 64} {m n : ℕ} (hm : m < n)
    (hm' : m < 2 ^ 64) (hbody : Plain body)
    (huser : ∀ r, .user r ∈ body → r = ⟨p, n⟩)
    (hmem : .user ⟨p, n⟩ ∈ body) :
    Safe env (unlessValid env [⟨p, m⟩] body) ↔ ¬ InUser env ⟨p, m⟩ := by
  rw [safe_single hm' hbody (by omega) huser hmem]
  exact forall_congr' fun _ => ⟨fun h => by omega, fun h => absurd h id⟩

theorem safe_run_iff (h : Handler) (x : Args) :
    Safe env (h.run env x) ↔ SafeArgs env h x := by
  have hsafe : ∀ {P : Prop}, P → (P ↔ True) := fun hP => iff_of_true hP trivial
  cases h with
  | noPointer =>
    exact hsafe ⟨fun r hr => absurd hr List.not_mem_nil,
      fun c hc => absurd hc List.not_mem_nil⟩
  | uname => exact sysUname_safe _
  | mmap => exact sysMmap_safe _ _ _ _ _
  | times =>
    exact safe_short (m := 16) (n := 32) (by decide) (by decide)
      (by intro c ok; simp) (by simp) (by simp)
  | gettimeofday =>
    exact hsafe ((safe_single (m := 16) (n := 16) (by decide)
      (by intro c ok; simp) (by decide) (by simp) (by simp)).mpr
        fun _ => Nat.le_refl _)
  | clockGettime =>
    exact hsafe ((safe_single (m := 16) (n := 16) (by decide)
      (by intro c ok; simp) (by decide) (by simp) (by simp)).mpr
        fun _ => Nat.le_refl _)
  | aes0StartEncry => exact aesStartEncry_safe _ _
  | aes0StartDecry => exact hsafe (aesStartDecry_safe _ _)
  | aes0DataOut => exact hsafe (safe_copyWords _ (n := 4) (by decide))
  | aes2StartEncry => exact aesStartEncry_safe _ _
  | aes2StartDecry => exact hsafe (aesStartDecry_safe _ _)
  | aes2DataOut => exact hsafe (safe_copyWords _ (n := 4) (by decide))
  | aes1ReadData =>
    exact safe_short (m := 12) (n := 16) (by decide) (by decide)
      (plain_copyWords _ 4)
      (fun r hr => user_copyWords.mp hr) (user_copyWords.mpr rfl)
  | aes1WriteData => exact hsafe (safe_copyWords _ (n := 4) (by decide))
  | aes1ReadConfig => exact hsafe (safe_copyWords _ (n := 1) (by decide))
  | sha256Hash => exact sysSha256Hash_safe _ _
  | hmacHash => exact sysHmacHash_safe _ _
  | dmaCopyToPerif => exact sysDmaCopyToPerif_safe _ _
  | dmaCopyFromPerif => exact sysDmaCopyFromPerif_safe _ _
  | cmp => exact sysCmp_safe _ _ _ _
  | puts => exact hsafe (sysPuts_safe _ _)
  | rngReadData => exact hsafe (safe_copyWords _ (n := 2) (by decide))
  | rngReadPoly => exact rngFour_safe _ _ _ _
  | rngWritePoly => exact rngFour_safe _ _ _ _
  | rngReadSeed => exact rngFour_safe _ _ _ _
  | rngWriteSeed => exact sysRngWriteSeed_safe _
  | rngReadRandSeg => exact hsafe (safe_copyWords _ (n := 2) (by decide))
  | rngReadStateCounter => exact hsafe (safe_copyWords _ (n := 1) (by decide))
  | rsaWritePrimeNum => exact hsafe (safe_copyWords _ (n := 64) (by decide))
  | rsaWriteMsgIn => exact hsafe (safe_copyWords _ (n := 64) (by decide))
  | rsaReadMsgOut => exact hsafe (safe_copyWords _ (n := 64) (by decide))

/-- A system call keeps to validated user memory exactly for the arguments
of the table; a number without a handler touches nothing. -/
theorem syscall_safe_iff (env : Env) (n : ℕ) (x : Args) :
    Safe env (doSyscall env n x) ↔
      ∀ h, n < 1068 → syscallTable n = some h → SafeArgs env h x := by
  have hnone : Safe env [] :=
    ⟨fun r hr => absurd hr List.not_mem_nil,
      fun c hc => absurd hc List.not_mem_nil⟩
  unfold doSyscall
  by_cases hn : n < 1068
  · rw [if_pos hn]
    cases hh : syscallTable n with
    | none => exact iff_of_true hnone fun h _ hs => nomatch hs
    | some h =>
      refine (safe_run_iff h x).trans ⟨fun hs h' _ he => ?_, fun hs => ?_⟩
      · cases he
        exact hs
      · exact hs h hn rfl
  · rw [if_neg hn]
    exact iff_of_true hnone fun h hlt => absurd hlt hn

theorem smallMax_le : (0x10000 : BitVec 64).toNat ≤ 2 ^ 31 := by decide

/-- A process with 64 KiB of user memory. -/
def smallEnv : Env where
  mmapMax := 0x10000
  mmapMax_le := smallMax_le
  strlen _ := 0
  demandPaging := true
  fileOpen _ := false
  vmrFree := true

/-- `times` at the last 16 bytes of user memory stores 16 bytes behind
them. -/
theorem times_stores_behind :
    ¬ Safe smallEnv (doSyscall smallEnv 153 ⟨0xfff0, 0, 0, 0, 0, 0⟩) := by
  intro h
  exact (safe_run_iff .times ⟨0xfff0, 0, 0, 0, 0, 0⟩).mp h (by decide)

end ArianeSoc.Pk
