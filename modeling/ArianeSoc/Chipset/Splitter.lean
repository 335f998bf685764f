import ArianeSoc.Chipset.SplitterResponses
import ArianeSoc.Sync

/-!
# Runs of the splitter

Both ways together.  `Kept` is what holds in every state: what I/O and memory
have got and what the buffers hold for them is what NoC2 has sent, with the
destination of its packet at every flit; and what NoC3 has got and what the
buffers hold for it is a merge of the packets of I/O and memory.

In an unbounded run in which nobody stops taking flits, all of it gets
through.
-/

namespace ArianeSoc.Chipset.MemIoSplitter

open Noc (Flit)

/-- Both ways with all that has come in and gone out. -/
structure Track where
  requests : Requests
  responses : Responses

namespace Track

def reset : Track := ⟨.reset, .reset⟩

def step (cfg : Config) (t : Track) (i : In) : Track where
  requests := t.requests.step cfg i
  responses := t.responses.step i

end Track

/-- A header that comes in on NoC2 announces two flits at least. -/
def TwoFlits (t : Track) (i : In) : Prop :=
  Framing.Whole Beat.payload t.requests.accepted →
    t.requests.regs.go i = true → 2 ≤ payload i.noc2Data

structure Kept (cfg : Config) (t : Track) : Prop where
  requests : routed cfg t.requests.accepted =
    t.requests.sent ++ t.requests.regs.held
  responses :
    Framing.Merges (fun d => Framing.packets payload (t.responses.taken d))
      (Framing.packets payload
        (t.responses.sent ++ t.responses.regs.held))

variable {cfg : Config} {t : Track} {i : In}

/-- What every cycle keeps. -/
structure Inv (cfg : Config) (t : Track) : Prop where
  requests : ∃ before cur, t.requests.Inv cfg before cur
  responses : ∃ w before cur, t.responses.Inv w before cur

theorem Inv.reset : Inv cfg Track.reset :=
  ⟨⟨_, _, .reset⟩, ⟨_, _, _, .reset⟩⟩

theorem Inv.step (h : Inv cfg t) (hi : TwoFlits t i) :
    Inv cfg (t.step cfg i) := by
  obtain ⟨⟨_, _, hreq⟩, ⟨_, _, _, hresp⟩⟩ := h
  exact ⟨hreq.step hi, hresp.step⟩

theorem Inv.kept (h : Inv cfg t) : Kept cfg t := by
  obtain ⟨⟨_, _, hreq⟩, ⟨_, _, _, hresp⟩⟩ := h
  exact ⟨hreq.routed_eq, hresp.merges_taken⟩

/-! ## Nothing stays in the buffers -/

namespace Requests

variable {r : Requests} {before cur w : List Beat}

/-- Unless it is a header without its address, the flit in the last buffer
has a destination. -/
theorem Inv.sel_ne_inval (h : r.Inv cfg before cur)
    (hval : r.regs.buf1StateF ≠ .inval) (hw : Framing.Whole Beat.payload w)
    (hpre : w <+: r.accepted)
    (hlt : r.sent.length < (MemIoSplitter.routed cfg w).length) :
    r.regs.rdyMuxSel ≠ .inval := by
  intro hsel
  have hdest : r.regs.buf1DestF = .inval := by
    by_contra hne
    simp [Noc2.rdyMuxSel, hne] at hsel
  have hparsed := h.parsed
  rcases h.waits hval hdest with ⟨hempty, hst⟩ | hst
  · rw [hst] at hparsed
    obtain ⟨b, rfl, -, htwo⟩ := hparsed
    have hheld : r.regs.held = [(.inval, r.regs.buf1DataF)] := by
      simp [Noc2.held, Noc2.buf1Val, Noc2.buf0Val, hval, hempty, hsel]
    have hrouted := h.routed
    rw [hheld] at hrouted
    have hsent := (List.append_inj' hrouted rfl).1
    obtain ⟨rest, hrest⟩ := hpre
    rw [h.accepted] at hrest
    rcases List.eq_nil_or_concat rest with rfl | ⟨rest, x, rfl⟩
    · -- a packet of two flits at least is not whole with its header
      rw [List.append_nil] at hrest
      rw [hrest] at hw
      have hzero := (h.whole.of_append hw).singleton
      omega
    · rw [List.concat_eq_append, ← List.append_assoc] at hrest
      have hwb := (List.append_inj' hrest rfl).1
      rw [hsent, ← hwb, routed_append hw, List.length_append] at hlt
      omega
  · have hdest0 : r.regs.buf0DestF = .inval := by
      simpa [Noc2.rdyMuxSel, hdest, hst] using hsel
    have hm : r.regs.msgStateF = .header1 := by
      rcases h.buf0 with hn | hn
      · exact absurd (hn.symm.trans hst) MsgState.noConfusion
      · exact hn.symm.trans hst
    rw [hm] at hparsed
    obtain ⟨b, a, rfl, -⟩ := hparsed
    exact destNext_ne_inval _ _ _ (h.dest.symm.trans hdest0)

/-- A flit that stalls keeps its destination. -/
theorem rdyMuxSel_next {s : Noc2} (hs : s.stallBuf1 i = true)
    (hsel : s.rdyMuxSel ≠ .inval) :
    (s.next cfg i).rdyMuxSel = s.rdyMuxSel := by
  by_cases hdest : s.buf1DestF = .inval
  · have hst : s.buf0StateF = .header1 := by
      by_contra hne
      simp [Noc2.rdyMuxSel, hdest, hne] at hsel
    simp [Noc2.rdyMuxSel, Noc2.next, Noc2.nextBuf0, Noc2.stallBuf0,
      Noc2.buf0Val, hs, hst]
  · have hnext : (s.next cfg i).buf1DestF = s.buf1DestF := by
      cases hs0 : s.stallBuf0 i <;> cases hgo : s.go i <;>
        simp [Noc2.next, Noc2.nextBuf0, hs, hs0, hgo]
    simp [Noc2.rdyMuxSel, hnext, hdest]

/-- The last buffer is never empty for long. -/
theorem buf1_step (cfg : Config) {s : Noc2} (hheld : s.held ≠ []) :
    0 < (s.taken i).length ∨
      (s.taken i).length = 0 ∧ (s.next cfg i).buf1Val = true := by
  rw [taken_eq]
  by_cases hval : s.buf1StateF = .inval
  · have hfull : s.buf0StateF ≠ .inval := by
      intro hempty
      simp [Noc2.held, Noc2.buf1Val, Noc2.buf0Val, hval, hempty] at hheld
    refine .inr ?_
    simp [Noc2.buf1Val, Noc2.stallBuf1, Noc2.next, hval, hfull]
  · cases hs : s.stallBuf1 i with
    | false => exact .inl (by simp [Noc2.buf1Val, hval])
    | true =>
      refine .inr ⟨by simp, ?_⟩
      cases hs0 : s.stallBuf0 i <;> cases hgo : s.go i <;>
        simp [Noc2.next, Noc2.nextBuf0, Noc2.buf1Val, hs, hs0, hgo, hval]

end Requests

namespace Noc3

theorem buf1_step {s : Noc3} (hheld : s.held ≠ []) :
    0 < (s.leaves i).length ∨
      (s.leaves i).length = 0 ∧ (s.next i).buf1Val = true := by
  by_cases hval : s.buf1StateF = .inval
  · have hfull : s.buf0StateF ≠ .inval := by
      intro hempty
      simp [Noc3.held, Noc3.buf1Val, hval, hempty] at hheld
    refine .inr ?_
    cases hgo : s.go i <;>
      simp [Noc3.leaves, Noc3.next, Noc3.stall, Noc3.buf1Val, hval, hfull, hgo]
  · cases hr : i.noc3Rdy with
    | true => exact .inl (by simp [Noc3.leaves, Noc3.buf1Val, hval, hr])
    | false =>
      refine .inr ?_
      simp [Noc3.leaves, Noc3.next, Noc3.stall, Noc3.buf1Val, hval, hr]

end Noc3

/-! ## Unbounded runs -/

/-- The states of an unbounded run. -/
def trace (cfg : Config) (js : ℕ → In) : ℕ → Track :=
  Sync.stateAt (Track.step cfg) Track.reset js

/-- Requests of two flits at least, and nobody stops taking flits. -/
structure Lively (cfg : Config) (js : ℕ → In) : Prop where
  twoFlits : ∀ n, TwoFlits (trace cfg js n) (js n)
  io : ∀ n, ∃ k, n ≤ k ∧ (js k).ioRdy = true
  mem : ∀ n, ∃ k, n ≤ k ∧ (js k).memRdy = true
  noc3 : ∀ n, ∃ k, n ≤ k ∧ (js k).noc3Rdy = true

section Lively

variable {js : ℕ → In} (hj : Lively cfg js)

include hj

theorem Lively.inv (n : ℕ) : Inv cfg (trace cfg js n) :=
  Sync.stateAt_invariant (fun _ _ hi h => h.step hi) hj.twoFlits .reset n

omit hj in
theorem accepted_mono {n k : ℕ} (hnk : n ≤ k) :
    (trace cfg js n).requests.accepted <+:
      (trace cfg js k).requests.accepted :=
  Sync.prefix_of_le (f := fun k => (trace cfg js k).requests.accepted)
    (fun _ => List.prefix_append _ _) hnk

/-- What has come in as a whole has gone out or is in the buffers. -/
theorem Lively.routed_held {n : ℕ} {w : List Beat}
    (hw : Framing.Whole Beat.payload w)
    (hpre : w <+: (trace cfg js n).requests.accepted) :
    routed cfg w <+: (trace cfg js n).requests.sent ++
      (trace cfg js n).requests.regs.held := by
  obtain ⟨rest, hrest⟩ := hpre
  rw [← (hj.inv n).kept.requests, ← hrest, routed_append hw]
  exact List.prefix_append _ _

omit hj in
theorem length_sent (cfg : Config) (js : ℕ → In) (k : ℕ) :
    (trace cfg js (k + 1)).requests.sent.length =
      (trace cfg js k).requests.sent.length +
        ((trace cfg js k).requests.regs.taken (js k)).length :=
  List.length_append

/-- A flit in the last buffer that stalls for ever would have one destination
for ever, which is ready again and again. -/
theorem Lively.not_stuck {n k : ℕ} {w : List Beat}
    (hw : Framing.Whole Beat.payload w)
    (hpre : w <+: (trace cfg js n).requests.accepted) :
    ¬ ∀ j, k ≤ j →
      (trace cfg js (n + j)).requests.sent.length < (routed cfg w).length ∧
      (trace cfg js (n + j)).requests.sent.length =
        (trace cfg js (n + k)).requests.sent.length ∧
      (trace cfg js (n + j)).requests.regs.buf1Val = true := by
  intro hstuck
  have hval : ∀ j, k ≤ j →
      (trace cfg js (n + j)).requests.regs.buf1StateF ≠ .inval :=
    fun j hj' => by simpa [Noc2.buf1Val] using (hstuck j hj').2.2
  have hstall : ∀ j, k ≤ j →
      (trace cfg js (n + j)).requests.regs.stallBuf1 (js (n + j)) = true := by
    intro j hj'
    by_contra hgo
    have hnext := length_sent cfg js (n + j)
    have heq := (hstuck j hj').2.1
    have heq' := (hstuck (j + 1) (Nat.le_succ_of_le hj')).2.1
    rw [taken_eq, if_pos] at hnext
    · rw [List.length_singleton] at hnext
      rw [← Nat.add_assoc] at heq'
      omega
    · rw [(hstuck j hj').2.2, (Bool.not_eq_true _).mp hgo]
      rfl
  have hsel : ∀ j, k ≤ j →
      (trace cfg js (n + j)).requests.regs.rdyMuxSel ≠ .inval := by
    intro j hj'
    obtain ⟨before, cur, hinv⟩ := (hj.inv (n + j)).requests
    exact hinv.sel_ne_inval (hval j hj') hw
      (hpre.trans (accepted_mono (Nat.le_add_right n j))) (hstuck j hj').1
  have hsame : ∀ d, (trace cfg js (n + (k + d))).requests.regs.rdyMuxSel =
      (trace cfg js (n + k)).requests.regs.rdyMuxSel := by
    intro d
    induction d with
    | zero => rfl
    | succ d ih =>
      rw [← ih]
      exact Requests.rdyMuxSel_next (hstall _ (Nat.le_add_right k d))
        (hsel _ (Nat.le_add_right k d))
  have hready : ∃ j, n + k ≤ j ∧
      (trace cfg js (n + k)).requests.regs.rdyMuxSel = .io ∧
          (js j).ioRdy = true ∨
        n + k ≤ j ∧
        (trace cfg js (n + k)).requests.regs.rdyMuxSel = .mem ∧
          (js j).memRdy = true := by
    cases hd : (trace cfg js (n + k)).requests.regs.rdyMuxSel with
    | inval => exact absurd hd (hsel k (Nat.le_refl k))
    | io =>
      obtain ⟨j, hj', hr⟩ := hj.io (n + k)
      exact ⟨j, .inl ⟨hj', rfl, hr⟩⟩
    | mem =>
      obtain ⟨j, hj', hr⟩ := hj.mem (n + k)
      exact ⟨j, .inr ⟨hj', rfl, hr⟩⟩
  obtain ⟨j, hr⟩ := hready
  obtain ⟨d, rfl⟩ : ∃ d, j = n + (k + d) :=
    ⟨j - (n + k), by rcases hr with ⟨h, -⟩ | ⟨h, -⟩ <;> omega⟩
  have hst := hstall _ (Nat.le_add_right k d)
  rcases hr with ⟨-, hd, hr⟩ | ⟨-, hd, hr⟩ <;>
    simp [Noc2.stallBuf1, Noc2.rdyMuxOut, hsame d, hd, hr] at hst

/-- Every request that has come in as a whole gets through. -/
theorem Lively.requests (n : ℕ) {w : List Beat}
    (hw : Framing.Whole Beat.payload w)
    (hpre : w <+: (trace cfg js n).requests.accepted) :
    ∃ k, n ≤ k ∧ routed cfg w <+: (trace cfg js k).requests.sent := by
  have hheld := fun k => hj.routed_held hw
    (hpre.trans (accepted_mono (Nat.le_add_right n k)))
  have hcount : ∃ k, 0 ≤ k ∧ (routed cfg w).length ≤
      (trace cfg js (n + k)).requests.sent.length := by
    refine Sync.eventually_count
      (S := fun k => (trace cfg js (n + k)).requests.sent.length)
      (V := fun k => (trace cfg js (n + k)).requests.regs.buf1Val)
      (fun k hlt => ?_) (fun _ => hj.not_stuck hw hpre) 0
    have hne : (trace cfg js (n + k)).requests.regs.held ≠ [] := by
      intro hnil
      have hlen := (hheld k).length_le
      rw [hnil, List.append_nil] at hlen
      omega
    have hnext := length_sent cfg js (n + k)
    rw [Nat.add_assoc] at hnext
    rcases Requests.buf1_step cfg (i := js (n + k)) hne with
      hup | ⟨hstay, hval⟩
    · exact .inl (by omega)
    · exact .inr ⟨by omega, hval⟩
  obtain ⟨k, -, hle⟩ := hcount
  refine ⟨n + k, Nat.le_add_right n k, ?_⟩
  exact List.prefix_of_prefix_length_le (hheld k) (List.prefix_append _ _) hle

/-- Every response flit gets through. -/
theorem Lively.responses (n : ℕ) : ∃ k, n ≤ k ∧
    (trace cfg js n).responses.sent ++ (trace cfg js n).responses.regs.held <+:
      (trace cfg js k).responses.sent := by
  have hmono : ∀ k, n ≤ k → (trace cfg js n).responses.sent ++
        (trace cfg js n).responses.regs.held <+:
      (trace cfg js k).responses.sent ++
        (trace cfg js k).responses.regs.held := by
    refine fun k hk => Sync.prefix_of_le
      (f := fun k => (trace cfg js k).responses.sent ++
        (trace cfg js k).responses.regs.held) (fun k => ?_) hk
    obtain ⟨_, _, _, hinv⟩ := (hj.inv k).responses
    exact ⟨_, (hinv.sent_step (i := js k)).symm⟩
  have hsent : ∀ k, (trace cfg js (k + 1)).responses.sent.length =
      (trace cfg js k).responses.sent.length +
        ((trace cfg js k).responses.regs.leaves (js k)).length :=
    fun k => List.length_append
  have hcount : ∃ k, 0 ≤ k ∧ ((trace cfg js n).responses.sent ++
      (trace cfg js n).responses.regs.held).length ≤
        (trace cfg js (n + k)).responses.sent.length := by
    refine Sync.eventually_count
      (S := fun k => (trace cfg js (n + k)).responses.sent.length)
      (V := fun k => (trace cfg js (n + k)).responses.regs.buf1Val)
      (fun k hlt => ?_) (fun k hstuck => ?_) 0
    · have hheld : (trace cfg js (n + k)).responses.regs.held ≠ [] := by
        intro hnil
        have hlen := (hmono _ (Nat.le_add_right n k)).length_le
        rw [hnil, List.append_nil] at hlen
        omega
      have hnext := hsent (n + k)
      rw [Nat.add_assoc] at hnext
      rcases Noc3.buf1_step (i := js (n + k)) hheld with hup | ⟨hstay, hval⟩
      · exact .inl (by omega)
      · exact .inr ⟨by omega, hval⟩
    · obtain ⟨j, hj', hr⟩ := hj.noc3 (n + k)
      obtain ⟨d, rfl⟩ := Nat.exists_eq_add_of_le hj'
      have hkd := Nat.le_add_right k d
      have hnext := hsent (n + (k + d))
      have heq := (hstuck _ hkd).2.1
      have heq' := (hstuck (k + d + 1) (Nat.le_succ_of_le hkd)).2.1
      have hv := (hstuck _ hkd).2.2
      rw [Nat.add_assoc] at hr
      rw [← Nat.add_assoc n (k + d) 1] at heq'
      simp only [Noc3.leaves, hv, hr, Bool.and_self, if_true,
        List.length_singleton] at hnext
      omega
  obtain ⟨k, -, hle⟩ := hcount
  refine ⟨n + k, Nat.le_add_right n k, ?_⟩
  exact List.prefix_of_prefix_length_le (hmono _ (Nat.le_add_right n k))
    (List.prefix_append _ _) hle

end Lively

/-- In every state all packets are in order and whole, and where nobody stops
taking flits, they get through. -/
theorem splitter_integrity (cfg : Config) :
    (∀ is, Sync.Along (Track.step cfg) TwoFlits Track.reset is →
      Sync.Always (Track.step cfg) (Kept cfg) Track.reset is) ∧
    ∀ js, Lively cfg js → ∀ n,
      (∀ w, Framing.Whole Beat.payload w →
        w <+: (trace cfg js n).requests.accepted →
        ∃ k, n ≤ k ∧ routed cfg w <+: (trace cfg js k).requests.sent) ∧
      ∃ k, n ≤ k ∧ (trace cfg js n).responses.sent ++
        (trace cfg js n).responses.regs.held <+:
          (trace cfg js k).responses.sent := by
  refine ⟨fun is his => ?_, fun js hj n =>
    ⟨fun w hw hpre => hj.requests n hw hpre, hj.responses n⟩⟩
  have hinv := his.always (P := Inv cfg) (fun _ _ hi h => h.step hi) .reset
  exact hinv.mono fun _ h => h.kept

/-- A flit that is a header of two flits, wherever it stands. -/
def twoFlits : Flit := MSG_LENGTH.set 2#8 0#64

/-- All sides offer that flit and take all flits. -/
def busy : In :=
  ⟨false, true, twoFlits, true, true, true, twoFlits, true, twoFlits, true⟩

/-- Packets of three flits from everywhere, four cycles and for ever. -/
theorem splitter_integrity_busy :
    Sync.Always (Track.step .emulated) (Kept .emulated) Track.reset
        [busy, busy, busy, busy] ∧
      ∀ n, (∀ w, Framing.Whole Beat.payload w →
        w <+: (trace .emulated (fun _ => busy) n).requests.accepted →
        ∃ k, n ≤ k ∧ routed .emulated w <+:
          (trace .emulated (fun _ => busy) k).requests.sent) ∧
      ∃ k, n ≤ k ∧ (trace .emulated (fun _ => busy) n).responses.sent ++
        (trace .emulated (fun _ => busy) n).responses.regs.held <+:
          (trace .emulated (fun _ => busy) k).responses.sent := by
  have htwo : 2 ≤ payload busy.noc2Data := by decide +kernel
  have hready : ∀ n : ℕ, ∃ k, n ≤ k ∧ true = true :=
    fun n => ⟨n, Nat.le_refl n, rfl⟩
  refine ⟨(splitter_integrity .emulated).1 _ ?_,
    (splitter_integrity .emulated).2 _
      ⟨fun _ _ _ => htwo, hready, hready, hready⟩⟩
  exact ⟨fun _ _ => htwo, fun _ _ => htwo, fun _ _ => htwo,
    fun _ _ => htwo, trivial⟩

end ArianeSoc.Chipset.MemIoSplitter
