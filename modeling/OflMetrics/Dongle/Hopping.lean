/-
The period of channel hopping: `tmr0_isr` ten times a second, with no command
in between.

The hop is taken on every tick of a second that `hop_spd` divides, so there are
ten in a row, nine of them where the minute rolls over to its second 0. Two
hops are never `hop_spd` seconds apart without one in between (`hopDue_next`),
so the period is kept exactly when there are fewer than two hops
(`hopsEvery_iff`). The channels follow each other in every case. The clock is in
range in every state the dongle reaches (`clock_valid_run`).
-/
import Mathlib.Data.List.Chain
import OflMetrics.WallClock

namespace OflMetrics

open Embed Embed.Traced

/-- The channels a log passes to `set_channel`. -/
def setChannels (l : List DongleEvent) : List Int :=
  (radioEvents l).filterMap fun | .setChannel ch => some ch | .setPower _ => none

/-- The calls of `set_channel` that some ticks make, each with the number of
its tick; the next tick is tick `k`. -/
def hopCalls : Nat → Dongle → Nat → List (Nat × Int)
  | 0, _, _ => []
  | n + 1, s, k => (setChannels (log (tmr0Isr s))).map (k, ·) ++ hopCalls n (val (tmr0Isr s)) (k + 1)

/-- `b` is the channel after `a`, of 0 to 15. -/
def NextChannel (a b : Int) : Prop := 0 ≤ b ∧ b ≤ 15 ∧ (a ≤ 15 → b = (a + 1) % 16)

/-- The calls come every `period` seconds, and each moves to the next channel. -/
structure HopsEvery (period : Nat) (curChan : UInt8) (calls : List (Nat × Int)) : Prop where
  period : calls.IsChain fun a b => b.1 = a.1 + 10 * period
  channels : ((curChan.toNat : Int) :: calls.map Prod.snd).IsChain NextChannel

/-- `period` divides the second a tick sees, when `p` ticks are on the clock
before it; at the end of a minute that is second 60. -/
def HopDue (period p : Nat) : Prop := (p % 600 + 1) / 10 % period = 0

instance (period p : Nat) : Decidable (HopDue period p) := inferInstanceAs (Decidable (_ = _))

/-! ## One tick -/

variable {s : Dongle}

theorem Clock.Valid.count_clockS {k : Clock} (h : k.Valid) : k.count.clockS.toNat = (k.ticks % 600 + 1) / 10 := by
  have h100ms := h.clock100ms
  have hs := h.clockS
  have hiff : k.clock100ms + 1 = 10 ↔ k.clock100ms.toNat + 1 = 10 := add_one_eq_iff h100ms
  have hpos : k.ticks % 600 = k.clockS.toNat * 10 + k.clock100ms.toNat := by
    unfold Clock.ticks
    omega
  rw [hpos, count]
  by_cases hfull : k.clock100ms.toNat + 1 = 10
  · rw [if_pos (hiff.mpr hfull), toNat_add_one hs (by decide)]
    omega
  · rw [if_neg fun h => hfull (hiff.mp h)]
    show k.clockS.toNat = _
    omega

theorem Clock.Valid.ticks_tick {k : Clock} (h : k.Valid) : k.count.carry.ticks % 600 = (k.ticks + 1) % 600 := by
  have hticks := h.ticks_iterate 1
  rw [Function.iterate_one] at hticks
  rw [hticks]
  omega

/-- A tick hops when the second it sees is due. -/
theorem tmr0Isr_hops (hclock : s.clock.Valid) (hpos : 0 < s.hopSpd) :
    setChannels (log (tmr0Isr s)) =
        (if HopDue s.hopSpd.toNat s.clock.ticks then [((nextChan s.curChan).toNat : Int)] else []) ∧
      (val (tmr0Isr s)).curChan =
        if HopDue s.hopSpd.toNat s.clock.ticks then nextChan s.curChan else s.curChan := by
  have hdue : s.clock.count.clockS % s.hopSpd = 0 ↔ HopDue s.hopSpd.toNat s.clock.ticks := by
    rw [← UInt8.toNat_inj, UInt8.toNat_mod, hclock.count_clockS]
    rfl
  rw [tmr0Isr_log, tmr0Isr_val, hop]
  by_cases h : HopDue s.hopSpd.toNat s.clock.ticks
  · rw [if_pos ⟨hpos, hdue.mpr h⟩, if_pos h, if_pos h]
    exact ⟨rfl, rfl⟩
  · rw [if_neg fun hh => h (hdue.mp hh.2), if_neg h, if_neg h]
    exact ⟨rfl, rfl⟩

theorem nextChannel_nextChan (curChan : UInt8) : NextChannel curChan.toNat (nextChan curChan).toNat := by
  have hle : (nextChan curChan).toNat ≤ 15 := UInt8.le_iff_toNat_le.mp (nextChan_le curChan)
  refine ⟨by omega, by omega, fun h => ?_⟩
  have hsmall : curChan.toNat < 16 := by omega
  have hsucc : (curChan + 1).toNat = curChan.toNat + 1 := Clock.toNat_add_one hsmall (by decide)
  simp only [nextChan, GT.gt, UInt8.lt_iff_toNat_lt, hsucc, show MAX_CHAN.toNat = 15 from rfl]
  split
  · rw [show curChan.toNat = 15 by omega]
    rfl
  · rw [hsucc]
    omega

/-! ## Reachable clocks -/

theorem carryOut_clock (s : Dongle) (cmd : List UInt8) (env : SendEnv) (c : Command) :
    (val (carryOut s cmd env c)).clock = s.clock := by
  rw [carryOut_val]
  cases c with
  | _ => rfl

/-- From the boot on, commands and ticks leave the clock in range. -/
theorem clock_valid_run {σ τ : Type} (nvm : Nvm σ τ) (stack : Mem UInt8) (s : σ) (pk : Paquet)
    (steps : List DongleStep) : (run tunedStep (.boot nvm stack s pk) steps).dongle.clock.Valid := by
  have hboot : (Tuned.boot nvm stack s pk).dongle.clock.Valid := Clock.valid_zero
  refine run_invariant (I := fun t : Tuned => t.dongle.clock.Valid) (fun t step ht => ?_) hboot
  cases step with
  | tick =>
    have hclock : (tunedStep t .tick).dongle.clock = t.dongle.clock.count.carry := tmr0Isr_clock t.dongle
    rw [hclock]
    exact ht.tick
  | command cmd env =>
    have hclock : (tunedStep t (.command cmd env)).dongle.clock = t.dongle.clock := carryOut_clock t.dongle cmd env _
    rw [hclock]
    exact ht

/-! ## Any number of ticks -/

/-- The channels follow each other. -/
theorem hopCalls_channels (n : Nat) (s : Dongle) (k : Nat) :
    ((s.curChan.toNat : Int) :: (hopCalls n s k).map Prod.snd).IsChain NextChannel := by
  induction n generalizing s k with
  | zero => exact List.isChain_singleton _
  | succ n ih =>
    have hrest := ih (val (tmr0Isr s)) (k + 1)
    rw [tmr0Isr_val] at hrest
    rw [hopCalls, tmr0Isr_log, tmr0Isr_val, setChannels]
    cases hop_cases { s with cntr := s.cntr + 1, clock := s.clock.count } with
    | inl hstays =>
      obtain ⟨hval, hradio⟩ := hstays
      rw [hval] at hrest ⊢
      rw [hradio]
      exact hrest
    | inr hhops =>
      obtain ⟨hval, hradio⟩ := hhops
      rw [hval] at hrest ⊢
      rw [hradio]
      exact List.isChain_cons_cons.mpr ⟨nextChannel_nextChan s.curChan, hrest⟩

/-- The ticks that hop are those that are due. -/
theorem hopCalls_ticks (hpos : 0 < s.hopSpd) {b k n : Nat} (hclock : s.clock.Valid)
    (hb : s.clock.ticks % 600 = (b + k) % 600) :
    (hopCalls n s k).map Prod.fst = (List.range' k n).filter fun t => HopDue s.hopSpd.toNat (b + t) := by
  induction n generalizing s k with
  | zero => rfl
  | succ n ih =>
    have hnext : (val (tmr0Isr s)).clock.ticks % 600 = (b + (k + 1)) % 600 := by
      rw [tmr0Isr_clock, hclock.ticks_tick]
      omega
    have hvalid : (val (tmr0Isr s)).clock.Valid := by
      rw [tmr0Isr_clock]
      exact hclock.tick
    have hspd : (val (tmr0Isr s)).hopSpd = s.hopSpd := (tmr0Isr_keeps s).2
    have hrest := ih (by rwa [hspd]) hvalid hnext
    have hdue : HopDue s.hopSpd.toNat s.clock.ticks ↔ HopDue s.hopSpd.toNat (b + k) := by
      rw [HopDue, HopDue, hb]
    rw [hspd] at hrest
    rw [hopCalls, List.map_append, hrest, (tmr0Isr_hops hclock hpos).1, List.range'_succ, List.filter_cons]
    by_cases h : HopDue s.hopSpd.toNat (b + k)
    · simp [hdue, h]
    · simp [hdue, h]

/-! ## The period -/

/-- After a hop there is another before the period is over. -/
theorem hopDue_next {period p : Nat} (hperiod : 5 < period) (h : HopDue period p) :
    ∃ g, 0 < g ∧ g < 10 * period ∧ HopDue period (p + g) := by
  unfold HopDue at h ⊢
  obtain ⟨m, hm⟩ := Nat.dvd_of_mod_eq_zero h
  have hr : p % 600 < 600 := Nat.mod_lt _ (by decide)
  have hzero : 0 % period = 0 := Nat.zero_mod _
  by_cases hlast : p % 600 = 599
  · -- The next tick begins the minute.
    refine ⟨1, by omega, by omega, ?_⟩
    rw [show (p + 1) % 600 = 0 by omega]
    exact hzero
  by_cases hburst : (p % 600 + 1) % 10 ≠ 9
  · -- The next tick is in the same second.
    refine ⟨1, by omega, by omega, ?_⟩
    rw [show ((p + 1) % 600 + 1) / 10 = (p % 600 + 1) / 10 by omega]
    exact h
  by_cases hnext : (p % 600 + 1) / 10 + period ≤ 60
  · -- The second `period` later begins nine ticks early.
    refine ⟨10 * period - 9, by omega, by omega, ?_⟩
    rw [show ((p + (10 * period - 9)) % 600 + 1) / 10 = (p % 600 + 1) / 10 + period by omega, Nat.add_mod_right]
    exact h
  · -- The minute ends first.
    refine ⟨600 - p % 600, by omega, by omega, ?_⟩
    rw [show (p + (600 - p % 600)) % 600 = 0 by omega]
    exact hzero

/-- Where something due comes sooner than `d` after anything due, there are
steps of `d` only between fewer than two. -/
theorem isChain_filter_range {P : Nat → Prop} [DecidablePred P] {d n : Nat}
    (hnext : ∀ a, P a → ∃ g, 0 < g ∧ g < d ∧ P (a + g)) :
    ((List.range n).filter P).IsChain (fun a b => b = a + d) ↔ ∀ i j, i < j → j < n → ¬ (P i ∧ P j) := by
  have hmem : ∀ t, t ∈ (List.range n).filter P ↔ t < n ∧ P t := by simp
  have hsorted : ((List.range n).filter P).Pairwise (· < ·) := List.pairwise_lt_range.filter _
  generalize (List.range n).filter P = due at hmem hsorted
  match due with
  | [] =>
    refine iff_of_true .nil fun i j hij hj hboth => ?_
    exact absurd ((hmem i).mpr ⟨by omega, hboth.1⟩) List.not_mem_nil
  | [a] =>
    refine iff_of_true (List.isChain_singleton a) fun i j hij hj hboth => ?_
    have hi := List.mem_singleton.mp ((hmem i).mpr ⟨by omega, hboth.1⟩)
    have hj := List.mem_singleton.mp ((hmem j).mpr ⟨hj, hboth.2⟩)
    omega
  | a :: b :: later =>
    have ha := (hmem a).mp List.mem_cons_self
    have hb := (hmem b).mp (List.mem_cons_of_mem _ List.mem_cons_self)
    rw [List.pairwise_cons, List.pairwise_cons] at hsorted
    have hab : a < b := hsorted.1 b List.mem_cons_self
    refine iff_of_false (fun hchain => ?_) fun h => h a b hab hb.1 ⟨ha.2, hb.2⟩
    -- The one that comes sooner stands nowhere in the list.
    have hstep : b = a + d := (List.isChain_cons_cons.mp hchain).1
    obtain ⟨g, hg, hgd, hdue⟩ := hnext a ha.2
    rcases List.mem_cons.mp ((hmem (a + g)).mpr ⟨by omega, hdue⟩) with heq | hin
    · omega
    · rcases List.mem_cons.mp hin with heq | hin
      · omega
      · have hlt := hsorted.2.1 _ hin
        omega

/-- **When hopping keeps its period**: when at most one of the ticks is due. -/
theorem hopsEvery_iff (s : Dongle) (hclock : s.clock.Valid) (hperiod : 5 < s.hopSpd ∧ s.hopSpd < 180) (n : Nat) :
    HopsEvery s.hopSpd.toNat s.curChan (hopCalls n s 0) ↔
      ∀ i j, i < j → j < n →
        ¬ (HopDue s.hopSpd.toNat (s.clock.ticks + i) ∧ HopDue s.hopSpd.toNat (s.clock.ticks + j)) := by
  have hgt : 5 < s.hopSpd.toNat := UInt8.lt_iff_toNat_lt.mp hperiod.1
  have hpos : 0 < s.hopSpd := UInt8.lt_iff_toNat_lt.mpr (by rw [show (0 : UInt8).toNat = 0 from rfl]; omega)
  have hticks := hopCalls_ticks (b := s.clock.ticks) (k := 0) (n := n) hpos hclock rfl
  have hnext : ∀ a, HopDue s.hopSpd.toNat (s.clock.ticks + a) →
      ∃ g, 0 < g ∧ g < 10 * s.hopSpd.toNat ∧ HopDue s.hopSpd.toNat (s.clock.ticks + (a + g)) := by
    intro a ha
    simpa only [Nat.add_assoc] using hopDue_next hgt ha
  rw [← isChain_filter_range (n := n) hnext, List.range_eq_range', ← hticks, List.isChain_map]
  constructor
  · intro h
    exact h.period
  · intro h
    exact ⟨h, hopCalls_channels n s 0⟩

/-- Hopping every six seconds, a dongle that has just started hops again on the next tick. -/
theorem hops_twice : ¬ HopsEvery 6 0 (hopCalls 2 { sampleDongle with hopSpd := 6 } 0) := by
  intro h
  have hchain := h.period
  have hcalls : hopCalls 2 { sampleDongle with hopSpd := 6 } 0 = [(0, 1), (1, 2)] := by rfl
  rw [hcalls] at hchain
  exact absurd (List.isChain_cons_cons.mp hchain).1 (by decide)

/-- Five seconds past the minute, it hops once in the next second. -/
theorem hops_once :
    HopsEvery 6 0 (hopCalls 10 { sampleDongle with hopSpd := 6, clock := { Clock.zero with clockS := 5 } } 0) := by
  refine (hopsEvery_iff { sampleDongle with hopSpd := 6, clock := { Clock.zero with clockS := 5 } }
    ⟨by decide, by decide, by decide, by decide⟩ ⟨by decide, by decide⟩ 10).mpr fun i j hij hj hdue => ?_
  have hi : ((50 + i) % 600 + 1) / 10 % 6 = 0 := hdue.1
  omega

end OflMetrics
