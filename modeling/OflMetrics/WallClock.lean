/-
The timer interrupts of the three firmwares, and the wall clock they count.

A clock whose digits are in range stays so, and one tick is the next number of
a counter with the bases 10, 60, 60, 24 and 256 (`Clock.Valid.tick`). From the
zero clock, `n` ticks of any of the three interrupts count `n`
(`wallClock_counts`).
-/
import OflMetrics.Dongle.Channel
import OflMetrics.Embed.MixedRadix

namespace OflMetrics

open Embed Embed.Traced Embed.MixedRadix

/-! ## The interrupts -/

/-- The counters of `oflnode.c`. -/
structure NodeTimer where
  tmrCntr : UInt32
  awakeSec : UInt32
  clock : Clock

namespace NodeTimer

def zero : NodeTimer := { tmrCntr := 0, awakeSec := 0, clock := .zero }

/-- `tmr0_isr` of `oflnode.c`. -/
def tmr0Isr (s : NodeTimer) : NodeTimer :=
  let s := { s with tmrCntr := s.tmrCntr + 1 }
  let awakeSec := if s.clock.clock100ms + 1 = 10 then s.awakeSec + 1 else s.awakeSec
  let clock := s.clock.count
  { s with awakeSec, clock := clock.carry }

end NodeTimer

/-- `gpio_data_set` and `gpio_data_reset` of the red LED. -/
inductive LedEvent where
  | set
  | reset
  deriving DecidableEq

/-- `tmr0_isr` of `oflomniradio.c`. -/
def Clock.tmr0Isr (k : Clock) : Traced LedEvent Clock := do
  let k := k.count.carry
  tell (if k.clockS % 5 = 0 ∧ k.clock100ms < 3 then [.set] else [.reset])
  return k

/-! ## The clock as a counter -/

namespace Clock

/-- The digits of the clock, the lowest first. -/
def digits (k : Clock) : List Nat :=
  [k.clock100ms.toNat, k.clockS.toNat, k.clockM.toNat, k.clockH.toNat, k.clockD.toNat]

def bases : List Nat := [10, 60, 60, 24, 256]

/-- The counters are in range. -/
structure Valid (k : Clock) : Prop where
  clock100ms : k.clock100ms.toNat < 10
  clockS : k.clockS.toNat < 60
  clockM : k.clockM.toNat < 60
  clockH : k.clockH.toNat < 24

/-- The ticks the clock shows. -/
def ticks (k : Clock) : Nat :=
  (((k.clockD.toNat * 24 + k.clockH.toNat) * 60 + k.clockM.toNat) * 60 + k.clockS.toNat) * 10 + k.clock100ms.toNat

variable {k : Clock}

theorem valid_iff : k.Valid ↔ Within bases k.digits := by
  simp only [Within, bases, digits, List.forall₂_cons, List.forall₂_nil_left_iff, and_true]
  constructor
  · intro h
    exact ⟨h.clock100ms, h.clockS, h.clockM, h.clockH, k.clockD.toNat_lt⟩
  · rintro ⟨h100ms, hs, hm, hh, -⟩
    exact ⟨h100ms, hs, hm, hh⟩

theorem ticks_eq (k : Clock) : k.ticks = value bases k.digits := by
  simp only [ticks, value, bases, digits]
  omega

/-- A digit below a limit can be counted up, and is then at the limit or below. -/
theorem toNat_add_one {d : UInt8} {b : Nat} (hd : d.toNat < b) (hb : b < 256) : (d + 1).toNat = d.toNat + 1 := by
  rw [UInt8.toNat_add]
  exact Nat.mod_eq_of_lt (by rw [show (1 : UInt8).toNat = 1 from rfl]; omega)

theorem add_one_eq_iff {d b : UInt8} (hd : d.toNat < b.toNat) : d + 1 = b ↔ d.toNat + 1 = b.toNat := by
  rw [← UInt8.toNat_inj, toNat_add_one hd b.toNat_lt]

theorem ne_of_toNat_lt {d b : UInt8} (hd : d.toNat < b.toNat) : d ≠ b := by
  rintro rfl
  exact Nat.lt_irrefl _ hd

/-- An hour more, and its carry. -/
theorem digits_nextH (hh : k.clockH.toNat < 24) :
    ({ k with clockH := k.clockH + 1 } : Clock).carryH.digits =
      [k.clock100ms.toNat, k.clockS.toNat, k.clockM.toNat] ++ succ [24, 256] [k.clockH.toNat, k.clockD.toNat] := by
  have hiff : k.clockH + 1 = 24 ↔ k.clockH.toNat + 1 = 24 := add_one_eq_iff hh
  by_cases hfull : k.clockH.toNat + 1 = 24
  · have hday : (k.clockD + 1).toNat = if k.clockD.toNat + 1 = 256 then 0 else k.clockD.toNat + 1 := by
      have hlt := k.clockD.toNat_lt
      rw [UInt8.toNat_add, show (1 : UInt8).toNat = 1 from rfl]
      split <;> omega
    simp only [carryH, if_pos (hiff.mpr hfull), digits, hday, succ, if_pos hfull]
    by_cases hlast : k.clockD.toNat + 1 = 256
    · simp [hlast]
    · simp [hlast]
  · simp [carryH, hiff, hfull, digits, succ, toNat_add_one hh]

/-- A minute more, and its carries. -/
theorem digits_nextM (hm : k.clockM.toNat < 60) (hh : k.clockH.toNat < 24) :
    ({ k with clockM := k.clockM + 1 } : Clock).carryM.carryH.digits =
      [k.clock100ms.toNat, k.clockS.toNat] ++
        succ [60, 24, 256] [k.clockM.toNat, k.clockH.toNat, k.clockD.toNat] := by
  have hiff : k.clockM + 1 = 60 ↔ k.clockM.toNat + 1 = 60 := add_one_eq_iff hm
  have hday : k.clockH ≠ 24 := ne_of_toNat_lt hh
  by_cases hfull : k.clockM.toNat + 1 = 60
  · have hnext := digits_nextH (k := { k with clockM := 0 }) hh
    simpa [carryM, hiff, hfull, succ] using hnext
  · simp [carryM, carryH, hiff, hfull, hday, digits, succ, toNat_add_one hm]

/-- A second more, and its carries. -/
theorem digits_nextS (hs : k.clockS.toNat < 60) (hm : k.clockM.toNat < 60) (hh : k.clockH.toNat < 24) :
    ({ k with clockS := k.clockS + 1 } : Clock).carry.digits =
      k.clock100ms.toNat ::
        succ [60, 60, 24, 256] [k.clockS.toNat, k.clockM.toNat, k.clockH.toNat, k.clockD.toNat] := by
  have hiff : k.clockS + 1 = 60 ↔ k.clockS.toNat + 1 = 60 := add_one_eq_iff hs
  have hhour : k.clockM ≠ 60 := ne_of_toNat_lt hm
  have hday : k.clockH ≠ 24 := ne_of_toNat_lt hh
  by_cases hfull : k.clockS.toNat + 1 = 60
  · have hnext := digits_nextM (k := { k with clockS := 0 }) hm hh
    simpa [carry, carryS, hiff, hfull, succ] using hnext
  · simp [carry, carryS, carryM, carryH, hiff, hfull, hhour, hday, digits, succ, toNat_add_one hs]

/-- A tick is the next number of the counter. -/
theorem Valid.digits_tick (h : k.Valid) : k.count.carry.digits = succ bases k.digits := by
  have hiff : k.clock100ms + 1 = 10 ↔ k.clock100ms.toNat + 1 = 10 := add_one_eq_iff h.clock100ms
  by_cases hfull : k.clock100ms.toNat + 1 = 10
  · have hnext := digits_nextS (k := { k with clock100ms := 0 }) h.clockS h.clockM h.clockH
    simpa [count, hiff, hfull, bases, succ, digits] using hnext
  · have hmin : k.clockS ≠ 60 := ne_of_toNat_lt h.clockS
    have hhour : k.clockM ≠ 60 := ne_of_toNat_lt h.clockM
    have hday : k.clockH ≠ 24 := ne_of_toNat_lt h.clockH
    have hnext := toNat_add_one h.clock100ms (by decide)
    simp [count, carry, carryS, carryM, carryH, hiff, hfull, hmin, hhour, hday, digits, bases, succ, hnext]

theorem Valid.tick (h : k.Valid) : k.count.carry.Valid := by
  rw [valid_iff, h.digits_tick]
  exact (valid_iff.mp h).succ

theorem valid_zero : zero.Valid := ⟨by decide, by decide, by decide, by decide⟩

/-- Any number of ticks, from any clock in range. -/
theorem Valid.iterate (h : k.Valid) (n : Nat) :
    ((fun k : Clock => k.count.carry)^[n] k).Valid ∧
      ((fun k : Clock => k.count.carry)^[n] k).digits = (succ bases)^[n] k.digits := by
  induction n with
  | zero => exact ⟨h, rfl⟩
  | succ n ih =>
    rw [Function.iterate_succ_apply', Function.iterate_succ_apply']
    obtain ⟨hvalid, hdigits⟩ := ih
    exact ⟨hvalid.tick, by rw [hvalid.digits_tick, hdigits]⟩

theorem Valid.ticks_iterate (h : k.Valid) (n : Nat) :
    ((fun k : Clock => k.count.carry)^[n] k).ticks = (k.ticks + n) % (256 * 24 * 60 * 60 * 10) := by
  rw [ticks_eq, ticks_eq, (h.iterate n).2, (valid_iff.mp h).value_iterate]
  rfl

end Clock

/-! ## The three firmwares -/

theorem NodeTimer.tmr0Isr_clock (s : NodeTimer) : s.tmr0Isr.clock = s.clock.count.carry := by
  rw [NodeTimer.tmr0Isr]

/-- The clock of each is the clock alone, ticking. -/
theorem NodeTimer.clock_iterate (s : NodeTimer) (n : Nat) :
    (NodeTimer.tmr0Isr^[n] s).clock = (fun k : Clock => k.count.carry)^[n] s.clock := by
  have hstep : Function.Semiconj NodeTimer.clock NodeTimer.tmr0Isr fun k => k.count.carry := tmr0Isr_clock
  exact hstep.iterate_right n s

theorem Clock.val_tmr0Isr (k : Clock) : val k.tmr0Isr = k.count.carry := by
  rw [Clock.tmr0Isr, val_bind, val_pure]

/-- Whether a tick of the dongle hops or not, its clock ticks and the period stays. -/
theorem tmr0Isr_keeps (s : Dongle) :
    (val (tmr0Isr s)).clock = s.clock.count.carry ∧ (val (tmr0Isr s)).hopSpd = s.hopSpd := by
  rw [tmr0Isr_val]
  cases hop_cases { s with cntr := s.cntr + 1, clock := s.clock.count } with
  | inl hstays => exact ⟨by rw [hstays.1], by rw [hstays.1]⟩
  | inr hhops => exact ⟨by rw [hhops.1], by rw [hhops.1]⟩

theorem tmr0Isr_clock (s : Dongle) : (val (tmr0Isr s)).clock = s.clock.count.carry := (tmr0Isr_keeps s).1

theorem Dongle.clock_iterate (s : Dongle) (n : Nat) :
    ((fun s => val (tmr0Isr s))^[n] s).clock = (fun k : Clock => k.count.carry)^[n] s.clock := by
  have hstep : Function.Semiconj Dongle.clock (fun s => val (tmr0Isr s)) fun k => k.count.carry := tmr0Isr_clock
  exact hstep.iterate_right n s

theorem NodeTimer.tmrCntr_iterate (s : NodeTimer) (n : Nat) :
    (NodeTimer.tmr0Isr^[n] s).tmrCntr = s.tmrCntr + UInt32.ofNat n := by
  induction n with
  | zero => simp
  | succ n ih =>
    rw [Function.iterate_succ_apply']
    show (NodeTimer.tmr0Isr^[n] s).tmrCntr + 1 = _
    rw [ih, UInt32.ofNat_add, UInt32.add_assoc]
    rfl

/-- `awake_sec` counts the full seconds of the clock. -/
theorem NodeTimer.awakeSec_iterate (n : Nat) :
    (NodeTimer.tmr0Isr^[n] .zero).awakeSec.toNat = n / 10 % 2 ^ 32 := by
  induction n with
  | zero => rfl
  | succ n ih =>
    have hvalid := (Clock.valid_zero.iterate n).1
    have hticks := Clock.valid_zero.ticks_iterate n
    have hdigit : ((fun k : Clock => k.count.carry)^[n] Clock.zero).clock100ms.toNat = n % 10 := by
      have hzero : Clock.zero.ticks = 0 := rfl
      have hlt := hvalid.clock100ms
      rw [hzero] at hticks
      unfold Clock.ticks at hticks
      omega
    have hiff := Clock.add_one_eq_iff (b := 10) hvalid.clock100ms
    have hclock : (NodeTimer.tmr0Isr^[n] .zero).clock = (fun k : Clock => k.count.carry)^[n] Clock.zero :=
      NodeTimer.clock_iterate .zero n
    rw [Function.iterate_succ_apply']
    simp only [NodeTimer.tmr0Isr, hclock, hiff, hdigit]
    show (if n % 10 + 1 = 10 then _ else _ : UInt32).toNat = _
    split
    · rw [UInt32.toNat_add, ih, show (1 : UInt32).toNat = 1 from rfl]
      omega
    · rw [ih]
      omega

/-- The clock is in range and shows `n` ticks, of the 256 days it can show. -/
structure Clock.Shows (k : Clock) (n : Nat) : Prop where
  valid : k.Valid
  ticks : k.ticks = n % (256 * 24 * 60 * 60 * 10)

theorem Clock.shows_iterate (n : Nat) : ((fun k : Clock => k.count.carry)^[n] .zero).Shows n where
  valid := (Clock.valid_zero.iterate n).1
  ticks := by
    have hticks := Clock.valid_zero.ticks_iterate n
    rw [show Clock.zero.ticks = 0 from rfl, Nat.zero_add] at hticks
    exact hticks

/-- **Every tick is counted**, whatever else the dongle's state is. -/
theorem wallClock_counts (n : Nat) (s : Dongle) :
    ((fun s => val (tmr0Isr s))^[n] { s with clock := .zero }).clock.Shows n ∧
      ((fun k => val k.tmr0Isr)^[n] Clock.zero).Shows n ∧
      (NodeTimer.tmr0Isr^[n] .zero).clock.Shows n ∧
      (NodeTimer.tmr0Isr^[n] .zero).awakeSec.toNat = n / 10 % 2 ^ 32 ∧
      (NodeTimer.tmr0Isr^[n] .zero).tmrCntr.toNat = n % 2 ^ 32 := by
  refine ⟨?_, ?_, ?_, NodeTimer.awakeSec_iterate n, ?_⟩
  · rw [Dongle.clock_iterate]
    exact Clock.shows_iterate n
  · rw [funext Clock.val_tmr0Isr]
    exact Clock.shows_iterate n
  · rw [NodeTimer.clock_iterate]
    exact Clock.shows_iterate n
  · rw [NodeTimer.tmrCntr_iterate]
    show ((0 : UInt32) + UInt32.ofNat n).toNat = _
    rw [UInt32.zero_add]
    rfl

end OflMetrics
