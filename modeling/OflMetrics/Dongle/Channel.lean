/-
The channel of the dongle: commands and timer ticks in any order, from the
state `main` establishes.

`LegalChannel` is the invariant. Hopping and `:chanhop` keep it whatever they
are given; `:channel` passes its argument to `set_channel` as it is and keeps
its last eight bits, so the invariant holds in every state of a run exactly
when every argument of an executed `:channel` is a channel
(`legalChannel_iff`).
-/
import OflMetrics.Embed.Run
import OflMetrics.Dongle.FirmwareFacts

namespace OflMetrics

open Embed Embed.Traced Embed.CString

/-- A command line for `process_cmd`, or an interrupt of the timer. -/
inductive DongleStep where
  | command (cmd : List UInt8) (env : SendEnv)
  | tick

/-- The firmware, and the value last passed to `set_channel`. -/
structure Tuned where
  dongle : Dongle
  last : Option Int

/-- After a part of the firmware. -/
def Tuned.after (t : Tuned) (x : Firmware Dongle) : Tuned :=
  { dongle := val x, last := (lastChannel (radioEvents (log x))).or t.last }

def tunedStep (t : Tuned) : DongleStep → Tuned
  | .command cmd env => t.after (processCmd t.dongle cmd env)
  | .tick => t.after (tmr0Isr t.dongle)

/-- The state `main` establishes. -/
def Tuned.boot {σ τ : Type} (nvm : Nvm σ τ) (stack : Mem UInt8) (s : σ) (pk : Paquet) : Tuned :=
  { dongle := .boot (val (dongleBoot nvm stack s)).1 pk stack, last := lastChannel (log (dongleBoot nvm stack s)) }

/-- The dongle is on a legal channel and knows it, and its hopping period is
zero or legal. -/
structure LegalChannel (t : Tuned) : Prop where
  range : t.dongle.curChan ≤ MAX_CHAN
  known : t.last = some (t.dongle.curChan.toNat : Int)
  period : t.dongle.hopSpd = 0 ∨ 5 < t.dongle.hopSpd ∧ t.dongle.hopSpd < 180

/-- `process_cmd` takes the branch of `:channel` for a line. -/
def TakesChannel (cmd : List UInt8) : Prop :=
  ¬ ascii "?" <+: cmd ∧ ¬ ascii ":dump_hex" <:+: cmd ∧ ¬ ascii ":dump_human" <:+: cmd ∧
    ascii ":channel " <:+: cmd ∧ cmd.length > 9

/-- The argument of a line that takes it is a channel. -/
def ChannelOk : DongleStep → Prop
  | .command cmd _ => TakesChannel cmd → 0 ≤ atoi (cmd.drop 9) ∧ atoi (cmd.drop 9) ≤ 15
  | .tick => True

/-- A branch of another command is passed over. -/
theorem ite_eq_of_ne {c : Prop} [Decidable c] {a b x : Command} (ha : a ≠ x) :
    (if c then a else b) = x ↔ ¬ c ∧ b = x := by
  by_cases h : c
  · rw [if_pos h]
    exact iff_of_false ha fun hb => hb.1 h
  · rw [if_neg h]
    exact ⟨fun hb => ⟨h, hb⟩, And.right⟩

theorem parseCmd_channel_iff {monitorMode : UInt8} {cmd : List UInt8} {ch : Int} :
    parseCmd monitorMode cmd = .channel ch ↔ TakesChannel cmd ∧ ch = atoi (cmd.drop 9) := by
  rw [parseCmd, ite_eq_of_ne Command.noConfusion, ite_eq_of_ne Command.noConfusion,
    ite_eq_of_ne Command.noConfusion, ite_eq_of_ne Command.noConfusion]
  constructor
  · rintro ⟨-, hquest, hhex, hhuman, hchan⟩
    by_cases h : ascii ":channel " <:+: cmd ∧ cmd.length > 9
    · rw [if_pos h, Command.channel.injEq] at hchan
      exact ⟨⟨hquest, hhex, hhuman, h⟩, hchan.symm⟩
    · -- None of the later branches is this one.
      rw [if_neg h, ite_eq_of_ne Command.noConfusion, ite_eq_of_ne Command.noConfusion,
        ite_eq_of_ne Command.noConfusion, ite_eq_of_ne Command.noConfusion, ite_eq_of_ne Command.noConfusion] at hchan
      exact Command.noConfusion hchan.2.2.2.2.2
  · rintro ⟨⟨hquest, hhex, hhuman, hname, hlen⟩, rfl⟩
    refine ⟨fun hempty => ?_, hquest, hhex, hhuman, if_pos ⟨hname, hlen⟩⟩
    rw [hempty.2] at hlen
    cases hlen

/-! ## Bytes -/

theorem toNat_ofInt (i : Int) : ((UInt8.ofInt i).toNat : Int) = i % 256 := by
  have hlt : (i % 256).toNat < 256 := by omega
  rw [UInt8.ofInt, UInt8.toNat_ofNat']
  show (((i % 256).toNat % 256 : Nat) : Int) = i % 256
  rw [Nat.mod_eq_of_lt hlt]
  omega

theorem ofInt_le {i : Int} (h0 : 0 ≤ i) (h1 : i ≤ 15) : UInt8.ofInt i ≤ MAX_CHAN := by
  have hnat := toNat_ofInt i
  rw [UInt8.le_iff_toNat_le, show MAX_CHAN.toNat = 15 from rfl]
  omega

theorem ofInt_period {i : Int} (h0 : i > 5) (h1 : i < 180) : 5 < UInt8.ofInt i ∧ UInt8.ofInt i < 180 := by
  have hnat := toNat_ofInt i
  rw [UInt8.lt_iff_toNat_lt, UInt8.lt_iff_toNat_lt, show (5 : UInt8).toNat = 5 from rfl,
    show (180 : UInt8).toNat = 180 from rfl]
  omega

/-! ## Steps -/

theorem nextChan_le (curChan : UInt8) : nextChan curChan ≤ MAX_CHAN := by
  simp only [nextChan]
  split
  · exact UInt8.le_iff_toNat_le.mpr (Nat.zero_le _)
  · next h => exact UInt8.not_lt.mp h

/-- What a hop does. -/
theorem hop_cases (s : Dongle) :
    (val (hop s) = s ∧ radioEvents (log (hop s)) = []) ∨
      (val (hop s) = { s with curChan := nextChan s.curChan } ∧
        radioEvents (log (hop s)) = [.setChannel (nextChan s.curChan).toNat]) := by
  unfold hop
  split
  · exact .inr ⟨rfl, rfl⟩
  · exact .inl ⟨rfl, rfl⟩

/-- The tick counts, hops and carries. -/
theorem tmr0Isr_val (s : Dongle) :
    val (tmr0Isr s) =
      { val (hop { s with cntr := s.cntr + 1, clock := s.clock.count }) with
        clock := (val (hop { s with cntr := s.cntr + 1, clock := s.clock.count })).clock.carry } := rfl

theorem tmr0Isr_log (s : Dongle) :
    log (tmr0Isr s) = log (hop { s with cntr := s.cntr + 1, clock := s.clock.count }) := by
  rw [tmr0Isr, log_bind, log_pure, List.append_nil]

variable {t : Tuned}

/-- What leaves the channel and the period keeps the invariant. -/
theorem LegalChannel.keep (h : LegalChannel t) {t' : Tuned} (hchan : t'.dongle.curChan = t.dongle.curChan)
    (hperiod : t'.dongle.hopSpd = t.dongle.hopSpd) (hlast : t'.last = t.last) : LegalChannel t' where
  range := by
    rw [hchan]
    exact h.range
  known := by
    rw [hlast, hchan]
    exact h.known
  period := by
    rw [hperiod]
    exact h.period

theorem LegalChannel.tick (h : LegalChannel t) : LegalChannel (tunedStep t .tick) := by
  have hlast : (tunedStep t .tick).last = (lastChannel (radioEvents (log (tmr0Isr t.dongle)))).or t.last := rfl
  have hdongle : (tunedStep t .tick).dongle = val (tmr0Isr t.dongle) := rfl
  rw [tmr0Isr_log] at hlast
  rw [tmr0Isr_val] at hdongle
  cases hop_cases { t.dongle with cntr := t.dongle.cntr + 1, clock := t.dongle.clock.count } with
  | inl hstays =>
    obtain ⟨hval, hradio⟩ := hstays
    rw [hval] at hdongle
    rw [hradio] at hlast
    exact h.keep (by simp only [hdongle]) (by simp only [hdongle]) hlast
  | inr hhops =>
    obtain ⟨hval, hradio⟩ := hhops
    rw [hval] at hdongle
    rw [hradio] at hlast
    refine ⟨?_, ?_, ?_⟩
    · rw [hdongle]
      exact nextChan_le _
    · rw [hlast, hdongle]
      rfl
    · rw [hdongle]
      exact h.period

/-- A command that passes the radio no wrong channel keeps the invariant. -/
theorem LegalChannel.command (h : LegalChannel t) {cmd : List UInt8} {env : SendEnv}
    (hok : ChannelOk (.command cmd env)) : LegalChannel (tunedStep t (.command cmd env)) := by
  have hlast : (tunedStep t (.command cmd env)).last =
      (lastChannel (radioEvents (log (processCmd t.dongle cmd env)))).or t.last := rfl
  have hdongle : (tunedStep t (.command cmd env)).dongle = val (processCmd t.dongle cmd env) := rfl
  rw [processCmd, carryOut_radioEvents] at hlast
  rw [processCmd, carryOut_val] at hdongle
  cases hparse : parseCmd t.dongle.monitorMode cmd with
  | channel ch =>
    obtain ⟨htakes, rfl⟩ := parseCmd_channel_iff.mp hparse
    obtain ⟨h0, h15⟩ := hok htakes
    simp only [hparse] at hlast hdongle
    refine ⟨?_, ?_, ?_⟩
    · rw [hdongle]
      exact ofInt_le h0 h15
    · rw [hlast, hdongle]
      have hnat := toNat_ofInt (atoi (cmd.drop 9))
      have hsame : atoi (cmd.drop 9) = ((UInt8.ofInt (atoi (cmd.drop 9))).toNat : Int) := by omega
      exact congrArg some hsame
    · rw [hdongle]
      exact h.period
  | chanhop tmp =>
    rw [hparse] at hlast hdongle
    refine ⟨?_, ?_, ?_⟩
    · rw [hdongle]
      exact h.range
    · rw [hlast, hdongle]
      exact h.known
    · rw [hdongle]
      by_cases hperiod : tmp > 5 ∧ tmp < 180
      · simp only [if_pos hperiod]
        exact .inr (ofInt_period hperiod.1 hperiod.2)
      · simp only [if_neg hperiod]
        exact h.period
  | _ =>
    rw [hparse] at hlast hdongle
    exact h.keep (by simp only [hdongle]) (by simp only [hdongle]) hlast

/-- A `:channel` that is executed with another argument breaks the invariant. -/
theorem not_legalChannel {cmd : List UInt8} {env : SendEnv} (htakes : TakesChannel cmd)
    (h : LegalChannel (tunedStep t (.command cmd env))) : 0 ≤ atoi (cmd.drop 9) ∧ atoi (cmd.drop 9) ≤ 15 := by
  have hparse : parseCmd t.dongle.monitorMode cmd = .channel (atoi (cmd.drop 9)) :=
    parseCmd_channel_iff.mpr ⟨htakes, rfl⟩
  have hknown := h.known
  have hrange := h.range
  have hval : (tunedStep t (.command cmd env)).dongle.curChan = UInt8.ofInt (atoi (cmd.drop 9)) := by
    simp only [tunedStep, Tuned.after, processCmd, carryOut_val, hparse]
  have hlast : (tunedStep t (.command cmd env)).last = some (atoi (cmd.drop 9)) := by
    simp only [tunedStep, Tuned.after, processCmd, carryOut_radioEvents, hparse]
    rfl
  rw [hlast, hval, Option.some.injEq] at hknown
  rw [hval, UInt8.le_iff_toNat_le, show MAX_CHAN.toNat = 15 from rfl] at hrange
  omega

/-! ## Runs -/

variable {σ τ : Type} (nvm : Nvm σ τ) (stack : Mem UInt8) (s : σ) (pk : Paquet)

theorem legalChannel_boot : LegalChannel (.boot nvm stack s pk) where
  range := UInt8.le_iff_toNat_le.mpr (Nat.zero_le _)
  known := rfl
  period := .inl rfl

/-- **When the dongle always knows a legal channel**: every `:channel` it
executes has one of the channels as its argument. -/
theorem legalChannel_iff (steps : List DongleStep) :
    (∀ pre, pre <+: steps → LegalChannel (run tunedStep (.boot nvm stack s pk) pre)) ↔
      ∀ step ∈ steps, ChannelOk step := by
  constructor
  · intro h step hmem
    obtain ⟨pre, post, rfl⟩ := List.append_of_mem hmem
    cases step with
    | tick => trivial
    | command cmd env =>
      intro htakes
      have hafter := h (pre ++ [.command cmd env]) ⟨post, by simp⟩
      rw [run_append, run_cons, run_nil] at hafter
      exact not_legalChannel htakes hafter
  · rintro h pre ⟨post, rfl⟩
    have hguard : Guarded tunedStep (fun _ step => ChannelOk step) (.boot nvm stack s pk) pre :=
      .of_forall fun step hmem _ => h step (List.mem_append_left _ hmem)
    refine Guarded.invariant (fun t step ht hok => ?_) (legalChannel_boot nvm stack s pk) hguard
    cases step with
    | tick => exact ht.tick
    | command cmd env => exact ht.command hok

/-- `:channel 99` tunes the radio to a channel there is not. -/
theorem channel_99 :
    ¬ ∀ pre, pre <+: [.command (ascii ":channel 99") noBuffer] →
      LegalChannel (run tunedStep (.boot flashNvm (fun _ => 0) (fun _ => 0xFF) .zero) pre) := by
  intro h
  have hafter := h _ List.prefix_rfl
  rw [run_cons, run_nil] at hafter
  have htakes : TakesChannel (ascii ":channel 99") := by
    unfold TakesChannel
    decide +kernel
  exact absurd (not_legalChannel htakes hafter).2 (by decide +kernel)

end OflMetrics
