/-
What the thermometer sees of the driver: the level of the line, microsecond by
microsecond, and its low pulses.

A thermometer that samples the line any time from 7 to 59 microseconds after it
falls takes the driver's pulses for what they are meant to be
(`ds1820_conversation`): a reset and two commands, another reset and two
commands, and a slot for each bit that is read.

`delayMicroseconds(n)` is taken to last exactly `n` microseconds, and all else no
time: no interrupt and no instruction between two delays stretches a pulse.
-/
import OflMetrics.Embed.Pulses
import OflMetrics.Thermometer.Ds1820

namespace OflMetrics

open Embed Embed.Traced

/-! ## The line -/

/-- The pin: its direction, and the level it drives as an output. -/
structure Pin where
  output : Bool
  data : Bool

/-- The level of the line: an input leaves it to the pull-up. -/
def Pin.level (s : Pin) : Bool := !s.output || s.data

/-- What an event does to the pin `p`. -/
def Pin.event (p : UInt8) (s : Pin) : PinEvent → Pin
  | .setPinGpio pin output => if pin = p then { s with output } else s
  | .digitalWrite pin val => if pin = p then { s with data := if val = 0 then false else if val = 1 then true else s.data } else s
  | .digitalRead _ | .delayMicroseconds _ => s

/-- The line at `p`, microsecond by microsecond, when a delay lasts what it says and
what comes between takes no time. -/
def wave (p : UInt8) : Pin → List PinEvent → List Bool
  | _, [] => []
  | s, .delayMicroseconds d :: es => List.replicate d.toNat s.level ++ wave p s es
  | s, e :: es => wave p (s.event p e) es

/-- The pulses of a log, and the pin behind it, whatever follows. -/
def Pulses (p : UInt8) (s s' : Pin) (es : List PinEvent) (ws : List Nat) : Prop :=
  ∀ rest, lowPulses 0 (wave p s (es ++ rest)) = ws ++ lowPulses 0 (wave p s' rest)

theorem Pulses.nil (p : UInt8) (s : Pin) : Pulses p s s [] [] := fun _ => rfl

theorem Pulses.append {p : UInt8} {s s₁ s₂ : Pin} {es es' : List PinEvent} {ws ws' : List Nat} (h : Pulses p s s₁ es ws)
    (h' : Pulses p s₁ s₂ es' ws') : Pulses p s s₂ (es ++ es') (ws ++ ws') := by
  intro rest
  rw [List.append_assoc, h, h', List.append_assoc]

/-- The whole of a log. -/
theorem Pulses.all {p : UInt8} {s s' : Pin} {es : List PinEvent} {ws : List Nat} (h : Pulses p s s' es ws) :
    lowPulses 0 (wave p s es) = ws := by
  have hall := h []
  have hnil : lowPulses 0 (wave p s' []) = [] := rfl
  rwa [List.append_nil, hnil, List.append_nil] at hall

/-! ## The parts of the driver -/

/-- The pin that holds the line high. -/
def Pin.high : Pin := { output := true, data := true }

/-- The pin between two bits that are read. -/
def Pin.released : Pin := { output := false, data := false }

theorem pulses_reset (p : UInt8) (s : Pin) : Pulses p s .high (log (oneWireReset p)) [500] := by
  intro rest
  simp only [oneWireReset, log_bind, log_tell, List.cons_append, List.nil_append, wave, Pin.event, if_true, Pin.level]
  exact lowPulses_pulse (n := 500) (m := 500) (by decide) (by decide) _

/-- The width of the pulse for a bit. -/
def bitWidth (b : Bool) : Nat := if b then 7 else 60

theorem pulses_outBits (p : UInt8) (n : Nat) (d : UInt8) :
    Pulses p .high .high (log (oneWireOutBits p n d)) (((List.range n).map d.toBitVec.getLsbD).map bitWidth) := by
  induction n generalizing d with
  | zero => exact .nil p _
  | succ n ih =>
    have hrest : ((List.range (n + 1)).map d.toBitVec.getLsbD).map bitWidth =
        bitWidth (d.toBitVec.getLsbD 0) :: ((List.range n).map (d >>> 1).toBitVec.getLsbD).map bitWidth := by
      have hshift : d.toBitVec.getLsbD ∘ Nat.succ = (d >>> 1).toBitVec.getLsbD := by
        funext i
        simp [Nat.add_comm 1 i]
      rw [List.range_succ_eq_map, List.map_cons, List.map_cons, ← hshift, ← List.map_map]
    have hone : Pulses p .high .high [.digitalWrite p 0, .delayMicroseconds 7, .digitalWrite p 1, .delayMicroseconds 64] [7] := by
      intro rest
      simp only [List.cons_append, List.nil_append, wave, Pin.event, if_true, Pin.level, Pin.high]
      exact lowPulses_pulse (n := 7) (m := 64) (by decide) (by decide) _
    have hzero : Pulses p .high .high [.digitalWrite p 0, .delayMicroseconds 60, .digitalWrite p 1, .delayMicroseconds 10] [60] := by
      intro rest
      simp only [List.cons_append, List.nil_append, wave, Pin.event, if_true, Pin.level, Pin.high]
      exact lowPulses_pulse (n := 60) (m := 10) (by decide) (by decide) _
    rw [hrest]
    simp only [oneWireOutBits, byte_and_one, log_bind, log_ite, log_tell]
    cases d.toBitVec.getLsbD 0 with
    | true => exact hone.append (ih (d >>> 1))
    | false => exact hzero.append (ih (d >>> 1))

theorem pulses_outByte (p d : UInt8) : Pulses p .high .high (log (oneWireOutByte p d)) ((byteBits d).map bitWidth) := by
  have hdir : Pulses p .high .high [.setPinGpio p true] [] := by
    intro rest
    simp only [List.cons_append, List.nil_append, wave, Pin.event, if_true, Pin.high]
  simp only [oneWireOutByte, log_bind, log_tell]
  exact hdir.append (pulses_outBits p 8 d)

theorem pulses_wait (p : UInt8) (n : Nat) (d : UInt16) :
    Pulses p .high .high (List.replicate n (.delayMicroseconds d)) [] := by
  induction n with
  | zero => exact .nil p _
  | succ n ih =>
    intro rest
    rw [List.replicate_succ, List.cons_append, wave, show Pin.high.level = true from rfl, lowPulses_high]
    exact ih rest

/-- Each bit that is read has a slot. -/
theorem pulses_inBits (p : UInt8) (line : Nat → UInt8) (left n : Nat) (d : UInt8) (s : Pin) :
    ∃ s', Pulses p s s' (log (oneWireInBits p line left n d)) (List.replicate left 5) := by
  induction left generalizing n d s with
  | zero => exact ⟨s, .nil p s⟩
  | succ left ih =>
    obtain ⟨s', hrest⟩ := ih (n + 1) ((d >>> 1) ||| (line n <<< 7)) .released
    have hbit : Pulses p s .released [.digitalWrite p 0, .setPinGpio p true, .delayMicroseconds 5, .setPinGpio p false,
        .delayMicroseconds 5, .digitalRead p, .delayMicroseconds 50] [5] := by
      intro rest
      simp only [List.cons_append, List.nil_append, wave, Pin.event, if_true, Pin.level, Pin.released]
      have hpulse := lowPulses_pulse (n := 5) (m := 5) (by decide) (by decide) (List.replicate 50 true ++ wave p .released rest)
      rw [lowPulses_high] at hpulse
      exact hpulse
    exact ⟨s', hbit.append hrest⟩

theorem pulses_readScratchpad (line : Nat → UInt8) (left cc : Nat) (sp : Mem UInt8) (s : Pin) :
    ∃ s', Pulses TEMP_PIN s s' (log (readScratchpad line left cc sp)) (List.replicate (8 * left) 5) := by
  induction left generalizing cc sp s with
  | zero => exact ⟨s, .nil TEMP_PIN s⟩
  | succ left ih =>
    obtain ⟨s₁, hbyte⟩ := pulses_inBits TEMP_PIN (fun n => line (8 * cc + n)) 8 0 0 s
    obtain ⟨s₂, hrest⟩ := ih (cc + 1) (Function.update sp cc (val (oneWireInByte TEMP_PIN fun n => line (8 * cc + n)))) s₁
    refine ⟨s₂, ?_⟩
    rw [show 8 * (left + 1) = 8 + 8 * left by omega, List.replicate_add]
    exact hbyte.append hrest

/-! ## What the thermometer takes them for -/

/-- What a low pulse means. -/
inductive Slot where
  | reset
  | bit (b : Bool)
  deriving DecidableEq

/-- A pulse of `w` microseconds, for a thermometer that samples the line `d`
microseconds after it falls. -/
def slotOf (d w : Nat) : Slot := if 480 ≤ w then .reset else .bit (decide (w ≤ d))

theorem slotOf_bitWidth {d : Nat} (h7 : 7 ≤ d) (h60 : d < 60) (b : Bool) : slotOf d (bitWidth b) = .bit b := by
  cases b with
  | true => rw [slotOf, bitWidth, if_pos rfl, if_neg (by decide), decide_eq_true h7]
  | false => rw [slotOf, bitWidth, if_neg Bool.false_ne_true, if_neg (by decide), decide_eq_false (by omega)]

/-- **The thermometer is told what is meant**, when the delays last what they say
and nothing else takes time: whatever it answers, whatever the
pin was before, and whenever it samples a slot, from 7 to 59 microseconds after
the line falls, it sees a reset, `0xcc` and `0x44`, a reset, `0xcc` and `0xbe`,
and a slot for each of the 72 bits that are read. -/
theorem ds1820_conversation (stack : Mem UInt8) (line : Nat → UInt8) (s : Pin) {d : Nat} (h7 : 7 ≤ d) (h60 : d < 60) :
    (lowPulses 0 (wave TEMP_PIN s (log (ds1820ReadTemp stack line)))).map (slotOf d) =
      .reset :: (messageBits [0xcc, 0x44]).map .bit ++
        (.reset :: (messageBits [0xcc, 0xbe]).map .bit ++ List.replicate 72 (.bit true)) := by
  have hcommand (c c' : UInt8) : Pulses TEMP_PIN .high .high (log (oneWireOutByte TEMP_PIN c) ++ log (oneWireOutByte TEMP_PIN c'))
      ((messageBits [c, c']).map bitWidth) := by
    rw [messageBits, List.flatMap_cons, List.flatMap_singleton, List.map_append]
    exact (pulses_outByte TEMP_PIN c).append (pulses_outByte TEMP_PIN c')
  obtain ⟨s', hread⟩ := pulses_readScratchpad line 9 0 stack .high
  have hlog : log (ds1820ReadTemp stack line) =
      (log (oneWireReset TEMP_PIN) ++ (log (oneWireOutByte TEMP_PIN 0xcc) ++ log (oneWireOutByte TEMP_PIN 0x44))) ++
        (List.replicate 1000 (.delayMicroseconds 1000) ++ (log (oneWireReset TEMP_PIN) ++
          ((log (oneWireOutByte TEMP_PIN 0xcc) ++ log (oneWireOutByte TEMP_PIN 0xbe)) ++ log (readScratchpad line 9 0 stack)))) := by
    simp only [ds1820ReadTemp, log_bind, log_tell, log_pure, List.append_assoc, List.append_nil]
  have hall := ((pulses_reset TEMP_PIN s).append (hcommand 0xcc 0x44)).append
    ((pulses_wait TEMP_PIN 1000 1000).append ((pulses_reset TEMP_PIN .high).append ((hcommand 0xcc 0xbe).append hread)))
  have hreset : slotOf d 500 = .reset := if_pos (by decide)
  have hbits : slotOf d ∘ bitWidth = .bit := funext (slotOf_bitWidth h7 h60)
  have hslot : slotOf d 5 = .bit true := by
    rw [slotOf, if_neg (by decide), decide_eq_true (by omega)]
  rw [hlog, hall.all]
  simp only [List.map_append, List.map_cons, List.map_map, List.map_replicate, hreset, hbits, hslot,
    List.cons_append, List.nil_append, Nat.reduceMul]

/-- It samples 15 microseconds after the line falls. -/
theorem ds1820_conversation_typical :
    (lowPulses 0 (wave TEMP_PIN .high (log (ds1820ReadTemp (fun _ => 0) fun _ => 0)))).map (slotOf 15) =
      .reset :: (messageBits [0xcc, 0x44]).map .bit ++
        (.reset :: (messageBits [0xcc, 0xbe]).map .bit ++ List.replicate 72 (.bit true)) :=
  ds1820_conversation (fun _ => 0) (fun _ => 0) .high (by decide) (by decide)

end OflMetrics
