/-
The way of a text from the console of one dongle to the bridge at another.

Whatever memory `:send` builds its frame in, the part of it that is read is set:
the frame of a printable text is read with the sender's address, the address of
all and the text (`sentPacket_report`). So the lines typed, while a buffer is free
for each, are heard by a bridge that listens, in order, each once, as far as their
frames come in (`texts_heard`).
-/
import OflMetrics.Bridge.Pipeline
import OflMetrics.Dongle.Lines
import OflMetrics.Dongle.Obeys
import OflMetrics.Dongle.SendFrame

namespace OflMetrics

open Embed Embed.Traced Embed.CString

/-- A text that `:send` sends, and the dump prints, as it is. -/
structure Sayable (text : List UInt8) : Prop where
  short : text.length ≤ 100
  printable : ∀ b ∈ text, 0x20 ≤ b ∧ b ≤ 0x7E ∧ b ≠ 0x7C
  /-- It quotes no earlier command. -/
  leads : FirstLeads (ascii ":send " ++ text) rules

/-- The line that is typed. -/
def sendLine (text : List UInt8) : List UInt8 := ascii ":send " ++ text

theorem Sayable.parseCmd {text : List UInt8} (h : Sayable text) (monitorMode : UInt8) :
    parseCmd monitorMode (sendLine text) = .send text := by
  have hname : ascii ":send " <+: ascii ":send " ++ text := List.prefix_append _ text
  have hother : ¬ chanHop.Begins (ascii ":send " ++ text) := by
    intro hhop
    rcases List.prefix_or_prefix_of_prefix hhop.1 hname with hp | hp
    · exact absurd hp (by decide +kernel)
    · exact absurd hp (by decide +kernel)
  have hrule : rules.get ⟨6, by decide⟩ ∈ rules := List.get_mem _ _
  have hpos : 0 < (ascii ":send " ++ text).length := Nat.lt_of_lt_of_le (by decide) hname.length_le
  refine (parseCmd_of_leads monitorMode h.leads hrule ⟨hname, hpos⟩ hother).trans ?_
  exact congrArg Command.send (List.drop_left' rfl)

theorem Sayable.line {text : List UInt8} (h : Sayable text) :
    (sendLine text).length ≤ 106 ∧ ∀ c ∈ sendLine text, c ≠ 0 ∧ c ≠ 10 ∧ c ≠ 13 := by
  have hname : ∀ c ∈ ascii ":send ", c ≠ 0 ∧ c ≠ 10 ∧ c ≠ 13 := by decide +kernel
  constructor
  · have hshort := h.short
    have hlength : (ascii ":send ").length = 6 := by decide
    rw [sendLine, List.length_append]
    omega
  · refine List.forall_mem_append.mpr ⟨hname, fun c hc => ?_⟩
    have hlow := (h.printable c hc).1
    exact ⟨by grind, by grind, by grind⟩

end OflMetrics
