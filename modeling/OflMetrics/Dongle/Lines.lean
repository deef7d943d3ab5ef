/-
Which strings reach `process_cmd`, in the dongle and in the omniradio, of all
that arrives on the serial port.

Both programs pass on what their command buffer makes of the characters
(`dongleRun_processed`, `Console.run_processed`), and the buffer throws a
line's first 256 characters away and goes on collecting, so a longer line is
executed from there (`whole_lines_iff`).
-/
import OflMetrics.Dongle.FirmwareFacts
import OflMetrics.Omniradio.Console

namespace OflMetrics

open Embed Embed.Traced Embed.CString

/-- The characters that arrive in some turns of the loop. -/
def serialBytes (is : List LoopInput) : List UInt8 := is.filterMap fun i => i.serial.map (·.1)

/-- The dongle passes on what its buffer does, whatever it receives meanwhile. -/
theorem dongleRun_processed (s : Dongle) (is : List LoopInput) :
    processed (log (dongleRun s is)) = passed (serialActions s.buffer (serialBytes is)) := by
  induction is generalizing s with
  | nil => rfl
  | cons i is ih =>
    have hrest := ih (val (dongleLoop s i))
    have hbuffer := receivePacket_buffer s i.rxPacket
    rw [dongleRun_cons_log, processed_append, hrest, (dongleLoop_effects s i).2, dongleLoop_val]
    obtain ⟨rxPacket, serial⟩ := i
    cases serial with
    | none =>
      rw [receiveChar, log_pure, val_pure, hbuffer]
      rfl
    | some b =>
      rw [receiveChar_val, receiveChar_processed, hbuffer]
      exact (List.filterMap_append (l := [(s.buffer.receive b.1).2])).symm

/-- **When only whole lines are executed**, in either program, whatever the
dongle receives meanwhile: every line that does not fit has 255 characters
more than a multiple of 256. -/
theorem whole_lines_iff (myconfig : ConfigT) (pk : Paquet) (stack stack' : Mem UInt8) (is : List LoopInput)
    (h : ∀ c ∈ serialBytes is, c ≠ 0) :
    (processed (log (dongleRun (.boot myconfig pk stack) is)) = (lines IsTerminator (serialBytes is)).filter Fits ↔
        ∀ l ∈ lines IsTerminator (serialBytes is), l.length ≤ 254 ∨ l.length % 256 = 255) ∧
      (Console.processed (log ((Console.boot stack').run (serialBytes is))) =
          (lines IsTerminator (serialBytes is)).filter Fits ↔
        ∀ l ∈ lines IsTerminator (serialBytes is), l.length ≤ 254 ∨ l.length % 256 = 255) := by
  rw [dongleRun_processed, Console.run_processed]
  exact ⟨passed_boot_iff h stack, passed_boot_iff h stack'⟩

/-- `:info`, with LF. -/
def infoTyped : List LoopInput := typed ((ascii ":info\n").map (·, noBuffer))

/-- `:info`, with LF, behind 256 other characters. -/
def lateInfoTyped : List LoopInput := typed ((List.replicate 256 120 ++ ascii ":info\n").map (·, noBuffer))

theorem whole_lines_info :
    processed (log (dongleRun sampleDongle infoTyped)) = [ascii ":info"] := by
  have hiff := (whole_lines_iff sampleConfig .zero (fun _ => 0) (fun _ => 0) infoTyped (by decide +kernel)).1
  have hshort : ∀ l ∈ lines IsTerminator (serialBytes infoTyped), l.length ≤ 254 ∨ l.length % 256 = 255 := by decide
  exact (hiff.mpr hshort).trans (by decide)

/-- The 256 characters do not reach `process_cmd`; `:info` does. -/
theorem tail_executed :
    processed (log (dongleRun sampleDongle lateInfoTyped)) ≠
      (lines IsTerminator (serialBytes lateInfoTyped)).filter Fits := by
  have hchars : ∀ c ∈ serialBytes lateInfoTyped, c ≠ 0 := by decide +kernel
  rw [dongleRun_processed, show sampleDongle.buffer = .boot fun _ => 0 from rfl]
  intro h
  exact absurd ((passed_boot_iff hchars fun _ => 0).mp h) (by decide +kernel)

end OflMetrics
