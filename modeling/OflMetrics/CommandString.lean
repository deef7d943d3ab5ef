/-
The command buffer as a C string, in both firmwares, for any bytes from the
serial port.

What the buffer holds is the part of the input since the last terminator, or
since the buffer was last full (`currentLine`), with zeros behind it to the end
of the array (`holds_currentLine`). So no write leaves the array, the 8-bit
`cmd_pos` does not wrap, and the string of a command is of its own line
(`commandString_run`).
-/
import OflMetrics.Dongle.Lines
import OflMetrics.Embed.Run

namespace OflMetrics

open Embed Embed.Traced

/-- The array the buffer indexes. -/
inductive LineBuf where
  | cmdData
  deriving DecidableEq, Repr

namespace CommandBuffer

/-! ## The writes -/

/-- `clear`, with what it writes. -/
def clearT (b : CommandBuffer) : Traced (Access LineBuf) CommandBuffer := do
  let data ← Mem.fillT .cmdData b.data 0 0 CMD_MAXLEN
  return { pos := 0, data }

/-- `append`, with what it writes. -/
def appendT (b : CommandBuffer) (c : UInt8) : Traced (Access LineBuf) CommandBuffer := do
  let data ← Mem.setT .cmdData b.data b.pos.toNat c
  return { pos := b.pos + 1, data }

/-- `receive`, with what it writes. -/
def receiveT (b : CommandBuffer) (c : UInt8) : Traced (Access LineBuf) (CommandBuffer × SerialAction) :=
  if b.pos.toNat = CMD_MAXLEN then do
    let b ← b.clearT
    return (b, .tooLong)
  else if c = 0x0D ∨ c = 0x0A then do
    let cmd := b.cmd
    let b ← b.clearT
    return (b, .process cmd)
  else do
    let b ← b.appendT c
    return (b, .echo c)

/-- With the writes left out it is `receive`. -/
theorem val_receiveT (b : CommandBuffer) (c : UInt8) : val (b.receiveT c) = b.receive c := by
  rw [receiveT, receive, val_ite, val_ite]
  rfl

/-- It clears 255 bytes, or writes one at the position. -/
theorem writes_receiveT (b : CommandBuffer) (c : UInt8) :
    Access.writes .cmdData (log (b.receiveT c)) = Mem.span 0 CMD_MAXLEN ∨
      b.pos.toNat ≠ CMD_MAXLEN ∧ Access.writes .cmdData (log (b.receiveT c)) = [b.pos.toNat] := by
  rw [receiveT]
  by_cases hfull : b.pos.toNat = CMD_MAXLEN
  · rw [if_pos hfull]
    exact .inl (by simp [clearT])
  · rw [if_neg hfull]
    by_cases hend : c = 0x0D ∨ c = 0x0A
    · rw [if_pos hend]
      exact .inl (by simp [clearT])
    · rw [if_neg hend]
      exact .inr ⟨hfull, rfl⟩

/-! ## What the buffer holds -/

/-- The characters of the current line, after one more character. -/
def nextLine (line : List UInt8) (c : UInt8) : List UInt8 :=
  if line.length = CMD_MAXLEN then [] else if IsTerminator c then [] else line ++ [c]

variable {b : CommandBuffer} {l : List UInt8}

theorem Holds.next (h : b.Holds l) (c : UInt8) : (b.receive c).1.Holds (nextLine l c) := by
  simp only [CommandBuffer.receive, nextLine, IsTerminator, h.pos, decide_eq_true_eq]
  by_cases hfull : l.length = CMD_MAXLEN
  · rw [if_pos hfull, if_pos hfull]
    exact h.clear
  · rw [if_neg hfull, if_neg hfull]
    by_cases hend : c = 0x0D ∨ c = 0x0A
    · rw [if_pos hend, if_pos hend]
      exact h.clear
    · rw [if_neg hend, if_neg hend]
      exact h.append (Nat.lt_of_le_of_ne h.fits hfull) c

/-- The string in a buffer: what it holds, up to a zero that was received. -/
theorem Holds.cmd_eq (h : b.Holds l) : b.cmd = l.takeWhile (· ≠ 0) := by
  have hfits := h.fits
  have hend : b.data (0 + l.length) = 0 := by
    rw [Nat.zero_add]
    exact h.zeros _ (Nat.le_refl _) hfits
  rw [CommandBuffer.cmd, Mem.cstr_of_nul (Nat.lt_succ_of_le hfits) hend, h.chars]

/-- The current line, after some characters: those since the last terminator,
or since the buffer was last full. -/
def currentLine (received : List UInt8) : List UInt8 := run nextLine [] received

theorem holds_currentLine (stack : Mem UInt8) (received : List UInt8) :
    (run (fun b c => (receive b c).1) (boot stack) received).Holds (currentLine received) := by
  have hguard : Guarded (fun b c => (receive b c).1) (fun _ _ => True) (boot stack) received :=
    .of_forall fun _ _ _ => trivial
  exact Guarded.simulation (R := Holds) (fun _ _ c h _ => h.next c) (holds_boot stack) hguard

/-- The current line is the end of the input and has no terminator. -/
theorem currentLine_suffix (received : List UInt8) :
    currentLine received <:+ received ∧ ∀ c ∈ currentLine received, IsTerminator c = false := by
  induction received using List.reverseRecOn with
  | nil => exact ⟨List.suffix_rfl, fun c hc => nomatch hc⟩
  | append_singleton received c ih =>
    have hnext : currentLine (received ++ [c]) = nextLine (currentLine received) c := by
      rw [currentLine, run_append, run_cons, run_nil, currentLine]
    have hempty : [] <:+ received ++ [c] ∧ ∀ c ∈ ([] : List UInt8), IsTerminator c = false :=
      ⟨List.nil_suffix, fun c hc => absurd hc List.not_mem_nil⟩
    rw [hnext, nextLine]
    split
    · exact hempty
    · split
      · exact hempty
      · next hterm =>
        obtain ⟨hsuffix, hplain⟩ := ih
        refine ⟨?_, fun x hx => ?_⟩
        · obtain ⟨before, hbefore⟩ := hsuffix
          exact ⟨before, by rw [← List.append_assoc, hbefore]⟩
        · rcases List.mem_append.mp hx with hx | hx
          · exact hplain x hx
          · rw [List.mem_singleton.mp hx]
            exact Bool.eq_false_iff.mpr hterm

/-! ## Any input -/

/-- The buffer is a terminated string whatever character comes next: `received`
is what has come so far. -/
structure Terminated (b : CommandBuffer) (received : List UInt8) : Prop where
  step : ∀ c, val (b.receiveT c) = b.receive c
  writes : ∀ c, ∀ i ∈ Access.writes .cmdData (log (b.receiveT c)), i < 255
  unwrapped : ∀ c, (b.receive c).2 = .echo c → (b.receive c).1.pos.toNat = b.pos.toNat + 1
  zeros : ∀ i, b.pos.toNat ≤ i → i ≤ 255 → b.data i = 0
  ownLine : ∀ c cmd, (b.receive c).2 = .process cmd →
    ∃ line, line <:+ received ∧ (∀ x ∈ line, IsTerminator x = false) ∧ cmd = line.takeWhile (· ≠ 0)

theorem Holds.terminated {received : List UInt8} (h : b.Holds (currentLine received)) : b.Terminated received where
  step := b.val_receiveT
  writes c i hi := by
    cases writes_receiveT b c with
    | inl hclear =>
      rw [hclear] at hi
      exact (Mem.mem_span.mp hi).2
    | inr happend =>
      obtain ⟨hroom, happend⟩ := happend
      have hpos : b.pos.toNat ≤ CMD_MAXLEN := by
        rw [h.pos]
        exact h.fits
      rw [happend, List.mem_singleton] at hi
      rw [hi]
      exact Nat.lt_of_le_of_ne hpos hroom
  unwrapped c hecho := by
    have hpos := h.pos
    have hnext := (h.next c).pos
    rw [nextLine] at hnext
    rw [CommandBuffer.receive, hpos] at hecho
    by_cases hfull : (currentLine received).length = CMD_MAXLEN
    · rw [if_pos hfull] at hecho
      cases hecho
    · rw [if_neg hfull] at hecho hnext
      by_cases hend : c = 0x0D ∨ c = 0x0A
      · rw [if_pos hend] at hecho
        cases hecho
      · rw [if_neg (by simpa [IsTerminator] using hend), List.length_append, List.length_singleton] at hnext
        rw [hnext, hpos]
  zeros i hi hmax := h.zeros i (by rw [← h.pos]; exact hi) hmax
  ownLine c cmd hprocess := by
    obtain ⟨hsuffix, hplain⟩ := currentLine_suffix received
    refine ⟨currentLine received, hsuffix, hplain, ?_⟩
    rw [CommandBuffer.receive, h.cmd_eq] at hprocess
    split at hprocess
    · cases hprocess
    · split at hprocess
      · cases hprocess
        rfl
      · cases hprocess

end CommandBuffer

open CommandBuffer in
theorem dongleRun_buffer (s : Dongle) (is : List LoopInput) :
    (val (dongleRun s is)).buffer = run (fun b c => (receive b c).1) s.buffer (serialBytes is) := by
  induction is generalizing s with
  | nil => rfl
  | cons i is ih =>
    have hbuffer := receivePacket_buffer s i.rxPacket
    rw [dongleRun, val_bind, ih, dongleLoop_val]
    obtain ⟨rxPacket, serial⟩ := i
    cases serial with
    | none =>
      rw [receiveChar, val_pure, hbuffer]
      rfl
    | some b =>
      rw [receiveChar_val, hbuffer]
      rfl

open CommandBuffer in
theorem Console.run_buffer (t : Console) (cs : List UInt8) :
    (val (t.run cs)).buffer = Embed.run (fun b c => (receive b c).1) t.buffer cs := by
  induction cs generalizing t with
  | nil => rfl
  | cons c cs ih => rw [Console.run, val_bind, ih, receiveChar_buffer, run_cons]

/-- **The command buffer is always a terminated string**, in the dongle,
whatever else it receives, and in the omniradio. -/
theorem commandString_run (s : Dongle) (t : Console) (stack : Mem UInt8) (is : List LoopInput) (cs : List UInt8) :
    (val (dongleRun { s with buffer := .boot stack } is)).buffer.Terminated (serialBytes is) ∧
      (val ({ t with buffer := .boot stack }.run cs)).buffer.Terminated cs := by
  rw [dongleRun_buffer, Console.run_buffer]
  exact ⟨(CommandBuffer.holds_currentLine stack _).terminated, (CommandBuffer.holds_currentLine stack _).terminated⟩

end OflMetrics
