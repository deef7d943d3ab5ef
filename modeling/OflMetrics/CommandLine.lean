/-
The command line of `ofldongle.c` and `oflomniradio.c`: the part of either
`main` that collects the characters from the serial port in `cmd_data` and
calls `process_cmd` at the end of a line. The two are the same but for the
functions they print with.

`receive` is what one character does. Its state is the characters it holds
since the last terminator, less the multiples of 256 it has thrown away
(`held`); so at the end of a line it passes on the line's last characters, or
nothing (`executedPart`). `passed_lines` says this of a whole stream.
-/
import OflMetrics.Embed.Lines
import OflMetrics.Embed.Mem

namespace OflMetrics

open Embed

/-- `CMD_MAXLEN`. -/
def CMD_MAXLEN : Nat := 255

/-- `cmd_pos` and `cmd_data`, of `CMD_MAXLEN + 1` bytes. -/
structure CommandBuffer where
  pos : UInt8
  data : Mem UInt8

/-- What a character makes `main` do. -/
inductive SerialAction where
  /-- The message "Command too long". -/
  | tooLong
  /-- `process_cmd(cmd_data)`. -/
  | process (cmd : List UInt8)
  /-- The echo of the character. -/
  | echo (c : UInt8)
  deriving DecidableEq

namespace CommandBuffer

/-- Before the loop, over what the memory of `cmd_data` held. -/
def boot (stack : Mem UInt8) : CommandBuffer := { pos := 0, data := stack.fill 0 0 (CMD_MAXLEN + 1) }

/-- `cmd_pos=0; memset(cmd_data,0,CMD_MAXLEN);` -/
def clear (b : CommandBuffer) : CommandBuffer := { pos := 0, data := b.data.fill 0 0 CMD_MAXLEN }

/-- `cmd_data[cmd_pos++]=c;` -/
def append (b : CommandBuffer) (c : UInt8) : CommandBuffer :=
  { pos := b.pos + 1, data := Function.update b.data b.pos.toNat c }

/-- The string in `cmd_data`. -/
def cmd (b : CommandBuffer) : List UInt8 := b.data.cstr 0 0 (CMD_MAXLEN + 1)

/-- One character from the serial port. -/
def receive (b : CommandBuffer) (c : UInt8) : CommandBuffer × SerialAction :=
  if b.pos.toNat = CMD_MAXLEN then (b.clear, .tooLong)
  else if c = 0x0D ∨ c = 0x0A then (b.clear, .process b.cmd)
  else (b.append c, .echo c)

end CommandBuffer

/-- What the characters of a stream make `main` do, in order. -/
def serialActions (b : CommandBuffer) : List UInt8 → List SerialAction
  | [] => []
  | c :: cs => (b.receive c).2 :: serialActions (b.receive c).1 cs

/-- The strings passed to `process_cmd`. -/
def passed (l : List SerialAction) : List (List UInt8) :=
  l.filterMap fun | .process cmd => some cmd | _ => none

/-! ## The buffer -/

/-- `b` holds the characters `l`, and zeros behind them. -/
structure CommandBuffer.Holds (b : CommandBuffer) (l : List UInt8) : Prop where
  fits : l.length ≤ CMD_MAXLEN
  pos : b.pos.toNat = l.length
  chars : b.data.slice 0 l.length = l
  zeros : ∀ i, l.length ≤ i → i ≤ CMD_MAXLEN → b.data i = 0

namespace CommandBuffer

variable {b : CommandBuffer} {l : List UInt8}

theorem holds_boot (stack : Mem UInt8) : (boot stack).Holds [] where
  fits := Nat.zero_le _
  pos := rfl
  chars := Mem.slice_zero ..
  zeros i _ hi := by simp [boot, Mem.fill, Nat.lt_succ_of_le hi]

theorem Holds.clear (h : b.Holds l) : b.clear.Holds [] where
  fits := Nat.zero_le _
  pos := rfl
  chars := Mem.slice_zero ..
  zeros i _ hi := by
    rcases Nat.lt_or_ge i CMD_MAXLEN with hlt | hge
    · simp [CommandBuffer.clear, Mem.fill, hlt]
    · -- The last byte is not cleared; it is never written either.
      have hlast : i = CMD_MAXLEN := Nat.le_antisymm hi hge
      subst hlast
      have hzero := h.zeros CMD_MAXLEN h.fits (Nat.le_refl _)
      simpa [CommandBuffer.clear, Mem.fill] using hzero

theorem Holds.cmd (h : b.Holds l) (hl : ∀ c ∈ l, c ≠ 0) : b.cmd = l := by
  have hfits := h.fits
  refine Mem.cstr_eq h.chars ?_ hl (Nat.lt_succ_of_le hfits)
  rw [Nat.zero_add]
  exact h.zeros _ (Nat.le_refl _) hfits

theorem Holds.append (h : b.Holds l) (hl : l.length < CMD_MAXLEN) (c : UInt8) : (b.append c).Holds (l ++ [c]) where
  fits := by rw [List.length_append, List.length_singleton]; exact hl
  pos := by
    have hmod : (l.length + 1) % 2 ^ 8 = l.length + 1 := Nat.mod_eq_of_lt (by simp only [CMD_MAXLEN] at hl; omega)
    rw [CommandBuffer.append, UInt8.toNat_add, h.pos, List.length_append, List.length_singleton]
    exact hmod
  chars := by
    rw [CommandBuffer.append, h.pos, List.length_append, List.length_singleton, Mem.slice_add,
      Mem.slice_update_other (.inr (by omega)), h.chars, Mem.slice_succ]
    simp
  zeros i hi hmax := by
    rw [List.length_append, List.length_singleton] at hi
    have hother : i ≠ b.pos.toNat := by
      rw [h.pos]
      omega
    have hsame : (b.append c).data i = b.data i := by simp [CommandBuffer.append, hother]
    rw [hsame]
    exact h.zeros i (by omega) hmax

/-- What a character does to a buffer that holds `l`. -/
theorem Holds.receive (h : b.Holds l) (hl : ∀ c ∈ l, c ≠ 0) (c : UInt8) :
    b.receive c =
      if l.length = CMD_MAXLEN then (b.clear, .tooLong)
      else if c = 0x0D ∨ c = 0x0A then (b.clear, .process l)
      else (b.append c, .echo c) := by
  rw [CommandBuffer.receive, h.pos, h.cmd hl]

end CommandBuffer

/-! ## Lines -/

/-- CR and LF. -/
def IsTerminator (c : UInt8) : Bool := c = 0x0D ∨ c = 0x0A

/-- What the buffer holds of the characters of a line: every 256th empties it. -/
def held (l : List UInt8) : List UInt8 := l.drop (l.length / 256 * 256)

theorem length_held (l : List UInt8) : (held l).length = l.length % 256 := by
  rw [held, List.length_drop]
  omega

theorem held_push {l : List UInt8} (h : l.length % 256 ≠ 255) (c : UInt8) : held (l ++ [c]) = held l ++ [c] := by
  have hsame : (l.length + 1) / 256 = l.length / 256 := by omega
  rw [held, held, List.length_append, List.length_singleton, hsame, List.drop_append_of_le_length (by omega)]

theorem held_full {l : List UInt8} (h : l.length % 256 = 255) (c : UInt8) : held (l ++ [c]) = [] := by
  rw [held, List.drop_eq_nil_iff, List.length_append, List.length_singleton]
  omega

theorem held_short {l : List UInt8} (h : l.length ≤ 254) : held l = l := by
  rw [held, show l.length / 256 = 0 by omega, Nat.zero_mul, List.drop_zero]

theorem mem_of_mem_held {l : List UInt8} {c : UInt8} (h : c ∈ held l) : c ∈ l := List.mem_of_mem_drop h

/-- What is passed on at the end of a line. -/
def executedPart (l : List UInt8) : Option (List UInt8) := if l.length % 256 = 255 then none else some (held l)

theorem executedPart_short {l : List UInt8} (h : l.length ≤ 254) : executedPart l = some l := by
  rw [executedPart, if_neg (by omega), held_short h]

/-- **What is passed on of a stream**: the part `executedPart` of each line. -/
theorem passed_lines {cs cur : List UInt8} (hcs : ∀ c ∈ cs, c ≠ 0) (hcur : ∀ c ∈ cur, c ≠ 0) {b : CommandBuffer}
    (h : b.Holds (held cur)) : passed (serialActions b cs) = (linesFrom IsTerminator cur cs).filterMap executedPart := by
  induction cs generalizing cur b with
  | nil => rfl
  | cons c cs ih =>
    have hheld : ∀ c ∈ held cur, c ≠ 0 := fun x hx => hcur x (mem_of_mem_held hx)
    have hrest : ∀ c ∈ cs, c ≠ 0 := fun x hx => hcs x (List.mem_cons_of_mem _ hx)
    have hnext : ∀ x ∈ cur ++ [c], x ≠ 0 := by
      intro x hx
      rcases List.mem_append.mp hx with hx | hx
      · exact hcur x hx
      · exact hcs x (List.mem_cons.mpr (.inl (List.mem_singleton.mp hx)))
    have hcleared : b.clear.Holds (held []) := h.clear
    simp only [serialActions, h.receive hheld, length_held, linesFrom, IsTerminator, decide_eq_true_eq]
    by_cases hfull : cur.length % 256 = CMD_MAXLEN
    · -- The character is lost, whatever it is.
      have hpart : executedPart cur = none := if_pos hfull
      by_cases hend : c = 0x0D ∨ c = 0x0A
      · have htail := ih hrest (fun x hx => absurd hx List.not_mem_nil) hcleared
        simpa [hfull, hend, passed, hpart, List.filterMap_cons] using htail
      · have hempty : b.clear.Holds (held (cur ++ [c])) := by
          rw [held_full hfull]
          exact h.clear
        have htail := ih hrest hnext hempty
        simpa [hfull, hend, passed, List.filterMap_cons] using htail
    · by_cases hend : c = 0x0D ∨ c = 0x0A
      · have hpart : executedPart cur = some (held cur) := if_neg hfull
        have htail := ih hrest (fun x hx => absurd hx List.not_mem_nil) hcleared
        simpa [hfull, hend, passed, hpart, List.filterMap_cons] using htail
      · have hroom : (held cur).length < CMD_MAXLEN := by
          rw [length_held]
          simp only [CMD_MAXLEN] at hfull ⊢
          omega
        have hpush : (b.append c).Holds (held (cur ++ [c])) := by
          rw [held_push hfull]
          exact h.append hroom c
        have htail := ih hrest hnext hpush
        simpa [hfull, hend, passed, List.filterMap_cons] using htail

/-- A line that can be passed on as it is. -/
def Fits (l : List UInt8) : Bool := l.length ≤ 254

theorem executedPart_eq_none {l : List UInt8} : executedPart l = none ↔ l.length % 256 = 255 := by
  unfold executedPart
  split
  · next h => exact iff_of_true rfl h
  · next h => exact iff_of_false (Option.some_ne_none _) h

/-- From the boot on, what is passed on are the lines that fit exactly when a
longer line fills the buffer at its end. -/
theorem passed_boot_iff {cs : List UInt8} (hcs : ∀ c ∈ cs, c ≠ 0) (stack : Mem UInt8) :
    passed (serialActions (.boot stack) cs) = (lines IsTerminator cs).filter Fits ↔
      ∀ l ∈ lines IsTerminator cs, l.length ≤ 254 ∨ l.length % 256 = 255 := by
  have hpassed := passed_lines hcs (fun c hc => absurd hc List.not_mem_nil) (CommandBuffer.holds_boot stack)
  have hfits : ∀ l, Fits l = true → executedPart l = some l := fun l h => executedPart_short (of_decide_eq_true h)
  rw [hpassed, lines, filterMap_eq_filter_iff hfits]
  simp only [executedPart_eq_none, Fits, decide_eq_true_eq]

end OflMetrics
