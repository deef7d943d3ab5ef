/-
The console of `oflomniradio.c`: `process_cmd`, and the part of `main`'s loop
for a character from the serial port.

The other part of the loop, which prints the decoded messages, is
`drainStep`; the two share no state.
-/
import OflMetrics.CommandLine
import OflMetrics.Embed.CString
import OflMetrics.Embed.Printf
import OflMetrics.Omniradio.Receiver

namespace OflMetrics

open Embed Embed.Traced Embed.CString

/-- The state of the console. -/
structure Console where
  dbg : UInt8
  buffer : CommandBuffer

/-- What the console does. -/
inductive ConsoleEvent where
  | putstr (text : List UInt8)
  | processCmd (cmd : List UInt8)

namespace Console

/-- Before the loop, over what the memory of `cmd_data` held. -/
def boot (stack : Mem UInt8) : Console := { dbg := 0, buffer := .boot stack }

/-- `putstr(my_itoa(i,tmp))` -/
def putItoa (i : Int) : ConsoleEvent := .putstr ((Printf.decInt i).map Char.toUInt8)

/-- One of the lines of `:info`. -/
def putRange (name : String) (x : Int) : List ConsoleEvent :=
  [.putstr (ascii name), putItoa (LOLO x PRECISION), .putstr (ascii ">"), putItoa (HIHI x PRECISION),
    .putstr (ascii "\r\n")]

/-- `process_cmd`. -/
def processCmd (t : Console) (cmd : List UInt8) : Traced ConsoleEvent Console :=
  if ascii "?" <+: cmd then do
    tell [.putstr (ascii ":help            Display help\r\n"),
      .putstr (ascii ":state           Dump internal state\r\n"),
      .putstr (ascii ":dbg           Dump internal state\r\n"),
      .putstr (ascii ":selftest        Self-test the unit\r\n"),
      .putstr (ascii ":showconfig      Display config\r\n"),
      .putstr (ascii ":info      Display informations\r\n")]
    return t
  else if ascii ":state" <:+: cmd then do
    tell [.putstr (ascii "OK State informations\r\n")]
    return t
  else if ascii ":dbg" <:+: cmd then
    if t.dbg ≠ 0 then do
      tell [.putstr (ascii "OK No Debug Disabled\r\n")]
      return { t with dbg := 0 }
    else do
      tell [.putstr (ascii "OK Debug Enabled\r\n")]
      return { t with dbg := 1 }
  else if ascii ":selftest" <:+: cmd then do
    tell [.putstr (ascii "OK selftest\r\n")]
    return t
  else if ascii ":info" <:+: cmd then do
    tell [.putstr (ascii "OK info\r\n")]
    tell (putRange "Range for 275: " 275)
    tell (putRange "Range for 1225: " 1225)
    return t
  else if ascii ":show_config" <:+: cmd then do
    tell [.putstr (ascii "OK showing configuration\r\n")]
    return t
  else do
    tell [.putstr (ascii "ERROR: Unknown command\r\n")]
    return t

/-- The part of the loop for a character from the serial port. -/
def receiveChar (t : Console) (c : UInt8) : Traced ConsoleEvent Console :=
  let (buffer, action) := t.buffer.receive c
  match action with
  | .tooLong => do
    tell [.putstr (ascii "Command too long\r\n")]
    return { t with buffer }
  | .process cmd => do
    tell [.putstr (ascii "\r\n")]
    tell [.processCmd cmd]
    let t ← t.processCmd cmd
    return { t with buffer }
  | .echo c => do
    tell [.putstr [c]]
    return { t with buffer }

/-- The loop, for the characters it receives. -/
def run (t : Console) : List UInt8 → Traced ConsoleEvent Console
  | [] => return t
  | c :: cs => do
    let t ← t.receiveChar c
    t.run cs

/-! ## What reaches `process_cmd` -/

/-- The strings a log passes to `process_cmd`. -/
def processed (l : List ConsoleEvent) : List (List UInt8) :=
  l.filterMap fun | .processCmd cmd => some cmd | .putstr _ => none

@[simp] theorem processed_append (l l' : List ConsoleEvent) : processed (l ++ l') = processed l ++ processed l' :=
  List.filterMap_append

theorem processCmd_processed (t : Console) (cmd : List UInt8) : processed (log (t.processCmd cmd)) = [] := by
  unfold processCmd
  simp only [log_ite]
  repeat' split
  all_goals rfl

theorem receiveChar_buffer (t : Console) (c : UInt8) :
    (val (t.receiveChar c)).buffer = (t.buffer.receive c).1 := by
  simp only [receiveChar]
  cases (t.buffer.receive c).2 <;> rfl

theorem receiveChar_processed (t : Console) (c : UInt8) :
    processed (log (t.receiveChar c)) = passed [(t.buffer.receive c).2] := by
  simp only [receiveChar]
  cases (t.buffer.receive c).2 with
  | tooLong | echo => rfl
  | process cmd =>
    simp only [log_bind, processed_append, processCmd_processed]
    rfl

/-- The console passes on what its buffer does. -/
theorem run_processed (t : Console) (cs : List UInt8) :
    processed (log (t.run cs)) = passed (serialActions t.buffer cs) := by
  induction cs generalizing t with
  | nil => rfl
  | cons c cs ih =>
    have hrest := ih (val (t.receiveChar c))
    rw [receiveChar_buffer] at hrest
    rw [run, log_bind, processed_append, receiveChar_processed, hrest, serialActions]
    exact (List.filterMap_append (l := [(t.buffer.receive c).2])).symm

end Console

end OflMetrics
