/-
What the parts of the dongle's firmware do, part by part: the state a command
leaves, and of what it logs the radio events, the frames it sends and the
commands it passes on.
-/
import OflMetrics.Dongle.Firmware
import OflMetrics.PaquetFacts

namespace OflMetrics

open Embed Embed.Traced

/-- What a log asks of the radio driver. -/
def radioEvents (l : List DongleEvent) : List RadioEvent :=
  l.filterMap fun | .radio e => some e | _ => none

/-- The frames a log sends. -/
def sentFrames (l : List DongleEvent) : List Packet :=
  l.filterMap fun | .txPacket _ pk => some pk | _ => none

/-- The strings a log passes to `process_cmd`. -/
def processed (l : List DongleEvent) : List (List UInt8) :=
  l.filterMap fun | .processCmd cmd => some cmd | _ => none

@[simp] theorem radioEvents_append (l l' : List DongleEvent) :
    radioEvents (l ++ l') = radioEvents l ++ radioEvents l' := List.filterMap_append

@[simp] theorem sentFrames_append (l l' : List DongleEvent) : sentFrames (l ++ l') = sentFrames l ++ sentFrames l' :=
  List.filterMap_append

@[simp] theorem processed_append (l l' : List DongleEvent) : processed (l ++ l') = processed l ++ processed l' :=
  List.filterMap_append

/-- An event of a command's branch that only prints. -/
def DongleEvent.isOutput : DongleEvent → Bool
  | .print _ | .dumpHex _ _ | .selftestXtea | .dumpConfig _ | .cmdInfo | .checkMaca | .freePacket _ => true
  | .radio _ | .processCmd _ | .txPacket _ _ => false

theorem of_isOutput {l : List DongleEvent} (h : l.all DongleEvent.isOutput = true) :
    radioEvents l = [] ∧ sentFrames l = [] ∧ processed l = [] := by
  induction l with
  | nil => exact ⟨rfl, rfl, rfl⟩
  | cons e l ih =>
    rw [List.all_cons, Bool.and_eq_true] at h
    obtain ⟨hradio, hsent, hprocessed⟩ := ih h.2
    cases e with
    | radio | processCmd | txPacket => cases h.1
    | _ => exact ⟨hradio, hsent, hprocessed⟩

/-! ## `process_cmd` -/

section

variable (s : Dongle) (cmd : List UInt8) (env : SendEnv)

/-- The state a command leaves. -/
theorem carryOut_val (c : Command) :
    val (carryOut s cmd env c) =
      match c with
      | .stopDump => { s with monitorMode := 0 }
      | .dumpHex => { s with monitorMode := DUMP_HEX }
      | .dumpHuman => { s with monitorMode := DUMP_HUMAN }
      | .channel ch => { s with curChan := UInt8.ofInt ch }
      | .chanhop tmp => { s with hopSpd := if tmp > 5 ∧ tmp < 180 then UInt8.ofInt tmp else s.hopSpd }
      | _ => s := by
  cases c <;> rfl

/-- The frame of `:send`, if there is a buffer for it. -/
def sendFrame (myconfig : ConfigT) (env : SendEnv) (cmd2 : List UInt8) : List Packet :=
  match env.freePacket with
  | some (_, pk) => [(val (paquet2packet (sendPaquet myconfig env.stack cmd2) pk)).2.2]
  | none => []

theorem sendCmd_log (cmd2 : List UInt8) :
    radioEvents (log (sendCmd s cmd cmd2 env)) = [] ∧
      sentFrames (log (sendCmd s cmd cmd2 env)) = sendFrame s.myconfig env cmd2 ∧
      processed (log (sendCmd s cmd cmd2 env)) = [] := by
  unfold sendCmd sendFrame
  cases env.freePacket with
  | none => exact ⟨rfl, rfl, rfl⟩
  | some b =>
    simp only [log_bind, if_pos (paquet2packet_ne_zero (sendPaquet s.myconfig env.stack cmd2) b.2)]
    exact ⟨rfl, rfl, rfl⟩

/-- Only `:channel` asks anything of the radio driver. -/
theorem carryOut_radioEvents (c : Command) :
    radioEvents (log (carryOut s cmd env c)) = match c with | .channel ch => [.setChannel ch] | _ => [] := by
  cases c with
  | send cmd2 =>
    have hsend := (sendCmd_log s cmd env cmd2).1
    simpa [carryOut] using hsend
  | help => exact (of_isOutput rfl).1
  | _ => rfl

/-- Only `:send` sends a frame. -/
theorem carryOut_sentFrames (c : Command) :
    sentFrames (log (carryOut s cmd env c)) =
      match c with | .send cmd2 => sendFrame s.myconfig env cmd2 | _ => [] := by
  cases c with
  | send cmd2 =>
    have hsend := (sendCmd_log s cmd env cmd2).2.1
    simpa [carryOut] using hsend
  | help => exact (of_isOutput rfl).2.1
  | _ => rfl

theorem carryOut_processed (c : Command) : processed (log (carryOut s cmd env c)) = [] := by
  cases c with
  | send cmd2 =>
    have hsend := (sendCmd_log s cmd env cmd2).2.2
    simpa [carryOut] using hsend
  | help => exact (of_isOutput rfl).2.2
  | _ => rfl

end

/-! ## The loop -/

/-- A received packet changes `pk` and nothing else. -/
theorem receivePacket_val (s : Dongle) (rx : Option (Nat × Packet)) :
    val (receivePacket s rx) =
      match rx with
      | none => s
      | some b => { s with pk := (val (packet2paquet b.2 s.pk)).2 } := by
  cases rx <;> rfl

theorem receivePacket_output (s : Dongle) (rx : Option (Nat × Packet)) :
    (log (receivePacket s rx)).all DongleEvent.isOutput = true := by
  cases rx with
  | none => rfl
  | some b =>
    simp only [receivePacket, log_bind, log_tell, log_pure, List.append_nil, List.all_append]
    split
    · rfl
    · split <;> rfl

theorem receivePacket_buffer (s : Dongle) (rx : Option (Nat × Packet)) :
    (val (receivePacket s rx)).buffer = s.buffer := by
  rw [receivePacket_val]
  cases rx <;> rfl

/-- A character does what the buffer makes of it. -/
theorem receiveChar_val (s : Dongle) (c : UInt8) (env : SendEnv) :
    val (receiveChar s (some (c, env))) =
      { (match (s.buffer.receive c).2 with
          | .process cmd => val (processCmd s cmd env)
          | _ => s) with buffer := (s.buffer.receive c).1 } := by
  simp only [receiveChar]
  cases (s.buffer.receive c).2 <;> rfl

theorem receiveChar_processed (s : Dongle) (c : UInt8) (env : SendEnv) :
    processed (log (receiveChar s (some (c, env)))) = passed [(s.buffer.receive c).2] := by
  simp only [receiveChar]
  cases (s.buffer.receive c).2 with
  | tooLong | echo => rfl
  | process cmd =>
    have hnone : processed (log (processCmd s cmd env)) = [] := carryOut_processed s cmd env _
    simp only [log_bind, processed_append, hnone]
    rfl

theorem receiveChar_sentFrames (s : Dongle) (c : UInt8) (env : SendEnv) :
    sentFrames (log (receiveChar s (some (c, env)))) =
      match (s.buffer.receive c).2 with
      | .process cmd => sentFrames (log (processCmd s cmd env))
      | _ => [] := by
  simp only [receiveChar]
  cases (s.buffer.receive c).2 with
  | tooLong | echo => rfl
  | process cmd =>
    simp only [log_bind, sentFrames_append]
    exact List.append_nil _

theorem dongleLoop_val (s : Dongle) (i : LoopInput) :
    val (dongleLoop s i) = val (receiveChar (val (receivePacket s i.rxPacket)) i.serial) := rfl

theorem dongleLoop_log (s : Dongle) (i : LoopInput) :
    log (dongleLoop s i) = .checkMaca :: (log (receivePacket s i.rxPacket) ++
      log (receiveChar (val (receivePacket s i.rxPacket)) i.serial)) := rfl

/-- Of a turn, a received packet only adds output. -/
theorem dongleLoop_effects (s : Dongle) (i : LoopInput) :
    sentFrames (log (dongleLoop s i)) =
        sentFrames (log (receiveChar (val (receivePacket s i.rxPacket)) i.serial)) ∧
      processed (log (dongleLoop s i)) =
        processed (log (receiveChar (val (receivePacket s i.rxPacket)) i.serial)) := by
  have houtput : (DongleEvent.checkMaca :: log (receivePacket s i.rxPacket)).all DongleEvent.isOutput = true := by
    rw [List.all_cons, receivePacket_output]
    rfl
  obtain ⟨-, hsent, hprocessed⟩ := of_isOutput houtput
  rw [dongleLoop_log, ← List.cons_append, sentFrames_append, processed_append, hsent, hprocessed]
  exact ⟨rfl, rfl⟩

theorem dongleRun_cons_log (s : Dongle) (i : LoopInput) (is : List LoopInput) :
    log (dongleRun s (i :: is)) = log (dongleLoop s i) ++ log (dongleRun (val (dongleLoop s i)) is) := rfl

end OflMetrics
