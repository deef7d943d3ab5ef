/-
The radio buffers of both main loops.

`rx_packet` and `get_free_packet` hand out a buffer, `free_packet` and
`tx_packet` take it back. The parts of the loops that touch one are written
here with what they do to it; with that left out they are the parts of before
(`erases_mainLoop`, `erases_dongleRun`), and what they take is what the two
functions hand out (`taken_runLog`, `taken_dongleRun`).

In every run each buffer goes back, once and before the next one is taken, and
is not touched again (`buffers_returned`). It rests on `paquet2packet`, which
never fails: the branches behind it would keep the buffer.
-/
import OflMetrics.Dongle.FirmwareFacts
import OflMetrics.Embed.Ownership
import OflMetrics.Node.Sleep

namespace OflMetrics

open Embed Embed.Traced Embed.CString Embed.Ownership

/-! ## The node -/

/-- The buffer an event hands back. -/
def NodeEvent.back : NodeEvent → Option Nat
  | .freePacket p | .txPacket p _ => some p
  | _ => none

/-- `while ((rxp = rx_packet())) free_packet(rxp);`, for the buffers before `NULL`. -/
def Watched.drain : List Nat → Watched NodeEvent Nat PUnit
  | [] => return ⟨⟩
  | p :: ps => do
    took p
    does (tell [.freePacket p])
    Watched.drain ps

/-- `sendReport`; `paquet2packet` and `packet_dump` use the buffer. -/
def Watched.sendReport (s : NodeState) (p : Nat) (pk : Packet) : Watched NodeEvent Nat NodeState := do
  let txPaquet := addressed s.txPaquet
  uses p
  let (ret, txPaquet, pk) := val (paquet2packet txPaquet pk)
  if ret ≠ 0 then do
    uses p
    does (tell [.txPacket p pk])
    return { s with txPaquet, cntrMsgSent := s.cntrMsgSent + 1 }
  else
    return { s with txPaquet }

/-- `sendAndCheck`, for what `get_free_packet` returns. -/
def Watched.sendAndCheck (s : NodeState) : Option (Nat × Packet) → Watched NodeEvent Nat (Option NodeState)
  | none => does (theEnd s)
  | some (p, pk) => do
    took p
    let s ← Watched.sendReport s p pk
    does (tell [.radOff])
    if Overdue s then do
      does (tell [.resetWatchdog])
      return none
    else does (theEnd s)

/-- One cycle. -/
def Watched.mainLoop (s : NodeState) (i : CycleInput) : Watched NodeEvent Nat (Option NodeState) := do
  does (tell [.radOn])
  does (report s.bme280Presence s.config s.mainLoopCount i.readings)
  let s := s.withText (reportText s.bme280Presence s.config s.mainLoopCount i.readings)
  does (tell [.checkMaca])
  Watched.drain i.rxPackets
  Watched.sendAndCheck s i.freePacket

/-- What cycle `n` does, if there is one. -/
def Watched.cycleLog (s : NodeState) (env : Nat → CycleInput) (n : Nat) : List (NodeEvent ⊕ Act Nat) :=
  match nodeAt s env n with
  | some t => log (Watched.mainLoop t (env n))
  | none => []

/-- What the first `n` cycles do. -/
def Watched.runLog (s : NodeState) (env : Nat → CycleInput) : Nat → List (NodeEvent ⊕ Act Nat)
  | 0 => []
  | n + 1 => Watched.runLog s env n ++ Watched.cycleLog s env n

theorem erases_drain (ps : List Nat) : Erases (Watched.drain ps) (tell (ps.map NodeEvent.freePacket)) := by
  induction ps with
  | nil => exact ⟨rfl, rfl⟩
  | cons p ps ih => exact .act rfl ⟨rfl, congrArg (NodeEvent.freePacket p :: ·) ih.log⟩

theorem erases_sendReport (s : NodeState) (p : Nat) (pk : Packet) :
    Erases (Watched.sendReport s p pk) (sendReport s p pk) := by
  refine .act rfl ?_
  simp only [sendReport]
  split
  · exact .act rfl ((Erases.does _).bind fun _ => .pure _)
  · exact .pure _

theorem erases_sendAndCheck (s : NodeState) (b : Option (Nat × Packet)) :
    Erases (Watched.sendAndCheck s b) (sendAndCheck s b) := by
  cases b with
  | none => exact .does _
  | some b =>
    refine .act rfl ((erases_sendReport s b.1 b.2).bind fun t => (Erases.does _).bind fun _ => ?_)
    split
    · exact (Erases.does _).bind fun _ => .pure _
    · exact .does _

theorem erases_mainLoop (s : NodeState) (i : CycleInput) : Erases (Watched.mainLoop s i) (mainLoop s i) :=
  (Erases.does _).bind fun _ => (Erases.does _).bind fun _ => (Erases.does _).bind fun _ =>
    (erases_drain _).bind fun _ => erases_sendAndCheck _ _

/-- The run is the one of before. -/
theorem events_runLog (s : NodeState) (env : Nat → CycleInput) (n : Nat) : events (Watched.runLog s env n) = runLog s env n := by
  induction n with
  | zero => rfl
  | succ n ih =>
    rw [Watched.runLog, runLog, events_append, ih, Watched.cycleLog, cycleLog]
    cases nodeAt s env n with
    | none => rfl
    | some t => exact congrArg _ (erases_mainLoop t (env n)).log

/-! ### Its buffers -/

theorem acts_report (bme280Presence : Bool) (config : ConfigT) (mainLoopCount : UInt32) (r : Readings) :
    acts NodeEvent.back (log (does (report bme280Presence config mainLoopCount r))) = [] := by
  refine acts_does_nil fun e he => ?_
  have hreport := List.all_eq_true.mp (report_events bme280Presence config mainLoopCount r) e he
  cases e with
  | freePacket | txPacket => cases hreport
  | _ => rfl

/-- One received buffer after the other. -/
theorem acts_drain (ps : List Nat) :
    acts NodeEvent.back (log (Watched.drain ps)) = (ps.map fun p => (p, 0)).flatMap episode := by
  induction ps with
  | nil => rfl
  | cons p ps ih => exact congrArg (episode (p, 0) ++ ·) ih

/-- The buffer of a report goes out with it. -/
theorem acts_sendReport (s : NodeState) (p : Nat) (pk : Packet) :
    acts NodeEvent.back (log (Watched.sendReport s p pk)) = [.use p, .use p, .giveBack p] := by
  simp only [Watched.sendReport, log_bind, if_pos (paquet2packet_ne_zero _ pk)]
  rfl

theorem acts_sendAndCheck (s : NodeState) (b : Nat × Packet) :
    acts NodeEvent.back (log (Watched.sendAndCheck s (some b))) = episode (b.1, 2) := by
  simp only [Watched.sendAndCheck, log_bind, log_ite, acts_append, acts_sendReport]
  split <;> rfl

theorem returned_sendAndCheck (s : NodeState) (b : Option (Nat × Packet)) :
    Returned (acts NodeEvent.back (log (Watched.sendAndCheck s b))) := by
  cases b with
  | none => exact .nil
  | some b =>
    rw [acts_sendAndCheck]
    exact .episode _

/-- The received buffers, and then the one of the report. -/
theorem acts_mainLoop (s : NodeState) (i : CycleInput) :
    acts NodeEvent.back (log (Watched.mainLoop s i)) = acts NodeEvent.back (log (Watched.drain i.rxPackets)) ++
      acts NodeEvent.back (log (Watched.sendAndCheck
        (s.withText (reportText s.bme280Presence s.config s.mainLoopCount i.readings)) i.freePacket)) := by
  simp only [Watched.mainLoop, log_bind, acts_append, acts_report]
  rfl

theorem returned_mainLoop (s : NodeState) (i : CycleInput) : Returned (acts NodeEvent.back (log (Watched.mainLoop s i))) := by
  rw [acts_mainLoop]
  exact (returned_iff.mpr ⟨_, acts_drain i.rxPackets⟩).append (returned_sendAndCheck _ _)

theorem returned_runLog (s : NodeState) (env : Nat → CycleInput) (n : Nat) : Returned (acts NodeEvent.back (Watched.runLog s env n)) := by
  induction n with
  | zero => exact .nil
  | succ n ih =>
    rw [Watched.runLog, acts_append]
    refine ih.append ?_
    rw [Watched.cycleLog]
    cases nodeAt s env n with
    | none => exact .nil
    | some t => exact returned_mainLoop t (env n)

/-- The buffers handed out in a cycle. -/
def CycleInput.buffers (i : CycleInput) : List Nat := i.rxPackets ++ (i.freePacket.map (·.1)).toList

/-- The buffers handed out in the first `n` cycles, as far as these happen. -/
def nodeBuffers (s : NodeState) (env : Nat → CycleInput) (n : Nat) : List Nat :=
  (List.range n).flatMap fun k => if (nodeAt s env k).isSome then (env k).buffers else []

theorem taken_mainLoop (s : NodeState) (i : CycleInput) :
    taken (acts NodeEvent.back (log (Watched.mainLoop s i))) = i.buffers := by
  have hdrain : taken (acts NodeEvent.back (log (Watched.drain i.rxPackets))) = i.rxPackets := by
    rw [acts_drain, taken_episodes, List.map_map]
    exact List.map_id _
  rw [acts_mainLoop, taken_append, hdrain, CycleInput.buffers]
  cases i.freePacket with
  | none => rfl
  | some b => rw [acts_sendAndCheck, taken_episode]; rfl

theorem taken_runLog (s : NodeState) (env : Nat → CycleInput) (n : Nat) :
    taken (acts NodeEvent.back (Watched.runLog s env n)) = nodeBuffers s env n := by
  induction n with
  | zero => rfl
  | succ n ih =>
    rw [Watched.runLog, acts_append, taken_append, ih, nodeBuffers, nodeBuffers, List.range_succ, List.flatMap_append,
      List.flatMap_singleton, Watched.cycleLog]
    cases nodeAt s env n with
    | none => rfl
    | some t => exact congrArg _ (taken_mainLoop t (env n))

/-! ## The dongle -/

/-- The buffer an event hands back. -/
def DongleEvent.back : DongleEvent → Option Nat
  | .freePacket p | .txPacket p _ => some p
  | _ => none

/-- What is printed of a packet decoded to `pk`; `dump_hex` uses its buffer. -/
def Watched.dump (s : Dongle) (p : Nat) (packet : Packet) (pk : Paquet) : Watched DongleEvent Nat PUnit :=
  if s.monitorMode = DUMP_HUMAN then does (tell [.print (dumpHuman pk)])
  else if s.monitorMode = DUMP_HEX then do
    uses p
    does (tell [.dumpHex packet pk])
  else return ⟨⟩

/-- The part of the loop for a received packet; `packet2paquet` uses the buffer. -/
def Watched.receivePacket (s : Dongle) : Option (Nat × Packet) → Watched DongleEvent Nat Dongle
  | none => return s
  | some (p, packet) => do
    took p
    uses p
    let (_, pk) := (packet2paquet packet s.pk).val
    let s := { s with pk }
    Watched.dump s p packet pk
    does (tell [.freePacket p])
    return s

/-- The branch of `:send`; `paquet2packet` and `dump_hex` use the buffer. -/
def Watched.sendCmd (s : Dongle) (cmd cmd2 : List UInt8) (env : SendEnv) : Watched DongleEvent Nat PUnit := do
  does (printf [ascii "TX : '", cmd, ascii "', size ", percentD cmd2.length, ascii "\r\n"])
  match env.freePacket with
  | some (p, pk) =>
    took p
    uses p
    let (ret, pq, pk) := (paquet2packet (sendPaquet s.myconfig env.stack cmd2) pk).val
    if ret ≠ 0 then
      uses p
      does (tell [.dumpHex pk pq])
      does (tell [.txPacket p pk])
    else does (printf [ascii "ERR: Can't create paquet_t\r\n"])
  | none => does (printf [ascii "ERR: No free TX packets\r\n"])

/-- The branches of `process_cmd`; only `:send` has a buffer. -/
def Watched.carryOut (s : Dongle) (cmd : List UInt8) (env : SendEnv) : Command → Watched DongleEvent Nat Dongle
  | .send cmd2 => do
    Watched.sendCmd s cmd cmd2 env
    return s
  | c => does (OflMetrics.carryOut s cmd env c)

/-- `process_cmd`. -/
def Watched.processCmd (s : Dongle) (cmd : List UInt8) (env : SendEnv) : Watched DongleEvent Nat Dongle :=
  Watched.carryOut s cmd env (parseCmd s.monitorMode cmd)

/-- The part of the loop for a character. -/
def Watched.receiveChar (s : Dongle) : Option (UInt8 × SendEnv) → Watched DongleEvent Nat Dongle
  | none => return s
  | some (c, env) =>
    let (buffer, action) := s.buffer.receive c
    match action with
    | .tooLong => do
      does (printf [ascii "Command too long\r\n"])
      return { s with buffer }
    | .process cmd => do
      does (printf [ascii "\r\n"])
      does (tell [.processCmd cmd])
      let s ← Watched.processCmd s cmd env
      return { s with buffer }
    | .echo c => do
      does (printf [[c]])
      return { s with buffer }

/-- One turn of the loop. -/
def Watched.dongleLoop (s : Dongle) (i : LoopInput) : Watched DongleEvent Nat Dongle := do
  does (tell [.checkMaca])
  let s ← Watched.receivePacket s i.rxPacket
  Watched.receiveChar s i.serial

/-- The loop, for the inputs of its turns. -/
def Watched.dongleRun (s : Dongle) : List LoopInput → Watched DongleEvent Nat Dongle
  | [] => return s
  | i :: is => do
    let s ← Watched.dongleLoop s i
    Watched.dongleRun s is

theorem erases_dump (s : Dongle) (p : Nat) (packet : Packet) (pk : Paquet) :
    Erases (Watched.dump s p packet pk) (tell (if s.monitorMode = DUMP_HUMAN then [.print (dumpHuman pk)]
      else if s.monitorMode = DUMP_HEX then [.dumpHex packet pk] else [])) := by
  unfold Watched.dump
  split
  · exact .does _
  · split
    · exact .act rfl (.does _)
    · exact ⟨rfl, rfl⟩

theorem erases_receivePacket (s : Dongle) (rx : Option (Nat × Packet)) :
    Erases (Watched.receivePacket s rx) (receivePacket s rx) := by
  cases rx with
  | none => exact .pure s
  | some b =>
    exact .act rfl (.act rfl ((erases_dump _ _ _ _).bind fun _ => (Erases.does _).bind fun _ => .pure _))

theorem erases_sendCmd (s : Dongle) (cmd cmd2 : List UInt8) (env : SendEnv) :
    Erases (Watched.sendCmd s cmd cmd2 env) (sendCmd s cmd cmd2 env) := by
  refine (Erases.does _).bind fun _ => ?_
  cases env.freePacket with
  | none => exact .does _
  | some b =>
    refine .act rfl (.act rfl ?_)
    simp only
    split
    · exact .act rfl ((Erases.does _).bind fun _ => .does _)
    · exact .does _

theorem erases_carryOut (s : Dongle) (cmd : List UInt8) (env : SendEnv) (c : Command) :
    Erases (Watched.carryOut s cmd env c) (carryOut s cmd env c) := by
  cases c with
  | send cmd2 => exact (erases_sendCmd s cmd cmd2 env).bind fun _ => .pure s
  | _ => exact .does _

theorem erases_receiveChar (s : Dongle) (serial : Option (UInt8 × SendEnv)) :
    Erases (Watched.receiveChar s serial) (receiveChar s serial) := by
  cases serial with
  | none => exact .pure s
  | some b =>
    obtain ⟨c, env⟩ := b
    simp only [Watched.receiveChar, receiveChar]
    cases (s.buffer.receive c).2 with
    | tooLong | echo => exact (Erases.does _).bind fun _ => .pure _
    | process cmd =>
      exact (Erases.does _).bind fun _ => (Erases.does _).bind fun _ => (erases_carryOut _ _ _ _).bind fun _ => .pure _

theorem erases_dongleLoop (s : Dongle) (i : LoopInput) : Erases (Watched.dongleLoop s i) (dongleLoop s i) :=
  (Erases.does _).bind fun _ => (erases_receivePacket _ _).bind fun _ => erases_receiveChar _ _

theorem erases_dongleRun (s : Dongle) (is : List LoopInput) : Erases (Watched.dongleRun s is) (dongleRun s is) := by
  induction is generalizing s with
  | nil => exact .pure s
  | cons i is ih => exact (erases_dongleLoop s i).bind ih

/-! ### Its buffers -/

/-- A dump keeps the buffer. -/
theorem acts_dump (s : Dongle) (p : Nat) (packet : Packet) (pk : Paquet) :
    ∃ n, acts DongleEvent.back (log (Watched.dump s p packet pk)) = List.replicate n (.use p) := by
  unfold Watched.dump
  split
  · exact ⟨0, rfl⟩
  · split
    · exact ⟨1, rfl⟩
    · exact ⟨0, rfl⟩

/-- A received buffer is in hand until it is handed back. -/
theorem acts_receivePacket (s : Dongle) (b : Nat × Packet) :
    ∃ n, acts DongleEvent.back (log (Watched.receivePacket s (some b))) = episode (b.1, n) := by
  obtain ⟨p, packet⟩ := b
  obtain ⟨n, hdump⟩ := acts_dump { s with pk := (val (packet2paquet packet s.pk)).2 } p packet
    (val (packet2paquet packet s.pk)).2
  refine ⟨n + 1, ?_⟩
  simp only [Watched.receivePacket, log_bind, acts_append, hdump]
  rfl

/-- A buffer for `:send` goes out. -/
theorem acts_sendCmd (s : Dongle) (cmd cmd2 : List UInt8) (env : SendEnv) :
    acts DongleEvent.back (log (Watched.sendCmd s cmd cmd2 env)) =
      ((env.freePacket.map (·.1)).toList.map fun p => (p, 2)).flatMap episode := by
  rw [Watched.sendCmd, log_bind, acts_append]
  cases env.freePacket with
  | none => rfl
  | some b =>
    simp only [log_bind, if_pos (paquet2packet_ne_zero (sendPaquet s.myconfig env.stack cmd2) b.2)]
    rfl

/-- The buffers `get_free_packet` hands out for a command: one for `:send`, if there is one. -/
def Command.buffers (env : SendEnv) : Command → List Nat
  | .send _ => (env.freePacket.map (·.1)).toList
  | _ => []

/-- No other command takes a buffer or hands one back. -/
theorem acts_carryOut (s : Dongle) (cmd : List UInt8) (env : SendEnv) (c : Command) :
    acts DongleEvent.back (log (Watched.carryOut s cmd env c)) = ((c.buffers env).map fun p => (p, 2)).flatMap episode := by
  cases c with
  | send cmd2 =>
    rw [Watched.carryOut, log_bind, acts_append, acts_sendCmd]
    exact List.append_nil _
  | _ => rfl

/-- The buffers handed out for a character: those of the command it completes. -/
def Dongle.charBuffers (s : Dongle) : Option (UInt8 × SendEnv) → List Nat
  | none => []
  | some b =>
    match (s.buffer.receive b.1).2 with
    | .process cmd => (parseCmd s.monitorMode cmd).buffers b.2
    | _ => []

theorem acts_receiveChar (s : Dongle) (serial : Option (UInt8 × SendEnv)) :
    acts DongleEvent.back (log (Watched.receiveChar s serial)) = ((s.charBuffers serial).map fun p => (p, 2)).flatMap episode := by
  cases serial with
  | none => rfl
  | some b =>
    obtain ⟨c, env⟩ := b
    simp only [Watched.receiveChar, Dongle.charBuffers]
    cases (s.buffer.receive c).2 with
    | tooLong | echo => rfl
    | process cmd =>
      simp only [log_bind, acts_append, Watched.processCmd, acts_carryOut]
      exact List.append_nil _

theorem charBuffers_receivePacket (s : Dongle) (rx : Option (Nat × Packet)) (serial : Option (UInt8 × SendEnv)) :
    (val (receivePacket s rx)).charBuffers serial = s.charBuffers serial := by
  rw [receivePacket_val]
  cases rx with
  | none => rfl
  | some b => cases serial <;> rfl

/-- A turn deals with the received buffer, and then with that of a command. -/
theorem acts_dongleLoop (s : Dongle) (i : LoopInput) :
    acts DongleEvent.back (log (Watched.dongleLoop s i)) = acts DongleEvent.back (log (Watched.receivePacket s i.rxPacket)) ++
      ((s.charBuffers i.serial).map fun p => (p, 2)).flatMap episode := by
  simp only [Watched.dongleLoop, log_bind, acts_append, acts_receiveChar, (erases_receivePacket s i.rxPacket).val,
    charBuffers_receivePacket]
  rfl

theorem returned_dongleRun (s : Dongle) (is : List LoopInput) :
    Returned (acts DongleEvent.back (log (Watched.dongleRun s is))) := by
  induction is generalizing s with
  | nil => exact .nil
  | cons i is ih =>
    rw [Watched.dongleRun, log_bind, acts_append, acts_dongleLoop]
    refine Returned.append (Returned.append ?_ (returned_iff.mpr ⟨_, rfl⟩)) (ih _)
    cases i.rxPacket with
    | none => exact .nil
    | some b =>
      obtain ⟨n, hacts⟩ := acts_receivePacket s b
      rw [hacts]
      exact .episode _

/-- The buffers handed out in a run, turn by turn. -/
def dongleBuffers : Dongle → List LoopInput → List Nat
  | _, [] => []
  | s, i :: is => (i.rxPacket.map (·.1)).toList ++ s.charBuffers i.serial ++ dongleBuffers (val (dongleLoop s i)) is

theorem taken_dongleRun (s : Dongle) (is : List LoopInput) :
    taken (acts DongleEvent.back (log (Watched.dongleRun s is))) = dongleBuffers s is := by
  induction is generalizing s with
  | nil => rfl
  | cons i is ih =>
    have hchar : taken (((s.charBuffers i.serial).map fun p => (p, 2)).flatMap episode) = s.charBuffers i.serial := by
      rw [taken_episodes, List.map_map]
      exact List.map_id _
    rw [Watched.dongleRun, log_bind, acts_append, acts_dongleLoop, taken_append, taken_append, hchar, ih,
      (erases_dongleLoop s i).val, dongleBuffers]
    cases i.rxPacket with
    | none => rfl
    | some b =>
      obtain ⟨n, hacts⟩ := acts_receivePacket s b
      rw [hacts, taken_episode]
      rfl

/-! ## Both loops -/

/-- **No buffer is leaked or returned twice**: in every run of either main loop,
up to the start of any cycle, each buffer taken is handed back before the next
one is taken and is not used after that; and none is in hand there. The buffers
taken are those handed out, and the runs are those of the loops. -/
theorem buffers_returned :
    (∀ (config : ConfigT) (bme280Presence : Bool) (env : Nat → CycleInput) (n : Nat),
      Returned (acts NodeEvent.back (Watched.runLog (.boot config bme280Presence) env n)) ∧
      taken (acts NodeEvent.back (Watched.runLog (.boot config bme280Presence) env n)) =
        nodeBuffers (.boot config bme280Presence) env n ∧
      events (Watched.runLog (.boot config bme280Presence) env n) = runLog (.boot config bme280Presence) env n) ∧
    ∀ (s : Dongle) (is : List LoopInput),
      Returned (acts DongleEvent.back (log (Watched.dongleRun s is))) ∧
      taken (acts DongleEvent.back (log (Watched.dongleRun s is))) = dongleBuffers s is ∧
      Erases (Watched.dongleRun s is) (dongleRun s is) :=
  ⟨fun _ _ env n => ⟨returned_runLog _ env n, taken_runLog _ env n, events_runLog _ env n⟩,
    fun s is => ⟨returned_dongleRun s is, taken_dongleRun s is, erases_dongleRun s is⟩⟩

end OflMetrics
