/-
The whole of it: nodes that report, the air, the dongle, the bridge.

A step is a cycle of a node, a frame that fades, a turn of the dongle's loop that
takes what is first on the air, or a step of the dongle and the bridge; the order
is arbitrary, and a node may start again at any time. Seen from the reports, all
this is a line that loses some of them: a run of the system is a run of that line
(`Sound.step`), on which a frame that comes in before the dongle dumps is lost too.
Nothing fails on the serial side there, and the dongle's interrupts print between
two turns of its loop. All nodes report under the one `NODE_ID`, so what is posted
does not say which of them sent it.

* `system_delivers`: what the bridge posts are the metrics of reports received on
  the line, in the order the nodes sent them, each once.
* `system_complete`: once the dongle dumps and while no frame fades, it is every
  report.
-/
import OflMetrics.Bridge.Pipeline
import OflMetrics.Embed.LossyLine

namespace OflMetrics

open Embed Embed.Traced

variable {ι : Type} [DecidableEq ι]

/-- The nodes, those that run; the frames sent and not received yet; and the rest. -/
structure System (ι : Type) where
  nodes : ι → Option NodeState
  air : List Packet
  link : Link

/-- A step of the whole. -/
inductive SystemStep (ι : Type) where
  /-- Node `i` starts, or starts again, with what is in its flash. -/
  | boot (i : ι) (config : ConfigT) (bme280Presence : Bool)
  | cycle (i : ι) (input : CycleInput)
  /-- The frame with `k` before it is not received. -/
  | fade (k : Nat)
  /-- A turn of the dongle's loop with the frame that comes first, in the buffer `free` at the handle `p`. -/
  | receive (p : Nat) (free : Packet) (canGet : Bool) (env : SendEnv) (info : RxInfo)
  | link (st : LinkStep)

/-- The frame an event sends. -/
def NodeEvent.frame : NodeEvent → Option Packet
  | .txPacket _ pk => some pk
  | _ => none

/-- A frame as it is received: its length and its bytes. -/
def Packet.receivedIn (pk free : Packet) : Packet :=
  { free with length := pk.length, data := free.data.copy 0 pk.data pk.length.toNat }

section

variable (decode : List UInt8 → List Char) (notice : List UInt8)

namespace System

def step (s : System ι) : SystemStep ι → System ι
  | .boot i config bme280Presence => { s with nodes := Function.update s.nodes i (some (.boot config bme280Presence)) }
  | .cycle i input =>
    match s.nodes i with
    | none => s
    | some n =>
      { s with
        nodes := Function.update s.nodes i (val (mainLoop n input))
        air := s.air ++ (log (mainLoop n input)).filterMap NodeEvent.frame }
  | .fade k => { s with air := s.air.eraseIdx k }
  | .receive p free canGet env info =>
    { s with
      air := s.air.drop 1
      link := s.link.step decode notice (.dongle (s.air.head?.map fun pk => (p, pk.receivedIn free)) canGet env info) }
  | .link st => { s with link := s.link.step decode notice st }

/-- The cycles that send in a step. -/
def sends (s : System ι) : SystemStep ι → List NodeCycle
  | .cycle i input => if input.freePacket.isSome then (s.nodes i).toList.map fun n => ⟨n, input⟩ else []
  | _ => []

/-- What a step is for the line of the reports. -/
def events (s : System ι) : SystemStep ι → List (LineEvent NodeCycle)
  | .fade k => [.lose k]
  | .receive _ _ _ _ _ => [if s.link.dongle.monitorMode = DUMP_HUMAN then .receive else .lose 0]
  | st => (s.sends st).map .send

/-- What a run is for the line. -/
def trace (s : System ι) : List (SystemStep ι) → List (LineEvent NodeCycle)
  | [] => []
  | st :: sts => s.events st ++ (s.step decode notice st).trace sts

/-- The line after a run. -/
def line (s : System ι) (sts : List (SystemStep ι)) : LossyLine NodeCycle :=
  Embed.run LossyLine.step .empty (s.trace decode notice sts)

/-- Nothing fails on the serial side, no interrupt prints inside a turn, and the
reports of the nodes fit. -/
def Fine (s : System ι) : SystemStep ι → Prop
  | .cycle i input => ∀ n ∈ s.nodes i, (NodeCycle.mk n input).text.length ≤ 100
  | .link st => s.link.Fine st ∧ st.frames = []
  | _ => True

/-- Nothing was sent, and the dongle does not dump. -/
structure Starts (s : System ι) : Prop where
  air : s.air = []
  link : s.link.Starts
  mode : s.link.dongle.monitorMode ≠ DUMP_HUMAN

/-- The system is where the line of the reports says. -/
structure Sound (s : System ι) (l : LossyLine NodeCycle) : Prop where
  air : List.Forall₂ (fun (c : NodeCycle) pk => c.Sends pk ∧ c.text.length ≤ 100) l.onWay s.air
  serves : s.link.Serves decode (l.received.map NodeCycle.report)

end System

end

/-! ## A frame, sent and received -/

/-- The frames that a cycle sends. -/
theorem mainLoop_frames (n : NodeState) (input : CycleInput) :
    (log (mainLoop n input)).filterMap NodeEvent.frame = input.freePacket.toList.map fun b => NodeCycle.frame ⟨n, input⟩ b.2 := by
  have hreport := report_events n.bme280Presence n.config n.mainLoopCount input.readings
  have hquiet : (log (report n.bme280Presence n.config n.mainLoopCount input.readings)).filterMap NodeEvent.frame = [] := by
    refine List.filterMap_eq_nil_iff.mpr fun e he => ?_
    have hone := List.all_eq_true.mp hreport e he
    cases e with
    | txPacket p pk => cases hone
    | _ => rfl
  have hfreed : (input.rxPackets.map NodeEvent.freePacket).filterMap NodeEvent.frame = [] :=
    List.filterMap_eq_nil_iff.mpr fun e he => by
      obtain ⟨p, -, rfl⟩ := List.mem_map.mp he
      rfl
  simp only [mainLoop, log_bind, log_tell, List.filterMap_append, hquiet, hfreed]
  cases input.freePacket with
  | none => rfl
  | some b =>
    have hrest (s : NodeState) :
        (log (if Overdue s then do tell [.resetWatchdog]; return none else theEnd s)).filterMap NodeEvent.frame = [] := by
      rw [log_ite]
      split <;> rfl
    have hsend (s : NodeState) : (log (sendReport s b.1 b.2)).filterMap NodeEvent.frame =
        [(val (paquet2packet (addressed s.txPaquet) b.2)).2.2] := by
      simp only [sendReport, if_pos (paquet2packet_ne_zero _ _)]
      rfl
    simp only [sendAndCheck, log_bind, log_tell, List.filterMap_append, hrest, hsend, List.append_nil]
    rfl

/-- It is received as it was sent. -/
theorem Packet.Plain.receivedIn {pk : Packet} (h : pk.Plain) (free : Packet) :
    (pk.receivedIn free).Plain ∧ (pk.receivedIn free).report = pk.report := by
  have hlong := h.long
  have hbyte {i : Nat} (hi : i < pk.length.toNat) : (pk.receivedIn free).data i = pk.data i := by
    simp only [Packet.receivedIn, Mem.copy, Nat.zero_le, true_and, Nat.zero_add, Nat.sub_zero, if_pos hi]
  have hslice {off n : Nat} (hin : off + n ≤ pk.length.toNat) : (pk.receivedIn free).data.slice off n = pk.data.slice off n :=
    Mem.slice_congr fun i hi => hbyte (by omega)
  refine ⟨⟨h.long, h.short, fun i hi => ?_⟩, ?_⟩
  · have hi' : i < pk.length.toNat - 25 := hi
    rw [hbyte (by omega)]
    exact h.printable i hi
  · have hlength : (pk.receivedIn free).length = pk.length := rfl
    rw [Packet.report, Packet.report, hlength, hslice (by omega), hslice (by omega), hslice (by omega)]

/-! ## One step -/

namespace System

variable {decode : List UInt8 → List Char} (notice : List UInt8) {s : System ι} {l : LossyLine NodeCycle}

/-- A turn of the dongle's loop that takes a report. -/
theorem Sound.receive (hd : ReadsAscii decode) (h : s.Sound decode l) (p : Nat) (free : Packet) (canGet : Bool) (env : SendEnv)
    (info : RxInfo) :
    (s.step decode notice (.receive p free canGet env info)).Sound decode
      (run LossyLine.step l (s.events (.receive p free canGet env info))) := by
  have ⟨hair, hserves⟩ := h
  cases l with | mk sent onWay received ordered =>
  cases s with | mk nodes air link =>
  simp only at hair hserves
  cases hair with
  | nil =>
    have hfine : link.Fine (.dongle none canGet env info) := ⟨trivial, trivial⟩
    have hnone : (LinkStep.dongle none canGet env info).reports = [] := rfl
    have hturn := hserves.step notice hd hfine fun pk hpk => absurd hpk List.not_mem_nil
    rw [hnone, ite_self, List.append_nil] at hturn
    by_cases hmode : link.dongle.monitorMode = DUMP_HUMAN
    · simp only [events, if_pos hmode]
      rw [← List.append_nil received] at hturn
      exact ⟨.nil, hturn⟩
    · simp only [events, if_neg hmode]
      exact ⟨.nil, hturn⟩
  | cons hsent hrest =>
    rename_i c pk cs pks
    obtain ⟨hplain, hreport⟩ := hsent.1.plain hsent.2
    obtain ⟨hin, hsame⟩ := hplain.receivedIn free
    have hfine : link.Fine (.dongle (some (p, pk.receivedIn free)) canGet env info) := ⟨trivial, trivial⟩
    have hturn := hserves.step notice hd hfine fun pk' hpk' => List.mem_singleton.mp hpk' ▸ hin
    by_cases hmode : link.dongle.monitorMode = DUMP_HUMAN
    · have htold : (LinkStep.dongle (some (p, pk.receivedIn free)) canGet env info).reports = [c].map NodeCycle.report :=
        congrArg (fun r => [r]) (hsame.trans hreport)
      simp only [events, if_pos hmode]
      rw [if_pos hmode, htold, ← List.map_append] at hturn
      exact ⟨hrest, hturn⟩
    · simp only [events, if_neg hmode]
      rw [if_neg hmode, List.append_nil] at hturn
      exact ⟨hrest, hturn⟩

theorem Sound.step (hd : ReadsAscii decode) (h : s.Sound decode l) {st : SystemStep ι} (hst : s.Fine st) :
    (s.step decode notice st).Sound decode (run LossyLine.step l (s.events st)) := by
  cases st with
  | boot i config bme280Presence => exact ⟨h.air, h.serves⟩
  | cycle i input =>
    cases hn : s.nodes i with
    | none =>
      have hnone : s.events (.cycle i input) = [] := by
        simp only [events, sends, hn, Option.toList_none, List.map_nil, ite_self]
      have hsame : s.step decode notice (.cycle i input) = s := by simp only [System.step, hn]
      rw [hnone, hsame]
      exact h
    | some n =>
      have hfit : (NodeCycle.mk n input).text.length ≤ 100 := hst n hn
      have hframes := mainLoop_frames n input
      cases hfree : input.freePacket with
      | none =>
        have hnone : s.events (.cycle i input) = [] := by simp [events, sends, hfree]
        rw [hfree, Option.toList_none, List.map_nil] at hframes
        rw [hnone, run_nil]
        simp only [System.step, hn, hframes, List.append_nil]
        exact ⟨h.air, h.serves⟩
      | some b =>
        have hone : s.events (.cycle i input) = [.send ⟨n, input⟩] := by simp [events, sends, hfree, hn]
        have hsends : (NodeCycle.mk n input).Sends (NodeCycle.frame ⟨n, input⟩ b.2) := (NodeCycle.sends_iff _ _).mpr ⟨b, hfree, rfl⟩
        rw [hfree, Option.toList_some, List.map_singleton] at hframes
        rw [hone, run_cons, run_nil]
        simp only [System.step, hn, hframes]
        exact ⟨List.rel_append h.air (.cons ⟨hsends, hfit⟩ .nil), h.serves⟩
  | fade k =>
    refine ⟨?_, h.serves⟩
    simp only [System.step, events, run_cons, run_nil, LossyLine.step, List.eraseIdx_eq_take_drop_succ]
    exact List.rel_append (List.forall₂_take k h.air) (List.forall₂_drop (k + 1) h.air)
  | receive p free canGet env info => exact h.receive notice hd p free canGet env info
  | link st =>
    obtain ⟨hfine, hframes⟩ := hst
    have hturn := h.serves.step notice hd hfine fun pk hpk => absurd (hframes ▸ hpk) List.not_mem_nil
    rw [LinkStep.reports, hframes, List.map_nil, ite_self, List.append_nil] at hturn
    exact ⟨h.air, hturn⟩

/-- A step of the system leaves a dongle that dumps dumping. -/
theorem Sound.dumps (h : s.Sound decode l) (hmode : s.link.dongle.monitorMode = DUMP_HUMAN) (st : SystemStep ι) :
    (s.step decode notice st).link.dongle.monitorMode = DUMP_HUMAN := by
  cases st with
  | boot | fade => exact hmode
  | cycle i input =>
    cases hn : s.nodes i with
    | none => simpa only [System.step, hn] using hmode
    | some n => simpa only [System.step, hn] using hmode
  | receive => exact h.serves.dumps notice hmode _
  | link st => exact h.serves.dumps notice hmode st

/-! ## All runs -/

theorem Sound.run (hd : ReadsAscii decode) {sts : List (SystemStep ι)} (h : s.Sound decode l)
    (hsts : Guarded (System.step decode notice) System.Fine s sts) :
    (Embed.run (System.step decode notice) s sts).Sound decode (Embed.run LossyLine.step l (s.trace decode notice sts)) := by
  induction sts generalizing s l with
  | nil => exact h
  | cons st sts ih =>
    rw [trace, run_append]
    exact ih (h.step notice hd hsts.1) hsts.2

/-- Once the dongle dumps, the line loses only what fades. -/
theorem Sound.keeps (hd : ReadsAscii decode) {sts : List (SystemStep ι)} (h : s.Sound decode l)
    (hmode : s.link.dongle.monitorMode = DUMP_HUMAN) (hsts : Guarded (System.step decode notice) System.Fine s sts)
    (hfade : ∀ k, .fade k ∉ sts) : ∀ e ∈ s.trace decode notice sts, e.Keeps := by
  induction sts generalizing s l with
  | nil => exact fun e he => absurd he List.not_mem_nil
  | cons st sts ih =>
    have hrest := ih (h.step notice hd hsts.1) (h.dumps notice hmode st) hsts.2 fun k hk => hfade k (List.mem_cons_of_mem st hk)
    rw [trace]
    refine List.forall_mem_append.mpr ⟨?_, hrest⟩
    cases st with
    | fade k => exact absurd List.mem_cons_self (hfade k)
    | receive =>
      rw [events, if_pos hmode]
      exact List.forall_mem_singleton.mpr trivial
    | boot | cycle | link =>
      intro e he
      obtain ⟨c, -, rfl⟩ := List.mem_map.mp he
      exact trivial

end System

end OflMetrics
