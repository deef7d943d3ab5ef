/-
The way of a report from the node to the bridge's metrics.

A session in which the dongle receives what nodes send, nothing fails and the
interrupts print between two turns of the dongle's loop: whatever the order of the
steps of the three, the packets that the bridge takes are the reports of the cycles
whose frames came in, in order, and of each it sends the items of the types it
knows (`session_metrics`). Every node reports under the one `NODE_ID`.
-/
import OflMetrics.Bridge.Metrics
import OflMetrics.Bridge.Session
import OflMetrics.Node.SentFrame

namespace OflMetrics

open Embed Embed.Traced

/-- What is received are reports of cycles that fit a frame. -/
def LinkStep.Carries (st : LinkStep) : Prop := ∀ pk ∈ st.frames, ∃ c : NodeCycle, c.Sends pk ∧ c.text.length ≤ 100

theorem LinkStep.Carries.plain {st : LinkStep} (h : st.Carries) : st.Plain := by
  intro pk hpk
  obtain ⟨c, hsends, hfit⟩ := h pk hpk
  exact (hsends.plain hfit).1

/-- What a cycle reports, as the bridge reads it. -/
def NodeCycle.report (c : NodeCycle) : BridgePacket := ⟨"99000000".toList, "01000000".toList, c.text⟩

/-- The metrics of a cycle: the items of the types the bridge knows. -/
def NodeCycle.metrics (c : NodeCycle) : List Metric :=
  (c.items.filter (·.1 ∈ metricTypes)).map (metricOf "99000000".toList)

/-- What a bridge that has heard the reports of `cycles` has posted, packet by packet. -/
theorem Link.posted_cycles {decode : List UInt8 → List Char} {influxdbUrl : List Char} (hurl : influxdbUrl ≠ []) {l : Link}
    {cycles : List NodeCycle} (h : l.heard decode = cycles.map NodeCycle.report) :
    l.thread.broadcast.map (insertPacket influxdbUrl) <+: cycles.map (fun c => some c.metrics) ∧
      (l.unread = [] → l.thread.broadcast.map (insertPacket influxdbUrl) = cycles.map fun c => some c.metrics) := by
  have hmetrics : (l.heard decode).map (insertPacket influxdbUrl) = cycles.map fun c => some c.metrics := by
    rw [h, List.map_map]
    exact List.map_congr_left fun c _ => insertPacket_report _ _ _ _ hurl _ _
  rw [Link.heard, List.map_append] at hmetrics
  refine ⟨⟨_, hmetrics⟩, fun hunread => ?_⟩
  have hnone : packetsIn decode [] = [] := rfl
  rw [← hmetrics, hunread, hnone, List.map_nil, List.append_nil]

section

variable (decode : List UInt8 → List Char) (notice : List UInt8)

/-- The frames that are received while the dongle dumps in readable form. -/
def dumpedFrames (l : Link) : List LinkStep → List Packet
  | [] => []
  | st :: sts => (if l.dongle.monitorMode = DUMP_HUMAN then st.frames else []) ++ dumpedFrames (l.step decode notice st) sts

theorem dumped_eq (sts : List LinkStep) :
    ∀ l : Link, dumped decode notice l sts = (dumpedFrames decode notice l sts).map Packet.report := by
  induction sts with
  | nil => exact fun _ => rfl
  | cons st sts ih =>
    intro l
    rw [dumped, dumpedFrames, List.map_append, ih, LinkStep.reports]
    split <;> rfl

/-- The cycle that sent one of them. -/
theorem mem_dumpedFrames {pk : Packet} {sts : List LinkStep} :
    ∀ {l : Link}, Guarded (Link.step decode notice) (fun l st => l.Fine st ∧ st.Carries) l sts →
      pk ∈ dumpedFrames decode notice l sts → ∃ c : NodeCycle, c.Sends pk ∧ pk.report = c.report := by
  induction sts with
  | nil => exact fun _ h => absurd h List.not_mem_nil
  | cons st sts ih =>
    intro l hsts h
    rw [dumpedFrames, List.mem_append] at h
    cases h with
    | inl h =>
      split at h
      · obtain ⟨c, hsends, hfit⟩ := hsts.1.2 pk h
        exact ⟨c, hsends, (hsends.plain hfit).2⟩
      · exact absurd h List.not_mem_nil
    | inr h => exact ih hsts.2 h

end

/-- Each of the frames has its cycle. -/
theorem exists_cycles {pks : List Packet}
    (h : ∀ pk ∈ pks, ∃ c : NodeCycle, c.Sends pk ∧ pk.report = c.report) :
    ∃ cycles : List NodeCycle, List.Forall₂ NodeCycle.Sends cycles pks ∧ pks.map Packet.report = cycles.map NodeCycle.report := by
  induction pks with
  | nil => exact ⟨[], .nil, rfl⟩
  | cons pk pks ih =>
    obtain ⟨c, hsends, hreport⟩ := h pk List.mem_cons_self
    obtain ⟨cycles, hcycles, hreports⟩ := ih fun pk' hpk' => h pk' (List.mem_cons_of_mem pk hpk')
    exact ⟨c :: cycles, .cons hsends hcycles, by rw [List.map_cons, List.map_cons, hreport, hreports]⟩

/-- **From the node to the metrics**: in a session in which nothing fails, the
interrupts print between the turns and only reports that fit are received, whatever
the order of the steps, each frame received since the dongle dumps is of a cycle of
a node, and the metrics that a listening bridge has sent, packet by packet, are those
of the first of these cycles: of all of them, once nothing is left to read. -/
theorem session_metrics {decode : List UInt8 → List Char} (notice : List UInt8) (hd : ReadsAscii decode)
    {influxdbUrl : List Char} (hurl : influxdbUrl ≠ []) {l : Link} (h : l.Starts)
    (hmode : l.dongle.monitorMode ≠ DUMP_HUMAN) {sts : List LinkStep}
    (hsts : Guarded (Link.step decode notice) (fun l st => l.Fine st ∧ st.Carries) l sts) :
    let l' := run (Link.step decode notice) l sts
    l'.thread.state = 3 →
      ∃ cycles : List NodeCycle, List.Forall₂ NodeCycle.Sends cycles (dumpedFrames decode notice l sts) ∧
        l'.thread.broadcast.map (insertPacket influxdbUrl) <+: cycles.map (fun c => some c.metrics) ∧
        (l'.unread = [] → l'.thread.broadcast.map (insertPacket influxdbUrl) = cycles.map fun c => some c.metrics) := by
  intro l' hstate
  have hheard : l'.heard decode = (dumpedFrames decode notice l sts).map Packet.report := by
    have hend := (h.serves hmode).run notice hd (hsts.imp fun st _ l hst => ⟨hst.1, hst.2.plain⟩)
    exact (hend.heard_eq.1 hstate).trans (dumped_eq decode notice sts l)
  have hsent : ∀ pk ∈ dumpedFrames decode notice l sts, ∃ c : NodeCycle, c.Sends pk ∧ pk.report = c.report :=
    fun pk hpk => mem_dumpedFrames decode notice hsts hpk
  obtain ⟨cycles, hcycles, hreports⟩ := exists_cycles hsent
  exact ⟨cycles, hcycles, Link.posted_cycles hurl (hheard.trans hreports)⟩

theorem session_metrics_sample :
    let sts := sessionSteps (sampleCycle.frame .zero) 130
    let l' := run (Link.step latin1 []) sampleLink sts
    ∃ cycles : List NodeCycle, List.Forall₂ NodeCycle.Sends cycles (dumpedFrames latin1 [] sampleLink sts) ∧
      l'.thread.broadcast.map (insertPacket "http://db".toList) <+: cycles.map (fun c => some c.metrics) ∧
      (l'.unread = [] →
        l'.thread.broadcast.map (insertPacket "http://db".toList) = cycles.map fun c => some c.metrics) := by
  refine session_metrics [] latin1_readsAscii (by decide) sampleLink_starts (by decide) ?_ (by decide +kernel)
  exact (sessionSteps_fine _ 130).imp fun st _ l hst =>
    ⟨hst.1, fun pk hpk => ⟨sampleCycle, hst.2 pk hpk ▸ sampleCycle_sends, sampleCycle_fits⟩⟩

end OflMetrics
