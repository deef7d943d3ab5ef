/-
Which node the bridge takes a frame for, and under whose identity it stores the
metrics.

The dongle prints four bytes of an address, so two nodes are told apart when
these differ, and when neither payload has a line in which the bridge finds
another node, or metrics of no node (`identity_iff`). Nodes numbered in the last
byte, as `default_config` numbers them, are all one (`nodes_merged`).
-/
import OflMetrics.Bridge.Identity
import OflMetrics.Bridge.OwnVoice

namespace OflMetrics

open Embed Embed.CString

section

variable (influxdbUrl : List Char)

/-- All that the bridge has of a frame is of one node: just one of the packets
has a source, the node, and all metrics that are stored are the node's. -/
structure SpeaksFor (node : List Char) (new : List BridgePacket) : Prop where
  source : sources new = [node]
  stored : ∀ q ∈ new, ∀ metrics, insertPacket influxdbUrl q = some metrics → ∀ m ∈ metrics, m.node = node

/-- Two nodes keep their identities, in the packets of a frame of each: either
speaks for itself, no source of the one is a source of the other, and no metric
of the one is stored under the identity of a metric of the other. -/
structure ToldApart (node node' : List Char) (new new' : List BridgePacket) : Prop where
  left : SpeaksFor influxdbUrl node new
  right : SpeaksFor influxdbUrl node' new'
  sources : ∀ src ∈ sources new, src ∉ OflMetrics.sources new'
  stored : ∀ q ∈ new, ∀ q' ∈ new', ∀ metrics metrics', insertPacket influxdbUrl q = some metrics →
    insertPacket influxdbUrl q' = some metrics' →
    ∀ m ∈ metrics, ∀ m' ∈ metrics', idTag (influxSendmetric m) ≠ idTag (influxSendmetric m')

variable (decode : List UInt8 → List Char)

/-- A line that the bridge takes for a packet of some other node, or for one of
no node, but with metrics. -/
def Foreign (l : List UInt8) : Prop :=
  StartsRX l ∧ 3 ≤ (pastPrefix l).count 0x7C ∧
    ((decode (pastPrefix l)).head? ≠ some '|' ∨ influxdbUrl ≠ [] ∧ HasItem (packetFields decode (pastPrefix l)).msg)

end

variable {decode : List UInt8 → List Char} {influxdbUrl : List Char}

/-! ## One frame -/

theorem stored_node {q : BridgePacket} {metrics : List Metric} (h : insertPacket influxdbUrl q = some metrics) :
    ∀ m ∈ metrics, m.node = q.srcNodeId := insertLoop_node h

theorem not_hasItem_nil : ¬ HasItem [] := by
  have hnone : (itemRegex metricTypes).indexIn [] 0 = none := by decide +kernel
  exact fun h => h hnone

/-- A line gives no source, and stores nothing for anyone else, exactly if it is
not foreign. -/
theorem not_foreign_iff (influxdbUrl : List Char) (hd : ReadsAscii decode) {node : List Char} (hnode : node ≠ []) (l : List UInt8) :
    (sources (packetsOf decode l) = [] ∧ ∀ q ∈ packetsOf decode l, ∀ metrics, insertPacket influxdbUrl q = some metrics →
        ∀ m ∈ metrics, m.node = node) ↔ ¬ Foreign influxdbUrl decode l := by
  rw [sources_packetsOf hd]
  by_cases hrx : StartsRX l
  · rw [packetsOf, if_pos hrx, List.forall_mem_singleton, packetOf]
    by_cases hbars : 3 ≤ (pastPrefix l).count 0x7C
    · rw [packetInitialize_fields hd hbars]
      constructor
      · rintro ⟨hsource, hstored⟩ ⟨-, -, hother | hitem⟩
        · exact hsource ⟨hrx, hbars, hother⟩
        · have hbar : (decode (pastPrefix l)).head? = some '|' := not_not.mp fun h => hsource ⟨hrx, hbars, h⟩
          obtain ⟨metrics, hmetrics⟩ := insertPacket_ends influxdbUrl (packetFields decode (pastPrefix l))
          obtain ⟨m, hm⟩ := List.exists_mem_of_ne_nil metrics ((insertPacket_ne_nil_iff hmetrics).mpr hitem)
          have hblank : (packetFields decode (pastPrefix l)).srcNodeId = [] := by
            rw [packetFields, List.getD_eq_getElem?_getD, ← List.head?_eq_getElem?, head_splitOn, Option.getD_some]
            obtain ⟨s, hs⟩ := List.head?_eq_some_iff.mp hbar
            rw [hs]
            rfl
          exact hnode ((hstored metrics hmetrics m hm).symm.trans ((stored_node hmetrics m hm).trans hblank))
      · intro hforeign
        refine ⟨fun hforged => hforeign ⟨hrx, hbars, .inl hforged.2.2⟩, fun metrics hmetrics m hm => ?_⟩
        have hitem := (insertPacket_ne_nil_iff hmetrics).mp (List.ne_nil_of_mem hm)
        exact absurd ⟨hrx, hbars, .inr hitem⟩ hforeign
    · refine iff_of_true ⟨fun hforged => hbars hforged.2.1, fun metrics hmetrics m hm => ?_⟩ fun h => hbars h.2.1
      rw [packetInitialize_few hd (Nat.lt_of_not_le hbars)] at hmetrics
      exact absurd ((insertPacket_ne_nil_iff hmetrics).mp (List.ne_nil_of_mem hm)).2 not_hasItem_nil
  · rw [packetsOf, if_neg hrx]
    exact iff_of_true ⟨fun h => hrx h.1, List.forall_mem_nil _⟩ fun h => hrx h.1

/-- A frame speaks for its node exactly if no line that begins in its payload is
foreign. -/
theorem speaksFor_iff (influxdbUrl : List Char) (hd : ReadsAscii decode) {p : Packet} {q : BridgePacket}
    (hq : q.srcNodeId = hexText (p.data.slice 15 4)) :
    SpeaksFor influxdbUrl (hexText (p.data.slice 15 4)) ([q] ++ p.innerLines.flatMap (packetsOf decode)) ↔
      ∀ l ∈ p.innerLines, ¬ Foreign influxdbUrl decode l := by
  have hnode : hexText (p.data.slice 15 4) ≠ [] := hexText_ne_nil (slice_source_ne_nil p)
  have hlines := not_foreign_iff influxdbUrl hd hnode
  constructor
  · intro h l hl
    have hown : sources [q] = [hexText (p.data.slice 15 4)] := sources_own hq (slice_source_ne_nil p) [] rfl
    have hsource := h.source
    rw [sources_append, hown] at hsource
    refine (hlines l).mp ⟨(sources_flatMap_eq_nil _ _).mp (List.append_right_eq_self.mp hsource) l hl, fun q' hq' => ?_⟩
    exact h.stored q' (List.mem_append_right [q] (List.mem_flatMap.mpr ⟨l, hl, hq'⟩))
  · intro h
    refine ⟨sources_own hq (slice_source_ne_nil p) _ ?_, fun q' hq' metrics hmetrics m hm => ?_⟩
    · exact (sources_flatMap_eq_nil _ _).mpr fun l hl => ((hlines l).mpr (h l hl)).1
    · rcases List.mem_append.mp hq' with hself | hinner
      · rw [List.mem_singleton.mp hself] at hmetrics
        exact (stored_node hmetrics m hm).trans hq
      · obtain ⟨l, hl, hq'⟩ := List.mem_flatMap.mp hinner
        exact ((hlines l).mpr (h l hl)).2 q' hq' metrics hmetrics m hm

/-! ## Two frames -/

/-- Metrics of two nodes have two identities. -/
theorem SpeaksFor.stored_apart {mac mac' : List UInt8} (hlen : mac.length = mac'.length) (hne : mac ≠ mac')
    {new new' : List BridgePacket} (h : SpeaksFor influxdbUrl (hexText mac) new)
    (h' : SpeaksFor influxdbUrl (hexText mac') new') :
    ∀ q ∈ new, ∀ q' ∈ new', ∀ metrics metrics', insertPacket influxdbUrl q = some metrics →
      insertPacket influxdbUrl q' = some metrics' →
      ∀ m ∈ metrics, ∀ m' ∈ metrics', idTag (influxSendmetric m) ≠ idTag (influxSendmetric m') := by
  intro q hq q' hq' metrics metrics' hmetrics hmetrics' m hm m' hm' htags
  have hnode : m.node = hexText mac := h.stored q hq metrics hmetrics m hm
  have hnode' : m'.node = hexText mac' := h'.stored q' hq' metrics' hmetrics' m' hm'
  have hnodes : m.node = m'.node :=
    idTag_injective (fun c hc => isNumeral_hexText (hnode ▸ hc)) (fun c hc => isNumeral_hexText (hnode' ▸ hc)) htags
  rw [hnode, hnode'] at hnodes
  exact hne (hexText_injective hlen hnodes)

/-- **When two nodes are told apart**: exactly if the first four bytes of their
addresses differ and no line that begins in either payload is foreign. -/
theorem identity_iff (hd : ReadsAscii decode) (influxdbUrl : List Char) {p p' : Packet}
    (hp : 25 ≤ p.length.toNat ∧ p.length.toNat ≤ 125) (hp' : 25 ≤ p'.length.toNat ∧ p'.length.toNat ≤ 125)
    {s s' : Dongle} (hs : s.monitorMode = DUMP_HUMAN) (hs' : s'.monitorMode = DUMP_HUMAN)
    (before before' : List (Nat × Packet)) (buf buf' : Nat) {t t' : SerialThread} (ht : t.state = 3) (ht' : t'.state = 3)
    (harriving : t.arriving = printedInTime s before (buf, p))
    (harriving' : t'.arriving = printedInTime s' before' (buf', p')) {as as' : List PortAnswers}
    (has : t.arriving.length ≤ as.length) (has' : t'.arriving.length ≤ as'.length) :
    ∃ new new', (t.run decode as).broadcast = t.broadcast ++ new ∧ (t'.run decode as').broadcast = t'.broadcast ++ new' ∧
      (ToldApart influxdbUrl (hexText (p.data.slice 15 4)) (hexText (p'.data.slice 15 4)) new new' ↔
        p.data.slice 15 4 ≠ p'.data.slice 15 4 ∧ (∀ l ∈ p.innerLines, ¬ Foreign influxdbUrl decode l) ∧
          ∀ l ∈ p'.innerLines, ¬ Foreign influxdbUrl decode l) := by
  obtain ⟨q, hq, hbroadcast⟩ := run_frame hd hp.1 hp.2 hs before buf ht harriving has
  obtain ⟨q', hq', hbroadcast'⟩ := run_frame hd hp'.1 hp'.2 hs' before' buf' ht' harriving' has'
  have hspeaks := speaksFor_iff influxdbUrl hd hq
  have hspeaks' := speaksFor_iff influxdbUrl hd hq'
  have hlen : (p.data.slice 15 4).length = (p'.data.slice 15 4).length := by
    rw [Mem.length_slice, Mem.length_slice]
  refine ⟨_, _, hbroadcast, hbroadcast', ?_⟩
  constructor
  · intro h
    refine ⟨fun hsame => ?_, hspeaks.mp h.left, hspeaks'.mp h.right⟩
    have hnot := h.sources (hexText (p.data.slice 15 4)) (h.left.source ▸ List.mem_singleton.mpr rfl)
    exact hnot (h.right.source ▸ List.mem_singleton.mpr (congrArg hexText hsame))
  · rintro ⟨hne, hlines, hlines'⟩
    have hleft := hspeaks.mpr hlines
    have hright := hspeaks'.mpr hlines'
    refine ⟨hleft, hright, fun src hsrc hsrc' => ?_, hleft.stored_apart hlen hne hright⟩
    rw [hleft.source, List.mem_singleton] at hsrc
    rw [hright.source, List.mem_singleton] at hsrc'
    exact hne (hexText_injective hlen (hsrc.symm.trans hsrc'))

/-- A frame from an address. -/
def frameFrom (smac payload : List UInt8) : Packet :=
  { Packet.zero with
    length := UInt8.ofNat (25 + payload.length)
    data := fun i => (List.replicate 15 0 ++ smac ++ payload).getD i 0 }

/-- The packets for a frame, at a bridge that has just come to listen. -/
def heardOf (p : Packet) : List BridgePacket :=
  ((listening (printedInTime dumpingDongle [] (0, p))).run latin1 (turns 70)).broadcast

/-- A node that has nothing but its temperature to tell. -/
def warmFrame (smac : List UInt8) : Packet := frameFrom smac (ascii "TEMP:21.5;")

/-- Another, whose message has two lines. -/
def twoLineFrame (smac : List UInt8) : Packet := frameFrom smac (ascii "TEMP:4;\nRX: ok")

theorem identity_iff_reports :
    ToldApart "http://db".toList "0A0B0C0D".toList "0A0B0C0E".toList
        (heardOf (warmFrame [0x0A, 0x0B, 0x0C, 0x0D, 1, 2, 3, 4])) (heardOf (twoLineFrame [0x0A, 0x0B, 0x0C, 0x0E, 1, 2, 3, 4])) ∧
      (heardOf (warmFrame [0x0A, 0x0B, 0x0C, 0x0D, 1, 2, 3, 4])).map (insertPacket "http://db".toList) =
        [some [⟨"0A0B0C0D".toList, "temp".toList, "21.5".toList⟩]] ∧
      (heardOf (twoLineFrame [0x0A, 0x0B, 0x0C, 0x0E, 1, 2, 3, 4])).map (insertPacket "http://db".toList) =
        [some [⟨"0A0B0C0E".toList, "temp".toList, "4".toList⟩], some []] := by
  refine ⟨?_, by decide +kernel, by decide +kernel⟩
  have h := @identity_iff latin1 latin1_readsAscii "http://db".toList (warmFrame [0x0A, 0x0B, 0x0C, 0x0D, 1, 2, 3, 4])
    (twoLineFrame [0x0A, 0x0B, 0x0C, 0x0E, 1, 2, 3, 4]) (by decide) (by decide) dumpingDongle dumpingDongle rfl rfl [] [] 0 0
    (listening (printedInTime dumpingDongle [] (0, warmFrame [0x0A, 0x0B, 0x0C, 0x0D, 1, 2, 3, 4])))
    (listening (printedInTime dumpingDongle [] (0, twoLineFrame [0x0A, 0x0B, 0x0C, 0x0E, 1, 2, 3, 4])))
    rfl rfl rfl rfl (turns 70) (turns 70) (by decide +kernel) (by decide +kernel)
  have hinner : (warmFrame [0x0A, 0x0B, 0x0C, 0x0D, 1, 2, 3, 4]).innerLines = [] := by decide +kernel
  have hinner' : (twoLineFrame [0x0A, 0x0B, 0x0C, 0x0E, 1, 2, 3, 4]).innerLines = [ascii "RX: ok|\r"] := by decide +kernel
  obtain ⟨new, new', hnew, hnew', hiff⟩ := h
  rw [hinner, hinner', List.forall_mem_singleton] at hiff
  have hone : ¬ Foreign "http://db".toList latin1 (ascii "RX: ok|\r") := fun h => absurd h.2.1 (by decide +kernel)
  have happart := hiff.mpr ⟨by decide, List.forall_mem_nil _, hone⟩
  have hheard : heardOf (warmFrame [0x0A, 0x0B, 0x0C, 0x0D, 1, 2, 3, 4]) = new := hnew
  have hheard' : heardOf (twoLineFrame [0x0A, 0x0B, 0x0C, 0x0E, 1, 2, 3, 4]) = new' := hnew'
  rw [hheard, hheard']
  exact happart

/-- Node 0x99 and node 0x01, numbered as `default_config` does it, have different
addresses, and are one at the bridge and in the database. -/
theorem nodes_merged :
    (warmFrame [0, 0, 0, 0, 0, 0, 0, 0x99]).data.slice 15 8 ≠ (twoLineFrame [0, 0, 0, 0, 0, 0, 0, 0x01]).data.slice 15 8 ∧
      sources (heardOf (warmFrame [0, 0, 0, 0, 0, 0, 0, 0x99])) = ["00000000".toList] ∧
      sources (heardOf (twoLineFrame [0, 0, 0, 0, 0, 0, 0, 0x01])) = ["00000000".toList] ∧
      ¬ ToldApart "http://db".toList "00000000".toList "00000000".toList (heardOf (warmFrame [0, 0, 0, 0, 0, 0, 0, 0x99]))
        (heardOf (twoLineFrame [0, 0, 0, 0, 0, 0, 0, 0x01])) := by
  have hsources : sources (heardOf (warmFrame [0, 0, 0, 0, 0, 0, 0, 0x99])) = ["00000000".toList] := by decide +kernel
  have hsources' : sources (heardOf (twoLineFrame [0, 0, 0, 0, 0, 0, 0, 0x01])) = ["00000000".toList] := by decide +kernel
  refine ⟨by decide, hsources, hsources', fun h => ?_⟩
  have hnot := h.sources "00000000".toList (hsources ▸ List.mem_singleton.mpr rfl)
  exact hnot (hsources' ▸ List.mem_singleton.mpr rfl)

end OflMetrics
