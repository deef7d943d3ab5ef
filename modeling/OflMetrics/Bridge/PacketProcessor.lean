/-
`PacketProcessor::insertPacket` of `oflbridge`: the loop that searches a
packet's message for metrics and hands each to `influx_sendmetric`.

The loop advances `pos` by the length of a match. It runs here with a bound
on its turns, and has no result when the bound is reached;
`insertPacket_items` shows that it is not on a text of items.
-/
import OflMetrics.Embed.ItemRegex

namespace OflMetrics

open Embed Embed.KeyValue

/-- The bridge's `Packet`. -/
structure BridgePacket where
  srcNodeId : List Char
  dstNodeId : List Char
  msg : List Char

/-- The arguments of one call of `influx_sendmetric`. -/
structure Metric where
  node : List Char
  type : List Char
  val : List Char
  deriving DecidableEq, Repr

/-- The types the expression knows. -/
def metricTypes : List (List Char) :=
  ["TEMP".toList, "BATLEV".toList, "FWVER".toList, "CAPA".toList, "ERROR".toList, "AWAKE_SEC".toList,
    "MAIN_LOOP".toList]

/-- `toLower()`. -/
def toLower (s : List Char) : List Char := s.map Char.toLower

/-- The loop of `insertPacket` from `pos` on, for the regular expression
`(TEMP|BATLEV|FWVER|CAPA|ERROR|AWAKE_SEC|MAIN_LOOP):([^;]+);`. -/
def insertLoop (influxdbUrl : List Char) (p : BridgePacket) : Nat → Nat → Option (List Metric)
  | 0, _ => none
  | fuel + 1, pos =>
    match (itemRegex metricTypes).indexIn p.msg pos with
    | none => some []
    | some m =>
      let metrics := if influxdbUrl ≠ [] then [⟨p.srcNodeId, toLower (m.cap 1), m.cap 2⟩] else []
      (insertLoop influxdbUrl p fuel (m.pos + m.length)).map (metrics ++ ·)

/-- `insertPacket`: the calls of `influx_sendmetric`, in order. -/
def insertPacket (influxdbUrl : List Char) (p : BridgePacket) : Option (List Metric) :=
  insertLoop influxdbUrl p (p.msg.length + 1) 0

/-! ## Any message -/

/-- There is something in the message that the expression matches. -/
def HasItem (msg : List Char) : Prop := (itemRegex metricTypes).indexIn msg 0 ≠ none

/-- The loop ends: every match takes some of the message. -/
theorem insertLoop_ends (influxdbUrl : List Char) (p : BridgePacket) :
    ∀ (fuel pos : Nat), p.msg.length < fuel + pos → 0 < fuel → ∃ metrics, insertLoop influxdbUrl p fuel pos = some metrics
  | fuel + 1, pos, hfuel, _ => by
    rw [insertLoop]
    cases hfind : (itemRegex metricTypes).indexIn p.msg pos with
    | none => exact ⟨[], rfl⟩
    | some m =>
      obtain ⟨hpos, hlength, hend⟩ := (itemRegex_consumes metricTypes).indexIn hfind
      obtain ⟨metrics, hrest⟩ := insertLoop_ends influxdbUrl p fuel (m.pos + m.length) (by omega) (by omega)
      exact ⟨_, congrArg (Option.map _) hrest⟩

theorem insertPacket_ends (influxdbUrl : List Char) (p : BridgePacket) : ∃ metrics, insertPacket influxdbUrl p = some metrics :=
  insertLoop_ends influxdbUrl p _ 0 (Nat.lt_succ_self _) (Nat.succ_pos _)

/-- All metrics of a packet are its source's. -/
theorem insertLoop_node {influxdbUrl : List Char} {p : BridgePacket} :
    ∀ {fuel pos : Nat} {metrics : List Metric}, insertLoop influxdbUrl p fuel pos = some metrics →
      ∀ m ∈ metrics, m.node = p.srcNodeId
  | 0, _, _, h => by cases h
  | fuel + 1, pos, metrics, h => by
    rw [insertLoop] at h
    split at h
    · cases h
      exact fun m hm => absurd hm List.not_mem_nil
    · next found _ =>
      obtain ⟨rest, hrest, rfl⟩ := Option.map_eq_some_iff.mp h
      intro m hm
      rw [List.mem_append] at hm
      cases hm with
      | inl hm =>
        split at hm
        · rw [List.mem_singleton.mp hm]
        · exact absurd hm List.not_mem_nil
      | inr hm => exact insertLoop_node hrest m hm

/-- Without a database nothing is stored. -/
theorem insertLoop_noUrl {p : BridgePacket} :
    ∀ {fuel pos : Nat} {metrics : List Metric}, insertLoop [] p fuel pos = some metrics → metrics = []
  | 0, _, _, h => by cases h
  | fuel + 1, pos, metrics, h => by
    rw [insertLoop] at h
    split at h
    · cases h
      rfl
    · next found _ =>
      obtain ⟨rest, hrest, rfl⟩ := Option.map_eq_some_iff.mp h
      exact insertLoop_noUrl hrest

/-- What is stored of a packet: something, exactly if there is an item and a database. -/
theorem insertPacket_ne_nil_iff {influxdbUrl : List Char} {p : BridgePacket} {metrics : List Metric}
    (h : insertPacket influxdbUrl p = some metrics) : metrics ≠ [] ↔ influxdbUrl ≠ [] ∧ HasItem p.msg := by
  constructor
  · intro hne
    refine ⟨fun hurl => ?_, fun hnone => ?_⟩
    · subst hurl
      exact hne (insertLoop_noUrl h)
    · rw [insertPacket, insertLoop, hnone, Option.some.injEq] at h
      exact hne h.symm
  · rintro ⟨hurl, hitem⟩ rfl
    obtain ⟨m, hm⟩ := Option.ne_none_iff_exists'.mp hitem
    rw [insertPacket, insertLoop, hm] at h
    simp only [if_pos hurl] at h
    obtain ⟨rest, -, hrest⟩ := Option.map_eq_some_iff.mp h
    cases hrest

/-! ## A message of items -/

/-- The call for an item. -/
def metricOf (node : List Char) (it : Item) : Metric := ⟨node, toLower it.1, it.2⟩

theorem metricTypes_plain : ∀ k ∈ metricTypes, k.all IsPlain = true := by decide

/-- An item the loop takes or passes over: no type ends its key, except the key itself. -/
structure Separate (it : Item) : Prop where
  wellFormed : it.WellFormed
  suffix : it.1 ∉ metricTypes → ∀ t, t <:+ it.1 → t ∉ metricTypes

theorem insertLoop_items {influxdbUrl : List Char} (hurl : influxdbUrl ≠ []) (p : BridgePacket) :
    ∀ (its : List Item) (fuel pos : Nat), (∀ it ∈ its, Separate it) → pos ≤ p.msg.length →
      p.msg.drop pos = render its → its.length < fuel →
      insertLoop influxdbUrl p fuel pos =
        some ((its.filter (·.1 ∈ metricTypes)).map (metricOf p.srcNodeId)) := by
  intro its
  induction its with
  | nil =>
    intro fuel pos _ hpos hmsg hfuel
    obtain ⟨fuel, rfl⟩ := Nat.exists_eq_succ_of_ne_zero (Nat.ne_of_gt hfuel)
    have hnone : (itemRegex metricTypes).indexIn p.msg pos = none := by
      rw [Regex.indexIn, if_pos hpos, hmsg]
      exact Regex.search_nil_of_none rfl
    rw [insertLoop, hnone]
    rfl
  | cons it its ih =>
    intro fuel pos hits hpos hmsg hfuel
    obtain ⟨fuel, rfl⟩ := Nat.exists_eq_succ_of_ne_zero (Nat.ne_of_gt (Nat.lt_of_le_of_lt (Nat.zero_le _) hfuel))
    rw [List.length_cons] at hfuel
    have hit := hits it (by simp)
    have hits' : ∀ it' ∈ its, Separate it' := fun it' h => hits it' (List.mem_cons_of_mem _ h)
    have hmsg' : p.msg.drop (pos + it.render.length) = render its := by
      rw [← List.drop_drop, hmsg, render_cons, List.drop_left]
    have hpos' : pos + it.render.length ≤ p.msg.length := by
      have hlen := congrArg List.length hmsg
      rw [List.length_drop, render_cons, List.length_append] at hlen
      have := it.length_render
      omega
    by_cases hknown : it.1 ∈ metricTypes
    · have hfound : (itemRegex metricTypes).indexIn p.msg pos = some ⟨pos, it.render.length, [(1, it.1), (2, it.2)]⟩ := by
        rw [Regex.indexIn, if_pos hpos, hmsg]
        exact search_known hit.wellFormed hknown metricTypes_plain _ _
      rw [insertLoop, hfound]
      simp only [if_pos hurl, ih fuel _ hits' hpos' hmsg' (by omega), List.filter_cons, decide_eq_true hknown, if_true]
      rfl
    · -- The next match is the one from behind the item.
      have hskip : (itemRegex metricTypes).indexIn p.msg pos =
          (itemRegex metricTypes).indexIn p.msg (pos + it.render.length) := by
        rw [Regex.indexIn, Regex.indexIn, if_pos hpos, if_pos hpos', hmsg, hmsg', render_cons]
        exact search_unknown hit.wellFormed metricTypes_plain (hit.suffix hknown) _ _
      have hrest := ih (fuel + 1) _ hits' hpos' hmsg' (by omega)
      rw [insertLoop] at hrest ⊢
      rw [hskip, hrest, List.filter_cons_of_neg (by simpa using hknown)]

/-- On a text of items the loop ends, and takes the items of the known types. -/
theorem insertPacket_items {influxdbUrl : List Char} (hurl : influxdbUrl ≠ []) {p : BridgePacket} {its : List Item}
    (hits : ∀ it ∈ its, Separate it) (hmsg : p.msg = render its) :
    insertPacket influxdbUrl p = some ((its.filter (·.1 ∈ metricTypes)).map (metricOf p.srcNodeId)) := by
  refine insertLoop_items hurl p its _ 0 hits (Nat.zero_le _) (by rw [List.drop_zero, hmsg]) ?_
  have hlen : its.length ≤ (render its).length := by
    clear hmsg hits
    induction its with
    | nil => exact Nat.le_refl _
    | cons it its ih =>
      rw [render_cons, List.length_append, it.length_render, List.length_cons]
      omega
  rw [hmsg]
  omega

end OflMetrics
