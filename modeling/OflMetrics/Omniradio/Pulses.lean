/-
How the interrupt reads pulse lengths.

`cnt2us(delta)` is computed in `int` and stored in a 16-bit `trans_cur`, so a
level that lasts longer than 6144 counts (32768 us) is read as a shorter one,
or one of the other sign. Up to there it is read exactly (`transCur_iff`), and
then only a start mark starts a recording and no gap is taken for a pulse
(`pulses_read_iff`); `gaps_start` records two gaps of 66 and 68 ms.
-/
import OflMetrics.Omniradio.MsgSlots

namespace OflMetrics

open Embed Embed.Traced

/-- The length of `c` timer counts, in whole microseconds. -/
def countUs (c : UInt16) : Nat := 10000 * c.toNat / 1875

/-- `c` timer counts last strictly between `lo` and `hi` microseconds. -/
def LastsBetween (lo hi : Nat) (c : UInt16) : Prop := lo * 1875 < 10000 * c.toNat ∧ 10000 * c.toNat < hi * 1875

/-- A length that the start search or the decoder takes for a pulse. -/
def TakenForPulse (d : Int16) : Prop := HighPulse d ∨ LowPulse 275 d ∨ LowPulse 1225 d ∨ LowPulse 2675 d

/-- `trans_cur` is the length of `c` counts, or its negative. -/
def ReadsLength (s : Receiver) (c : UInt16) : Prop := s.transCur.toInt = countUs c ∨ s.transCur.toInt = -countUs c

/-- The receiver after the edges of a list, from the boot. -/
def afterEdges (deltas : List UInt16) : Receiver := run edgeStep .boot deltas

/-- No length is misread among these edges: what is stored is the length or its
negative, a recording starts at a start mark only, a high and then a low, and a
gap is no pulse. -/
structure PulsesRead (deltas : List UInt16) : Prop where
  exact : ∀ before c, before ++ [c] <+: deltas → ReadsLength (afterEdges (before ++ [c])) c
  start : ∀ before c, before ++ [c] <+: deltas → (afterEdges before).record = 0 →
    (afterEdges (before ++ [c])).record ≠ 0 →
    ∃ earlier high, before = earlier ++ [high] ∧
      (afterEdges earlier).bEdgeDirection = 0 ∧ LastsBetween 137 412 high ∧
      (afterEdges before).bEdgeDirection = 1 ∧ LastsBetween 1337 4012 c
  gap : ∀ before c, before ++ [c] <+: deltas → 4012 * 1875 < 10000 * c.toNat →
    ¬ TakenForPulse (afterEdges (before ++ [c])).transCur

/-! ## One edge -/

theorem cnt2us_toNat (c : UInt16) : cnt2us c.toNat = countUs c := by
  rw [cnt2us, Int.tdiv_eq_ediv_of_nonneg (by omega)]
  simp [countUs]

theorem countUs_le (c : UInt16) : countUs c ≤ 32768 ↔ c.toNat ≤ 6144 := by
  unfold countUs
  omega

/-- A 16-bit variable keeps an integer, up to its sign, exactly up to 32768. -/
theorem narrow_iff (i : Int) :
    ((Int16.ofInt i).toInt = i ∨ (Int16.ofInt i).toInt = -i) ↔ i.natAbs ≤ 32768 := by
  have hsize : (Int16.size : Int) = 65536 := rfl
  rw [Int16.toInt_ofInt, Int.bmod_def, hsize]
  split <;> omega

theorem transCur_iff {s : Receiver} (hdir : s.bEdgeDirection = 0 ∨ s.bEdgeDirection = 1) (c : UInt16) :
    ReadsLength (edgeStep s c) c ↔ c.toNat ≤ 6144 := by
  rw [ReadsLength, (edgeStep_captured s c).2, ← countUs_le]
  cases hdir with
  | inl h =>
    rw [capture_high c h, highUs, cnt2us_toNat]
    exact narrow_iff (countUs c)
  | inr h =>
    rw [capture_low c h, lowUs, cnt2us_toNat, or_comm]
    simpa using narrow_iff (-countUs c)

theorem ReadsLength.high {s : Receiver} {c : UInt16} (h : ReadsLength s c) (hp : HighPulse s.transCur) :
    LastsBetween 137 412 c := by
  rw [highPulse_iff] at hp
  unfold LastsBetween
  cases h with
  | inl h =>
    simp only [countUs] at h
    omega
  | inr h =>
    simp only [countUs] at h
    omega

theorem ReadsLength.low {s : Receiver} {c : UInt16} (h : ReadsLength s c) (hp : LowPulse 2675 s.transCur) :
    LastsBetween 1337 4012 c := by
  rw [lowPulse_2675_iff] at hp
  unfold LastsBetween
  cases h with
  | inl h =>
    simp only [countUs] at h
    omega
  | inr h =>
    simp only [countUs] at h
    omega

theorem ReadsLength.gap {s : Receiver} {c : UInt16} (h : ReadsLength s c) (hgap : 4012 * 1875 < 10000 * c.toNat) :
    ¬ TakenForPulse s.transCur := by
  have habs : 4012 ≤ s.transCur.toInt ∨ s.transCur.toInt ≤ -4012 := by
    cases h with
    | inl h =>
      simp only [countUs] at h
      omega
    | inr h =>
      simp only [countUs] at h
      omega
  rw [TakenForPulse, highPulse_iff, lowPulse_275_iff, lowPulse_1225_iff, lowPulse_2675_iff]
  omega

/-! ## Runs -/

theorem afterEdges_append (before : List UInt16) (c : UInt16) :
    afterEdges (before ++ [c]) = edgeStep (afterEdges before) c := by
  rw [afterEdges, run_append]
  rfl

theorem afterEdges_direction (deltas : List UInt16) :
    (afterEdges deltas).bEdgeDirection = 0 ∨ (afterEdges deltas).bEdgeDirection = 1 := by
  refine run_invariant (I := fun s : Receiver => s.bEdgeDirection = 0 ∨ s.bEdgeDirection = 1) (fun s c h => ?_) (.inl rfl)
  rw [(edgeStep_captured s c).1]
  cases h with
  | inl h => exact .inr (by rw [capture_high c h])
  | inr h => exact .inl (by rw [capture_low c h])

theorem readsLength_iff (before : List UInt16) (c : UInt16) :
    ReadsLength (afterEdges (before ++ [c])) c ↔ c.toNat ≤ 6144 := by
  rw [afterEdges_append]
  exact transCur_iff (afterEdges_direction before) c

/-- Up to there the sign is that of the level, but for the longest high. -/
theorem highUs_toInt {c : UInt16} (hc : c.toNat ≤ 6144) : (highUs c).toInt = countUs c ∨ (highUs c).toInt = -32768 := by
  have hsize : (Int16.size : Int) = 65536 := rfl
  have hle := (countUs_le c).mpr hc
  rw [highUs, cnt2us_toNat, Int16.toInt_ofInt, Int.bmod_def, hsize]
  split
  · omega
  · omega

theorem lowUs_toInt {c : UInt16} (hc : c.toNat ≤ 6144) : (lowUs c).toInt = -countUs c := by
  have hsize : (Int16.size : Int) = 65536 := rfl
  have hle := (countUs_le c).mpr hc
  rw [lowUs, cnt2us_toNat, Int16.toInt_ofInt, Int.bmod_def, hsize]
  split
  · omega
  · omega

/-- A high pulse was at the high level. -/
theorem direction_of_highPulse {before : List UInt16} {c : UInt16} (hc : c.toNat ≤ 6144)
    (hp : HighPulse (afterEdges (before ++ [c])).transCur) : (afterEdges before).bEdgeDirection = 0 := by
  refine (afterEdges_direction before).resolve_right fun h => ?_
  rw [afterEdges_append, (edgeStep_captured _ c).2, capture_low c h, highPulse_iff, lowUs_toInt hc] at hp
  omega

/-- The low of a mark was at the low level. -/
theorem direction_of_lowPulse {before : List UInt16} {c : UInt16} (hc : c.toNat ≤ 6144)
    (hp : LowPulse 2675 (afterEdges (before ++ [c])).transCur) : (afterEdges before).bEdgeDirection = 1 := by
  refine (afterEdges_direction before).resolve_left fun h => ?_
  rw [afterEdges_append, (edgeStep_captured _ c).2, capture_high c h, lowPulse_2675_iff] at hp
  cases highUs_toInt hc with
  | inl hread => rw [hread] at hp; omega
  | inr hread => rw [hread] at hp; omega

/-- What starts a recording is in the last two lengths stored. -/
theorem starts {s : Receiver} {c : UInt16} (h0 : s.record = 0) (h1 : (edgeStep s c).record ≠ 0) :
    HighPulse s.transCur ∧ LowPulse 2675 (edgeStep s c).transCur := by
  by_cases hs : StartMark (capture s c)
  · rw [(edgeStep_captured s c).2]
    obtain ⟨hhigh, hlow⟩ := hs
    rw [capture_transPrev] at hhigh
    exact ⟨hhigh, hlow⟩
  · rw [edgeStep, kbi7Isr_idle h0 hs, capture_record] at h1
    exact absurd h0 h1

/-- **Pulses are read as they are** exactly if no level lasts longer than 6144
timer counts, 32768 microseconds. -/
theorem pulses_read_iff (deltas : List UInt16) : PulsesRead deltas ↔ ∀ c ∈ deltas, c.toNat ≤ 6144 := by
  constructor
  · intro h c hc
    obtain ⟨before, after, rfl⟩ := List.append_of_mem hc
    exact (readsLength_iff before c).mp (h.exact before c ⟨after, by simp⟩)
  · intro hall
    have hreads (before : List UInt16) (c : UInt16) (hpre : before ++ [c] <+: deltas) :
        ReadsLength (afterEdges (before ++ [c])) c :=
      (readsLength_iff before c).mpr (hall c (hpre.subset (by simp)))
    refine ⟨hreads, fun before c hpre h0 h1 => ?_, fun before c hpre hgap => (hreads before c hpre).gap hgap⟩
    rw [afterEdges_append] at h1
    obtain ⟨hhigh, hlow⟩ := starts h0 h1
    rw [← afterEdges_append] at hlow
    have hlevel := direction_of_lowPulse (hall c (hpre.subset (by simp))) hlow
    cases List.eq_nil_or_concat' before with
    | inl hnil =>
      rw [hnil] at hhigh
      exact absurd hhigh (by decide)
    | inr hcons =>
      obtain ⟨earlier, high, rfl⟩ := hcons
      have hprev := hreads earlier high ((List.prefix_append _ [c]).trans hpre)
      have hlevel' := direction_of_highPulse (hall high (hpre.subset (by simp))) hhigh
      exact ⟨earlier, high, rfl, hlevel', hprev.high hhigh, hlevel, (hreads _ c hpre).low hlow⟩

/-- A high of 66 ms and a low of 68 ms are read as 277 and 2677 us, and start a recording. -/
theorem gaps_start :
    (afterEdges [12340, 12790]).record = 127 ∧ ¬ LastsBetween 137 412 12340 ∧ ¬ LastsBetween 1337 4012 12790 ∧
      ¬ PulsesRead [12340, 12790] := by
  refine ⟨by decide +kernel, by unfold LastsBetween; decide, by unfold LastsBetween; decide, fun h => ?_⟩
  have hread := h.exact [] 12340 ⟨[12790], rfl⟩
  exact absurd ((readsLength_iff [] 12340).mp hread) (by decide)

end OflMetrics
