/-
What the receiver stores for a HomeEasy burst: a start mark and 64 pulse
pairs, sent to an idle receiver after any history.

* `Recording`: what the interrupts of the burst have done so far, kept pair
  by pair (`Recording.pair`, `Recording.pairs`).
* `burst_stored`: the message is decoded after 63 of the 64 pairs, from a
  ring that starts with what was left in it and the low of the start mark.
* `homeEasy_iff`: the stored message is the burst's exactly when the shift by
  one pair does not show.
-/
import OflMetrics.Omniradio.ReceiverFacts

namespace OflMetrics

open Embed Embed.Traced

/-! ## Bursts -/

/-- The interval recorded for a high of `c` counts. -/
def highUs (c : UInt16) : Int16 := Int16.ofInt (cnt2us c.toNat)

/-- The interval recorded for a low of `c` counts. -/
def lowUs (c : UInt16) : Int16 := Int16.ofInt (-(cnt2us c.toNat))

/-- A start mark and 64 pairs of a high and a low, in timer counts. -/
structure Burst where
  markHigh : UInt16
  markLow : UInt16
  pairs : List (UInt16 × UInt16)
  mark : HighPulse (highUs markHigh) ∧ LowPulse 2675 (lowUs markLow)
  length_pairs : pairs.length = HE_BITLEN
  pulse : ∀ p ∈ pairs, HighPulse (highUs p.1) ∧ (LowPulse 275 (lowUs p.2) ∨ LowPulse 1225 (lowUs p.2))

/-- The edges of pulse pairs. -/
def pulses (ps : List (UInt16 × UInt16)) : List UInt16 := ps.flatMap fun p => [p.1, p.2]

/-- The intervals recorded for them. -/
def intervals (ps : List (UInt16 × UInt16)) : List Int16 := ps.flatMap fun p => [highUs p.1, lowUs p.2]

/-- A short low is a 1, a long one a 0. -/
def pairBit (p : UInt16 × UInt16) : Char := if LowPulse 275 (lowUs p.2) then '1' else '0'

def Burst.edges (b : Burst) : List UInt16 := [b.markHigh, b.markLow] ++ pulses b.pairs

def Burst.text (b : Burst) : List Char := b.pairs.map pairBit

/-- Between `s` and `s'` one message, `text`, was stored, inside `msg_buf`. -/
structure StoredOne (s s' : Receiver) (text : List Char) : Prop where
  room : 100 * s.msgCnt.toNat + HE_BITLEN < msgBufSize
  msgCnt : s'.msgCnt = s.msgCnt + 1
  text : s'.msgBuf.slice (100 * s.msgCnt.toNat) HE_BITLEN = text
  nul : s'.msgBuf (100 * s.msgCnt.toNat + HE_BITLEN) = '\x00'
  other : ∀ i, i < 100 * s.msgCnt.toNat ∨ 100 * s.msgCnt.toNat + HE_BITLEN < i → s'.msgBuf i = s.msgBuf i

/-! ## The interrupts of a burst -/

theorem capture_high {s : Receiver} (c : UInt16) (h : s.bEdgeDirection = 0) :
    capture s c = { s with transPrev := s.transCur, bEdgeDirection := 1, transCur := highUs c } := by
  simp only [capture, h]
  rfl

theorem capture_low {s : Receiver} (c : UInt16) (h : s.bEdgeDirection = 1) :
    capture s c = { s with transPrev := s.transCur, bEdgeDirection := 0, transCur := lowUs c } := by
  simp only [capture, h]
  rfl

theorem not_startMark_high (s : Receiver) (c : UInt16) (h : s.bEdgeDirection = 0) (hc : HighPulse (highUs c)) :
    ¬ StartMark (capture s c) := by
  rw [capture_high c h]
  rintro ⟨-, hlow⟩
  rw [lowPulse_2675_iff] at hlow
  rw [highPulse_iff] at hc
  exact absurd hlow.2 (by show ¬ (highUs c).toInt < -1337; omega)

/-- What an edge does in the middle of a recording. -/
theorem edgeStep_record {s : Receiver} {c : UInt16} (h0 : s.record ≠ 0) (h2 : s.record ≠ 2) :
    (edgeStep s c).record = s.record - 1 ∧ (edgeStep s c).ring = val (ringPush s.ring (capture s c).transCur) ∧
      (edgeStep s c).bEdgeDirection = (capture s c).bEdgeDirection ∧
      (edgeStep s c).msgBuf = s.msgBuf ∧ (edgeStep s c).msgCnt = s.msgCnt := by
  rw [edgeStep, kbi7Isr_record h0 h2]
  simp

/-- An edge outside a recording stores nothing. -/
theorem edgeStep_idle {s : Receiver} {c : UInt16} (h0 : s.record = 0) :
    (edgeStep s c).msgBuf = s.msgBuf ∧ (edgeStep s c).msgCnt = s.msgCnt := by
  by_cases hstart : StartMark (capture s c)
  · rw [edgeStep, kbi7Isr_start h0 hstart]
    simp
  · rw [edgeStep, kbi7Isr_idle h0 hstart]
    simp

/-- The low of a pair is pushed behind its high. -/
theorem capture_low_push {s : Receiver} {l : List Int16} {a : Int16} (c : UInt16) (hdir : s.bEdgeDirection = 1)
    (hring : RingIs s.ring (l ++ [a])) (hl : l.length + 1 < 1024) :
    RingIs (val (ringPush s.ring (capture s c).transCur)) (l ++ [a, lowUs c]) := by
  rw [capture_low c hdir, show l ++ [a, lowUs c] = l ++ [a] ++ [lowUs c] by simp]
  exact hring.push _ (by simpa using hl)

/-- A recording since `s₀`: `l` is in the ring, `r` edges are left, the next
interval is a high. -/
structure Recording (s₀ : Receiver) (l : List Int16) (r : Nat) (s : Receiver) : Prop where
  ring : RingIs s.ring l
  record : s.record.toNat = r
  direction : s.bEdgeDirection = 0
  msgBuf : s.msgBuf = s₀.msgBuf
  msgCnt : s.msgCnt = s₀.msgCnt

variable {s₀ s : Receiver} {l : List Int16} {r : Nat}

theorem Recording.start (hring : RingIs s.ring l) (hl : l.length ≤ 1) (hrec : s.record = 0)
    (hdir : s.bEdgeDirection = 0) {h lo : UInt16} (hmark : HighPulse (highUs h) ∧ LowPulse 2675 (lowUs lo)) :
    Recording s (l ++ [lowUs lo]) 127 (run edgeStep s [h, lo]) := by
  have hhigh : edgeStep s h = { s with transPrev := s.transCur, bEdgeDirection := 1, transCur := highUs h } := by
    rw [edgeStep, kbi7Isr_idle hrec (not_startMark_high s h hdir hmark.1), capture_high h hdir]
  have hcap : capture (edgeStep s h) lo =
      { s with transPrev := highUs h, bEdgeDirection := 0, transCur := lowUs lo } := by
    rw [hhigh]
    exact capture_low lo rfl
  have hlow : edgeStep (edgeStep s h) lo = (capture (edgeStep s h) lo).pushed 127 := by
    refine kbi7Isr_start ?_ ?_
    · rw [hhigh]; exact hrec
    · rw [hcap]; exact hmark
  simp only [run_cons, run_nil]
  rw [hlow, hcap]
  exact ⟨hring.push _ (by omega), rfl, rfl, rfl, rfl⟩

theorem Recording.high (hs : Recording s₀ l r s) (hr : 3 ≤ r) (hl : l.length < 1024) (c : UInt16) :
    (edgeStep s c).record.toNat = r - 1 ∧ RingIs (edgeStep s c).ring (l ++ [highUs c]) ∧
      (edgeStep s c).bEdgeDirection = 1 ∧
      (edgeStep s c).msgBuf = s₀.msgBuf ∧ (edgeStep s c).msgCnt = s₀.msgCnt := by
  have hrec := hs.record
  have hne (k : UInt8) (hk : k.toNat < 3) : s.record ≠ k := fun he => by rw [he] at hrec; omega
  obtain ⟨h1, h2, h3, h4, h5⟩ := edgeStep_record (c := c) (hne 0 (by decide)) (hne 2 (by decide))
  have hsub : (s.record - 1).toNat = r - 1 := by
    rw [UInt8.toNat_sub_of_le _ _ (UInt8.le_iff_toNat_le.mpr (by rw [hrec]; show 1 ≤ r; omega)), hrec]
    rfl
  rw [h1, h2, h3, h4, h5, hs.msgBuf, hs.msgCnt, capture_high c hs.direction]
  exact ⟨hsub, hs.ring.push _ hl, rfl, rfl, rfl⟩

theorem Recording.pair (hs : Recording s₀ l (r + 2) s) (hr : 2 ≤ r) (hl : l.length + 2 ≤ 1024) (h lo : UInt16) :
    Recording s₀ (l ++ [highUs h, lowUs lo]) r (run edgeStep s [h, lo]) := by
  obtain ⟨hrec, hring, hdir, hbuf, hcnt⟩ := hs.high (by omega) (by omega) h
  have hne (k : UInt8) (hk : k.toNat < r + 1) : (edgeStep s h).record ≠ k := fun he => by rw [he] at hrec; omega
  obtain ⟨h1, h2, h3, h4, h5⟩ :=
    edgeStep_record (c := lo) (hne 0 (Nat.succ_pos _)) (hne 2 (by show 2 < r + 1; omega))
  have hsub : ((edgeStep s h).record - 1).toNat = r := by
    rw [UInt8.toNat_sub_of_le _ _ (UInt8.le_iff_toNat_le.mpr (by rw [hrec]; show 1 ≤ r + 2 - 1; omega)), hrec]
    rfl
  rw [run_cons, run_cons, run_nil]
  constructor
  · rw [h2]
    exact capture_low_push lo hdir hring (by omega)
  · rw [h1, hsub]
  · rw [h3, capture_low lo hdir]
  · rw [h4, hbuf]
  · rw [h5, hcnt]

theorem Recording.pairs (ps : List (UInt16 × UInt16)) :
    ∀ {l s}, Recording s₀ l (r + 2 * ps.length) s → 2 ≤ r → l.length + 2 * ps.length ≤ 1024 →
      Recording s₀ (l ++ intervals ps) r (run edgeStep s (pulses ps)) := by
  induction ps with
  | nil => intro l s hs _ _; simpa [intervals, pulses] using hs
  | cons p ps ih =>
    intro l s hs hr hl
    simp only [List.length_cons] at hs hl
    have hpair : Recording s₀ (l ++ [highUs p.1, lowUs p.2]) (r + 2 * ps.length) (run edgeStep s [p.1, p.2]) :=
      Recording.pair (by rwa [show r + 2 * ps.length + 2 = r + 2 * (ps.length + 1) by omega]) (by omega) (by omega) _ _
    have hrest := ih hpair hr (by simp; omega)
    rw [List.append_assoc, ← run_append] at hrest
    exact hrest

/-- The last four edges: at the second the message is decoded, the third is
pushed into the emptied ring, the fourth is not recorded or starts anew. -/
theorem Recording.finish (hs : Recording s₀ l 3 s) (hl : l.length + 2 ≤ 1024) (h lo h' lo' : UInt16) :
    ∃ ring, RingIs ring (l ++ [highUs h, lowUs lo]) ∧
      (run edgeStep s [h, lo, h', lo']).msgBuf = storeMessage ring s₀.msgCnt.toNat s₀.msgBuf ∧
      (run edgeStep s [h, lo, h', lo']).msgCnt = s₀.msgCnt + 1 := by
  simp only [run_cons, run_nil]
  obtain ⟨hrec, hring, hdir, hbuf, hcnt⟩ := hs.high (Nat.le_refl 3) (by omega) h
  generalize edgeStep s h = s₁ at *
  have hlast := kbi7Isr_last (c := lo) (show s₁.record = 2 from UInt8.toNat_inj.mp hrec)
  obtain ⟨hrec2, hbuf2, hcnt2⟩ : (edgeStep s₁ lo).record = 1 ∧
      (edgeStep s₁ lo).msgBuf = storeMessage ((capture s₁ lo).pushed 1).ring s₀.msgCnt.toNat s₀.msgBuf ∧
      (edgeStep s₁ lo).msgCnt = s₀.msgCnt + 1 := by
    rw [edgeStep, hlast, hbuf, hcnt]
    exact ⟨rfl, rfl, rfl⟩
  have hring2 : RingIs ((capture s₁ lo).pushed 1).ring (l ++ [highUs h, lowUs lo]) := by
    rw [pushed_ring, capture_ring]
    exact capture_low_push lo hdir hring (by omega)
  generalize edgeStep s₁ lo = s₂ at *
  obtain ⟨hrec3, -, -, hbuf3, hcnt3⟩ :=
    edgeStep_record (c := h') (show s₂.record ≠ 0 by rw [hrec2]; decide) (by rw [hrec2]; decide)
  obtain ⟨hbuf4, hcnt4⟩ :=
    edgeStep_idle (c := lo') (show (edgeStep s₂ h').record = 0 by rw [hrec3, hrec2]; decide)
  exact ⟨_, hring2, by rw [hbuf4, hbuf3, hbuf2], by rw [hcnt4, hcnt3, hcnt2]⟩

/-! ## The stored message -/

theorem pulses_append (ps qs : List (UInt16 × UInt16)) : pulses (ps ++ qs) = pulses ps ++ pulses qs :=
  List.flatMap_append

theorem intervals_append (ps qs : List (UInt16 × UInt16)) : intervals (ps ++ qs) = intervals ps ++ intervals qs :=
  List.flatMap_append

theorem length_intervals (ps : List (UInt16 × UInt16)) : (intervals ps).length = 2 * ps.length := by
  induction ps with
  | nil => rfl
  | cons p ps ih =>
    have hcons : intervals (p :: ps) = [highUs p.1, lowUs p.2] ++ intervals ps := rfl
    rw [hcons, List.length_append, ih, List.length_cons]
    simp
    omega

theorem burst_stored (hring : RingIs s.ring l) (hl : l.length ≤ 1) (hrec : s.record = 0)
    (hdir : s.bEdgeDirection = 0) (b : Burst) :
    ∃ ring, RingIs ring (l ++ [lowUs b.markLow] ++ intervals (b.pairs.take 63)) ∧
      (run edgeStep s b.edges).msgBuf = storeMessage ring s.msgCnt.toNat s.msgBuf ∧
      (run edgeStep s b.edges).msgCnt = s.msgCnt + 1 := by
  have hlen : b.pairs.length = 64 := b.length_pairs
  -- The pairs are the 62 recorded before the last four edges, and these two.
  obtain ⟨p, q, hpq⟩ : ∃ p q, b.pairs.drop 62 = [p, q] := by
    have htwo : (b.pairs.drop 62).length = 2 := by simp [hlen]
    exact List.length_eq_two.mp htwo
  have hsplit : b.pairs = b.pairs.take 62 ++ [p, q] := by rw [← hpq, List.take_append_drop]
  have htake : b.pairs.take 63 = b.pairs.take 62 ++ [p] := by
    conv_lhs => rw [hsplit]
    rw [List.take_append]
    simp [hlen]
  have hedges : b.edges = [b.markHigh, b.markLow] ++ (pulses (b.pairs.take 62) ++ [p.1, p.2, q.1, q.2]) := by
    conv_lhs => rw [Burst.edges, hsplit, pulses_append]
    rfl
  have hstart := Recording.start hring hl hrec hdir b.mark
  have hpairs := Recording.pairs (r := 3) (b.pairs.take 62) (by simpa [hlen] using hstart) (by omega)
    (by simp [hlen]; omega)
  have hfinish := hpairs.finish (by simp [length_intervals, hlen]; omega) p.1 p.2 q.1 q.2
  rw [htake, intervals_append, hedges, run_append, run_append]
  simpa [intervals] using hfinish

/-- The characters of intervals taken two at a time. -/
def decode : List Int16 → List Char
  | d0 :: d1 :: ds => heChar d0 d1 :: decode ds
  | _ => []

theorem decode_eq (n : Nat) : ∀ {l : List Int16}, l.length = 2 * n →
    decode l = (List.range n).map fun i => heChar (l.getD (i * 2) 0) (l.getD (i * 2 + 1) 0) := by
  induction n with
  | zero => intro l hl; rw [List.length_eq_zero_iff.mp hl]; rfl
  | succ n ih =>
    intro l hl
    match l, hl with
    | d0 :: d1 :: ds, hl =>
      rw [decode, ih (by simpa [Nat.mul_succ] using hl), List.range_succ_eq_map, List.map_cons, List.map_map]
      congr 1
      refine List.map_congr_left fun i _ => ?_
      simp only [Function.comp, Nat.succ_eq_add_one, Nat.add_mul, Nat.one_mul]
      rfl

theorem ringText_eq_decode {ring : RingBufS} (h : RingIs ring l) (hl : l.length = 128) : ringText ring = decode l := by
  rw [decode_eq 64 hl, ringText]
  refine List.map_congr_left fun i hi => ?_
  have hi : i < 64 := List.mem_range.mp hi
  rw [pairChar, h.get (by omega), h.get (by omega)]

theorem heChar_eq_one {d0 d1 : Int16} (h : heChar d0 d1 = '1') : LowPulse 275 d1 := by
  unfold heChar at h
  split at h
  · next hs => exact hs.2
  · split at h <;> exact absurd h (by decide)

theorem heChar_eq_zero {d0 d1 : Int16} : heChar d0 d1 = '0' ↔ HighPulse d0 ∧ LowPulse 1225 d1 := by
  unfold heChar
  split
  · next hs =>
    have h275 := lowPulse_275_iff.mp hs.2
    refine iff_of_false (by decide) fun h => ?_
    have h1225 := lowPulse_1225_iff.mp h.2
    omega
  · split
    · next h => exact iff_of_true rfl h
    · next h => exact iff_of_false (by decide) h

theorem decode_intervals {ps : List (UInt16 × UInt16)}
    (h : ∀ p ∈ ps, HighPulse (highUs p.1) ∧ (LowPulse 275 (lowUs p.2) ∨ LowPulse 1225 (lowUs p.2))) :
    decode (intervals ps) = ps.map pairBit := by
  induction ps with
  | nil => rfl
  | cons p ps ih =>
    have hcons : decode (intervals (p :: ps)) = heChar (highUs p.1) (lowUs p.2) :: decode (intervals ps) := rfl
    obtain ⟨hhigh, hlow⟩ := h p (by simp)
    rw [hcons, ih fun q hq => h q (by simp [hq]), List.map_cons]
    congr 1
    unfold heChar pairBit
    by_cases hshort : LowPulse 275 (lowUs p.2)
    · simp [hhigh, hshort]
    · simp [hhigh, hshort, hlow.resolve_left hshort]

/-- A list shifted by one is itself exactly when all of it is what came in. -/
theorem cons_dropLast_eq {α : Type} {a : α} {l : List α} (hne : l ≠ []) : a :: l.dropLast = l ↔ ∀ x ∈ l, x = a := by
  induction l generalizing a with
  | nil => exact absurd rfl hne
  | cons x l ih =>
    cases l with
    | nil => simp [eq_comm]
    | cons y l =>
      rw [List.dropLast_cons_cons, List.cons.injEq, ih (List.cons_ne_nil y l)]
      constructor
      · rintro ⟨rfl, h⟩
        simpa using h
      · intro h
        have hx : x = a := h x (by simp)
        subst hx
        exact ⟨rfl, fun z hz => h z (List.mem_cons_of_mem _ hz)⟩

theorem storedOne_iff {s s' : Receiver} {ring : RingBufS} {text : List Char}
    (hbuf : s'.msgBuf = storeMessage ring s.msgCnt.toNat s.msgBuf) (hcnt : s'.msgCnt = s.msgCnt + 1) :
    StoredOne s s' text ↔ s.msgCnt.toNat < 10 ∧ ringText ring = text := by
  have htext : s'.msgBuf.slice (100 * s.msgCnt.toNat) HE_BITLEN = ringText ring := by
    rw [hbuf, storeMessage_slice]
  constructor
  · intro h
    have hroom := h.room
    simp only [HE_BITLEN, msgBufSize] at hroom
    exact ⟨by omega, htext.symm.trans h.text⟩
  · rintro ⟨hroom, rfl⟩
    refine ⟨by simp only [HE_BITLEN, msgBufSize]; omega, hcnt, htext, ?_, fun i hi => ?_⟩
    · rw [hbuf, storeMessage_nul]
    · rw [hbuf, storeMessage_other _ _ _ hi]

/-- A burst into an empty ring: the first pair starts with the low of the mark. -/
theorem ringText_ne_of_empty {ring : RingBufS} (b : Burst)
    (h : RingIs ring ([] ++ [lowUs b.markLow] ++ intervals (b.pairs.take 63))) : ringText ring ≠ b.text := by
  intro he
  obtain ⟨p, ps, hps⟩ : ∃ p ps, b.pairs = p :: ps := by
    cases hb : b.pairs with
    | nil => exact absurd b.length_pairs (by rw [hb]; decide)
    | cons p ps => exact ⟨p, ps, rfl⟩
  have hfirst : pairChar ring 0 = pairBit p := by
    have hhead := congrArg List.head? he
    rw [Burst.text, hps] at hhead
    simpa [ringText, List.range_succ_eq_map, HE_BITLEN] using hhead
  have hnot : ¬ HighPulse (lowUs b.markLow) := fun hh => by
    have hlow := lowPulse_2675_iff.mp b.mark.2
    rw [highPulse_iff] at hh
    omega
  rw [pairChar, h.get (by omega), heChar, if_neg (by exact fun hh => hnot hh.1),
    if_neg (by exact fun hh => hnot hh.1)] at hfirst
  unfold pairBit at hfirst
  split at hfirst <;> exact absurd hfirst (by decide)

/-- A burst into a ring of one: the text is the burst's shifted by one pair. -/
theorem ringText_shifted {ring : RingBufS} {x : Int16} (b : Burst)
    (h : RingIs ring ([x] ++ [lowUs b.markLow] ++ intervals (b.pairs.take 63))) :
    ringText ring = heChar x (lowUs b.markLow) :: b.text.dropLast := by
  have hlen : b.pairs.length = 64 := b.length_pairs
  rw [ringText_eq_decode h (by simp [length_intervals, hlen])]
  have hcons : decode ([x] ++ [lowUs b.markLow] ++ intervals (b.pairs.take 63)) =
      heChar x (lowUs b.markLow) :: decode (intervals (b.pairs.take 63)) := rfl
  rw [hcons, decode_intervals fun p hp => b.pulse p (List.mem_of_mem_take hp), List.dropLast_eq_take, Burst.text]
  simp [hlen, List.map_take]

theorem ringText_shifted_eq {x : Int16} (b : Burst) :
    heChar x (lowUs b.markLow) :: b.text.dropLast = b.text ↔
      HighPulse x ∧ LowPulse 1225 (lowUs b.markLow) ∧ ∀ p ∈ b.pairs, ¬ LowPulse 275 (lowUs p.2) := by
  have hne : b.text ≠ [] := by
    intro he
    have := congrArg List.length he
    rw [Burst.text, List.length_map, b.length_pairs] at this
    exact absurd this (by decide)
  rw [cons_dropLast_eq hne, Burst.text, List.forall_mem_map, ← and_assoc, ← heChar_eq_zero]
  have hone : heChar x (lowUs b.markLow) ≠ '1' := fun he => by
    have hshort := lowPulse_275_iff.mp (heChar_eq_one he)
    have hmark := lowPulse_2675_iff.mp b.mark.2
    omega
  have hbit (p : UInt16 × UInt16) : pairBit p = '1' ∧ LowPulse 275 (lowUs p.2) ∨
      pairBit p = '0' ∧ ¬ LowPulse 275 (lowUs p.2) := by
    by_cases hp : LowPulse 275 (lowUs p.2) <;> simp [pairBit, hp]
  obtain ⟨p₀, hp₀⟩ := List.exists_mem_of_ne_nil _ (fun he => hne (by rw [Burst.text, he]; rfl) : b.pairs ≠ [])
  constructor
  · intro h
    have hlong : ∀ p ∈ b.pairs, pairBit p = '0' ∧ ¬ LowPulse 275 (lowUs p.2) := fun p hp =>
      (hbit p).resolve_left fun hs => hone ((h p hp).symm.trans hs.1)
    exact ⟨(h p₀ hp₀).symm.trans (hlong p₀ hp₀).1, fun p hp => (hlong p hp).2⟩
  · rintro ⟨hx, hlong⟩ p hp
    rw [hx]
    exact ((hbit p).resolve_left fun hs => hlong p hp hs.2).1

/-- **When a burst is stored as itself.** A burst that reaches an idle
receiver after any history is stored, once and as its own text, exactly when
there is a slot left, the ring still holds a short high of the burst before,
the low of the mark passes for a long one, and every bit is 0. -/
theorem homeEasy_iff (history : List OmniStep) (b : Burst)
    (hrec : (run omniStep .boot history).rx.record = 0) (hdir : (run omniStep .boot history).rx.bEdgeDirection = 0) :
    let s := (run omniStep .boot history).rx
    StoredOne s (run edgeStep s b.edges) b.text ↔
      s.msgCnt.toNat < 10 ∧ HighPulse (val (ringGet s.ring 0)) ∧ LowPulse 1225 (lowUs b.markLow) ∧
        ∀ p ∈ b.pairs, ¬ LowPulse 275 (lowUs p.2) := by
  intro s
  obtain ⟨l, hring, hzero, -, -⟩ := omni_run_inv history
  have hl := hzero hrec
  obtain ⟨ring, hstored, hbuf, hcnt⟩ := burst_stored hring hl hrec hdir b
  have hget : val (ringGet s.ring 0) = l.getD 0 0 := hring.get (i := 0) (by decide)
  rw [storedOne_iff hbuf hcnt, hget]
  refine and_congr_right fun _ => ?_
  match l, hl with
  | [], _ =>
    refine iff_of_false (ringText_ne_of_empty b hstored) ?_
    rintro ⟨hhigh, -⟩
    exact absurd hhigh (by decide)
  | [x], _ =>
    rw [ringText_shifted b hstored]
    exact ringText_shifted_eq b

/-- A burst of 64 ones, at the nominal lengths. -/
def onesBurst : Burst where
  markHigh := 52
  markLow := 502
  pairs := List.replicate 64 (52, 52)
  mark := by decide
  length_pairs := rfl
  pulse := fun p hp => by rw [List.eq_of_mem_replicate hp]; decide

/-- A burst of 64 zeros, behind a mark with a low of 1600 microseconds. -/
def zerosBurst : Burst where
  markHigh := 52
  markLow := 300
  pairs := List.replicate 64 (52, 230)
  mark := by decide
  length_pairs := rfl
  pulse := fun p hp => by rw [List.eq_of_mem_replicate hp]; decide

/-- The second of two such bursts, the first of which is printed. -/
theorem homeEasy_iff_second :
    let s := (run omniStep .boot (zerosBurst.edges.map .edge ++ [.drain, .drain, .drain])).rx
    StoredOne s (run edgeStep s zerosBurst.edges) zerosBurst.text := by
  have hlong : ∀ p ∈ zerosBurst.pairs, ¬ LowPulse 275 (lowUs p.2) := fun p hp => by
    rw [List.eq_of_mem_replicate hp]
    decide
  have hiff := homeEasy_iff (zerosBurst.edges.map .edge ++ [.drain, .drain, .drain]) zerosBurst (by decide +kernel)
    (by decide +kernel)
  exact hiff.mpr ⟨by decide +kernel, by decide +kernel, by decide, hlong⟩

/-- The first burst after the boot is not stored as itself. -/
theorem onesBurst_lost :
    Receiver.boot.record = 0 ∧ Receiver.boot.bEdgeDirection = 0 ∧
      ¬ StoredOne .boot (run edgeStep .boot onesBurst.edges) onesBurst.text := by
  refine ⟨rfl, rfl, fun h => ?_⟩
  have hring : RingIs Receiver.boot.ring [] := ⟨rfl, .empty, rfl, (ringInit_holds _ 1024 (Nat.le_refl _)).2⟩
  obtain ⟨ring, hstored, hbuf, hcnt⟩ := burst_stored hring (Nat.zero_le _) rfl rfl onesBurst
  exact ringText_ne_of_empty onesBurst hstored ((storedOne_iff hbuf hcnt).mp h).2

end OflMetrics
