/-
The XTEA cipher of `xtea.c` against the cipher it is meant to be.

* `xteaEncryptBlock_enciphers`: with the tables of `XteaSetup`, the rounds
  written out four at a time are the 32 cycles of XTEA over its running sum,
  and XTEA's cycles backwards undo them.
* `xteaEncrypt_at`: behind any number of bytes, `XteaEncrypt` adds the next
  stretch of one key stream, and nothing else in memory changes.
* `xtea_round_trip`: what is encrypted in place, in calls of any lengths, is
  decrypted in place by calls of any other lengths, after `XteaRestart`; no
  call reads beyond `pad`.
-/
import Mathlib.Data.UInt
import OflMetrics.Embed.Feedback
import OflMetrics.Embed.Feistel
import OflMetrics.Xtea

namespace OflMetrics

open Embed Embed.Traced

/-! ## Words and bytes -/

theorem toNat_word (b0 b1 b2 b3 : UInt8) :
    (((b3 &&& 255).toUInt32 <<< 24) ||| ((b2 &&& 255).toUInt32 <<< 16) ||| ((b1 &&& 255).toUInt32 <<< 8) |||
      (b0 &&& 255).toUInt32).toNat =
      b0.toNat + 256 * b1.toNat + 65536 * b2.toNat + 16777216 * b3.toNat := by
  have hbyte (b : UInt8) : (b &&& 255).toUInt32.toNat = b.toNat := by
    simp [Nat.and_two_pow_sub_one_eq_mod _ 8]
  have h0 := b0.toNat_lt
  have h1 := b1.toNat_lt
  have h2 := b2.toNat_lt
  have hshift (b : UInt8) (k : Nat) (hk : k ≤ 24) : (b.toNat <<< k) % 2 ^ 32 = b.toNat <<< k := by
    rw [Nat.shiftLeft_eq]
    refine Nat.mod_eq_of_lt (Nat.lt_of_lt_of_le (Nat.mul_lt_mul_of_pos_right b.toNat_lt (Nat.two_pow_pos k)) ?_)
    rw [← Nat.pow_add]
    exact Nat.pow_le_pow_right (by decide) (by omega)
  have h10 : b1.toNat <<< 8 + b0.toNat < 2 ^ 16 := by
    simp only [Nat.shiftLeft_eq, Nat.reducePow]
    omega
  have h210 : b2.toNat <<< 16 + (b1.toNat <<< 8 + b0.toNat) < 2 ^ 24 := by
    simp only [Nat.shiftLeft_eq, Nat.reducePow]
    omega
  simp only [UInt32.toNat_or, UInt32.toNat_shiftLeft, hbyte, UInt32.reduceToNat, Nat.reduceMod]
  rw [hshift b3 24 (by decide), hshift b2 16 (by decide), hshift b1 8 (by decide), Nat.or_assoc, Nat.or_assoc,
    ← Nat.shiftLeft_add_eq_or_of_lt h0, ← Nat.shiftLeft_add_eq_or_of_lt h10, ← Nat.shiftLeft_add_eq_or_of_lt h210]
  simp only [Nat.shiftLeft_eq, Nat.reducePow]
  omega

theorem toNat_byte (x : UInt32) {k : Nat} (hk : k < 32) :
    ((x >>> UInt32.ofNat k) &&& 255).toUInt8.toNat = x.toNat / 2 ^ k % 256 := by
  have hand (y : UInt32) : (y &&& 255).toUInt8.toNat = y.toNat % 256 := by
    simp [Nat.and_two_pow_sub_one_eq_mod _ 8]
  have hmod : k % 2 ^ 32 % 32 = k := by omega
  rw [hand, UInt32.toNat_shiftRight, UInt32.toNat_ofNat', hmod, Nat.shiftRight_eq_div_pow]

/-- The bytes of a word, as numbers. -/
theorem toNat_store32L (x : UInt32) :
    (store32L x).map UInt8.toNat =
      [x.toNat % 256, x.toNat / 2 ^ 8 % 256, x.toNat / 2 ^ 16 % 256, x.toNat / 2 ^ 24 % 256] := by
  have h0 := toNat_byte x (k := 0) (by decide)
  have h8 := toNat_byte x (k := 8) (by decide)
  have h16 := toNat_byte x (k := 16) (by decide)
  have h24 := toNat_byte x (k := 24) (by decide)
  rw [show UInt32.ofNat 0 = 0 from rfl, UInt32.shiftRight_zero, Nat.pow_zero, Nat.div_one] at h0
  simp only [store32L, List.map_cons, List.map_nil, h0]
  exact congrArg _ (congrArg₂ List.cons h8 (congrArg₂ List.cons h16 (congrArg₂ List.cons h24 rfl)))

/-- The two words of a block. -/
def blockWords (v : Vector UInt8 8) : UInt32 × UInt32 := (load32L v 0, load32L v 4)

/-- The block of two words. -/
def blockBytes (s : UInt32 × UInt32) : Vector UInt8 8 :=
  Vector.ofFn fun i => (store32L s.1 ++ store32L s.2).getD i 0

theorem getD_lt {α : Type} {n : Nat} (v : Vector α n) {i : Nat} (hi : i < n) (d : α) : v.getD i d = v[i] := by
  simp [Vector.getD, hi]

theorem blockWords_blockBytes (s : UInt32 × UInt32) : blockWords (blockBytes s) = s := by
  have hword (x : UInt32) (v : Vector UInt8 8) (off : Nat)
      (h : [v.getD off 0, v.getD (off + 1) 0, v.getD (off + 2) 0, v.getD (off + 3) 0] = store32L x) :
      load32L v off = x := by
    have hbytes := congrArg (List.map UInt8.toNat) h
    rw [toNat_store32L] at hbytes
    simp only [List.map_cons, List.map_nil, List.cons.injEq, and_true] at hbytes
    refine UInt32.toNat_inj.mp ?_
    rw [load32L, toNat_word]
    have hx := x.toNat_lt
    omega
  refine Prod.ext ?_ ?_
  · refine hword s.1 _ 0 ?_
    simp [blockBytes, getD_lt, store32L]
  · refine hword s.2 _ 4 ?_
    simp [blockBytes, getD_lt, store32L]

theorem blockBytes_blockWords (v : Vector UInt8 8) : blockBytes (blockWords v) = v := by
  have hbytes (off : Nat) : store32L (load32L v off) =
      [v.getD off 0, v.getD (off + 1) 0, v.getD (off + 2) 0, v.getD (off + 3) 0] := by
    refine List.map_injective_iff.mpr (fun _ _ => UInt8.toNat_inj.mp) ?_
    rw [toNat_store32L, load32L, toNat_word]
    have h0 := (v.getD off 0).toNat_lt
    have h1 := (v.getD (off + 1) 0).toNat_lt
    have h2 := (v.getD (off + 2) 0).toNat_lt
    simp only [List.map_cons, List.map_nil, List.cons.injEq, and_true]
    have h3 := (v.getD (off + 3) 0).toNat_lt
    omega
  refine Vector.ext fun i hi => ?_
  rw [← getD_lt v hi 0, blockBytes, Vector.getElem_ofFn, blockWords, hbytes, hbytes]
  rcases (by omega : i = 0 ∨ i = 1 ∨ i = 2 ∨ i = 3 ∨ i = 4 ∨ i = 5 ∨ i = 6 ∨ i = 7) with
    rfl | rfl | rfl | rfl | rfl | rfl | rfl | rfl <;> rfl

/-! ## XTEA -/

/-- The running sum before cycle `r`. -/
def xteaSum (r : Nat) : UInt32 := UInt32.ofNat r * XTEA_DELTA

/-- The round keys of XTEA, of 32 cycles. -/
def xteaRoundKeys (k : UInt32 → UInt32) : List (UInt32 × UInt32) :=
  (List.range 32).map fun r =>
    (xteaSum r + k (xteaSum r &&& 3), xteaSum (r + 1) + k ((xteaSum (r + 1) >>> 11) &&& 3))

/-- XTEA on the two words of a block, under the four words of a key. -/
def xteaEncipher (k : UInt32 → UInt32) : UInt32 × UInt32 → UInt32 × UInt32 :=
  Feistel.encipher xteaMix (xteaRoundKeys k)

/-- XTEA backwards. -/
def xteaDecipher (k : UInt32 → UInt32) : UInt32 × UInt32 → UInt32 × UInt32 :=
  Feistel.decipher xteaMix (xteaRoundKeys k)

theorem xteaSum_succ (r : Nat) : xteaSum (r + 1) = xteaSum r + XTEA_DELTA := by
  have hone : UInt32.ofNat (r + 1) = UInt32.ofNat r + 1 := UInt32.ofNat_add r 1
  rw [xteaSum, hone, UInt32.add_mul, UInt32.one_mul]
  rfl

/-- What the loop of `XteaSetup` has filled after `n` turns. -/
theorem xteaSchedule_range (k : UInt32 → UInt32) {n : Nat} (hn : n ≤ 32) (v w : Vector UInt32 32) :
    let s := (List.range n).foldl (xteaSchedule k) (v, w, 0)
    s.2.2 = xteaSum n ∧
      ∀ r < n, s.1.getD r 0 = xteaSum r + k (xteaSum r &&& 3) ∧
        s.2.1.getD r 0 = xteaSum (r + 1) + k ((xteaSum (r + 1) >>> 11) &&& 3) := by
  induction n with
  | zero => exact ⟨rfl, fun r hr => absurd hr (Nat.not_lt_zero r)⟩
  | succ n ih =>
    obtain ⟨hsum, htables⟩ := ih (by omega)
    rw [List.range_succ, List.foldl_append]
    refine ⟨?_, fun r hr => ?_⟩
    · show _ + XTEA_DELTA = _
      rw [hsum, xteaSum_succ]
    · have hset (u : Vector UInt32 32) (x : UInt32) :
          (u.setIfInBounds n x).getD r 0 = if n = r then x else u.getD r 0 := by
        have hr32 : r < 32 := by omega
        rw [getD_lt _ hr32 0, getD_lt u hr32 0, Vector.getElem_setIfInBounds]
      show (Vector.setIfInBounds _ n _).getD r 0 = _ ∧ (Vector.setIfInBounds _ n _).getD r 0 = _
      rw [hset, hset, hsum, ← xteaSum_succ]
      by_cases hlast : n = r
      · rw [if_pos hlast, if_pos hlast, hlast]
        exact ⟨rfl, rfl⟩
      · rw [if_neg hlast, if_neg hlast]
        exact htables r (by omega)

/-- The rounds of the loop, four at a time, one after the other. -/
theorem xteaFourRounds_range (skey : XteaStateKey) (s : UInt32 × UInt32) (n : Nat) :
    (List.range n).foldl (fun s i => xteaFourRounds skey s (4 * i)) s =
      (List.range (4 * n)).foldl (xteaRound skey) s := by
  induction n with
  | zero => rfl
  | succ n ih =>
    have hfour : List.range (4 * (n + 1)) = List.range (4 * n) ++ [4 * n, 4 * n + 1, 4 * n + 2, 4 * n + 3] := by
      rw [Nat.mul_succ, List.range_succ, List.range_succ, List.range_succ, List.range_succ]
      simp
    rw [List.range_succ, List.foldl_append, ih, hfour, List.foldl_append]
    rfl

variable (key : Vector UInt8 16) (iv : Option (Vector UInt8 8))

theorem xteaRounds_setup (s : UInt32 × UInt32) :
    (List.range 32).foldl (xteaRound (xteaSetup key iv)) s = xteaEncipher (keyWord key) s := by
  obtain ⟨-, htables⟩ := xteaSchedule_range (keyWord key) (Nat.le_refl 32) (.replicate 32 0) (.replicate 32 0)
  rw [xteaEncipher, Feistel.encipher, xteaRoundKeys, List.foldl_map]
  refine List.foldl_ext _ _ _ fun s r hr => ?_
  obtain ⟨ha, hb⟩ := htables r (List.mem_range.mp hr)
  show (s.1 + xteaMix ((xteaSetup key iv).a.getD r 0) s.2,
    s.2 + xteaMix ((xteaSetup key iv).b.getD r 0) (s.1 + xteaMix ((xteaSetup key iv).a.getD r 0) s.2)) = _
  rw [show (xteaSetup key iv).a.getD r 0 = _ from ha, show (xteaSetup key iv).b.getD r 0 = _ from hb]
  rfl

theorem xteaEncryptBlock_setup (pt : Vector UInt8 8) :
    xteaEncryptBlock pt (xteaSetup key iv) = blockBytes (xteaEncipher (keyWord key) (blockWords pt)) := by
  rw [← xteaRounds_setup key iv, ← xteaFourRounds_range _ _ 8]
  rfl

/-- **The block function is XTEA**, and XTEA backwards undoes it. -/
theorem xteaEncryptBlock_enciphers (pt : Vector UInt8 8) :
    blockWords (xteaEncryptBlock pt (xteaSetup key iv)) = xteaEncipher (keyWord key) (blockWords pt) ∧
      blockBytes (xteaDecipher (keyWord key) (blockWords (xteaEncryptBlock pt (xteaSetup key iv)))) = pt ∧
      xteaEncryptBlock (blockBytes (xteaDecipher (keyWord key) (blockWords pt))) (xteaSetup key iv) = pt := by
  have hwords : blockWords (xteaEncryptBlock pt (xteaSetup key iv)) = xteaEncipher (keyWord key) (blockWords pt) := by
    rw [xteaEncryptBlock_setup, blockWords_blockBytes]
  refine ⟨hwords, ?_, ?_⟩
  · rw [hwords, xteaDecipher, xteaEncipher, Feistel.decipher_encipher, blockBytes_blockWords]
  · rw [xteaEncryptBlock_setup, blockWords_blockBytes, xteaDecipher, xteaEncipher, Feistel.encipher_decipher,
      blockBytes_blockWords]

/-! ## The stream -/

/-- The block behind a block. -/
def xteaNext (pad : Vector UInt8 8) : Vector UInt8 8 := xteaEncryptBlock pad (xteaSetup key iv)

/-- The key stream behind `XteaSetup`. -/
def xteaStream : Nat → UInt8 := keystream 8 (xteaNext key iv) (fun v i => v.getD i 0) (xteaSetup key iv).iv

/-- The state once `k` bytes are processed. -/
def xteaAt (k : Nat) : XteaStateKey :=
  let s := Feedback.after 8 (xteaNext key iv) (xteaSetup key iv).iv k
  { xteaSetup key iv with pad := s.pad, padlen := UInt32.ofNat s.used }

theorem xteaAt_zero : xteaAt key iv 0 = xteaSetup key iv := rfl

theorem xteaRestart_at (k : Nat) : xteaRestart (xteaAt key iv k) = xteaSetup key iv := rfl

theorem xteaPad_at (k : Nat) :
    val (xteaPad (xteaAt key iv k)) = (xteaAt key iv (k + 1), xteaStream key iv k) ∧
      ∀ a ∈ log (xteaPad (xteaAt key iv k)), a.Defined fun .pad => 8 := by
  have hused := Feedback.used_after_le (E := xteaNext key iv) (Nat.succ_pos 7) (xteaSetup key iv).iv k
  have hnext := Feedback.next_after (xteaNext key iv) (fun v i => v.getD i 0) (Nat.succ_pos 7) (xteaSetup key iv).iv k
  unfold xteaPad xteaAt xteaStream
  generalize hs : Feedback.after 8 (xteaNext key iv) (xteaSetup key iv).iv k = s at hused hnext
  generalize Feedback.after 8 (xteaNext key iv) (xteaSetup key iv).iv (k + 1) = t at hnext
  obtain ⟨pad, used⟩ := s
  have hlen : (UInt32.ofNat used).toNat = used := UInt32.toNat_ofNat_of_lt' (Nat.lt_of_le_of_lt hused (by decide))
  have hfull : XTEA_BLOCKLEN = UInt32.ofNat used ↔ used = 8 := by
    rw [← UInt32.toNat_inj, hlen]
    exact eq_comm
  by_cases h : used = 8
  · subst h
    simp only [Feedback.next, if_true, Prod.mk.injEq] at hnext
    obtain ⟨rfl, hstream⟩ := hnext
    refine ⟨?_, ?_⟩
    · rw [← hstream]
      rfl
    · intro a ha
      rw [show a = .read .pad 0 from List.mem_singleton.mp ha]
      exact Nat.succ_pos 7
  · simp only [Feedback.next, if_neg h, Prod.mk.injEq] at hnext
    obtain ⟨rfl, hstream⟩ := hnext
    simp only [if_neg (fun he => h (hfull.mp he)), val_bind, val_pure, log_bind, log_tell, log_pure, hlen]
    refine ⟨?_, ?_⟩
    · rw [← hstream, ← UInt32.ofNat_one, ← UInt32.ofNat_add]
    · intro a ha
      rw [show a = .read .pad used from by simpa using ha]
      exact Nat.lt_of_le_of_ne hused h

/-- Behind `k` bytes, `XteaEncrypt` adds the stream from its `k`-th byte on. -/
theorem xteaEncrypt_at {pt ct : Nat} (len : Nat) (m : Mem UInt8) (h : ct ≤ pt ∨ pt + len ≤ ct) (k : Nat) :
    val (xteaEncrypt m pt ct len (xteaAt key iv k)) =
        (m.mask (· ^^^ ·) (xteaStream key iv) pt ct len k, xteaAt key iv (k + len)) ∧
      ∀ a ∈ log (xteaEncrypt m pt ct len (xteaAt key iv k)), a.Defined fun .pad => 8 := by
  induction len generalizing m pt ct k with
  | zero =>
    refine ⟨?_, fun a ha => absurd ha List.not_mem_nil⟩
    rw [Mem.mask_zero]
    rfl
  | succ len ih =>
    obtain ⟨hval, hlog⟩ := xteaPad_at key iv k
    have hbehind : ct + 1 ≤ pt + 1 ∨ pt + 1 + len ≤ ct + 1 := by omega
    obtain ⟨hrest, hrestLog⟩ := ih (Function.update m ct (m pt ^^^ xteaStream key iv k)) hbehind (k + 1)
    rw [xteaEncrypt, val_bind, log_bind, hval]
    refine ⟨?_, fun a ha => ?_⟩
    · rw [hrest, Mem.mask_succ _ _ _ h, Nat.add_right_comm, Nat.add_assoc k len 1]
    · rcases List.mem_append.mp ha with ha | ha
      · exact hlog a ha
      · exact hrestLog a ha

/-- Calls of `XteaEncrypt` or `XteaDecrypt` in place, one behind the other. -/
def xteaCalls (f : Mem UInt8 → Nat → Nat → Nat → XteaStateKey → Traced (Access XteaArray) (Mem UInt8 × XteaStateKey))
    (m : Mem UInt8) (p : Nat) (skey : XteaStateKey) : List Nat → Traced (Access XteaArray) (Mem UInt8 × XteaStateKey)
  | [] => return (m, skey)
  | len :: lens => do
    let (m, skey) ← f m p p len skey
    xteaCalls f m (p + len) skey lens

/-- Calls of any lengths are one call of their sum. -/
theorem xteaCalls_at (lens : List Nat) (m : Mem UInt8) (p k : Nat) :
    val (xteaCalls xteaEncrypt m p (xteaAt key iv k) lens) =
        (m.mask (· ^^^ ·) (xteaStream key iv) p p lens.sum k, xteaAt key iv (k + lens.sum)) ∧
      ∀ a ∈ log (xteaCalls xteaEncrypt m p (xteaAt key iv k) lens), a.Defined fun .pad => 8 := by
  induction lens generalizing m p k with
  | nil =>
    refine ⟨?_, fun a ha => absurd ha List.not_mem_nil⟩
    rw [List.sum_nil, Mem.mask_zero]
    rfl
  | cons len lens ih =>
    obtain ⟨hval, hlog⟩ := xteaEncrypt_at key iv len m (.inl (Nat.le_refl p)) k
    obtain ⟨hrest, hrestLog⟩ := ih (m.mask (· ^^^ ·) (xteaStream key iv) p p len k) (p + len) (k + len)
    rw [xteaCalls, val_bind, log_bind, hval]
    refine ⟨?_, fun a ha => ?_⟩
    · rw [hrest, Mem.mask_append, List.sum_cons, Nat.add_assoc]
    · rcases List.mem_append.mp ha with ha | ha
      · exact hlog a ha
      · exact hrestLog a ha

theorem xor_xor (a b : UInt8) : a ^^^ b ^^^ b = a := by rw [UInt8.xor_assoc, UInt8.xor_self, UInt8.xor_zero]

/-- **The cipher's round trip**: what is encrypted in place is decrypted in
place after `XteaRestart`, however either is cut into calls. -/
theorem xtea_round_trip (m : Mem UInt8) (p : Nat) (lens lens' : List Nat) (h : lens'.sum = lens.sum) :
    let enc := xteaCalls xteaEncrypt m p (xteaSetup key iv) lens
    let dec := xteaCalls xteaDecrypt (val enc).1 p (xteaRestart (val enc).2) lens'
    (val enc).1 = m.mask (· ^^^ ·) (xteaStream key iv) p p lens.sum 0 ∧ (val dec).1 = m ∧
      ∀ a ∈ log enc ++ log dec, a.Defined fun .pad => 8 := by
  obtain ⟨henc, hencLog⟩ := xteaCalls_at key iv lens m p 0
  rw [xteaAt_zero] at henc hencLog
  obtain ⟨hdec, hdecLog⟩ := xteaCalls_at key iv lens' (m.mask (· ^^^ ·) (xteaStream key iv) p p lens.sum 0) p 0
  rw [xteaAt_zero] at hdec hdecLog
  have hsame : xteaDecrypt = xteaEncrypt := rfl
  simp only [henc, xteaRestart_at, hsame, hdec, h]
  refine ⟨trivial, Mem.mask_mask _ _ xor_xor _ _ _ _, fun a ha => ?_⟩
  rcases List.mem_append.mp ha with ha | ha
  · exact hencLog a ha
  · exact hdecLog a ha

/-- Sixteen bytes, encrypted in two calls and decrypted in three. -/
theorem xtea_round_trip_sixteen :
    let enc := xteaCalls xteaEncrypt UInt8.ofNat 0 (xteaSetup (.replicate 16 7) none) [5, 11]
    let dec := xteaCalls xteaDecrypt (val enc).1 0 (xteaRestart (val enc).2) [8, 7, 1]
    (val enc).1 = Mem.mask (· ^^^ ·) (xteaStream (.replicate 16 7) none) UInt8.ofNat 0 0 16 0 ∧
      (val dec).1 = UInt8.ofNat ∧ ∀ a ∈ log enc ++ log dec, a.Defined fun .pad => 8 :=
  xtea_round_trip (.replicate 16 7) none UInt8.ofNat 0 [5, 11] [8, 7, 1] rfl

end OflMetrics
