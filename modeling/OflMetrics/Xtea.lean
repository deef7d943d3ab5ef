/-
The XTEA cipher of the firmwares, `ofllibs/xtea.c`: the key schedule, the
block function, and the stream cipher made of it.

`XteaEncrypt` runs on memory, from one pointer to another, which may be the
same. Of its accesses the log holds the one whose index is data: the element
of `pad` at `padlen`.
-/
import OflMetrics.Embed.Mem

namespace OflMetrics

open Embed Embed.Traced

/-- `XTEA_BLOCKLEN` -/
def XTEA_BLOCKLEN : UInt32 := 8

/-- `XteaStateKey_T`. -/
structure XteaStateKey where
  a : Vector UInt32 32
  b : Vector UInt32 32
  iv : Vector UInt8 8
  pad : Vector UInt8 8
  padlen : UInt32

/-- The array of `XteaStateKey_T` that is read at an index from data. -/
inductive XteaArray where
  | pad
  deriving DecidableEq

/-- `STORE32L`: the bytes of `x`. -/
def store32L (x : UInt32) : List UInt8 :=
  [(x &&& 255).toUInt8, ((x >>> 8) &&& 255).toUInt8, ((x >>> 16) &&& 255).toUInt8, ((x >>> 24) &&& 255).toUInt8]

/-- `LOAD32L`, from the `off`-th byte on. -/
def load32L {n : Nat} (y : Vector UInt8 n) (off : Nat) : UInt32 :=
  ((y.getD (off + 3) 0 &&& 255).toUInt32 <<< 24) ||| ((y.getD (off + 2) 0 &&& 255).toUInt32 <<< 16) |||
    ((y.getD (off + 1) 0 &&& 255).toUInt32 <<< 8) ||| (y.getD off 0 &&& 255).toUInt32

/-- `XteaRestart`. -/
def xteaRestart (skey : XteaStateKey) : XteaStateKey := { skey with pad := skey.iv, padlen := XTEA_BLOCKLEN }

/-- The increment of `sum`. -/
def XTEA_DELTA : UInt32 := 0x9E3779B9

/-- One turn of the loop that fills `A` and `B`. -/
def xteaSchedule (k : UInt32 → UInt32) (s : Vector UInt32 32 × Vector UInt32 32 × UInt32) (x : Nat) :
    Vector UInt32 32 × Vector UInt32 32 × UInt32 :=
  let a := s.1.setIfInBounds x (s.2.2 + k (s.2.2 &&& 3))
  let sum := s.2.2 + XTEA_DELTA
  let b := s.2.1.setIfInBounds x (sum + k ((sum >>> 11) &&& 3))
  (a, b, sum)

/-- `K[i]`, of the key's four words. -/
def keyWord (key : Vector UInt8 16) (i : UInt32) : UInt32 := load32L key (4 * i.toNat)

/-- `XteaSetup`, of a key and an initialization vector, which may be `NULL`. -/
def xteaSetup (key : Vector UInt8 16) (iv : Option (Vector UInt8 8)) : XteaStateKey :=
  let iv := iv.getD (Vector.ofFn fun x => UInt8.ofNat x)
  let s := (List.range 32).foldl (xteaSchedule (keyWord key)) (.replicate 32 0, .replicate 32 0, 0)
  xteaRestart { a := s.1, b := s.2.1, iv, pad := iv, padlen := 0 }

/-- What a half is mixed with: the other half and an entry of the table. -/
def xteaMix (entry z : UInt32) : UInt32 := (((z <<< 4) ^^^ (z >>> 5)) + z) ^^^ entry

/-- Round `r` of `xtea_encrypt`. -/
def xteaRound (skey : XteaStateKey) (s : UInt32 × UInt32) (r : Nat) : UInt32 × UInt32 :=
  let y := s.1 + xteaMix (skey.a.getD r 0) s.2
  let z := s.2 + xteaMix (skey.b.getD r 0) y
  (y, z)

/-- The body of the loop of `xtea_encrypt`, four rounds. -/
def xteaFourRounds (skey : XteaStateKey) (s : UInt32 × UInt32) (r : Nat) : UInt32 × UInt32 :=
  let s := xteaRound skey s r
  let s := xteaRound skey s (r + 1)
  let s := xteaRound skey s (r + 2)
  xteaRound skey s (r + 3)

/-- `xtea_encrypt` -/
def xteaEncryptBlock (pt : Vector UInt8 8) (skey : XteaStateKey) : Vector UInt8 8 :=
  let s := (List.range 8).foldl (fun s i => xteaFourRounds skey s (4 * i)) (load32L pt 0, load32L pt 4)
  let ct := store32L s.1 ++ store32L s.2
  Vector.ofFn fun i => ct.getD i 0

/-- The next element of `pad`. -/
def xteaPad (skey : XteaStateKey) : Traced (Access XteaArray) (XteaStateKey × UInt8) := do
  let skey := if XTEA_BLOCKLEN = skey.padlen then { skey with pad := xteaEncryptBlock skey.pad skey, padlen := 0 }
    else skey
  tell [.read .pad skey.padlen.toNat]
  return ({ skey with padlen := skey.padlen + 1 }, skey.pad.getD skey.padlen.toNat 0)

/-- `XteaEncrypt`, with the memory `pt` and `ct` point to. -/
def xteaEncrypt (m : Mem UInt8) (pt ct : Nat) : Nat → XteaStateKey → Traced (Access XteaArray) (Mem UInt8 × XteaStateKey)
  | 0, skey => return (m, skey)
  | len + 1, skey => do
    let (skey, k) ← xteaPad skey
    xteaEncrypt (Function.update m ct (m pt ^^^ k)) (pt + 1) (ct + 1) len skey

/-- `XteaDecrypt` -/
def xteaDecrypt (m : Mem UInt8) (ct pt len : Nat) (skey : XteaStateKey) :
    Traced (Access XteaArray) (Mem UInt8 × XteaStateKey) :=
  xteaEncrypt m ct pt len skey

end OflMetrics
