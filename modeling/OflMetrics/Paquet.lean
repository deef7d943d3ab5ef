/-
The radio frame codec of `ofllibs/utils-paquet.c`: the application's `paquet`,
the driver's `packet_t`, the CRC, and the two conversions between them.

The functions are the source's, statement by statement, over `Embed.Mem`
buffers, and log every element of a buffer they touch. The address fields
are copied whole, so they are vectors; `data` of either struct is indexed
with run-time lengths, so it is memory, with whatever lies behind it.
-/
import OflMetrics.Embed.Mem

namespace OflMetrics

open Embed

/-- `PAQUET_MAX_DATASIZE`, the size of `paquet.data`. -/
def paquetMaxDatasize : Nat := 120

/-- `MAX_PAYLOAD_SIZE` of the driver's `packet.h`, the size of `packet_t.data`. -/
def maxPayloadSize : Nat := 125

/-- The generator polynomial of the CRC, bits reversed. -/
def POLY : UInt32 := 0x8408

/-- `paquet`: addresses and payload of one message. -/
structure Paquet where
  span : Vector UInt8 2
  dpan : Vector UInt8 2
  smac : Vector UInt8 8
  dmac : Vector UInt8 8
  datalen : UInt8
  data : Mem UInt8
  crc : Vector UInt8 2

/-- `packet_t`: a frame in the driver's buffer. -/
structure Packet where
  length : UInt8
  offset : UInt8
  data : Mem UInt8

/-- An all-zero paquet, as the globals are at start. -/
def Paquet.zero : Paquet :=
  { span := #v[0, 0], dpan := #v[0, 0], smac := #v[0, 0, 0, 0, 0, 0, 0, 0], dmac := #v[0, 0, 0, 0, 0, 0, 0, 0],
    datalen := 0, data := fun _ => 0, crc := #v[0, 0] }

/-- An all-zero packet buffer. -/
def Packet.zero : Packet := { length := 0, offset := 0, data := fun _ => 0 }

/-- The arrays the codec indexes. -/
inductive CodecBuf where
  /-- `pq->data` -/
  | pqData
  /-- `pk->data` -/
  | pkData
  deriving DecidableEq, Repr

/-- What the codec's functions log. -/
abbrev Codec := Traced (Access CodecBuf)

/-! ## `crc16` -/

/-- One turn of the inner loop: the low bits of `crc` and `data` decide. -/
def crc16Bit (s : UInt32 × UInt32) : UInt32 × UInt32 :=
  let (crc, data) := s
  (if (crc &&& 0x0001) ^^^ (data &&& 0x0001) ≠ 0 then (crc >>> 1) ^^^ POLY else crc >>> 1, data >>> 1)

/-- The inner loop, eight turns over one byte. -/
def crc16Byte (crc : UInt32) (b : UInt8) : UInt32 := (crc16Bit^[8] (crc, 0xff &&& b.toUInt32)).1

/-- The outer loop: `length` bytes from `data_p` on. -/
def crc16Loop (data : Mem UInt8) : Nat → Nat → UInt32 → Codec UInt32
  | 0, _, crc => return crc
  | length + 1, data_p, crc => do
    let b ← Mem.getT .pqData data data_p
    crc16Loop data length (data_p + 1) (crc16Byte crc b)

/-- The last lines of `crc16`: complement, swap the bytes, narrow to 16 bits. -/
def crc16Final (crc : UInt32) : UInt16 :=
  let crc := ~~~crc
  let data := crc
  ((crc <<< 8) ||| ((data >>> 8) &&& 0xff)).toUInt16

/-- `crc16`. -/
def crc16 (data : Mem UInt8) (length : UInt16) : Codec UInt16 := do
  if length = 0 then return (~~~(0xffff : UInt32)).toUInt16
  let crc ← crc16Loop data length.toNat 0 0xffff
  return crc16Final crc

/-! ## The two conversions -/

/-- `paquet2packet`: builds the frame of `pq` in `pk`. Returns the code, the
paquet (its `crc` is written) and the packet. -/
def paquet2packet (pq : Paquet) (pk : Packet) : Codec (UInt8 × Paquet × Packet) := do
  let ret : UInt8 := 1
  let data ← Mem.fillT .pkData pk.data 0 0 maxPayloadSize
  let crc ← crc16 pq.data pq.datalen.toUInt16
  -- `(crc << 8) & 0xFF` is computed in `int`: always zero.
  let pq := { pq with crc := #v[(crc &&& 0xFF).toUInt8, ((crc.toUInt32 <<< 8) &&& 0xFF).toUInt8] }
  let length := UInt8.ofNat (pq.datalen.toNat + 3 + 2 + 8 + 2 + 8 + 2)
  let offset : UInt8 := 0
  let data ← Mem.setT .pkData data 0 0x01
  let data ← Mem.setT .pkData data 1 0xCC
  let data ← Mem.setT .pkData data 2 0x0
  let data ← Mem.storeT .pkData data 3 pq.dpan
  let data ← Mem.storeT .pkData data (3 + 2) pq.dmac
  let data ← Mem.storeT .pkData data (3 + 2 + 8) pq.span
  let data ← Mem.storeT .pkData data (3 + 2 + 8 + 2) pq.smac
  let data ← Mem.copyT .pkData .pqData data (3 + 2 + 8 + 2 + 8) pq.data 0 pq.datalen.toNat
  let data ← Mem.storeT .pkData data (3 + 2 + 8 + 2 + 8 + pq.datalen.toNat) pq.crc
  return (ret, pq, { length, offset, data })

/-- `packet2paquet`: reads the frame in `pk` into `pq`. A frame too short for
its fixed fields is refused, `-1` as a `uint8_t`, with `pq->data` cleared. -/
def packet2paquet (pk : Packet) (pq : Paquet) : Codec (UInt8 × Paquet) := do
  let ret : UInt8 := 1
  let data ← Mem.fillT .pqData pq.data 0 0 paquetMaxDatasize
  if pk.length.toNat < 3 + 2 + 8 + 2 + 8 + 2 then
    return (-1, { pq with data })
  let datalen := UInt8.ofNat (pk.length.toNat - (3 + 2 + 8 + 2 + 8 + 2))
  let dpan ← Mem.loadT .pkData pk.data 3 2
  let dmac ← Mem.loadT .pkData pk.data (3 + 2) 8
  let span ← Mem.loadT .pkData pk.data (3 + 2 + 8) 2
  let smac ← Mem.loadT .pkData pk.data (3 + 2 + 8 + 2) 8
  let data ← Mem.copyT .pqData .pkData data 0 pk.data (3 + 2 + 8 + 2 + 8) datalen.toNat
  -- The payload starts at `3+2+8+2+8`, so its end is two bytes before this.
  let crc ← Mem.loadT .pkData pk.data (3 + 2 + 8 + 2 + 8 + 2 + datalen.toNat) 2
  return (ret, { span, dpan, smac, dmac, datalen, data, crc })

end OflMetrics
