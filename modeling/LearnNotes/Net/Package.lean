import LearnNotes.Lib.Bytes

/-!
# `tcp_package.c`

The packet header, its version code and the four I/O functions. The header is its object
representation: 40 bytes, the fields at their offsets under the host's byte order and the
padding bytes as they are. `send` and `recv` answer as a schedule says, call by call:
`none` is -1, `some n` a count cut down to what the call may return. File descriptors and
null pointers are left out, and so are what lies behind the message buffer's end and a `malloc`
of `hsend` that fails, which is not checked; the null header of `hrecv`, which takes the function
pointer for a size, is no packet.
-/

namespace LearnNotes.Net

open Lib

abbrev ptlv_t := UInt16

/-- `hpack_t`. -/
structure hpack_t where
  packet_magic : UInt32
  packet_size : UInt32
  packet_seq : UInt16
  packet_ftype : UInt8
  packet_fcount : Vector UInt8 4
  flags : UInt8
  version : ptlv_t
  /-- The bytes 18 and 19, between `version` and `reserved`. -/
  pad18 : Vector UInt8 2
  reserved : UInt32
  check : UInt32
  /-- The bytes 28 to 31, before `timestamp`. -/
  pad28 : Vector UInt8 4
  timestamp : Int64
  deriving DecidableEq

def HPACK_SIZE : Nat := 40

inductive WebPtl where
  | Nd2N
  | SoLA
  | NeNA
  | MgLU
  | FoNA
  deriving DecidableEq

/-- `(ptlv_t)0xa6138275`. -/
def Nd2N : ptlv_t := 0x8275

/-! ## The version code -/

/-- One round of `__Nd2N_encrypt`, in 16 bits. -/
def encryptRound (encrypted : ptlv_t) (key : UInt8) : ptlv_t :=
  let encrypted := encrypted ^^^ key.toUInt16
  (encrypted <<< 2) ||| (encrypted >>> 6)

def Nd2N_encrypt (magic timestamp pkg_len crc32 : UInt32) : ptlv_t :=
  let dynkey := magic ^^^ timestamp ^^^ pkg_len ^^^ crc32
  let key : List UInt8 :=
    [(dynkey >>> 24).toUInt8, (dynkey >>> 16).toUInt8, (dynkey >>> 8).toUInt8, dynkey.toUInt8]
  key.foldl encryptRound Nd2N ^^^ (magic &&& 0xFFFF).toUInt16

/-- `encrypt(ptl, hpt)`: the result goes through a `uint8_t`. -/
def encrypt (ptl : WebPtl) (hd : hpack_t) : ptlv_t :=
  let ret : UInt8 :=
    match ptl with
    | .Nd2N => (Nd2N_encrypt hd.packet_magic hd.timestamp.toUInt64.toUInt32 hd.packet_size
        hd.check).toUInt8
    | .SoLA | .NeNA | .MgLU | .FoNA => 0
  ret.toUInt16

/-- `dencrypt_fn` of the server; the client's differs in what it prints. -/
def dencrypt_fn (hpt : hpack_t) : Bool := encrypt .Nd2N hpt == hpt.version

/-! ## The header in memory -/

section Memory

variable (e : Endian)

def bytes32 (x : UInt32) : List UInt8 := Bytes.put e 4 x.toNat

def word32 (bs : List UInt8) : UInt32 := UInt32.ofNat (Bytes.get e 4 bs)

/-- The word whose bytes in memory are `x` in network order. -/
def htonl (x : UInt32) : UInt32 := word32 e (bytes32 .big x)

def ntohl (x : UInt32) : UInt32 := word32 .big (bytes32 e x)

def bytes16 (x : UInt16) : List UInt8 := Bytes.put e 2 x.toNat

def word16 (bs : List UInt8) : UInt16 := UInt16.ofNat (Bytes.get e 2 bs)

def bytes64 (x : Int64) : List UInt8 := Bytes.put e 8 x.toUInt64.toNat

def word64 (bs : List UInt8) : Int64 := (UInt64.ofNat (Bytes.get e 8 bs)).toInt64

/-- The first `n` bytes. -/
def raw (n : Nat) (bs : List UInt8) : Vector UInt8 n := Vector.ofFn fun i => bs.getD i 0

/-- The object representation. -/
def hpack_t.toBytes (hd : hpack_t) : List UInt8 :=
  bytes32 e hd.packet_magic ++ (bytes32 e hd.packet_size ++ (bytes16 e hd.packet_seq ++
    ([hd.packet_ftype] ++ (hd.packet_fcount.toList ++ ([hd.flags] ++ (bytes16 e hd.version ++
    (hd.pad18.toList ++ (bytes32 e hd.reserved ++ (bytes32 e hd.check ++ (hd.pad28.toList ++
    bytes64 e hd.timestamp))))))))))

/-- The header object with these 40 bytes. -/
def hpack_t.ofBytes (bs : List UInt8) : hpack_t where
  packet_magic := word32 e bs
  packet_size := word32 e (bs.drop 4)
  packet_seq := word16 e (bs.drop 8)
  packet_ftype := (bs.drop 10).headD 0
  packet_fcount := raw 4 (bs.drop 11)
  flags := (bs.drop 15).headD 0
  version := word16 e (bs.drop 16)
  pad18 := raw 2 (bs.drop 18)
  reserved := word32 e (bs.drop 20)
  check := word32 e (bs.drop 24)
  pad28 := raw 4 (bs.drop 28)
  timestamp := word64 e (bs.drop 32)

end Memory

/-! ## I/O -/

/-- What the `i`-th call of `send` or `recv` answers. -/
abbrev Schedule := Nat → Option Nat

/-- The sending end: the calls made and the bytes the stream has taken. -/
structure Outgoing where
  calls : Nat
  wire : List UInt8

/-- The receiving end: the calls made and the bytes to come before the peer closes. -/
structure Incoming where
  calls : Nat
  rest : List UInt8
  deriving DecidableEq

/-- `send(fd, buf, count, 0)`: up to the whole buffer, or none of it. -/
def send (σ : Schedule) (buf : List UInt8) (io : Outgoing) : Option Nat × Outgoing :=
  match σ io.calls with
  | none => (none, { io with calls := io.calls + 1 })
  | some n => (some (min n buf.length), ⟨io.calls + 1, io.wire ++ buf.take n⟩)

/-- `recv(fd, buf, count, 0)`: at least one byte while the peer has some, then none. -/
def recv (ρ : Schedule) (count : Nat) (io : Incoming) : Option (List UInt8) × Incoming :=
  match ρ io.calls with
  | none => (none, { io with calls := io.calls + 1 })
  | some n =>
    let n := min (max n 1) count
    (some (io.rest.take n), ⟨io.calls + 1, io.rest.drop n⟩)

/-- The conversion of a `size_t` or `uint32_t` to `int`. -/
def toInt (n : Nat) : Int := Int.bmod n (2 ^ 32)

/-- The loop of `swrite`. A `send` may return 0 for ever, so it runs on `fuel`. -/
def swriteLoop (σ : Schedule) (size : Int) :
    Nat → List UInt8 → Outgoing → Option (Int × Outgoing)
  | 0, _, _ => none
  | fuel + 1, buf, io =>
    if buf = [] then some (size, io)
    else
      match send σ buf io with
      | (none, io) => some (-1, io)
      | (some ilen, io) => swriteLoop σ size fuel (buf.drop ilen) io

def swrite (σ : Schedule) (fuel : Nat) (msg : List UInt8) (size : Int) (io : Outgoing) :
    Option (Int × Outgoing) :=
  swriteLoop σ size fuel (msg.take size.toNat) io

/-- The loop of `sread`: the result, the bytes written to the buffer and the stream. Every `recv`
but the last reads a byte, so `count` bounds the iterations. -/
def sreadLoop (ρ : Schedule) (size : Int) :
    Nat → Nat → List UInt8 → Incoming → Int × List UInt8 × Incoming
  | 0, _, buf, io => (size, buf, io)
  | fuel + 1, count, buf, io =>
    if count = 0 then (size, buf, io)
    else
      match recv ρ count io with
      | (none, io) => (-1, buf, io)
      | (some [], io) => (size - count, buf, io)
      | (some (b :: bs), io) =>
        sreadLoop ρ size fuel (count - (bs.length + 1)) (buf ++ b :: bs) io

def sread (ρ : Schedule) (size : Int) (io : Incoming) : Int × List UInt8 × Incoming :=
  sreadLoop ρ size size.toNat size.toNat [] io

/-- `hsend`: its result, the header as it leaves it and the stream. -/
def hsend (e : Endian) (σ : Schedule) (fuel : Nat) (msg : List UInt8) (hd : hpack_t)
    (io : Outgoing) : Option (Int × hpack_t × Outgoing) :=
  let len := hd.packet_size.toNat
  let hd := { hd with packet_size := htonl e hd.packet_size }
  let data := hd.toBytes e ++ msg.take len
  match swrite σ fuel data (toInt (len + HPACK_SIZE)) io with
  | none => none
  | some (ret, io) => some (ret, hd, io)

/-- What `hrecv` returns, the message bytes it writes, the header it leaves and the stream. -/
structure Received where
  ret : Int
  msg : List UInt8
  hd : hpack_t
  io : Incoming
  deriving DecidableEq

/-- The first `sread` of `hrecv`, and the size put in host order. A short read overwrites the
first bytes of the caller's header. -/
def recvHeader (e : Endian) (ρ : Schedule) (hd : hpack_t) (io : Incoming) : hpack_t × Incoming :=
  let (_, bytes, io) := sread ρ HPACK_SIZE io
  let hd := hpack_t.ofBytes e (bytes ++ (hd.toBytes e).drop bytes.length)
  ({ hd with packet_size := ntohl e hd.packet_size }, io)

def hrecv (e : Endian) (ρ : Schedule) (fn : hpack_t → Bool) (hd : hpack_t) (io : Incoming) :
    Received :=
  let (hd, io) := recvHeader e ρ hd io
  if !fn hd then ⟨-1, [], hd, io⟩
  else
    let (ret, msg, io) := sread ρ (toInt hd.packet_size.toNat) io
    ⟨ret, msg, hd, io⟩

end LearnNotes.Net
