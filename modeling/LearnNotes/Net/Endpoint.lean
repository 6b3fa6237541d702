import LearnNotes.Net.RoundTrip

/-!
# The two ends of the connection

The loops of `tcp_server.cpp` and `tcp_client.cpp` make a header of the last one and the
`MAXSBUF` bytes they send, and pass `hrecv` a buffer of their own size: `Endpoint`. The header
is filled in by `set_hpack_pft` and `crc32`. `payloadFits_iff`: what `hrecv` stores fits the
buffer exactly where the size in the header fits it or is negative as an `int`, in which case
nothing is read. The client says `MAXSBUF` where the server has room for `MAXRBUF`, so none of
its packets fits: `client_overflows`.
-/

namespace LearnNotes.Net

open Lib

/-! ## `crc32` -/

def crc32_table : List UInt32 :=
  [0x00000000, 0x77073096, 0xee0e612c, 0x990951ba, 0x076dc419, 0x706af48f, 0xe963a535, 0x9e6495a3,
    0x0edb8832, 0x79dcb8a4, 0xe0d5e91e, 0x97d2d988, 0x09b64c2b, 0x7eb17cbd, 0xe7b82d07, 0x90bf1d91,
    0x1db71064, 0x6ab020f2, 0xf3b97148, 0x84be41de, 0x1adad47d, 0x6ddde4eb, 0xf4d4b551, 0x83d385c7,
    0x136c9856, 0x646ba8c0, 0xfd62f97a, 0x8a65c9ec, 0x14015c4f, 0x63066cd9, 0xfa0f3d63, 0x8d080df5,
    0x3b6e20c8, 0x4c69105e, 0xd56041e4, 0xa2677172, 0x3c03e4d1, 0x4b04d447, 0xd20d85fd, 0xa50ab56b,
    0x35b5a8fa, 0x42b2986c, 0xdbbbc9d6, 0xacbcf940, 0x32d86ce3, 0x45df5c75, 0xdcd60dcf, 0xabd13d59,
    0x26d930ac, 0x51de003a, 0xc8d75180, 0xbfd06116, 0x21b4f4b5, 0x56b3c423, 0xcfba9599, 0xb8bda50f,
    0x2802b89e, 0x5f058808, 0xc60cd9b2, 0xb10be924, 0x2f6f7c87, 0x58684c11, 0xc1611dab, 0xb6662d3d,
    0x76dc4190, 0x01db7106, 0x98d220bc, 0xefd5102a, 0x71b18589, 0x06b6b51f, 0x9fbfe4a5, 0xe8b8d433,
    0x7807c9a2, 0x0f00f934, 0x9609a88e, 0xe10e9818, 0x7f6a0dbb, 0x086d3d2d, 0x91646c97, 0xe6635c01,
    0x6b6b51f4, 0x1c6c6162, 0x856530d8, 0xf262004e, 0x6c0695ed, 0x1b01a57b, 0x8208f4c1, 0xf50fc457,
    0x65b0d9c6, 0x12b7e950, 0x8bbeb8ea, 0xfcb9887c, 0x62dd1ddf, 0x15da2d49, 0x8cd37cf3, 0xfbd44c65,
    0x4db26158, 0x3ab551ce, 0xa3bc0074, 0xd4bb30e2, 0x4adfa541, 0x3dd895d7, 0xa4d1c46d, 0xd3d6f4fb,
    0x4369e96a, 0x346ed9fc, 0xad678846, 0xda60b8d0, 0x44042d73, 0x33031de5, 0xaa0a4c5f, 0xdd0d7cc9,
    0x5005713c, 0x270241aa, 0xbe0b1010, 0xc90c2086, 0x5768b525, 0x206f85b3, 0xb966d409, 0xce61e49f,
    0x5edef90e, 0x29d9c998, 0xb0d09822, 0xc7d7a8b4, 0x59b33d17, 0x2eb40d81, 0xb7bd5c3b, 0xc0ba6cad,
    0xedb88320, 0x9abfb3b6, 0x03b6e20c, 0x74b1d29a, 0xead54739, 0x9dd277af, 0x04db2615, 0x73dc1683,
    0xe3630b12, 0x94643b84, 0x0d6d6a3e, 0x7a6a5aa8, 0xe40ecf0b, 0x9309ff9d, 0x0a00ae27, 0x7d079eb1,
    0xf00f9344, 0x8708a3d2, 0x1e01f268, 0x6906c2fe, 0xf762575d, 0x806567cb, 0x196c3671, 0x6e6b06e7,
    0xfed41b76, 0x89d32be0, 0x10da7a5a, 0x67dd4acc, 0xf9b9df6f, 0x8ebeeff9, 0x17b7be43, 0x60b08ed5,
    0xd6d6a3e8, 0xa1d1937e, 0x38d8c2c4, 0x4fdff252, 0xd1bb67f1, 0xa6bc5767, 0x3fb506dd, 0x48b2364b,
    0xd80d2bda, 0xaf0a1b4c, 0x36034af6, 0x41047a60, 0xdf60efc3, 0xa867df55, 0x316e8eef, 0x4669be79,
    0xcb61b38c, 0xbc66831a, 0x256fd2a0, 0x5268e236, 0xcc0c7795, 0xbb0b4703, 0x220216b9, 0x5505262f,
    0xc5ba3bbe, 0xb2bd0b28, 0x2bb45a92, 0x5cb36a04, 0xc2d7ffa7, 0xb5d0cf31, 0x2cd99e8b, 0x5bdeae1d,
    0x9b64c2b0, 0xec63f226, 0x756aa39c, 0x026d930a, 0x9c0906a9, 0xeb0e363f, 0x72076785, 0x05005713,
    0x95bf4a82, 0xe2b87a14, 0x7bb12bae, 0x0cb61b38, 0x92d28e9b, 0xe5d5be0d, 0x7cdcefb7, 0x0bdbdf21,
    0x86d3d2d4, 0xf1d4e242, 0x68ddb3f8, 0x1fda836e, 0x81be16cd, 0xf6b9265b, 0x6fb077e1, 0x18b74777,
    0x88085ae6, 0xff0f6a70, 0x66063bca, 0x11010b5c, 0x8f659eff, 0xf862ae69, 0x616bffd3, 0x166ccf45,
    0xa00ae278, 0xd70dd2ee, 0x4e048354, 0x3903b3c2, 0xa7672661, 0xd06016f7, 0x4969474d, 0x3e6e77db,
    0xaed16a4a, 0xd9d65adc, 0x40df0b66, 0x37d83bf0, 0xa9bcae53, 0xdebb9ec5, 0x47b2cf7f, 0x30b5ffe9,
    0xbdbdf21c, 0xcabac28a, 0x53b39330, 0x24b4a3a6, 0xbad03605, 0xcdd70693, 0x54de5729, 0x23d967bf,
    0xb3667a2e, 0xc4614ab8, 0x5d681b02, 0x2a6f2b94, 0xb40bbe37, 0xc30c8ea1, 0x5a05df1b, 0x2d02ef8d]

/-- One byte of the loop. -/
def crc32Byte (crc : UInt32) (byte : UInt8) : UInt32 :=
  let table_index := ((crc ^^^ byte.toUInt32) &&& 0xff).toUInt8
  (crc >>> 8) ^^^ crc32_table.getD table_index.toNat 0

/-- `crc32(data, length, crc32)`, `data` being the bytes read. -/
def crc32 (data : List UInt8) (crc32 : UInt32) : UInt32 :=
  let crc := data.foldl crc32Byte (if crc32 ≠ 0 then crc32 else 0xffffffff)
  if crc32 ≠ 0 then crc else crc ^^^ 0xffffffff

/-- One step of the reversed polynomial. -/
def crc32Bit (crc : UInt32) : UInt32 :=
  if crc &&& 1 = 1 then (crc >>> 1) ^^^ 0xEDB88320 else crc >>> 1

/-- The table is the one `GenerateCRC32_Table` of `test.cpp` computes. -/
theorem crc32_table_eq :
    crc32_table = (List.range 256).map fun i => crc32Bit^[8] (UInt32.ofNat i) := by
  decide +kernel

/-! ## The loops -/

def FT_NOR : UInt8 := 1
def PACK_FTYPE_SIZE : Nat := 4
def MAXRBUF : Nat := 20
def MAXSBUF : Nat := 30

/-- `set_hpack_pft`: how many kinds of file `ftype` names, and the header. Its `memcpy` copies the
header's counts over the argument, not the argument into the header. -/
def set_hpack_pft (ftype : UInt8) (_fcount : UInt32) (hd : hpack_t) : Int × hpack_t :=
  (((List.range (PACK_FTYPE_SIZE + 1)).filter ftype.toNat.testBit).length,
    { hd with packet_ftype := ftype })

inductive Endpoint where
  | tcp_server
  | tcp_client
  deriving DecidableEq

namespace Endpoint

/-- The size of the buffer the loop passes to `hrecv`. -/
def bufsize : Endpoint → Nat
  | tcp_server => MAXRBUF
  | tcp_client => MAXSBUF

def flags : Endpoint → UInt8
  | tcp_server => 1
  | tcp_client => 0

/-- The header the loop makes of `hpt` for the bytes it sends. `msg` is the memory from the buffer's
start on; the client's buffer has `MAXRBUF` bytes, so there it reaches behind the buffer. -/
def header (ep : Endpoint) (msg : Vector UInt8 MAXSBUF) (timepoint : Int64) (hpt : hpack_t) :
    hpack_t :=
  let hpt := { hpt with timestamp := timepoint, packet_seq := hpt.packet_seq + 1 }
  let hpt := (set_hpack_pft FT_NOR 1 hpt).2
  let hpt := { hpt with packet_size := UInt32.ofNat MAXSBUF, flags := ep.flags
                        check := crc32 msg.toList 0 }
  { hpt with version := encrypt .Nd2N hpt }

variable (ep : Endpoint) (msg : Vector UInt8 MAXSBUF) (timepoint : Int64) (hpt : hpack_t)

@[simp] theorem packet_size_header :
    (ep.header msg timepoint hpt).packet_size.toNat = MAXSBUF := rfl

@[simp] theorem check_header : (ep.header msg timepoint hpt).check = crc32 msg.toList 0 := rfl

/-- Both ends accept what either sends: `encrypt` does not read `version`. -/
theorem dencrypt_fn_header : dencrypt_fn (ep.header msg timepoint hpt) = true :=
  beq_iff_eq.mpr rfl

end Endpoint

/-! ## Sizes -/

/-- However the stream goes on and `recv` cuts it, a message behind this header fits the buffer. -/
def PayloadFits (e : Endian) (ep : Endpoint) (hd : hpack_t) : Prop :=
  ∀ ρ hd₀ io, (hrecv e ρ dencrypt_fn hd₀ io).hd = hd →
    (hrecv e ρ dencrypt_fn hd₀ io).msg.length ≤ ep.bufsize

variable {ρ : Schedule} {size : Int}

theorem length_recv {count : Nat} {bs : List UInt8} {io io' : Incoming}
    (h : recv ρ count io = (some bs, io')) : bs.length ≤ count := by
  unfold recv at h
  split at h
  · cases h
  · obtain ⟨hbs, -⟩ := Prod.mk.inj h
    have htake := congrArg List.length (Option.some.inj hbs)
    rw [List.length_take] at htake
    omega

theorem length_sreadLoop (fuel count : Nat) (buf : List UInt8) (io : Incoming) :
    (sreadLoop ρ size fuel count buf io).2.1.length ≤ buf.length + count := by
  induction fuel generalizing count buf io with
  | zero => exact Nat.le_add_right _ _
  | succ fuel ih =>
    unfold sreadLoop
    split
    · exact Nat.le_add_right _ _
    · split
      · exact Nat.le_add_right _ _
      · exact Nat.le_add_right _ _
      · next b bs io' hrecv =>
        have hlen := length_recv hrecv
        have hrest := ih (count - (bs.length + 1)) (buf ++ b :: bs) io'
        rw [List.length_cons] at hlen
        rw [List.length_append, List.length_cons] at hrest
        omega

/-- No more than was asked for. -/
theorem length_sread (ρ : Schedule) (size : Int) (io : Incoming) :
    (sread ρ size io).2.1.length ≤ size.toNat := by
  have hlen : (sread ρ size io).2.1.length ≤ [].length + size.toNat := length_sreadLoop ..
  rwa [List.length_nil, Nat.zero_add] at hlen

section Received

variable {e : Endian} {fn : hpack_t → Bool} {hd₀ hd : hpack_t} {io io' : Incoming}
  (h : recvHeader e ρ hd₀ io = (hd, io'))
include h

theorem hrecv_eq :
    hrecv e ρ fn hd₀ io =
      if !fn hd then ⟨-1, [], hd, io'⟩
      else
        let (ret, msg, io) := sread ρ (toInt hd.packet_size.toNat) io'
        ⟨ret, msg, hd, io⟩ := by
  unfold hrecv
  rw [h]

theorem hrecv_of_rejected (hfn : fn hd = false) : hrecv e ρ fn hd₀ io = ⟨-1, [], hd, io'⟩ := by
  rw [hrecv_eq h, hfn]
  rfl

theorem hrecv_of_accepted (hfn : fn hd = true) {ret : Int} {msg : List UInt8} {io'' : Incoming}
    (hs : sread ρ (toInt hd.packet_size.toNat) io' = (ret, msg, io'')) :
    hrecv e ρ fn hd₀ io = ⟨ret, msg, hd, io''⟩ := by
  rw [hrecv_eq h, hfn, hs]
  rfl

end Received

theorem length_hrecv (e : Endian) (ρ : Schedule) (fn : hpack_t → Bool) (hd₀ : hpack_t)
    (io : Incoming) :
    (hrecv e ρ fn hd₀ io).msg.length ≤
      (toInt (hrecv e ρ fn hd₀ io).hd.packet_size.toNat).toNat := by
  rcases hh : recvHeader e ρ hd₀ io with ⟨hd, io'⟩
  cases hfn : fn hd with
  | false =>
    rw [hrecv_of_rejected hh hfn]
    exact Nat.zero_le _
  | true =>
    have hlen := length_sread ρ (toInt hd.packet_size.toNat) io'
    rcases hs : sread ρ (toInt hd.packet_size.toNat) io' with ⟨ret, msg, io''⟩
    rw [hs] at hlen
    rw [hrecv_of_accepted hh hfn hs]
    exact hlen

/-- A stream that has the whole message shows whether it fits. -/
theorem length_packet_fits {e : Endian} {ep : Endpoint} {hd : hpack_t}
    (h : PayloadFits e ep hd) (hfn : dencrypt_fn hd = true) :
    hd.packet_size.toNat ≤ ep.bufsize ∨ 2 ^ 31 ≤ hd.packet_size.toNat := by
  by_contra hsize
  obtain ⟨hbig, hint⟩ := not_or.mp hsize
  have hrecv : NoErrors fun _ => some 1 := fun _ => Option.some_ne_none 1
  obtain ⟨calls, hrun⟩ := hrecv_packet (e := e) hrecv hd 0 [] hfn
    (List.length_replicate (a := (0 : UInt8))) (by omega)
  have hfits := h _ _ _ (congrArg Received.hd hrun)
  rw [hrun, List.length_replicate] at hfits
  exact hbig hfits

/-- **Exactly when the payload fits.** -/
theorem payloadFits_iff (e : Endian) (ep : Endpoint) {hd : hpack_t} (hfn : dencrypt_fn hd = true) :
    PayloadFits e ep hd ↔
      hd.packet_size.toNat ≤ ep.bufsize ∨ 2 ^ 31 ≤ hd.packet_size.toNat := by
  constructor
  · exact fun h => length_packet_fits h hfn
  · rintro hsize ρ hd₀ io rfl
    have hlen := length_hrecv e ρ dencrypt_fn hd₀ io
    rcases hsize with hle | hneg
    · have hint : (hrecv e ρ dencrypt_fn hd₀ io).hd.packet_size.toNat < 2 ^ 31 := by
        have : ep.bufsize ≤ 30 := by cases ep <;> decide
        omega
      rw [toInt_of_lt hint, Int.toNat_natCast] at hlen
      omega
    · have := toInt_neg hneg (hrecv e ρ dencrypt_fn hd₀ io).hd.packet_size.toNat_lt
      omega

theorem payloadFits_iff_hello : PayloadFits .little .tcp_server hello := by
  have hfn : dencrypt_fn hello = true := by decide
  exact (payloadFits_iff .little .tcp_server hfn).mpr (.inl (by decide))

/-- No packet of the client fits the server's buffer. -/
theorem client_overflows (e : Endian) (msg : Vector UInt8 MAXSBUF) (timepoint : Int64)
    (hpt : hpack_t) :
    ¬ PayloadFits e .tcp_server (Endpoint.tcp_client.header msg timepoint hpt) := by
  have hfn := Endpoint.dencrypt_fn_header .tcp_client msg timepoint hpt
  intro h
  have hsize := length_packet_fits h hfn
  rw [Endpoint.packet_size_header] at hsize
  revert hsize
  decide

/-- A line of zeros sent to the server. -/
theorem client_packet_overflows :
    ¬ PayloadFits .little .tcp_server
      (Endpoint.tcp_client.header (Vector.replicate 30 0) 1700000000 hello) :=
  client_overflows .little _ _ _

end LearnNotes.Net
