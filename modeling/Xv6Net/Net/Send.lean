import Xv6Net.Net.Store

/-!
# `sys_send` and `in_cksum`

`sys_send` of `net.c`: the length guard, the fresh page, the Ethernet, IPv4
and UDP headers written field by field, the checksum, the copy of the payload
from user memory by `copyin_user`, and the hand-off to `e1000_transmit`.

**Integer widths.**  `total` is computed as the source does: `len` converted
to `uint64`, the three `sizeof`s added, and the sum narrowed to `int`.
`copyin_user` receives `len` widened to `uint64`.
-/

namespace Xv6Net
namespace Net

open Lib E1000 Vm NetState

/-- `host_mac`: the QEMU host. -/
def hostMac : List UInt8 := [0x52, 0x55, 0x0a, 0x00, 0x02, 0x02]

/-- The 32-bit accumulation loop of `in_cksum`: `n` bytes left at offset `o`. -/
def cksumSum (b : Bytes) : Nat → Nat → UInt32 → UInt32
  | o, n + 2, sum => cksumSum b (o + 2) n (sum + (ld16 b o).toUInt32)
  | o, 1, sum => sum + (b o).toUInt32
  | _, 0, sum => sum

/-- `in_cksum(addr, len)` over the bytes at offset `o`. -/
def inCksum (b : Bytes) (o len : Nat) : UInt16 :=
  let sum : UInt32 := cksumSum b o len 0
  let sum : UInt32 := (sum &&& (0xffff : UInt32)) + (sum >>> (16 : UInt32))
  let sum : UInt32 := sum + (sum >>> (16 : UInt32))
  (~~~sum).toUInt16

/-- The headers `sys_send` writes into the zeroed page: Ethernet to the host,
IPv4 with its checksum, UDP without checksum. -/
def udpHeaders (sport dst dport len : Int) : Bytes :=
  let b := memsetPage 0
  let b := stBytes b 0 hostMac
  let b := stBytes b 6 localMac
  let b := st16 b 12 (htons ETHTYPE_IP)
  let b := stBytes b 14 [0x45, 0]
  let b := st16 b 16 (htons (UInt16.ofNat (toUShort (sizeofIp + sizeofUdp + len))))
  let b := st16 b 18 0
  let b := st16 b 20 0
  let b := stBytes b 22 [100, IPPROTO_UDP]
  let b := st32 b 26 (htonl localIp)
  let b := st32 b 30 (htonl (UInt32.ofNat (dst % 2 ^ 32).toNat))
  let b := st16 b 24 (inCksum b 14 sizeofIp)
  let b := st16 b 34 (htons (ushort sport))
  let b := st16 b 36 (htons (ushort dport))
  st16 b 38 (htons (ushort (len + sizeofUdp)))

/-- `int total = len + sizeof(struct eth) + sizeof(struct ip) + sizeof(struct udp)`. -/
def sendTotal (len : Int) : Int :=
  toInt32 (toUInt64 (toUInt64 len + sizeofEth + sizeofIp + sizeofUdp))

/-- The arguments of `send(sport, dst, dport, buf, len)`, as registers. -/
structure SendArgs where
  sport : UInt64
  dst : UInt64
  dport : UInt64
  buf : UInt64
  len : UInt64

/-- `sys_send()` for a process with page table `pgdir`: the new state and the
return value. -/
def sysSend (s : NetState) (pgdir : Nat) (a : SendArgs) : NetState × Int :=
  let len := argint a.len
  let total := sendTotal len
  if total > PGSIZE then (s, -1)
  else
    let (buf, s1) := kalloc s
    if buf = 0 then (s1, -1)
    else
      let hdr := udpHeaders (argint a.sport) (argint a.dst) (argint a.dport) len
      let c := copyinUser s1.phys pgdir (argaddr a.buf) (toUInt64 len)
      let s2 := s1.setPage buf (.raw (stBytes hdr (sizeofEth + sizeofIp + sizeofUdp) c.1))
      if c.2 < 0 then (kfree s2 buf, -1)
      else
        let (s3, txret) := transmit s2 buf total
        if txret < 0 then (kfree s3 buf, -1) else (s3, 0)

end Net
end Xv6Net
