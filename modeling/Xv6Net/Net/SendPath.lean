import Xv6Net.Net.Spec

/-!
# What `sys_send` checks and what it writes

**The length guard.**  `total = len + 42` is computed in `uint64` and narrowed
to `int`, and `copyin_user` receives `len` widened to `uint64`.  For an `int`
argument the guard `total > PGSIZE` therefore lets through every `len ≤ 4054`,
the negative ones included, and the 42 largest `int`s, whose sum wraps
(`sendGuard_iff`).  A negative `len` reaches `copyin_user` as a length of
nearly `2^64` bytes (`toUInt64_of_neg`), and the copy into the page at offset
42 runs until the first unmapped user page: past the end of the page.

**The user pointer.**  Nothing confines `bufaddr` to the user half: a kernel
address is translated through the kernel's own entries, and what the call does
then depends on physical memory outside the process's user pages and page
tables (`sysSend_reads_kernel_half`).

**The frame `sys_send` builds, read back by `net_rx`.** `sendPage a bs` is the
page `sys_send` hands to `e1000_transmit` for the arguments `a`, when
`copyin_user` wrote the bytes `bs` (`sysSend_cases`). The headers below byte 42
do not depend on `bs`; every field `net_rx` and `ip_rx` read is one `sys_send`
wrote through `htons`/`htonl`, and comes back through `ntohs`/`ntohl`.

**The user pointer.** `sys_send` hands `bufaddr` to `copyin_user` unchecked, and
`uva2ka` follows the kernel half of the page table like the user half: the PML4
entry 256 that `setupkvm` copies into every process leads to the 1 GB entry
`kpdpt[0]`, whose `PTE_PS` bit `walkpgdir` does not test, so physical page 0 is
read as a page directory.
-/

namespace Xv6Net
namespace Net

open Lib E1000 Vm NetState

/-- `argint` yields an `int`. -/
theorem argint_range (r : UInt64) : -2 ^ 31 ≤ argint r ∧ argint r < 2 ^ 31 := by
  unfold argint toInt32
  omega

/-- `total` for an `int` length: `len + 42`, or that sum wrapped past
`INT_MAX`. -/
theorem sendTotal_eq {len : Int} (h₁ : -2 ^ 31 ≤ len) (h₂ : len < 2 ^ 31) :
    sendTotal len = if len + 42 < 2 ^ 31 then len + 42 else len + 42 - 2 ^ 32 := by
  unfold sendTotal toInt32 toUInt64
  simp only [sizeofEth, sizeofIp, sizeofUdp]
  split_ifs <;> omega

/-- The lengths the guard of `sys_send` lets through. -/
theorem sendGuard_iff (r : UInt64) :
    ¬ sendTotal (argint r) > PGSIZE ↔ argint r ≤ 4054 ∨ 2 ^ 31 - 42 ≤ argint r := by
  obtain ⟨h₁, h₂⟩ := argint_range r
  rw [sendTotal_eq h₁ h₂]
  simp only [PGSIZE]
  split_ifs <;> omega

/-- The length `copyin_user` receives for a negative `len`. -/
theorem toUInt64_of_neg {len : Int} (h₁ : -2 ^ 31 ≤ len) (h₂ : len < 0) :
    (toUInt64 len : Int) = 2 ^ 64 + len := by
  unfold toUInt64
  omega

/-- The eight little-endian bytes of a page-table entry. -/
def pteBytes (e : Nat) : List UInt8 :=
  (List.range 8).map fun i => UInt8.ofNat (e / 256 ^ i)

/-- Physical memory of a process whose page table at 0x1000 maps one user
page, virtual page 0, to the physical page 0x5000. -/
def onePageTable : PhysMem :=
  writeBytes (writeBytes (writeBytes (writeBytes (fun _ => 0) 0x1000 (pteBytes 0x2007))
    0x2000 (pteBytes 0x3007)) 0x3000 (pteBytes 0x4007)) 0x4000 (pteBytes 0x5007)

/-- `send(2000, 10.0.2.2, 25603, 0, -1)`. -/
def sendMinusOne : SendArgs :=
  { sport := 2000, dst := 0x0A000202, dport := 25603, buf := 0, len := 0xFFFFFFFFFFFFFFFF }

/-- With a length of `2^64 - 1`, `copyin_user` copies the whole mapped page and
fails at the next one. -/
theorem copyinUser_onePage_all :
    copyinUser onePageTable 0x1000 0 (toUInt64 (-1)) = (slice onePageTable 0x5000 PGSIZE, -1) := by
  have h0 : uva2ka onePageTable 0x1000 0 = some 0x5000 := by decide
  have h1 : uva2ka onePageTable 0x1000 ((0 + PGSIZE) % 2 ^ 64) = none := by decide
  have hn : min (PGSIZE - 0 % PGSIZE) (toUInt64 (-1)) = PGSIZE := by decide
  rw [copyinUser, copyinLoop_some (by decide) h0, hn, copyinLoop_none (by decide) h1]
  simp [slice]

/-- `send` with `len = -1`: the guard passes (`total = 41`), `copyin_user`
receives `2^64 - 1`, and the 4096 bytes of the mapped user page are stored
from offset 42 of the 4096-byte page before the call returns `-1`.  Every
negative `len` passes the guard and reaches `copyin_user` as `2^64 + len`. -/
theorem sysSend_negative_len_overruns :
    argint sendMinusOne.len = -1 ∧ ¬ sendTotal (argint sendMinusOne.len) > PGSIZE ∧
      copyinUser onePageTable 0x1000 (argaddr sendMinusOne.buf)
          (toUInt64 (argint sendMinusOne.len)) = (slice onePageTable 0x5000 PGSIZE, -1) ∧
      sysSend (boot [0x8000] (fun _ => .raw (memsetPage 0)) onePageTable) 0x1000 sendMinusOne =
        (kfree ((boot [] (fun _ => .raw (memsetPage 0)) onePageTable).setPage 0x8000
          (.raw (sendPage sendMinusOne (slice onePageTable 0x5000 PGSIZE)))) 0x8000, -1) ∧
      ∀ r : UInt64, argint r < 0 →
        ¬ sendTotal (argint r) > PGSIZE ∧ (toUInt64 (argint r) : Int) = 2 ^ 64 + argint r := by
  have hlen : argint sendMinusOne.len = -1 := by decide
  have hg : ¬ sendTotal (-1) > PGSIZE := by decide
  have hbuf : argaddr sendMinusOne.buf = 0 := by decide
  have hneg : ∀ r : UInt64, argint r < 0 →
      ¬ sendTotal (argint r) > PGSIZE ∧ (toUInt64 (argint r) : Int) = 2 ^ 64 + argint r := by
    intro r hr
    have hrange := argint_range r
    exact ⟨(sendGuard_iff r).mpr (.inl (by omega)), toUInt64_of_neg hrange.1 hr⟩
  refine ⟨hlen, hlen ▸ hg, by rw [hlen, hbuf, copyinUser_onePage_all], ?_, hneg⟩
  have hk : kalloc (boot [0x8000] (fun _ => .raw (memsetPage 0)) onePageTable) =
      (0x8000, boot [] (fun _ => .raw (memsetPage 0)) onePageTable) := rfl
  have hphys : (boot [] (fun _ => .raw (memsetPage 0)) onePageTable).phys = onePageTable := rfl
  simp only [sysSend, hlen, hbuf, hg, if_false, hk, hphys, copyinUser_onePage_all]
  simp [sendPage, hlen]

section SendPage

variable (a : SendArgs) (bs : List UInt8)

theorem sendPage_vhl : sendPage a bs 14 = 0x45 := by
  simp only [sendPage, udpHeaders, sizeofEth, sizeofIp, sizeofUdp]
  simp [st16_of_ne, st32_of_disjoint, stBytes_of_lt, stBytes_of_mem]

theorem sendPage_proto : sendPage a bs 23 = IPPROTO_UDP := by
  simp only [sendPage, udpHeaders, sizeofEth, sizeofIp, sizeofUdp]
  simp [st16_of_ne, st32_of_disjoint, stBytes_of_lt, stBytes_of_mem, IPPROTO_UDP]

theorem sendPage_type : ld16 (sendPage a bs) 12 = htons ETHTYPE_IP := by
  simp only [sendPage, udpHeaders, sizeofEth, sizeofIp, sizeofUdp]
  simp [ld16_st16]

theorem sendPage_ipLen :
    ld16 (sendPage a bs) 16 =
      htons (UInt16.ofNat (toUShort (sizeofIp + sizeofUdp + argint a.len))) := by
  simp only [sendPage, udpHeaders, sizeofEth, sizeofIp, sizeofUdp]
  simp [ld16_st16]

theorem sendPage_ipDst :
    ld32 (sendPage a bs) 30 = htonl (UInt32.ofNat (argint a.dst % 2 ^ 32).toNat) := by
  simp only [sendPage, udpHeaders, sizeofEth, sizeofIp, sizeofUdp]
  simp [ld32_st32]

/-- The payload `copyin_user` wrote, at offset 42. -/
theorem sendPage_payload : slice (sendPage a bs) 42 bs.length = bs :=
  slice_stBytes _ _ _

theorem ntohl_htonl_localIp : ntohl (htonl localIp) = localIp := by
  decide

/-- The header fields `ip_rx` reads from the frame. -/
theorem readUdpHeader_sendPage :
    readUdpHeader (sendPage a bs) =
      { ipP := IPPROTO_UDP, ihl := 5, ulen := (ushort (argint a.len + 8)).toNat,
        dport := ushort (argint a.dport), sport := ushort (argint a.sport), srcIp := localIp } := by
  simp only [readUdpHeader, sizeofEth, Nat.reduceAdd, sendPage_vhl, sendPage_proto]
  simp only [sendPage, udpHeaders, sizeofEth, sizeofIp, sizeofUdp]
  simp [ld16_st16, ld32_st32, ntohs_htons, ntohl_htonl_localIp]

/-- The headers agree with one another and with the arguments: IPv4, a
20-byte IP header, `ip_len = total - 14`, `ulen = len + 8`, and the
destination in network byte order. -/
theorem sendPage_headers (hlen : 0 ≤ argint a.len ∧ argint a.len ≤ PGSIZE - 42) :
    ntohs (ld16 (sendPage a bs) 12) = ETHTYPE_IP ∧ (readUdpHeader (sendPage a bs)).ihl = 5 ∧
      (ntohs (ld16 (sendPage a bs) 16)).toNat = (argint a.len).toNat + 28 ∧
      (readUdpHeader (sendPage a bs)).ulen = (argint a.len).toNat + 8 ∧
      ld32 (sendPage a bs) 30 = htonl (UInt32.ofNat (argint a.dst % 2 ^ 32).toNat) := by
  simp only [PGSIZE] at hlen
  refine ⟨by rw [sendPage_type, ntohs_htons], by rw [readUdpHeader_sendPage], ?_, ?_,
    sendPage_ipDst a bs⟩
  · rw [sendPage_ipLen, ntohs_htons]
    simp only [toUShort, sizeofIp, sizeofUdp, UInt16.toNat_ofNat']
    omega
  · rw [readUdpHeader_sendPage]
    simp only
    rw [ushort_toNat_of_range (by omega) (by omega)]
    omega

end SendPage

/-- `ip_rx` reads nothing past byte 41 of a frame with `ihl = 5`. -/
theorem readUdpHeader_congr {b b' : Bytes} (h : ∀ i < 42, b' i = b i) (h14 : b 14 = 0x45) :
    readUdpHeader b' = readUdpHeader b := by
  have h14' : b' 14 = 0x45 := by rw [h 14 (by omega), h14]
  simp only [readUdpHeader, sizeofEth, h14, h14']
  simp only [show ((0x45 : UInt8) &&& 0x0f).toNat = 5 by decide]
  rw [h 23 (by omega), ld16_congr fun i _ _ => h i (by omega),
    ld16_congr fun i _ _ => h i (by omega), ld16_congr fun i _ _ => h i (by omega),
    ld32_congr fun i _ _ => h i (by omega)]

/-- The node `ip_rx` fills for the frame: payload at byte 42, of `len` bytes,
from `local_ip` and `sport`. -/
theorem udpNode_sendPage (a : SendArgs) (bs : List UInt8) {b : Bytes} (buf : Addr) (hb : ∀ i < 42, b i = sendPage a bs i)
    (hlen : 0 ≤ argint a.len ∧ argint a.len ≤ PGSIZE - 42) :
    udpNode b buf =
      { fullbuf := buf, payload := 42, payloadLen := argint a.len, srcIp := localIp,
        srcPort := ushort (argint a.sport), next := 0 } := by
  simp only [PGSIZE] at hlen
  have hlen8 : (ushort (argint a.len + 8)).toNat = (argint a.len + 8).toNat :=
    ushort_toNat_of_range (by omega) (by omega)
  simp only [udpNode, readUdpHeader_congr hb (sendPage_vhl a bs), readUdpHeader_sendPage, hlen8,
    sizeofEth, sizeofUdp, UdpPkt.mk.injEq, true_and, and_true]
  omega

/-- The round trip, for a frame built by `sys_send` with a payload of
`0 ≤ len ≤ PGSIZE - 42` bytes and a source port in range, stored in the page
`buf` handed to `net_rx` (any bytes after the frame): `net_rx` dispatches it
to `ip_rx`, which accepts it for the queue of `dport` when that is bound and
has room; the node carries `sport`, `local_ip`, `len` and the payload bytes,
and is queued exactly when `kalloc` gives the node's page. -/
theorem sendFrame_roundTrip (s : NetState) (buf : Addr) (a : SendArgs) (bs : List UInt8)
    (hlen : 0 ≤ argint a.len ∧ argint a.len ≤ PGSIZE - 42)
    (hbs : bs.length = (argint a.len).toNat)
    (hsport : 0 ≤ argint a.sport ∧ argint a.sport ≤ 0xFFFF)
    (hframe : ∀ i < bs.length + 42, s.bytes buf i = sendPage a bs i)
    (hbound : findPortQueue s (ushort (argint a.dport)) ≠ 0)
    (hroom : (s.pq (findPortQueue s (ushort (argint a.dport)))).count < MAX_QUEUED_PER_PORT) :
    (sendTotal (argint a.len) = argint a.len + 42 ∧
        ntohs (ld16 (sendPage a bs) 12) = ETHTYPE_IP ∧ (readUdpHeader (sendPage a bs)).ihl = 5 ∧
        (ntohs (ld16 (sendPage a bs) 16)).toNat = (argint a.len).toNat + 28 ∧
        (readUdpHeader (sendPage a bs)).ulen = (argint a.len).toNat + 8 ∧
        ld32 (sendPage a bs) 30 = htonl (UInt32.ofNat (argint a.dst % 2 ^ 32).toNat)) ∧
      netRx s buf (sendTotal (argint a.len)) = ipRx s buf (sendTotal (argint a.len)) ∧
      ipAccepts s buf ∧ rxQueue s buf = findPortQueue s (ushort (argint a.dport)) ∧
      udpNode (s.bytes buf) buf =
        { fullbuf := buf, payload := 42, payloadLen := argint a.len, srcIp := localIp,
          srcPort := ushort (argint a.sport), next := 0 } ∧
      (ushort (argint a.sport)).toNat = (argint a.sport).toNat ∧
      slice (s.bytes buf) 42 bs.length = bs ∧
      ((netRx s buf (sendTotal (argint a.len))).2.isSome ↔ (kalloc s).1 ≠ 0) ∧
      ((kalloc s).1 ≠ 0 →
        netRx s buf (sendTotal (argint a.len)) =
          (linkTail ((kalloc s).2.setPage (kalloc s).1 (.udpPkt (udpNode (s.bytes buf) buf)))
            (rxQueue s buf) (kalloc s).1, some (rxQueue s buf))) ∧
      ((kalloc s).1 = 0 →
        netRx s buf (sendTotal (argint a.len)) = (kfree (kalloc s).2 buf, none)) := by
  have h42 : ∀ i < 42, s.bytes buf i = sendPage a bs i := fun i hi => hframe i (by omega)
  have hhdr : readUdpHeader (s.bytes buf) = readUdpHeader (sendPage a bs) :=
    readUdpHeader_congr h42 (sendPage_vhl a bs)
  have htotal : sendTotal (argint a.len) = argint a.len + 42 := by
    obtain ⟨h₁, h₂⟩ := argint_range a.len
    rw [sendTotal_eq h₁ h₂, if_pos (by simp only [PGSIZE] at hlen; omega)]
  have hether : etherType s buf = ETHTYPE_IP := by
    simp only [etherType]
    rw [ld16_congr fun i _ _ => h42 i (by omega), sendPage_type, ntohs_htons]
  have hq : rxQueue s buf = findPortQueue s (ushort (argint a.dport)) := by
    simp only [rxQueue, hhdr, readUdpHeader_sendPage]
  have hacc : ipAccepts s buf :=
    ⟨by rw [hhdr, readUdpHeader_sendPage], by rw [hq]; exact hbound, by rw [hq]; exact hroom⟩
  have hdisp : netRx s buf (sendTotal (argint a.len)) = ipRx s buf (sendTotal (argint a.len)) := by
    rcases netRx_cases s buf (sendTotal (argint a.len)) with
      ⟨-, harp, -⟩ | ⟨-, -, -, h⟩ | ⟨-, hnot, -⟩
    · rw [hether] at harp
      exact absurd harp (by decide)
    · exact h
    · exact absurd ⟨by rw [htotal]; simp only [sizeofEth, sizeofIp]; omega, hether⟩ hnot
  have hpayload : slice (s.bytes buf) 42 bs.length = bs := by
    rw [slice_congr fun i _ hi => hframe i (by omega), sendPage_payload]
  refine ⟨⟨htotal, sendPage_headers a bs hlen⟩, hdisp, hacc, hq, udpNode_sendPage a bs buf h42 hlen,
    ushort_toNat_of_range hsport.1 hsport.2, hpayload, ?_, ?_, ?_⟩
  · rw [hdisp, ipRx_isSome_iff]
    exact and_iff_right hacc
  · intro hk0
    rw [hdisp]
    exact ipRx_linked _ hacc hk0
  · intro hk0
    rw [hdisp]
    exact ipRx_no_node _ hacc hk0

/-- `send(25000, 10.0.2.2, 2000, 0, 4)`, with the payload "ping". -/
def sendPing : SendArgs :=
  { sport := 25000, dst := 0x0A000202, dport := 2000, buf := 0, len := 4 }

/-- The bytes of "ping". -/
def pingBytes : List UInt8 := [0x70, 0x69, 0x6e, 0x67]

/-- Port 2000 bound with `free` left on the free list, and the frame of
`sendPing` in page 0x9000. -/
def pingArrived (free : List Addr) : NetState :=
  (run netStep (boot (0x8000 :: free) (fun _ => .raw (memsetPage 0)) (fun _ => 0))
    [.bind 2000]).1.setPage 0x9000 (.raw (sendPage sendPing pingBytes))

theorem sendFrame_roundTrip_ping :
    ((0 ≤ argint sendPing.len ∧ argint sendPing.len ≤ PGSIZE - 42) ∧
      pingBytes.length = (argint sendPing.len).toNat ∧
      (0 ≤ argint sendPing.sport ∧ argint sendPing.sport ≤ 0xFFFF) ∧
      findPortQueue (pingArrived [0xA000]) (ushort (argint sendPing.dport)) ≠ 0 ∧
      ((pingArrived [0xA000]).pq (findPortQueue (pingArrived [0xA000])
        (ushort (argint sendPing.dport)))).count < MAX_QUEUED_PER_PORT) ∧
      (netRx (pingArrived [0xA000]) 0x9000 (sendTotal (argint sendPing.len))).2.isSome =
        ((kalloc (pingArrived [0xA000])).1 ≠ 0) := by
  have hframe : ∀ i < pingBytes.length + 42,
      (pingArrived [0xA000]).bytes 0x9000 i = sendPage sendPing pingBytes i := by
    intro i _
    simp [pingArrived]
  have hpre : (0 ≤ argint sendPing.len ∧ argint sendPing.len ≤ PGSIZE - 42) ∧
      pingBytes.length = (argint sendPing.len).toNat ∧
      (0 ≤ argint sendPing.sport ∧ argint sendPing.sport ≤ 0xFFFF) ∧
      findPortQueue (pingArrived [0xA000]) (ushort (argint sendPing.dport)) ≠ 0 ∧
      ((pingArrived [0xA000]).pq (findPortQueue (pingArrived [0xA000])
        (ushort (argint sendPing.dport)))).count < MAX_QUEUED_PER_PORT := by
    decide +kernel
  obtain ⟨hlen, hbs, hsport, hbound, hroom⟩ := hpre
  refine ⟨⟨hlen, hbs, hsport, hbound, hroom⟩, ?_⟩
  have := (sendFrame_roundTrip _ _ _ _ hlen hbs hsport hframe hbound hroom).2.2.2.2.2.2.2.1
  simpa using this

/-- With the free list empty after `bind(2000)`, the same frame, to a bound
port with room, is freed by `ip_rx` and queued nowhere. -/
theorem sendFrame_dropped_without_page :
    findPortQueue (pingArrived []) (ushort (argint sendPing.dport)) ≠ 0 ∧
      ((pingArrived []).pq (findPortQueue (pingArrived [])
        (ushort (argint sendPing.dport)))).count < MAX_QUEUED_PER_PORT ∧
      (netRx (pingArrived []) 0x9000 (sendTotal (argint sendPing.len))).2 = none := by
  decide +kernel

/-- The kernel half of a process's page table at 0x1000 as `setupkvm` and
`kvmalloc` build it: PML4 entry 256 points to `kpdpt` at 0x2000, whose entry 0
maps the first gigabyte with `PTE_PS`.  No user page is mapped. -/
def kernelOnly : PhysMem :=
  writeBytes (writeBytes (fun _ => 0) (0x1000 + 8 * 256) (pteBytes 0x2003)) 0x2000 (pteBytes 0x83)

/-- The same memory with the byte at physical address 0 set to
`PTE_P | PTE_W | PTE_U`. -/
def kernelOnlyPoked : PhysMem :=
  writeBytes kernelOnly 0 [0x07]

/-- `send(2000, 10.0.2.2, 25603, KERNBASE, 1)`. -/
def sendKernel : SendArgs :=
  { sport := 2000, dst := 0x0A000202, dport := 25603, buf := 0xFFFF800000000000, len := 1 }

/-- Two machines that differ only in physical byte 0, which lies in no user
page and in no page-table page reachable from PML4 entries 0..255 (all of
them are empty): `send` with the kernel address `KERNBASE` fails in the first
and succeeds, reading physical byte 0, in the second. -/
theorem sysSend_reads_kernel_half :
    (∀ pa, pa ≠ 0 → kernelOnlyPoked pa = kernelOnly pa) ∧
      (∀ i < 256, readq kernelOnly (0x1000 + 8 * i) = 0 ∧
        readq kernelOnlyPoked (0x1000 + 8 * i) = 0) ∧
      (sysSend (boot [0x8000] (fun _ => .raw (memsetPage 0)) kernelOnly) 0x1000 sendKernel).2 = -1 ∧
      (sysSend (boot [0x8000] (fun _ => .raw (memsetPage 0)) kernelOnlyPoked) 0x1000
        sendKernel).2 = 0 := by
  refine ⟨fun pa hpa => ?_, by decide +kernel⟩
  simp only [kernelOnlyPoked, writeBytes, List.length_singleton]
  split_ifs with h
  · omega
  · rfl

end Net
end Xv6Net
