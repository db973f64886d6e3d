import Xv6Net.Net.Spec

/-!
# What the receive path accepts

`ip_rx` checks the protocol, the port and the room in the queue, and nothing
else: `ihl`, `ulen` and the frame length `len` are not compared with one
another.  A frame is queued exactly when `ipAccepts` holds and `kalloc`
succeeds, and freed otherwise (`ipRx_queues_unchecked`); the node records
`ulen - 8` as the payload length, negative for `ulen < 8`, and a payload
offset of at most 82, so what `sys_recv` later copies lies in the page of the
frame but not necessarily among the `len` bytes received.

**`arp_rx`.** The reply is built from two fields of the frame only, the Ethernet
source and the sender IP; the operation, the target IP, the hardware and
protocol types and the sender hardware address are never read.

**The port argument of `sys_bind` and `sys_recv`.** `sys_bind` refuses a port
outside 0..0xFFFF before it narrows it to `ushort`; `sys_recv` narrows without
the check, so `recv(d)` and `recv(d + 65536)` read the same queue.
-/

namespace Xv6Net
namespace Net

open Lib E1000 Vm NetState

/-- The header length `ip_rx` reads is a 4-bit field. -/
theorem ihl_le (b : Bytes) : (readUdpHeader b).ihl ≤ 15 := by
  simp only [readUdpHeader, UInt8.toNat_and]
  exact Nat.and_le_right

/-- The payload of a node starts after the Ethernet header, `4 * ihl` bytes of
IP header and the UDP header, at byte 82 at the latest. -/
theorem udpNode_payload (b : Bytes) (buf : Addr) :
    (udpNode b buf).payload = 14 + 4 * (readUdpHeader b).ihl + 8 ∧ (udpNode b buf).payload ≤ 82 := by
  have := ihl_le b
  simp only [udpNode, sizeofEth, sizeofUdp]
  omega

/-- The payload of a node and the 1500 bytes `sys_recv` may copy from it lie
in the page of the frame. -/
theorem udpNode_payload_le (b : Bytes) (buf : Addr) :
    (udpNode b buf).payload + 1500 ≤ PGSIZE := by
  have := (udpNode_payload b buf).2
  simp only [PGSIZE]
  omega

/-- The payload length of a node is `ulen - 8`, at least `-8`. -/
theorem udpNode_payloadLen (b : Bytes) (buf : Addr) :
    (udpNode b buf).payloadLen = ((readUdpHeader b).ulen : Int) - 8 ∧
      -8 ≤ (udpNode b buf).payloadLen := by
  simp only [udpNode, sizeofUdp]
  omega

/-- A 34-byte IPv4 frame from 10.0.2.2: the Ethernet header and an IP header
with `ihl = 5` and protocol UDP.  The UDP header would start at byte 34, past
the end of the frame, where the page holds zeros. -/
def shortUdpFrame : List UInt8 :=
  [0x52, 0x54, 0x00, 0x12, 0x34, 0x56, 0x52, 0x55, 0x0a, 0x00, 0x02, 0x02, 0x08, 0x00,
    0x45, 0, 0, 20, 0, 0, 0, 0, 100, 17, 0, 0, 10, 0, 2, 2, 10, 0, 2, 15]

/-- Boot with three free pages, zeroed, and no user memory. -/
def bootThree : NetState :=
  boot [0x8000, 0x9000, 0xA000] (fun _ => .raw (memsetPage 0)) (fun _ => 0)

/-- The reply of `arp_rx` reads bytes 6..11 and 28..31 of the frame and no
other. -/
theorem arpReply_reads {inb inb' : Bytes} (old : Bytes)
    (hsrc : ∀ i, 6 ≤ i → i < 12 → inb i = inb' i) (hsip : ∀ i, 28 ≤ i → i < 32 → inb i = inb' i) :
    arpReply inb old = arpReply inb' old := by
  have hs : slice inb 6 6 = slice inb' 6 6 := by
    simp only [slice, List.map_inj_left, List.mem_range]
    intro i hi
    exact hsrc _ (by omega) (by omega)
  have hl : ld32 inb 28 = ld32 inb' 28 := by
    simp only [ld32]
    rw [hsip 28 (by omega) (by omega), hsip 29 (by omega) (by omega),
      hsip 30 (by omega) (by omega), hsip 31 (by omega) (by omega)]
  simp only [arpReply, hs, hl]

/-- An ARP reply (operation 2) from 10.0.2.2 to another host, 10.0.2.99,
whose sender hardware address 52:55:0a:00:02:03 differs from its Ethernet
source 52:55:0a:00:02:02. -/
def arpReplyToOther : List UInt8 :=
  [0x52, 0x54, 0x00, 0x12, 0x34, 0x56, 0x52, 0x55, 0x0a, 0x00, 0x02, 0x02, 0x08, 0x06,
    0, 1, 8, 0, 6, 4, 0, 2, 0x52, 0x55, 0x0a, 0x00, 0x02, 0x03, 10, 0, 2, 2,
    0x52, 0x54, 0x00, 0x12, 0x34, 0x57, 10, 0, 2, 99]

/-- The first ARP frame is answered whatever it is: for the reply to 10.0.2.99
above, `arp_rx` puts a 42-byte reply in the transmit ring and the NIC sends
it; the reply's target hardware address is the Ethernet source, not the
sender hardware address of the frame. -/
theorem arpRx_answers_any_frame :
    (run netStep bootThree [.frame arpReplyToOther, .nic]).2 = [.sent 0x9000 42] ∧
      slice ((run netStep bootThree [.frame arpReplyToOther, .nic]).1.bytes 0x9000) 32 6 =
        [0x52, 0x55, 0x0a, 0x00, 0x02, 0x02] ∧
      ∀ inb inb' old : Bytes, (∀ i, 6 ≤ i → i < 12 → inb i = inb' i) →
        (∀ i, 28 ≤ i → i < 32 → inb i = inb' i) → arpReply inb old = arpReply inb' old := by
  refine ⟨by decide +kernel, by decide +kernel, ?_⟩
  intro _ _ old hsrc hsip
  exact arpReply_reads old hsrc hsip

/-- `sys_bind` returns 0 exactly for a port in range, not yet bound, when
`kalloc` gives a page. -/
theorem sysBind_ok_iff (s : NetState) (arg0 : UInt64) :
    (sysBind s arg0).2 = 0 ↔
      (0 ≤ argint arg0 ∧ argint arg0 ≤ 0xFFFF) ∧ findPortQueue s (ushort (argint arg0)) = 0 ∧
        (kalloc s).1 ≠ 0 := by
  rcases sysBind_cases s arg0 with ⟨hbad, h⟩ | ⟨s1, hk, h⟩ | ⟨hrange, hfree, pq, s1, hk, hpq, h⟩
  · rw [h]
    constructor
    · intro h'
      simp at h'
    · rintro ⟨hr, hf, -⟩
      rcases hbad with hbad | hbad | hbad
      · omega
      · omega
      · exact absurd hf hbad
  · simp [h, hk]
  · simp only [h, hk, true_iff]
    exact ⟨by omega, hfree, hpq⟩

/-- The lookup of `sys_recv` sees the port only modulo 65536. -/
theorem ushort_add_65536 (d : Int) : ushort (d + 65536) = ushort d := by
  simp only [ushort, toUShort]
  congr 1
  omega

/-- `recv` on two port arguments with the same `ushort` does the same. -/
theorem sysRecv_port_alias (s : NetState) (pgdir : Nat) (a : RecvArgs) {d : UInt64}
    (hd : ushort (argint d) = ushort (argint a.dport)) :
    sysRecv s pgdir { a with dport := d } = sysRecv s pgdir a := by
  simp only [sysRecv, hd]

/-- `recv(67536)` does in every state what `recv(2000)` does. -/
theorem sysRecv_67536 (s : NetState) (pgdir : Nat) (a : RecvArgs) :
    sysRecv s pgdir { a with dport := 67536 } = sysRecv s pgdir { a with dport := 2000 } := by
  have h : argint 67536 = argint 2000 + 65536 := by decide
  exact sysRecv_port_alias s pgdir { a with dport := 2000 } (by rw [h, ushort_add_65536])

/-- `bind(67536)` is refused in every state. -/
theorem sysBind_67536 (s : NetState) : (sysBind s 67536).2 ≠ 0 := by
  have h : ¬ argint 67536 ≤ 0xFFFF := by decide
  intro hok
  exact h ((sysBind_ok_iff s 67536).mp hok).1.2

/-- A UDP datagram from 10.0.2.2:25000 to port 2000 with the payload "ping". -/
def udpPing : List UInt8 :=
  [0x52, 0x54, 0x00, 0x12, 0x34, 0x56, 0x52, 0x55, 0x0a, 0x00, 0x02, 0x02, 0x08, 0x00,
    0x45, 0, 0, 32, 0, 0, 0, 0, 100, 17, 0, 0, 10, 0, 2, 2, 10, 0, 2, 15,
    0x61, 0xA8, 0x07, 0xD0, 0, 12, 0, 0, 0x70, 0x69, 0x6e, 0x67]

/-- `recv(67536, 0, 0, 0, 0)`: the port argument is 2000 + 65536. -/
def recvAlias : RecvArgs :=
  { dport := 67536, src := 0, sport := 0, buf := 0, maxlen := 0 }

/-- `bind(2000)` succeeds and `bind(67536)` is refused, yet `recv(67536)` takes
the datagram queued on port 2000 off its queue (and then fails on the unmapped
address 0). -/
theorem sysRecv_takes_unbound_port :
    (sysBind (run netStep bootThree [.bind 2000]).1 67536).2 = -1 ∧
      (run netStep bootThree [.bind 2000, .frame udpPing, .recv 0 recvAlias]).2 =
        [.returned 0,
          .accepted 2000 ⟨0x0A000202, 25000, 4, [0x70, 0x69, 0x6e, 0x67] ++ List.replicate 1496 0⟩,
          .dequeued 2000 ⟨0x0A000202, 25000, 4, [0x70, 0x69, 0x6e, 0x67] ++ List.replicate 1496 0⟩,
          .returned (-1)] ∧
      (∀ s : NetState, (sysBind s 67536).2 ≠ 0) ∧
      ∀ (s : NetState) (pgdir : Nat) (a : RecvArgs),
        sysRecv s pgdir { a with dport := 67536 } = sysRecv s pgdir { a with dport := 2000 } := by
  exact ⟨by decide +kernel, by decide +kernel, sysBind_67536, sysRecv_67536⟩

end Net
end Xv6Net
