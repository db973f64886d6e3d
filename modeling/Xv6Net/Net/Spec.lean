import Xv6Net.Net.System

/-!
# What each function of `net.c` can do

One inversion lemma per function: the branches the code can take, each with
the guard that selects it and the result, written with the calls it makes.
Proofs about a caller case on the lemma of the callee and do not unfold it.

The node `ip_rx` fills for a frame is named `udpNode`, and the guard under
which it queues a frame `ipAccepts`; both are read off `ipRx`.
-/

namespace Xv6Net
namespace Net

open Lib E1000 Vm NetState

/-- `e1000_transmit` on the network state: the slot at TDT refuses, or takes
the buffer, freeing the one it held. -/
theorem transmit_cases (s : NetState) (buf : Addr) (len : Int) :
    ((s.tx.txRing (s.tx.tdt % TX_RING_SIZE)).status &&& E1000_TXD_STAT_DD = 0 ∧
        transmit s buf len = (s, -1)) ∨
      ((s.tx.txRing (s.tx.tdt % TX_RING_SIZE)).status &&& E1000_TXD_STAT_DD ≠ 0 ∧
        s.tx.txBufs (s.tx.tdt % TX_RING_SIZE) = 0 ∧
        transmit s buf len =
          ({ s with tx := s.tx.program (s.tx.tdt % TX_RING_SIZE) buf len }, 0)) ∨
      ((s.tx.txRing (s.tx.tdt % TX_RING_SIZE)).status &&& E1000_TXD_STAT_DD ≠ 0 ∧
        s.tx.txBufs (s.tx.tdt % TX_RING_SIZE) ≠ 0 ∧
        transmit s buf len =
          (kfree { s with tx := s.tx.program (s.tx.tdt % TX_RING_SIZE) buf len }
            (s.tx.txBufs (s.tx.tdt % TX_RING_SIZE)), 0)) := by
  by_cases hdd : (s.tx.txRing (s.tx.tdt % TX_RING_SIZE)).status &&& E1000_TXD_STAT_DD = 0
  · exact .inl ⟨hdd, by simp [transmit, e1000Transmit_fail hdd]⟩
  · by_cases hold : s.tx.txBufs (s.tx.tdt % TX_RING_SIZE) = 0
    · exact .inr (.inl ⟨hdd, hold, by simp [transmit, e1000Transmit_ok hdd, hold]⟩)
    · exact .inr (.inr ⟨hdd, hold, by simp [transmit, e1000Transmit_ok hdd, hold]⟩)

/-- `arp_rx`: a later request is freed; the first one is answered from a fresh
page, or `kalloc` fails and the kernel panics. -/
theorem arpRx_cases (s : NetState) (inbuf : Addr) :
    (s.seenArp = true ∧ arpRx s inbuf = kfree s inbuf) ∨
      (s.seenArp = false ∧ ∃ s1, kalloc { s with seenArp := true } = (0, s1) ∧
        arpRx s inbuf = { s1 with panicked := true }) ∨
      (s.seenArp = false ∧ ∃ buf s1, kalloc { s with seenArp := true } = (buf, s1) ∧ buf ≠ 0 ∧
        arpRx s inbuf =
          kfree (transmit (s1.setPage buf (.raw (arpReply (s1.bytes inbuf) (s1.bytes buf))))
            buf (sizeofEth + sizeofArp)).1 inbuf) := by
  cases hseen : s.seenArp
  · obtain ⟨buf, s1, hk⟩ : ∃ buf s1, kalloc { s with seenArp := true } = (buf, s1) :=
      ⟨_, _, rfl⟩
    by_cases hb : buf = 0
    · subst hb
      exact .inr (.inl ⟨rfl, s1, hk, by simp [arpRx, hseen, hk]⟩)
    · exact .inr (.inr ⟨rfl, buf, s1, hk, hb, by simp [arpRx, hseen, hk, hb]⟩)
  · exact .inl ⟨rfl, by simp [arpRx, hseen]⟩

/-- The node `ip_rx` fills for the frame at `buf`, with bytes `b`. -/
def udpNode (b : Bytes) (buf : Addr) : UdpPkt where
  fullbuf := buf
  payload := sizeofEth + (readUdpHeader b).ihl * 4 + sizeofUdp
  payloadLen := ((readUdpHeader b).ulen : Int) - sizeofUdp
  srcIp := (readUdpHeader b).srcIp
  srcPort := (readUdpHeader b).sport
  next := 0

/-- The record `ip_rx` looks up for the frame at `buf`. -/
def rxQueue (s : NetState) (buf : Addr) : Addr :=
  findPortQueue s (readUdpHeader (s.bytes buf)).dport

/-- The checks `ip_rx` makes before it allocates a node: a UDP datagram, to a
bound port, whose queue has room. -/
def ipAccepts (s : NetState) (buf : Addr) : Prop :=
  (readUdpHeader (s.bytes buf)).ipP = IPPROTO_UDP ∧ rxQueue s buf ≠ 0 ∧
    (s.pq (rxQueue s buf)).count < MAX_QUEUED_PER_PORT

/-- `ip_rx`: the frame is freed when a check fails or `kalloc` fails, and
queued behind a fresh node otherwise. -/
theorem ipRx_cases (s : NetState) (buf : Addr) (len : Int) :
    (¬ ipAccepts s buf ∧ ipRx s buf len = (kfree s buf, none)) ∨
      (ipAccepts s buf ∧ ∃ s1, kalloc s = (0, s1) ∧ ipRx s buf len = (kfree s1 buf, none)) ∨
      (ipAccepts s buf ∧ ∃ pkt s1, kalloc s = (pkt, s1) ∧ pkt ≠ 0 ∧
        ipRx s buf len =
          (linkTail (s1.setPage pkt (.udpPkt (udpNode (s.bytes buf) buf))) (rxQueue s buf) pkt,
            some (rxQueue s buf))) := by
  by_cases hacc : ipAccepts s buf
  · obtain ⟨hp, hq, hc⟩ := hacc
    have hc' : ¬ (s.pq (rxQueue s buf)).count ≥ MAX_QUEUED_PER_PORT := by omega
    obtain ⟨pkt, s1, hk⟩ : ∃ pkt s1, kalloc s = (pkt, s1) := ⟨_, _, rfl⟩
    by_cases hpkt : pkt = 0
    · subst hpkt
      refine .inr (.inl ⟨⟨hp, hq, hc⟩, s1, hk, ?_⟩)
      simp only [rxQueue] at hq hc'
      simp [ipRx, hp, hq, hc', hk]
    · refine .inr (.inr ⟨⟨hp, hq, hc⟩, pkt, s1, hk, hpkt, ?_⟩)
      simp only [rxQueue] at hq hc' ⊢
      simp [ipRx, hp, hq, hc', hk, hpkt, udpNode]
  · refine .inl ⟨hacc, ?_⟩
    simp only [ipAccepts, rxQueue, not_and_or] at hacc
    simp only [ipRx]
    rcases hacc with hp | hq | hc
    · simp [hp]
    · simp [not_not.mp hq]
    · split_ifs <;> first | rfl | omega

/-- A frame that fails the checks of `ip_rx` is freed before any `kalloc`. -/
theorem ipRx_refused {s : NetState} {buf : Addr} (len : Int) (hn : ¬ ipAccepts s buf) :
    ipRx s buf len = (kfree s buf, none) := by
  rcases ipRx_cases s buf len with ⟨-, h⟩ | ⟨ha, -⟩ | ⟨ha, -⟩
  · exact h
  · exact absurd ha hn
  · exact absurd ha hn

/-- A frame that passes the checks is freed when `kalloc` gives no node. -/
theorem ipRx_no_node {s : NetState} {buf : Addr} (len : Int) (ha : ipAccepts s buf)
    (hk : (kalloc s).1 = 0) : ipRx s buf len = (kfree (kalloc s).2 buf, none) := by
  rcases ipRx_cases s buf len with ⟨hn, -⟩ | ⟨-, s1, hk', h⟩ | ⟨-, pkt, s1, hk', hpkt, -⟩
  · exact absurd ha hn
  · rw [h, hk']
  · rw [hk'] at hk
    exact absurd hk hpkt

/-- A frame that passes the checks is linked behind the node `kalloc` gives. -/
theorem ipRx_linked {s : NetState} {buf : Addr} (len : Int) (ha : ipAccepts s buf)
    (hk : (kalloc s).1 ≠ 0) :
    ipRx s buf len =
      (linkTail ((kalloc s).2.setPage (kalloc s).1 (.udpPkt (udpNode (s.bytes buf) buf)))
        (rxQueue s buf) (kalloc s).1, some (rxQueue s buf)) := by
  rcases ipRx_cases s buf len with ⟨hn, -⟩ | ⟨-, s1, hk', -⟩ | ⟨-, pkt, s1, hk', -, h⟩
  · exact absurd ha hn
  · rw [hk'] at hk
    exact absurd rfl hk
  · rw [h, hk']

/-- `ip_rx` wakes a queue exactly when the checks pass and `kalloc` gives a node. -/
theorem ipRx_isSome_iff (s : NetState) (buf : Addr) (len : Int) :
    (ipRx s buf len).2.isSome ↔ ipAccepts s buf ∧ (kalloc s).1 ≠ 0 := by
  by_cases ha : ipAccepts s buf
  · by_cases hk : (kalloc s).1 = 0
    · simp [ipRx_no_node len ha hk, hk]
    · simp [ipRx_linked len ha hk, ha, hk]
  · simp [ipRx_refused len ha, ha]

/-- The EtherType field of the frame at `buf`. -/
def etherType (s : NetState) (buf : Addr) : UInt16 :=
  ntohs (ld16 (s.bytes buf) 12)

/-- `net_rx`: ARP requests go to `arp_rx`, IPv4 frames to `ip_rx`, the rest
is freed. -/
theorem netRx_cases (s : NetState) (buf : Addr) (len : Int) :
    (len ≥ sizeofEth + sizeofArp ∧ etherType s buf = ETHTYPE_ARP ∧
        netRx s buf len = (arpRx s buf, none)) ∨
      (¬ (len ≥ sizeofEth + sizeofArp ∧ etherType s buf = ETHTYPE_ARP) ∧
        len ≥ sizeofEth + sizeofIp ∧ etherType s buf = ETHTYPE_IP ∧
        netRx s buf len = ipRx s buf len) ∨
      (¬ (len ≥ sizeofEth + sizeofArp ∧ etherType s buf = ETHTYPE_ARP) ∧
        ¬ (len ≥ sizeofEth + sizeofIp ∧ etherType s buf = ETHTYPE_IP) ∧
        netRx s buf len = (kfree s buf, none)) := by
  by_cases harp : len ≥ sizeofEth + sizeofArp ∧ etherType s buf = ETHTYPE_ARP
  · refine .inl ⟨harp.1, harp.2, ?_⟩
    simp only [etherType] at harp
    simp only [netRx, if_pos harp]
  · by_cases hip : len ≥ sizeofEth + sizeofIp ∧ etherType s buf = ETHTYPE_IP
    · refine .inr (.inl ⟨harp, hip.1, hip.2, ?_⟩)
      simp only [etherType] at harp hip
      simp only [netRx, if_neg harp, if_pos hip]
    · refine .inr (.inr ⟨harp, hip, ?_⟩)
      simp only [etherType] at harp hip
      simp only [netRx, if_neg harp, if_neg hip]

/-- The page `e1000_recv` hands to `net_rx`: the frame copied into `dst`. -/
def rxPage (s : NetState) (dst : Addr) (frame : List UInt8) : NetState :=
  s.setPage dst (.raw (memmove (s.bytes dst) (fun i => frame.getD i 0) frame.length))

/-- The delivery of a frame: dropped for a bad length or a failed `kalloc`,
otherwise copied into a fresh page and dispatched. -/
theorem deliver_cases (s : NetState) (frame : List UInt8) :
    (¬ (0 < frame.length ∧ frame.length ≤ PGSIZE) ∧ deliver s frame = (s, none)) ∨
      (0 < frame.length ∧ frame.length ≤ PGSIZE ∧ ∃ s1, kalloc s = (0, s1) ∧
        deliver s frame = (s1, none)) ∨
      (0 < frame.length ∧ frame.length ≤ PGSIZE ∧ ∃ dst s1, kalloc s = (dst, s1) ∧ dst ≠ 0 ∧
        deliver s frame = netRx (rxPage s1 dst frame) dst frame.length) := by
  by_cases hlen : 0 < frame.length ∧ frame.length ≤ PGSIZE
  · obtain ⟨dst, s1, hk⟩ : ∃ dst s1, kalloc s = (dst, s1) := ⟨_, _, rfl⟩
    by_cases hdst : dst = 0
    · subst hdst
      exact .inr (.inl ⟨hlen.1, hlen.2, s1, hk, by simp [deliver, hlen, hk]⟩)
    · exact .inr (.inr ⟨hlen.1, hlen.2, dst, s1, hk, hdst, by
        simp [deliver, hlen, hk, hdst, rxPage]⟩)
  · exact .inl ⟨hlen, by simp [deliver, hlen]⟩

/-- The record `sys_bind` links for `port`. -/
def newQueue (port : Int) (next : Addr) : PortQueue :=
  { port := ushort port, head := 0, tail := 0, count := 0, next := next }

/-- `sys_bind`: refused for a port out of range or already bound, failed for
`kalloc`, or a fresh record at the front of `port_list`. -/
theorem sysBind_cases (s : NetState) (arg0 : UInt64) :
    ((argint arg0 < 0 ∨ argint arg0 > 0xFFFF ∨ findPortQueue s (ushort (argint arg0)) ≠ 0) ∧
        sysBind s arg0 = (s, -1)) ∨
      (∃ s1, kalloc s = (0, s1) ∧ sysBind s arg0 = (s1, -1)) ∨
      (¬ (argint arg0 < 0 ∨ argint arg0 > 0xFFFF) ∧ findPortQueue s (ushort (argint arg0)) = 0 ∧
        ∃ pq s1, kalloc s = (pq, s1) ∧ pq ≠ 0 ∧
        sysBind s arg0 =
          ({ s1.setPage pq (.portQueue (newQueue (argint arg0) s.portList)) with portList := pq },
            0)) := by
  by_cases hrange : argint arg0 < 0 ∨ argint arg0 > 0xFFFF
  · exact .inl ⟨.elim hrange .inl (.inr ∘ .inl), by simp [sysBind, hrange]⟩
  · by_cases hbound : findPortQueue s (ushort (argint arg0)) ≠ 0
    · exact .inl ⟨.inr (.inr hbound), by simp [sysBind, hrange, hbound]⟩
    · obtain ⟨pq, s1, hk⟩ : ∃ pq s1, kalloc s = (pq, s1) := ⟨_, _, rfl⟩
      by_cases hpq : pq = 0
      · subst hpq
        exact .inr (.inl ⟨s1, hk, by simp [sysBind, hrange, hbound, hk]⟩)
      · exact .inr (.inr ⟨hrange, not_not.mp hbound, pq, s1, hk, hpq, by
          simp [sysBind, hrange, hbound, hk, hpq, newQueue]⟩)

/-- `sys_recv` run to completion: `-1` for an unbound port, a sleep on an empty
queue, or the pop followed by the copy-out. -/
theorem sysRecv_cases (s : NetState) (pgdir : Nat) (a : RecvArgs) :
    (findPortQueue s (ushort (argint a.dport)) = 0 ∧ sysRecv s pgdir a = some (s, -1)) ∨
      (findPortQueue s (ushort (argint a.dport)) ≠ 0 ∧
        (s.pq (findPortQueue s (ushort (argint a.dport)))).count = 0 ∧ sysRecv s pgdir a = none) ∨
      (findPortQueue s (ushort (argint a.dport)) ≠ 0 ∧
        (s.pq (findPortQueue s (ushort (argint a.dport)))).count ≠ 0 ∧
        sysRecv s pgdir a =
          some (recvCopy (dequeue s (findPortQueue s (ushort (argint a.dport)))).1 pgdir
            (argaddr a.src) (argaddr a.sport) (argaddr a.buf) (argint a.maxlen)
            (s.pq (findPortQueue s (ushort (argint a.dport)))).head)) := by
  by_cases hpq : findPortQueue s (ushort (argint a.dport)) = 0
  · exact .inl ⟨hpq, by simp [sysRecv, hpq]⟩
  · by_cases hc : (s.pq (findPortQueue s (ushort (argint a.dport)))).count = 0
    · exact .inr (.inl ⟨hpq, hc, by simp [sysRecv, hpq, hc]⟩)
    · exact .inr (.inr ⟨hpq, hc, by simp [sysRecv, hpq, hc, dequeue]⟩)

/-- The page `sys_send` fills: the headers, then the bytes `copyin_user`
wrote at offset 42. -/
def sendPage (a : SendArgs) (payload : List UInt8) : Bytes :=
  stBytes (udpHeaders (argint a.sport) (argint a.dst) (argint a.dport) (argint a.len))
    (sizeofEth + sizeofIp + sizeofUdp) payload

theorem kalloc_phys {s s1 : NetState} {a : Addr} (hk : kalloc s = (a, s1)) : s1.phys = s.phys := by
  rcases kalloc_cases s with ⟨-, h⟩ | ⟨_, _, -, h⟩ <;>
    · rw [hk] at h
      cases h
      rfl

/-- `sys_send`: refused by the length guard, failed for `kalloc`, failed for
`copyin_user` or for `e1000_transmit` (the page is freed), or handed to the
ring. -/
theorem sysSend_cases (s : NetState) (pgdir : Nat) (a : SendArgs) :
    (sendTotal (argint a.len) > PGSIZE ∧ sysSend s pgdir a = (s, -1)) ∨
      (¬ sendTotal (argint a.len) > PGSIZE ∧ ∃ s1, kalloc s = (0, s1) ∧
        sysSend s pgdir a = (s1, -1)) ∨
      (¬ sendTotal (argint a.len) > PGSIZE ∧ ∃ buf s1, kalloc s = (buf, s1) ∧ buf ≠ 0 ∧
        ∃ bs r, copyinUser s.phys pgdir (argaddr a.buf) (toUInt64 (argint a.len)) = (bs, r) ∧
        ((r < 0 ∧ sysSend s pgdir a = (kfree (s1.setPage buf (.raw (sendPage a bs))) buf, -1)) ∨
          (¬ r < 0 ∧ ∃ s3 t,
            transmit (s1.setPage buf (.raw (sendPage a bs))) buf (sendTotal (argint a.len)) =
              (s3, t) ∧
            ((t < 0 ∧ sysSend s pgdir a = (kfree s3 buf, -1)) ∨
              (¬ t < 0 ∧ sysSend s pgdir a = (s3, 0)))))) := by
  by_cases hg : sendTotal (argint a.len) > PGSIZE
  · exact .inl ⟨hg, by simp [sysSend, hg]⟩
  · obtain ⟨buf, s1, hk⟩ : ∃ buf s1, kalloc s = (buf, s1) := ⟨_, _, rfl⟩
    by_cases hb : buf = 0
    · subst hb
      exact .inr (.inl ⟨hg, s1, hk, by simp [sysSend, hg, hk]⟩)
    · have hphys := kalloc_phys hk
      obtain ⟨bs, r, hc⟩ : ∃ bs r,
          copyinUser s.phys pgdir (argaddr a.buf) (toUInt64 (argint a.len)) = (bs, r) :=
        ⟨_, _, (Prod.mk.eta).symm⟩
      refine .inr (.inr ⟨hg, buf, s1, hk, hb, bs, r, hc, ?_⟩)
      simp only [sysSend, hk, hphys, hc]
      by_cases hr : r < 0
      · exact .inl ⟨hr, by simp [hg, hb, hr, sendPage]⟩
      · obtain ⟨s3, t, ht⟩ : ∃ s3 t, transmit (s1.setPage buf (.raw (sendPage a bs))) buf
            (sendTotal (argint a.len)) = (s3, t) := ⟨_, _, rfl⟩
        refine .inr ⟨hr, s3, t, ht, ?_⟩
        simp only [sendPage] at ht
        simp only [hg, hb, hr, if_false, ht]
        by_cases htx : t < 0
        · exact .inl ⟨htx, by simp only [htx, if_true]⟩
        · exact .inr ⟨htx, by simp only [htx, if_false]⟩

/-- The clamp of `sys_recv`: `min(payload_len, maxlen, 1500)`, and `0` when
that is negative. -/
theorem tocpy_eq (payloadLen maxlen : Int) :
    tocpy payloadLen maxlen = max 0 (min (min payloadLen maxlen) 1500) := by
  simp only [tocpy]
  split_ifs <;> omega

/-- What `sys_recv` returns after the pop: `-1` when a copy fails, otherwise
the clamp, with the source address, the source port and the first `clamp`
payload bytes copied out in this order. -/
theorem recvCopy_result (s : NetState) (pgdir srcU sportU bufU : Nat) (maxlen : Int) (pkt : Addr) :
    (recvCopy s pgdir srcU sportU bufU maxlen pkt).2 = -1 ∨
      ((recvCopy s pgdir srcU sportU bufU maxlen pkt).2 = tocpy (s.pkt pkt).payloadLen maxlen ∧
        (recvCopy s pgdir srcU sportU bufU maxlen pkt).1.phys =
          (copyout (copyout (copyout s.phys pgdir srcU (bytes32 (s.pkt pkt).srcIp)).1 pgdir sportU
            (bytes16 (s.pkt pkt).srcPort)).1 pgdir bufU
            (slice (s.bytes (s.pkt pkt).fullbuf) (s.pkt pkt).payload
              (tocpy (s.pkt pkt).payloadLen maxlen).toNat)).1) := by
  simp only [recvCopy]
  split_ifs with h1 h2 hn h3
  · exact .inl rfl
  · exact .inl rfl
  · exact .inl rfl
  · exact .inr ⟨rfl, by simp only [kfree_phys]⟩
  · have h0 : tocpy (s.pkt pkt).payloadLen maxlen = 0 := by
      rw [tocpy_eq] at hn ⊢
      omega
    refine .inr ⟨rfl, ?_⟩
    rw [h0]
    simp [slice, copyout]

end Net
end Xv6Net
