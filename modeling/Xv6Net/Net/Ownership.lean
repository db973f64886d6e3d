import Xv6Net.Net.StoreOps

/-!
# Every entry point of `net.c` keeps the store invariant

For each function that runs on a frame, a system call or the NIC, `StoreRep`
before the call gives `StoreRep` after it.  The pages the caller handed in
(`held`) are accounted for: a frame given to `net_rx` is freed, queued, or (on
two paths) dropped without being freed; everything the call allocates is
freed, queued or given to the transmit ring before it returns.

Dropping a page is allowed by the invariant (`StoreRep.forget`): it says that
no page has two owners, not that every page has one.  `arp_rx` drops its reply
page when the transmit ring is full, and the frame it was handed when it
panics.

**A reply page that no owner holds.** Sixteen calls of `send` with an empty
payload fill the transmit ring while the NIC is idle (the ring of
`e1000_transmit` keeps no slot free), and the first ARP request after them makes
`arp_rx` allocate its reply page, which `e1000_transmit` refuses; `arp_rx` does
not look at the result.

**Results.**
* `transmit_rep`: `e1000_transmit` either refuses and changes nothing, or
  takes the buffer into the ring and frees the one it replaces.
* `arpRx_rep`, `ipRx_rep`, `netRx_rep`, `deliver_rep`: the receive path.
* `sysBind_rep`, `sysRecv_rep`, `sysSend_rep`: the system calls.
-/

namespace Xv6Net
namespace Net

open Lib E1000 Vm NetState

/-- Replacing one value of a family, at an index that occurs once. -/
theorem map_update_perm {α β : Type} [DecidableEq α] [DecidableEq β] {l : List α}
    (hl : l.Nodup) {a : α} (ha : a ∈ l) (f : α → β) (b : β) :
    List.Perm (l.map (Function.update f a b) ++ [f a]) (l.map f ++ [b]) := by
  have h := flatMap_update_perm hl ha (fun x => [f x]) [b]
  have hu : Function.update (fun x => [f x]) a [b] = fun x => [Function.update f a b x] := by
    funext x
    by_cases hx : x = a
    · subst hx
      simp
    · simp [Function.update_of_ne hx]
  rwa [hu, ← List.map_eq_flatMap, ← List.map_eq_flatMap] at h

theorem storePages_mem_eq {s s' : NetState} {pqs : List Addr} {nodes : Addr → List Addr}
    (hm : s'.mem = s.mem) : storePages s' pqs nodes = storePages s pqs nodes := by
  simp [storePages, pkt_congr hm]

/-- Programming slot `t` puts `buf` in the ring and takes out the buffer the
slot held, if any. -/
theorem txPages_program (tx : TxState) {t : Nat} (ht : t < TX_RING_SIZE) {buf : Addr}
    (hbuf : buf ≠ 0) (len : Int) :
    List.Perm (txPages (tx.program t buf len) ++ [tx.txBufs t].filter (· ≠ 0))
      (txPages tx ++ [buf]) := by
  have h := (map_update_perm List.nodup_range (List.mem_range.mpr ht) tx.txBufs buf).filter
    (fun x => decide (x ≠ 0))
  simpa [txPages, TxState.program, List.filter_append, hbuf] using h

namespace StoreRep

variable {s : NetState} {pqs : List Addr} {nodes : Addr → List Addr} {held : List Addr}

/-- A change of the fields the store does not read. -/
theorem of_state_eq (h : StoreRep s pqs nodes held) {s' : NetState} (hm : s'.mem = s.mem)
    (hpl : s'.portList = s.portList) (hfl : s'.freelist = s.freelist)
    (htx : txPages s'.tx = txPages s.tx) : StoreRep s' pqs nodes held :=
  h.of_mem_eq hm hpl (by rw [owned, owned, storePages_mem_eq hm, hfl, htx])

/-- `e1000_transmit` refuses a busy slot and changes nothing, or moves the
buffer into the ring and frees the buffer the slot held. -/
theorem transmit_rep (h : StoreRep s pqs nodes held) {buf : Addr} (hbuf : buf ∈ held)
    (len : Int) :
    transmit s buf len = (s, -1) ∨
      ((transmit s buf len).2 = 0 ∧
        StoreRep (transmit s buf len).1 pqs nodes (held.erase buf)) := by
  by_cases hdd : (s.tx.txRing (s.tx.tdt % TX_RING_SIZE)).status &&& E1000_TXD_STAT_DD = 0
  · left
    simp [transmit, e1000Transmit_fail hdd]
  · right
    set t := s.tx.tdt % TX_RING_SIZE with ht
    have htlt : t < TX_RING_SIZE := Nat.mod_lt _ (by decide)
    have hswap : StoreRep { s with tx := s.tx.program t buf len } pqs nodes
        ([s.tx.txBufs t].filter (· ≠ 0) ++ held.erase buf) := by
      have h1 := txPages_program s.tx htlt (h.ne_zero_of_held hbuf) len
      have h2 := List.perm_cons_erase hbuf
      refine h.of_mem_eq rfl rfl ?_
      rw [List.perm_iff_count]
      intro e
      have c1 := h1.count_eq e
      have c2 := h2.count_eq e
      simp only [owned, @storePages_mem_eq s { s with tx := s.tx.program t buf len } pqs nodes rfl,
        List.count_append, List.count_cons, List.count_nil] at c1 c2 ⊢
      omega
    by_cases hold : s.tx.txBufs t = 0
    · have heq : transmit s buf len = ({ s with tx := s.tx.program t buf len }, 0) := by
        simp [transmit, e1000Transmit_ok hdd, ← ht, hold]
      rw [heq]
      exact ⟨rfl, by simpa [hold] using hswap⟩
    · have heq : transmit s buf len = (kfree { s with tx := s.tx.program t buf len } (s.tx.txBufs t), 0) := by
        simp [transmit, e1000Transmit_ok hdd, ← ht, hold]
      rw [heq]
      have := hswap.kfree_held (v := s.tx.txBufs t) (by simp [hold])
      exact ⟨rfl, by simpa [hold] using this⟩

/-- `arp_rx` frees the request it was handed, except when it panics.  The
reply page goes to the transmit ring, or is dropped when the ring refuses
it. -/
theorem arpRx_rep (h : StoreRep s pqs nodes held) {inbuf : Addr} (hin : inbuf ∈ held) :
    StoreRep (arpRx s inbuf) pqs nodes (held.erase inbuf) := by
  unfold arpRx
  by_cases hseen : s.seenArp
  · simpa [hseen] using h.kfree_held hin
  · simp only [hseen, Bool.false_eq_true, if_false]
    have h0 : StoreRep { s with seenArp := true } pqs nodes held := h.of_state_eq rfl rfl rfl rfl
    rcases hk : kalloc { s with seenArp := true } with ⟨buf, s1⟩
    by_cases hb : buf = 0
    · simp only [hb, if_true]
      have hs1 := kalloc_eq_zero hk hb h0
      subst hs1
      exact (h0.forget inbuf).of_state_eq rfl rfl rfl rfl
    · simp only [hb, if_false]
      have h1 := (h0.kalloc_ok hk hb).setPage_held (List.mem_cons_self ..)
        (.raw (arpReply (s1.bytes inbuf) (s1.bytes buf)))
      rcases h1.transmit_rep (List.mem_cons_self ..) (sizeofEth + sizeofArp) with hfail | ⟨-, hok⟩
      · rw [hfail]
        have h2 := h1.forget buf
        rw [List.erase_cons_head] at h2
        exact h2.kfree_held hin
      · rw [List.erase_cons_head] at hok
        exact hok.kfree_held hin

end StoreRep

/-- The ghost queues after a delivery that woke `woken`: the new tail of the
woken queue joins it. -/
def enqueued (s : NetState) (nodes : Addr → List Addr) : Option Addr → Addr → List Addr
  | none => nodes
  | some pq => Function.update nodes pq (nodes pq ++ [(s.pq pq).tail])

namespace StoreRep

variable {s : NetState} {pqs : List Addr} {nodes : Addr → List Addr} {held : List Addr}

/-- `ip_rx` frees the frame or queues it, with a fresh node, on the queue it
wakes. -/
theorem ipRx_rep (h : StoreRep s pqs nodes held) {buf : Addr} (hbuf : buf ∈ held) (len : Int) :
    (∀ pq, (ipRx s buf len).2 = some pq → pq ∈ pqs) ∧
      StoreRep (ipRx s buf len).1 pqs (enqueued (ipRx s buf len).1 nodes (ipRx s buf len).2)
        (held.erase buf) := by
  have hdrop : StoreRep (kfree s buf) pqs nodes (held.erase buf) := h.kfree_held hbuf
  simp only [ipRx]
  rcases hk : kalloc s with ⟨pkt, s1⟩
  split_ifs with hp hpq hfull hpkt
  · exact ⟨by simp, hdrop⟩
  · exact ⟨by simp, hdrop⟩
  · exact ⟨by simp, hdrop⟩
  · rw [kalloc_eq_zero hk hpkt h]
    exact ⟨by simp, hdrop⟩
  · set pq := findPortQueue s (readUdpHeader (s.bytes buf)).dport
    have hmem : pq ∈ pqs := by
      rcases h.findPortQueue_cases (readUdpHeader (s.bytes buf)).dport with ⟨h0, -⟩ | ⟨hm, -⟩
      · exact absurd h0 hpq
      · exact hm
    have h1 := h.kalloc_ok hk hpkt
    have hpkt_buf : pkt ≠ buf := fun e =>
      (List.nodup_cons.mp h1.held_nodup).1 (e ▸ hbuf)
    have hs1 : s1.mem = s.mem := by
      rcases kalloc_cases s with ⟨_, hk'⟩ | ⟨a, rest, _, hk'⟩ <;>
        · rw [hk'] at hk
          obtain ⟨-, rfl⟩ := Prod.mk.inj hk
          rfl
    have hpq_pkt : pq ≠ pkt := fun e =>
      h1.held_ne_store (List.mem_cons_self ..) (mem_store_of_pq hmem) e.symm
    set node : UdpPkt :=
      { fullbuf := buf, payload := sizeofEth + (readUdpHeader (s.bytes buf)).ihl * 4 + sizeofUdp,
        payloadLen := ((readUdpHeader (s.bytes buf)).ulen : Int) - sizeofUdp,
        srcIp := (readUdpHeader (s.bytes buf)).srcIp,
        srcPort := (readUdpHeader (s.bytes buf)).sport, next := 0 }
    have h2 := h1.setPage_held (List.mem_cons_self ..) (.udpPkt node)
    have hcount : ((s1.setPage pkt (.udpPkt node)).pq pq).count < MAX_QUEUED_PER_PORT := by
      rw [pq_setPage_ne _ hpq_pkt, pq_congr hs1]
      omega
    have h3 := h2.linkTail_rep hmem (List.mem_cons_self ..) (List.mem_cons_of_mem _ hbuf)
      hpkt_buf (pktAt_setPage_udpPkt _ _ _) rfl rfl hcount
    rw [List.erase_cons_head] at h3
    refine ⟨by simpa using hmem, ?_⟩
    simpa [enqueued, linkTail_pq_self] using h3

/-- `net_rx` hands the frame to `arp_rx` or `ip_rx`, or frees it. -/
theorem netRx_rep (h : StoreRep s pqs nodes held) {buf : Addr} (hbuf : buf ∈ held) (len : Int) :
    (∀ pq, (netRx s buf len).2 = some pq → pq ∈ pqs) ∧
      StoreRep (netRx s buf len).1 pqs (enqueued (netRx s buf len).1 nodes (netRx s buf len).2)
        (held.erase buf) := by
  simp only [netRx]
  split_ifs
  · exact ⟨by simp, h.arpRx_rep hbuf⟩
  · exact h.ipRx_rep hbuf len
  · exact ⟨by simp, h.kfree_held hbuf⟩

/-- `e1000_recv` copies the frame into a fresh page and gives it to `net_rx`. -/
theorem deliver_rep (h : StoreRep s pqs nodes held) (frame : List UInt8) :
    (∀ pq, (deliver s frame).2 = some pq → pq ∈ pqs) ∧
      StoreRep (deliver s frame).1 pqs (enqueued (deliver s frame).1 nodes (deliver s frame).2)
        held := by
  simp only [deliver]
  rcases hk : kalloc s with ⟨dst, s1⟩
  split_ifs with hlen hdst
  · rw [kalloc_eq_zero hk hdst h]
    exact ⟨by simp, h⟩
  · have h1 := (h.kalloc_ok hk hdst).setPage_held (List.mem_cons_self ..)
      (.raw (memmove (s1.bytes dst) (fun i => frame.getD i 0) frame.length))
    have h2 := h1.netRx_rep (List.mem_cons_self ..) frame.length
    rwa [List.erase_cons_head] at h2
  · exact ⟨by simp, h⟩

/-- `sys_bind` changes nothing, or links a fresh empty queue at the front of
`port_list`. -/
theorem sysBind_rep (h : StoreRep s pqs nodes held) (arg0 : UInt64) :
    (sysBind s arg0).1 = s ∨
      ∃ pq, StoreRep (sysBind s arg0).1 (pq :: pqs) (Function.update nodes pq []) held := by
  simp only [sysBind]
  rcases hk : kalloc s with ⟨pq, s1⟩
  split_ifs with hrange hbound hpq
  · exact .inl rfl
  · exact .inl rfl
  · exact .inl (kalloc_eq_zero hk hpq h)
  · right
    refine ⟨pq, ?_⟩
    have h1 := (h.kalloc_ok hk hpq).setPage_held (List.mem_cons_self ..)
      (.portQueue
        { port := ushort (argint arg0), head := 0, tail := 0, count := 0, next := s.portList })
    have hs1 : s1.mem = s.mem ∧ s1.portList = s.portList := by
      rcases kalloc_cases s with ⟨_, hk'⟩ | ⟨a, rest, _, hk'⟩ <;>
        · rw [hk'] at hk
          obtain ⟨-, rfl⟩ := Prod.mk.inj hk
          exact ⟨rfl, rfl⟩
    have hfree : ∀ b ∈ pqs, (s.pq b).port ≠ ushort (argint arg0) := by
      rcases h.findPortQueue_cases (ushort (argint arg0)) with ⟨-, hnone⟩ | ⟨hm, -⟩
      · exact hnone
      · rw [not_not.mp hbound] at hm
        exact absurd rfl (h.ne_zero_of_store (mem_store_of_pq hm))
    have h2 := h1.push (List.mem_cons_self ..) (pqAt_setPage_portQueue _ _ _) rfl rfl rfl
      (by simp [hs1.2]) (fun b hb => by
        have hne : b ≠ pq := fun e =>
          h1.held_ne_store (List.mem_cons_self ..) (mem_store_of_pq hb) e.symm
        rw [pq_setPage_ne _ hne, pq_congr hs1.1]
        exact hfree b hb)
    rwa [List.erase_cons_head] at h2

/-- What `sys_recv` does after the pop, in every branch: copy out, then free
the frame and the node. -/
theorem recvCopy_eq (s : NetState) (pgdir srcU sportU bufU : Nat) (maxlen : Int) (pkt : Addr) :
    ∃ m r, recvCopy s pgdir srcU sportU bufU maxlen pkt =
      (kfree (kfree { s with phys := m } (s.pkt pkt).fullbuf) pkt, r) := by
  simp only [recvCopy]
  split_ifs <;> exact ⟨_, _, rfl⟩

/-- `sys_recv` frees the node it popped and its frame. -/
theorem recvCopy_rep {pkt : Addr} (h : StoreRep s pqs nodes (pkt :: (s.pkt pkt).fullbuf :: held))
    (pgdir srcU sportU bufU : Nat) (maxlen : Int) :
    StoreRep (recvCopy s pgdir srcU sportU bufU maxlen pkt).1 pqs nodes held := by
  obtain ⟨m, r, heq⟩ := recvCopy_eq s pgdir srcU sportU bufU maxlen pkt
  rw [heq]
  have hne : pkt ≠ (s.pkt pkt).fullbuf := fun e =>
    (List.nodup_cons.mp h.held_nodup).1 (e ▸ List.mem_cons_self ..)
  have h0 : StoreRep { s with phys := m } pqs nodes (pkt :: (s.pkt pkt).fullbuf :: held) :=
    h.of_state_eq rfl rfl rfl rfl
  have h1 := h0.kfree_held (v := (s.pkt pkt).fullbuf)
    (List.mem_cons_of_mem _ (List.mem_cons_self ..))
  rw [List.erase_cons_tail (by simpa using hne), List.erase_cons_head] at h1
  have h2 := h1.kfree_held (v := pkt) (List.mem_cons_self ..)
  rwa [List.erase_cons_head] at h2

/-- The pop and the copy-out of `sys_recv` on the record `pq`: the head node
leaves the queue and is freed with its frame. -/
theorem recvPop_rep (h : StoreRep s pqs nodes held) {pq : Addr} (hpq : pq ∈ pqs)
    (hc : (s.pq pq).count ≠ 0) (pgdir srcU sportU bufU : Nat) (maxlen : Int) :
    StoreRep (recvCopy (dequeue s pq).1 pgdir srcU sportU bufU maxlen (s.pq pq).head).1 pqs
      (Function.update nodes pq (nodes pq).tail) held := by
  obtain ⟨hns, h1⟩ := h.dequeue_rep hpq hc
  have hhead : (s.pq pq).head ≠ pq :=
    (h.pq_ne_node hpq hpq (by rw [hns]; exact List.mem_cons_self ..)).symm
  rw [← dequeue_pkt hhead] at h1
  exact recvCopy_rep h1 _ _ _ _ _

/-- `sys_recv` run to completion: `-1` for an unbound port, or the head node
of the port's queue taken out and freed. -/
theorem sysRecv_rep (h : StoreRep s pqs nodes held) {pgdir : Nat} {a : RecvArgs}
    {r : NetState × Int} (hr : sysRecv s pgdir a = some r) :
    (findPortQueue s (ushort (argint a.dport)) = 0 ∧ r = (s, -1)) ∨
      (findPortQueue s (ushort (argint a.dport)) ∈ pqs ∧
        StoreRep r.1 pqs (Function.update nodes (findPortQueue s (ushort (argint a.dport)))
          (nodes (findPortQueue s (ushort (argint a.dport)))).tail) held) := by
  simp only [sysRecv] at hr
  set pq := findPortQueue s (ushort (argint a.dport))
  split_ifs at hr with hpq hc
  · exact .inl ⟨hpq, (Option.some.inj hr).symm⟩
  · have hmem : pq ∈ pqs := by
      rcases h.findPortQueue_cases (ushort (argint a.dport)) with ⟨h0, -⟩ | ⟨hm, -⟩
      · exact absurd h0 hpq
      · exact hm
    refine .inr ⟨hmem, ?_⟩
    rw [← Option.some.inj hr]
    exact h.recvPop_rep hmem hc _ _ _ _ _

/-- `sys_send` frees its page, or gives it to the transmit ring. -/
theorem sysSend_rep (h : StoreRep s pqs nodes held) (pgdir : Nat) (a : SendArgs) :
    StoreRep (sysSend s pgdir a).1 pqs nodes held := by
  simp only [sysSend]
  rcases hk : kalloc s with ⟨buf, s1⟩
  dsimp only
  split_ifs with htotal hbuf hr htx
  · exact h
  · rw [kalloc_eq_zero hk hbuf h]
    exact h
  all_goals
    have h1 := (h.kalloc_ok hk hbuf).setPage_held (List.mem_cons_self ..)
      (.raw (stBytes (udpHeaders (argint a.sport) (argint a.dst) (argint a.dport) (argint a.len))
        (sizeofEth + sizeofIp + sizeofUdp)
        (copyinUser s1.phys pgdir (argaddr a.buf) (toUInt64 (argint a.len))).1))
    have hdrop := h1.kfree_held (List.mem_cons_self ..)
    rw [List.erase_cons_head] at hdrop
  · exact hdrop
  all_goals
    rcases h1.transmit_rep (List.mem_cons_self ..) (sendTotal (argint a.len)) with
      hfail | ⟨hok, hrep⟩
  · rw [hfail]
    exact hdrop
  · omega
  · rw [hfail] at htx
    simp at htx
  · rwa [List.erase_cons_head] at hrep

end StoreRep

/-- A NIC step only touches descriptors and TDH. -/
theorem nicTransmit_txBufs {t t' : TxState} {d : TxDesc} (h : nicTransmit t = some (t', d)) :
    t'.txBufs = t.txBufs := by
  unfold nicTransmit at h
  split at h
  · exact absurd h (by simp)
  · obtain ⟨rfl, -⟩ := Prod.mk.inj (Option.some.inj h)
    rfl

/-- `send(2000, 10.0.2.2, 25603, 0, 0)`. -/
def sendEmpty : SendArgs :=
  { sport := 2000, dst := 0x0A000202, dport := 25603, buf := 0, len := 0 }

/-- An ARP request from the host 10.0.2.2 for 10.0.2.15. -/
def arpRequest : List UInt8 :=
  [0xff, 0xff, 0xff, 0xff, 0xff, 0xff, 0x52, 0x55, 0x0a, 0x00, 0x02, 0x02, 0x08, 0x06,
    0, 1, 8, 0, 6, 4, 0, 1, 0x52, 0x55, 0x0a, 0x00, 0x02, 0x02, 10, 0, 2, 2,
    0, 0, 0, 0, 0, 0, 10, 0, 2, 15]

/-- Boot with the eighteen free pages `1, …, 18`. -/
def bootPages : NetState :=
  boot ((List.range 18).map (· + 1)) (fun _ => .raw (memsetPage 0)) (fun _ => 0)

/-- After sixteen sends and one ARP request, page 18, which `kalloc` handed
to `arp_rx`, is neither free nor in a transmit slot nor in the (empty) port
store: all sixteen sends returned 0 and the kernel did not panic. -/
theorem arpReply_page_lost :
    (run netStep bootPages (List.replicate 16 (.send 0 sendEmpty) ++ [.frame arpRequest])).2 =
        List.replicate 16 (.returned 0) ∧
      18 ∈ bootPages.freelist ∧
      (run netStep bootPages
          (List.replicate 16 (.send 0 sendEmpty) ++ [.frame arpRequest])).1.panicked = false ∧
      (run netStep bootPages
          (List.replicate 16 (.send 0 sendEmpty) ++ [.frame arpRequest])).1.freelist = [17] ∧
      (∀ i < TX_RING_SIZE, (run netStep bootPages
          (List.replicate 16 (.send 0 sendEmpty) ++ [.frame arpRequest])).1.tx.txBufs i = i + 1) ∧
      (run netStep bootPages
          (List.replicate 16 (.send 0 sendEmpty) ++ [.frame arpRequest])).1.portList = 0 := by
  decide +kernel

end Net
end Xv6Net
