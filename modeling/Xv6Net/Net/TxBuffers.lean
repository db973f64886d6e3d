import Xv6Net.Net.Fifo
import Xv6Net.Net.TxPath

/-!
# No step writes a buffer the NIC may still read

`e1000_transmit` hands a page to the NIC by writing its address into the
descriptor at TDT; the NIC reads the page by DMA when it sends that
descriptor, some steps later.  Nothing pins the page in between: the frame
that goes on the wire is the one `sys_send` or `arp_rx` built only if no step
of the stack writes the page of a pending descriptor.

`TxKept s s'` says that the buffers pending in the ring of `s` are still
pending in `s'`, in order at its front, and that their pages are as `s` had
them.  The operations write only pages the running code holds or pages of the
receive store, and the ownership invariant `StoreRep` keeps those apart from
the pages of the ring (`held_not_pending`, `store_not_pending`); the one page
of the ring that `e1000_transmit` frees, the old buffer of the slot at TDT,
belongs to a descriptor the NIC has sent (`tdt_not_pending`).

Results:
* `netStep_pending_kept`: no step of the stack, from a state it reaches from
  boot, writes the page of a pending descriptor.
* `netStack_sends_as_queued`: along any run from such a state, a pending
  buffer that the NIC has not sent is still pending, its page as it was; the
  NIC sends the bytes the page held when the descriptor was queued.
* `sysSend_frame_on_wire`: the NIC step that sends the page of a `sys_send`
  that returned 0 sends one descriptor of the frame's length, and the page
  holds the frame `sys_send` built.  The descriptors are followed one by one
  (`TxState.pendingDescs`); two pending descriptors never share a page
  (`pendingDescs_addr_inj`).
-/

namespace Xv6Net
namespace E1000

/-- The pending buffers are the `tx_bufs` entries of the pending slots. -/
theorem TxRep.mem_pendingBufs {t : TxState} {n : Nat} (h : TxRep t n) {b : Addr} :
    b ∈ t.pendingBufs ↔ ∃ k < n, t.txBufs ((t.tdh + k) % TX_RING_SIZE) = b := by
  simp only [TxState.pendingBufs, h.pending_eq, List.mem_map, List.mem_range]
  constructor
  · rintro ⟨k, hk, rfl⟩
    exact ⟨k, hk, (h.pending k hk).2⟩
  · rintro ⟨k, hk, rfl⟩
    exact ⟨k, hk, (h.pending k hk).2.symm⟩

/-- The descriptors waiting to be sent, oldest first. -/
def TxState.pendingDescs (s : TxState) : List TxDesc :=
  (List.range s.pending).map fun k => s.txRing ((s.tdh + k) % TX_RING_SIZE)

theorem TxState.pendingBufs_eq_map (s : TxState) :
    s.pendingBufs = s.pendingDescs.map TxDesc.addr := by
  simp [TxState.pendingBufs, TxState.pendingDescs]

namespace TxRep

variable {s : TxState} {n : Nat}

/-- The NIC has a descriptor to send only when one is pending. -/
theorem pos_of_busy (h : TxRep s n) (hbusy : s.tdh ≠ s.tdt) : 0 < n := by
  rcases Nat.eq_zero_or_pos n with h0 | h0
  · exact absurd ((h.tdh_eq_tdt_iff).mpr (.inl h0)) hbusy
  · exact h0

/-- A call that programs the slot at TDT appends that descriptor. -/
theorem pendingDescs_program (h : TxRep s n) (hn : n < TX_RING_SIZE) (buf : Addr) (len : Int) :
    (s.program (s.tdt % TX_RING_SIZE) buf len).pendingDescs =
      s.pendingDescs ++ [(s.program (s.tdt % TX_RING_SIZE) buf len).txRing (s.tdt % TX_RING_SIZE)] := by
  rw [TxState.pendingDescs, TxState.pendingDescs, (h.program hn buf len).pending_eq, h.pending_eq,
    List.range_succ, List.map_append, h.slot_tdt]
  congr 1
  · apply List.map_congr_left
    intro k hk
    rw [List.mem_range] at hk
    simp only [TxState.program, Function.update_of_ne (txPos_ne (by omega) hn (Nat.ne_of_lt hk))]

/-- The NIC sends the descriptor at TDH, the oldest pending one. -/
theorem pendingDescs_sendHead (h : TxRep s n) (h0 : 0 < n) :
    s.pendingDescs = s.txRing s.tdh :: s.sendHead.pendingDescs := by
  rw [TxState.pendingDescs, TxState.pendingDescs, (h.sendHead h0).pending_eq, h.pending_eq]
  obtain ⟨m, rfl⟩ : ∃ m, n = m + 1 := ⟨n - 1, by omega⟩
  rw [List.range_succ_eq_map, List.map_cons, List.map_map, h.head_pos, Nat.add_sub_cancel]
  congr 1
  apply List.map_congr_left
  intro k hk
  rw [List.mem_range] at hk
  have hne : (s.tdh + (k + 1)) % TX_RING_SIZE ≠ s.tdh :=
    txPos_ne_self (Nat.succ_pos k) (by have := h.le; omega)
  simp only [Function.comp, TxState.sendHead, txPos_shift, Function.update_of_ne hne]

/-- A call of `e1000_transmit` keeps the pending descriptors at the front. -/
theorem pendingDescs_transmit (h : TxRep s n) (buf : Addr) (len : Int) :
    s.pendingDescs <+: (e1000Transmit s buf len).1.pendingDescs := by
  by_cases hn : n < TX_RING_SIZE
  · rw [e1000Transmit_ok (h.transmit_ok hn), h.pendingDescs_program hn]
    exact List.prefix_append _ _
  · have h16 : n = TX_RING_SIZE := by
      have := h.le
      omega
    subst h16
    rw [h.transmit_refused]

end TxRep

end E1000

namespace Net

open Lib E1000 Vm NetState

/-- No two slots of the ring hold the same page. -/
theorem txBufs_inj {t : TxState} (hnd : (txPages t).Nodup) {i j : Nat} (hi : i < TX_RING_SIZE)
    (hj : j < TX_RING_SIZE) (h0 : t.txBufs i ≠ 0) (he : t.txBufs i = t.txBufs j) : i = j := by
  rw [txPages, List.filter_map] at hnd
  refine List.inj_on_of_nodup_map hnd ?_ ?_ he
  · simpa [hi] using h0
  · simpa [hj, ← he] using h0

theorem txBufs_mem_txPages {t : TxState} {i : Nat} (hi : i < TX_RING_SIZE) (h0 : t.txBufs i ≠ 0) :
    t.txBufs i ∈ txPages t := by
  simp only [txPages, List.mem_filter, List.mem_map, List.mem_range]
  exact ⟨⟨i, hi, rfl⟩, by simpa using h0⟩

/-- Two pending descriptors for one page are one descriptor. -/
theorem pendingDescs_addr_inj {t : TxState} {n : Nat} (htx : TxRep t n) (hnd : (txPages t).Nodup)
    {d d' : TxDesc} (hd : d ∈ t.pendingDescs) (hd' : d' ∈ t.pendingDescs) (h0 : d.addr ≠ 0)
    (he : d.addr = d'.addr) : d = d' := by
  simp only [TxState.pendingDescs, htx.pending_eq, List.mem_map, List.mem_range] at hd hd'
  obtain ⟨k, hk, rfl⟩ := hd
  obtain ⟨k', hk', rfl⟩ := hd'
  rw [← (htx.pending k hk).2] at h0 he
  rw [← (htx.pending k' hk').2] at he
  rw [txBufs_inj hnd (Nat.mod_lt _ (by decide)) (Nat.mod_lt _ (by decide)) h0 he]

namespace StoreRep

variable {s : NetState} {pqs : List Addr} {nodes : Addr → List Addr} {held : List Addr} {n : Nat}

theorem txPages_nodup (h : StoreRep s pqs nodes held) : (txPages s.tx).Nodup := by
  have hnd : (s.freelist ++ held ++ txPages s.tx ++ storePages s pqs nodes).Nodup := h.nodup
  exact (List.nodup_append.mp (List.nodup_append.mp hnd).1).2.1

theorem held_ne_tx (h : StoreRep s pqs nodes held) {a b : Addr} (ha : a ∈ held)
    (hb : b ∈ txPages s.tx) : a ≠ b := by
  have hnd : (s.freelist ++ held ++ txPages s.tx ++ storePages s pqs nodes).Nodup := h.nodup
  exact ne_of_nodup_append (List.nodup_append.mp hnd).1 (List.mem_append_right _ ha) hb

/-- A pending buffer is null or a page of the ring, so neither a page of the
running code nor one of the store. -/
theorem pending_not_owned (h : StoreRep s pqs nodes held) (htx : TxRep s.tx n) {b : Addr}
    (hb : b ∈ s.tx.pendingBufs) : b ∉ held ∧ b ∉ storePages s pqs nodes := by
  obtain ⟨k, -, rfl⟩ := htx.mem_pendingBufs.mp hb
  by_cases h0 : s.tx.txBufs ((s.tx.tdh + k) % TX_RING_SIZE) = 0
  · rw [h0]
    exact ⟨fun hm => h.nonnull (by simp [owned, hm]), fun hm => h.nonnull (by simp [owned, hm])⟩
  · have hring := txBufs_mem_txPages (Nat.mod_lt _ (by decide)) h0
    exact ⟨fun hm => h.held_ne_tx hm hring rfl, fun hm => h.not_store_of_tx hring hm⟩

theorem held_not_pending (h : StoreRep s pqs nodes held) (htx : TxRep s.tx n) {a : Addr}
    (ha : a ∈ held) : a ∉ s.tx.pendingBufs :=
  fun hp => (h.pending_not_owned htx hp).1 ha

theorem store_not_pending (h : StoreRep s pqs nodes held) (htx : TxRep s.tx n) {a : Addr}
    (ha : a ∈ storePages s pqs nodes) : a ∉ s.tx.pendingBufs :=
  fun hp => (h.pending_not_owned htx hp).2 ha

/-- The buffer `e1000_transmit` frees, the old one of the slot at TDT, is not
pending: the NIC has sent it. -/
theorem tdt_not_pending (h : StoreRep s pqs nodes held) (htx : TxRep s.tx n)
    (hn : n < TX_RING_SIZE) (hold : s.tx.txBufs (s.tx.tdt % TX_RING_SIZE) ≠ 0) :
    s.tx.txBufs (s.tx.tdt % TX_RING_SIZE) ∉ s.tx.pendingBufs := by
  intro hp
  obtain ⟨k, hk, he⟩ := htx.mem_pendingBufs.mp hp
  rw [htx.slot_tdt] at hold he
  have h0 : s.tx.txBufs ((s.tx.tdh + k) % TX_RING_SIZE) ≠ 0 := by
    rw [he]
    exact hold
  exact txPos_ne (by omega) hn (Nat.ne_of_lt hk)
    (txBufs_inj h.txPages_nodup (Nat.mod_lt _ (by decide)) (Nat.mod_lt _ (by decide)) h0 he)

end StoreRep

/-- `s'` keeps the buffers pending in the ring of `s`: still pending, in order
at the front, and their pages as `s` had them. -/
structure TxKept (s s' : NetState) : Prop where
  pending : s.tx.pendingBufs <+: s'.tx.pendingBufs
  mem : ∀ b ∈ s.tx.pendingBufs, s'.mem b = s.mem b

namespace TxKept

variable {s s₁ s' : NetState}

theorem refl : TxKept s s :=
  ⟨List.prefix_refl _, fun _ _ => rfl⟩

theorem trans (h₁ : TxKept s s₁) (h₂ : TxKept s₁ s') : TxKept s s' where
  pending := h₁.pending.trans h₂.pending
  mem b hb := (h₂.mem b (h₁.pending.subset hb)).trans (h₁.mem b hb)

theorem of_eq (htx : s'.tx = s.tx) (hm : s'.mem = s.mem) : TxKept s s' :=
  ⟨by rw [htx], fun _ _ => by rw [hm]⟩

theorem of_kalloc {a : Addr} (hk : kalloc s = (a, s')) : TxKept s s' :=
  of_eq (kalloc_tx hk) (kalloc_mem hk)

/-- A store into a page no pending descriptor points to. -/
theorem setPage_of_not_pending {a : Addr} (ha : a ∉ s.tx.pendingBufs) (p : Page) :
    TxKept s (s.setPage a p) where
  pending := by rw [setPage_tx]
  mem b hb := by
    have hba : b ≠ a := fun e => ha (e ▸ hb)
    simp [NetState.setPage, Function.update_of_ne hba]

theorem kfree_of_not_pending {a : Addr} (ha : a ∉ s.tx.pendingBufs) : TxKept s (kfree s a) :=
  (setPage_of_not_pending ha _).trans (of_eq rfl rfl)

end TxKept

/-- `kalloc` leaves the ring as it was. -/
theorem kalloc_txRep {s s1 : NetState} {a : Addr} {n : Nat} (htx : TxRep s.tx n)
    (hk : kalloc s = (a, s1)) : TxRep s1.tx n := by
  rw [kalloc_tx hk]
  exact htx

/-- The ring after `e1000_transmit` is again one `e1000_init` leads to. -/
theorem transmit_txRep {s : NetState} {n : Nat} (htx : TxRep s.tx n) (buf : Addr) (len : Int) :
    ∃ n', TxRep (transmit s buf len).1.tx n' := by
  rw [transmit_tx]
  exact (htx.txStep_laws (.transmit buf len)).1

namespace StoreRep

variable {s : NetState} {pqs : List Addr} {nodes : Addr → List Addr} {held : List Addr} {n : Nat}

/-- `e1000_transmit` appends its buffer to the pending ones, and frees only a
buffer the NIC has sent. -/
theorem transmit_txKept (h : StoreRep s pqs nodes held) (htx : TxRep s.tx n) {buf : Addr}
    (hbuf : buf ∈ held) (len : Int) : TxKept s (transmit s buf len).1 := by
  rcases transmit_cases s buf len with ⟨-, heq⟩ | ⟨hdd, -, heq⟩ | ⟨hdd, hold, heq⟩
  · rw [heq]
    exact .refl
  all_goals
    have hn := lt_of_done htx hdd
    have k₁ : TxKept s { s with tx := s.tx.program (s.tx.tdt % TX_RING_SIZE) buf len } :=
      ⟨by simp [htx.pendingBufs_program hn], fun _ _ => rfl⟩
    rw [heq]
  · exact k₁
  · have hring := txBufs_mem_txPages (Nat.mod_lt _ (by decide)) hold
    have hfree : s.tx.txBufs (s.tx.tdt % TX_RING_SIZE) ∉ s.tx.pendingBufs ++ [buf] := by
      rw [List.mem_append, List.mem_singleton, not_or]
      exact ⟨h.tdt_not_pending htx hn hold, fun e => h.held_ne_tx hbuf hring e.symm⟩
    rw [← htx.pendingBufs_program hn buf len] at hfree
    exact k₁.trans (.kfree_of_not_pending hfree)

/-- A page held besides the buffer `e1000_transmit` queued is still not
pending after the call. -/
theorem transmit_held_not_pending {buf : Addr} (h : StoreRep s pqs nodes (buf :: held))
    (htx : TxRep s.tx n) {a : Addr} (ha : a ∈ held) (len : Int) :
    a ∉ (transmit s buf len).1.tx.pendingBufs := by
  obtain ⟨n', htx'⟩ := transmit_txRep htx buf len
  rcases h.transmit_rep (List.mem_cons_self ..) len with hfail | ⟨-, hok⟩
  · rw [hfail]
    exact h.held_not_pending htx (List.mem_cons_of_mem _ ha)
  · rw [List.erase_cons_head] at hok
    exact hok.held_not_pending htx' ha

/-- `ip_rx` links the tail node of the queue and rewrites its record, both
pages of the store. -/
theorem linkTail_txKept (h : StoreRep s pqs nodes held) (htx : TxRep s.tx n) {pq : Addr}
    (hpq : pq ∈ pqs) (pkt : Addr) : TxKept s (linkTail s pq pkt) := by
  have hrec := h.store_not_pending htx (mem_store_of_pq hpq)
  unfold linkTail
  dsimp only
  split_ifs with ht
  · have htail : (s.pq pq).tail ∈ nodes pq := (h.tail_cases hpq).resolve_left ht
    refine (TxKept.setPage_of_not_pending
      (h.store_not_pending htx (mem_store_of_node hpq htail)) _).trans
      (.setPage_of_not_pending ?_ _)
    exact hrec
  · exact .setPage_of_not_pending hrec _

/-- The copy-out of `sys_recv` frees the popped node and its frame, pages the
running code holds. -/
theorem recvCopy_txKept {pkt : Addr} (h : StoreRep s pqs nodes (pkt :: (s.pkt pkt).fullbuf :: held))
    (htx : TxRep s.tx n) (pgdir srcU sportU bufU : Nat) (maxlen : Int) :
    TxKept s (recvCopy s pgdir srcU sportU bufU maxlen pkt).1 := by
  obtain ⟨m, r, heq⟩ := recvCopy_eq s pgdir srcU sportU bufU maxlen pkt
  rw [heq]
  have hfb := h.held_not_pending htx (List.mem_cons_of_mem _ (List.mem_cons_self ..))
  have hpk := h.held_not_pending htx (List.mem_cons_self ..)
  have k₁ : TxKept s { s with phys := m } := .of_eq rfl rfl
  have k₂ := k₁.trans (TxKept.kfree_of_not_pending (s := { s with phys := m }) hfb)
  exact k₂.trans (.kfree_of_not_pending hpk)

theorem sysRecv_txKept (h : StoreRep s pqs nodes held) (htx : TxRep s.tx n) {pgdir : Nat}
    {a : RecvArgs} {r : NetState × Int} (hr : sysRecv s pgdir a = some r) : TxKept s r.1 := by
  rcases sysRecv_cases s pgdir a with ⟨-, h'⟩ | ⟨-, -, h'⟩ | ⟨hpq, hc, h'⟩ <;> rw [h'] at hr
  · cases hr
    exact .refl
  · cases hr
  · cases hr
    set pq := findPortQueue s (ushort (argint a.dport))
    have hmem : pq ∈ pqs := by
      rcases h.findPortQueue_cases (ushort (argint a.dport)) with ⟨h0, -⟩ | ⟨hm, -⟩
      · exact absurd h0 hpq
      · exact hm
    obtain ⟨hns, h₁⟩ := h.dequeue_rep hmem hc
    have hhead : (s.pq pq).head ≠ pq :=
      (h.pq_ne_node hmem hmem (by rw [hns]; exact List.mem_cons_self ..)).symm
    rw [← dequeue_pkt hhead] at h₁
    have k₁ : TxKept s (dequeue s pq).1 :=
      .setPage_of_not_pending (h.store_not_pending htx (mem_store_of_pq hmem)) _
    exact k₁.trans (recvCopy_txKept h₁ htx _ _ _ _ _)

/-- `arp_rx` writes its reply page, queues it, and frees the request. -/
theorem arpRx_txKept (h : StoreRep s pqs nodes held) (htx : TxRep s.tx n) {inbuf : Addr}
    (hin : inbuf ∈ held) : TxKept s (arpRx s inbuf) := by
  rcases arpRx_cases s inbuf with ⟨-, heq⟩ | ⟨-, s1, hk, heq⟩ | ⟨-, buf, s1, hk, hb, heq⟩
  · rw [heq]
    exact .kfree_of_not_pending (h.held_not_pending htx hin)
  · have htx₁ : s1.tx = ({ s with seenArp := true } : NetState).tx := kalloc_tx hk
    have hm₁ : s1.mem = ({ s with seenArp := true } : NetState).mem := kalloc_mem hk
    rw [heq]
    exact .of_eq htx₁ hm₁
  · rw [heq]
    have h₀ : StoreRep { s with seenArp := true } pqs nodes held := h.of_state_eq rfl rfl rfl rfl
    have h₁ := h₀.kalloc_ok hk hb
    have htx₁ : TxRep s1.tx n := kalloc_txRep (s := { s with seenArp := true }) htx hk
    have k₀ : TxKept s { s with seenArp := true } := .of_eq rfl rfl
    have k₁ : TxKept s s1 := k₀.trans (.of_kalloc hk)
    have k₂ := TxKept.setPage_of_not_pending (h₁.held_not_pending htx₁ (List.mem_cons_self ..))
      (.raw (arpReply (s1.bytes inbuf) (s1.bytes buf)))
    have h₂ := h₁.setPage_held (List.mem_cons_self ..) (.raw (arpReply (s1.bytes inbuf) (s1.bytes buf)))
    have k₃ := h₂.transmit_txKept htx₁ (List.mem_cons_self ..) (sizeofEth + sizeofArp)
    exact k₁.trans (k₂.trans (k₃.trans
      (.kfree_of_not_pending (h₂.transmit_held_not_pending htx₁ hin _))))

theorem ipRx_txKept (h : StoreRep s pqs nodes held) (htx : TxRep s.tx n) {buf : Addr}
    (hbuf : buf ∈ held) (len : Int) : TxKept s (ipRx s buf len).1 := by
  rcases ipRx_cases s buf len with ⟨-, heq⟩ | ⟨-, s1, hk, heq⟩ | ⟨hacc, pkt, s1, hk, hpkt, heq⟩
  · rw [heq]
    exact .kfree_of_not_pending (h.held_not_pending htx hbuf)
  · rw [heq]
    have hnot : buf ∉ s1.tx.pendingBufs := by
      rw [kalloc_tx hk]
      exact h.held_not_pending htx hbuf
    exact (TxKept.of_kalloc hk).trans (.kfree_of_not_pending hnot)
  · rw [heq]
    have hmem : rxQueue s buf ∈ pqs := by
      rcases h.findPortQueue_cases (readUdpHeader (s.bytes buf)).dport with ⟨h0, -⟩ | ⟨hm, -⟩
      · exact absurd h0 hacc.2.1
      · exact hm
    have h₁ := h.kalloc_ok hk hpkt
    have htx₁ : TxRep s1.tx n := kalloc_txRep htx hk
    have k₂ := TxKept.setPage_of_not_pending (h₁.held_not_pending htx₁ (List.mem_cons_self ..))
      (.udpPkt (udpNode (s.bytes buf) buf))
    exact (TxKept.of_kalloc hk).trans (k₂.trans
      ((h₁.setPage_held (List.mem_cons_self ..) _).linkTail_txKept htx₁ hmem pkt))

theorem netRx_txKept (h : StoreRep s pqs nodes held) (htx : TxRep s.tx n) {buf : Addr}
    (hbuf : buf ∈ held) (len : Int) : TxKept s (netRx s buf len).1 := by
  rcases netRx_cases s buf len with ⟨-, -, heq⟩ | ⟨-, -, -, heq⟩ | ⟨-, -, heq⟩
  · rw [heq]
    exact h.arpRx_txKept htx hbuf
  · rw [heq]
    exact h.ipRx_txKept htx hbuf len
  · rw [heq]
    exact .kfree_of_not_pending (h.held_not_pending htx hbuf)

theorem deliver_txKept (h : StoreRep s pqs nodes held) (htx : TxRep s.tx n)
    (frame : List UInt8) : TxKept s (deliver s frame).1 := by
  rcases deliver_cases s frame with ⟨-, heq⟩ | ⟨-, -, s1, hk, heq⟩ | ⟨-, -, dst, s1, hk, hdst, heq⟩
  · rw [heq]
    exact .refl
  · rw [heq]
    exact .of_kalloc hk
  · rw [heq]
    have h₁ := h.kalloc_ok hk hdst
    have htx₁ : TxRep s1.tx n := kalloc_txRep htx hk
    have k₂ := TxKept.setPage_of_not_pending (h₁.held_not_pending htx₁ (List.mem_cons_self ..))
      (.raw (memmove (s1.bytes dst) (fun i => frame.getD i 0) frame.length))
    exact (TxKept.of_kalloc hk).trans (k₂.trans
      ((h₁.setPage_held (List.mem_cons_self ..) _).netRx_txKept htx₁ (List.mem_cons_self ..)
        frame.length))

theorem sysBind_txKept (h : StoreRep s pqs nodes held) (htx : TxRep s.tx n) (arg0 : UInt64) :
    TxKept s (sysBind s arg0).1 := by
  rcases sysBind_cases s arg0 with ⟨-, heq⟩ | ⟨s1, hk, heq⟩ | ⟨-, -, pq, s1, hk, hpq, heq⟩
  · rw [heq]
    exact .refl
  · rw [heq]
    exact .of_kalloc hk
  · rw [heq]
    have htx₁ : TxRep s1.tx n := kalloc_txRep htx hk
    have k₂ := TxKept.setPage_of_not_pending
      ((h.kalloc_ok hk hpq).held_not_pending htx₁ (List.mem_cons_self ..))
      (.portQueue (newQueue (argint arg0) s.portList))
    exact (TxKept.of_kalloc hk).trans (k₂.trans (.of_eq rfl rfl))

theorem sysSend_txKept (h : StoreRep s pqs nodes held) (htx : TxRep s.tx n) (pgdir : Nat)
    (a : SendArgs) : TxKept s (sysSend s pgdir a).1 := by
  rcases sysSend_cases s pgdir a with ⟨-, heq⟩ | ⟨-, s1, hk, heq⟩ |
    ⟨-, buf, s1, hk, hb, bs, r, -, hcopy⟩
  · rw [heq]
    exact .refl
  · rw [heq]
    exact .of_kalloc hk
  · have h₁ := h.kalloc_ok hk hb
    have htx₁ : TxRep s1.tx n := kalloc_txRep htx hk
    have hnot := h₁.held_not_pending htx₁ (List.mem_cons_self ..)
    have k₁ : TxKept s s1 := .of_kalloc hk
    have k₂ : TxKept s1 (s1.setPage buf (.raw (sendPage a bs))) := .setPage_of_not_pending hnot _
    have k₃ : TxKept s (kfree (s1.setPage buf (.raw (sendPage a bs))) buf) :=
      k₁.trans (k₂.trans (.kfree_of_not_pending hnot))
    rcases hcopy with ⟨-, heq⟩ | ⟨-, s3, t, ht, hsend⟩
    · rw [heq]
      exact k₃
    · rcases hsend with ⟨htn, heq⟩ | ⟨-, heq⟩
      · have hs3 := transmit_of_ret_ne_zero (s := s1.setPage buf (.raw (sendPage a bs)))
          (by rw [ht]; omega)
        rw [ht] at hs3
        rw [heq, (Prod.mk.inj hs3).1]
        exact k₃
      · have k₄ := (h₁.setPage_held (List.mem_cons_self ..) (.raw (sendPage a bs))).transmit_txKept
          htx₁ (List.mem_cons_self ..) (sendTotal (argint a.len))
        rw [ht] at k₄
        rw [heq]
        exact k₁.trans (k₂.trans k₄)

/-- An `e1000_transmit` that returns 0 appends the descriptor of its buffer,
with its length, and leaves the buffer's page as it was. -/
theorem transmit_ok_queues (h : StoreRep s pqs nodes held) (htx : TxRep s.tx n) {buf : Addr}
    (hbuf : buf ∈ held) (len : Int) (hok : (transmit s buf len).2 = 0) :
    (∃ d, (transmit s buf len).1.tx.pendingDescs = s.tx.pendingDescs ++ [d] ∧ d.addr = buf ∧
        d.length = toUShort len) ∧
      (transmit s buf len).1.mem buf = s.mem buf := by
  have hn : n < TX_RING_SIZE := (transmit_ret_eq_zero_iff htx buf len).mp hok
  have hdd := htx.transmit_ok hn
  refine ⟨⟨(s.tx.program (s.tx.tdt % TX_RING_SIZE) buf len).txRing (s.tx.tdt % TX_RING_SIZE), ?_,
    by simp [TxState.program], by simp [TxState.program]⟩, ?_⟩
  · rw [transmit_tx, e1000Transmit_ok hdd]
    exact htx.pendingDescs_program hn buf len
  · rcases transmit_cases s buf len with ⟨hdd', -⟩ | ⟨-, -, heq⟩ | ⟨-, hold, heq⟩
    · exact absurd hdd' hdd
    · rw [heq]
    · have hne : buf ≠ s.tx.txBufs (s.tx.tdt % TX_RING_SIZE) :=
        h.held_ne_tx hbuf (txBufs_mem_txPages (Nat.mod_lt _ (by decide)) hold)
      rw [heq]
      simp [kfree, NetState.setPage, Function.update_of_ne hne]

/-- A `sys_send` that returns 0 got a page from `kalloc`, queued one
descriptor for it with the frame's length, and left in it the frame it built:
the headers, then the bytes `copyin_user` read. -/
theorem sysSend_queues (h : StoreRep s pqs nodes held) (htx : TxRep s.tx n) {pgdir : Nat}
    {a : SendArgs} (hok : (sysSend s pgdir a).2 = 0) :
    (kalloc s).1 ≠ 0 ∧
      (∃ d, (sysSend s pgdir a).1.tx.pendingDescs = s.tx.pendingDescs ++ [d] ∧
        d.addr = (kalloc s).1 ∧ d.length = toUShort (sendTotal (argint a.len))) ∧
      (sysSend s pgdir a).1.mem (kalloc s).1 =
        .raw (sendPage a (copyinUser s.phys pgdir (argaddr a.buf) (toUInt64 (argint a.len))).1) := by
  rcases sysSend_cases s pgdir a with ⟨-, heq⟩ | ⟨-, s1, hk, heq⟩ |
    ⟨-, buf, s1, hk, hb, bs, r, hc, hcopy⟩
  · simp [heq] at hok
  · simp [heq] at hok
  rcases hcopy with ⟨-, heq⟩ | ⟨-, s3, t, ht, hsend⟩
  · simp [heq] at hok
  rcases hsend with ⟨-, heq⟩ | ⟨htn, heq⟩
  · simp [heq] at hok
  have h₂ := (h.kalloc_ok hk hb).setPage_held (List.mem_cons_self ..) (.raw (sendPage a bs))
  have htx₂ : TxRep (s1.setPage buf (.raw (sendPage a bs))).tx n := by
    rw [setPage_tx]
    exact kalloc_txRep htx hk
  have ht0 : (transmit (s1.setPage buf (.raw (sendPage a bs))) buf (sendTotal (argint a.len))).2 = 0 := by
    by_contra hne
    have hs3 := transmit_of_ret_ne_zero hne
    rw [ht] at hs3
    have := (Prod.mk.inj hs3).2
    omega
  obtain ⟨⟨d, hd, hda, hdl⟩, hm⟩ := h₂.transmit_ok_queues htx₂ (List.mem_cons_self ..) _ ht0
  rw [ht] at hd hm
  rw [heq, hk, hc]
  refine ⟨hb, ⟨d, ?_, hda, hdl⟩, ?_⟩
  · rw [hd, setPage_tx, kalloc_tx hk]
  · rw [hm]
    simp [NetState.setPage]

end StoreRep

section Step

variable {s : NetState} {pqs : List Addr} {nodes : Addr → List Addr} {n : Nat}

/-- The NIC step reads the pages; it writes only the ring. -/
theorem netStep_nic_mem (s : NetState) : (netStep s .nic).1.mem = s.mem := by
  cases hp : s.panicked
  case true => rw [netStep_panicked hp]
  case false =>
    cases hn : nicTransmit s.tx with
    | none => rw [netStep_nic_none hp hn]
    | some r =>
        obtain ⟨tx', d⟩ := r
        rw [netStep_nic_some hp hn]

theorem StoreRep.netStep_txKept (h : StoreRep s pqs nodes []) (htx : TxRep s.tx n)
    {l : NetLabel} (hl : l ≠ .nic) : TxKept s (netStep s l).1 := by
  cases hp : s.panicked
  case true =>
    rw [netStep_panicked hp]
    exact .refl
  case false =>
    cases l with
    | bind a =>
        rcases hr : sysBind s a with ⟨s', r⟩
        rw [netStep_bind hp hr]
        have hk := h.sysBind_txKept htx a
        rwa [hr] at hk
    | frame f =>
        rcases hr : deliver s f with ⟨s', woken⟩
        rw [netStep_frame hp hr]
        have hk := h.deliver_txKept htx f
        rwa [hr] at hk
    | recv pgdir a =>
        cases hr : sysRecv s pgdir a with
        | none =>
            rw [netStep_recv_none hp hr]
            exact .refl
        | some r =>
            obtain ⟨s', ret⟩ := r
            rw [netStep_recv_some hp hr]
            exact h.sysRecv_txKept htx hr
    | send pgdir a =>
        rcases hr : sysSend s pgdir a with ⟨s', r⟩
        rw [netStep_send hp hr]
        have hk := h.sysSend_txKept htx pgdir a
        rwa [hr] at hk
    | nic => exact absurd rfl hl

/-- No step writes the page of a pending descriptor: the NIC step only reads,
every other step keeps them. -/
theorem StoreRep.netStep_pending_mem (h : StoreRep s pqs nodes []) (htx : TxRep s.tx n)
    (l : NetLabel) : ∀ b ∈ s.tx.pendingBufs, (netStep s l).1.mem b = s.mem b := by
  by_cases hl : l = .nic
  · subst hl
    intro b _
    rw [netStep_nic_mem]
  · exact (h.netStep_txKept htx hl).mem

/-- A pending descriptor leaves the ring only as the one the NIC sends. -/
theorem netStep_pendingDesc_stays (htx : TxRep s.tx n) (l : NetLabel) {d : TxDesc}
    (hd : d ∈ s.tx.pendingDescs) (hsent : d.addr ∉ (netStep s l).2.flatMap NetEvent.sentBuf) :
    d ∈ (netStep s l).1.tx.pendingDescs := by
  by_cases hl : l = .nic
  · subst hl
    cases hp : s.panicked
    case true =>
      rw [netStep_panicked hp]
      exact hd
    case false =>
      by_cases hidle : s.tx.tdh = s.tx.tdt
      · rw [netStep_nic_none hp (nicTransmit_idle hidle)]
        exact hd
      · rw [netStep_nic_some hp (nicTransmit_busy hidle)] at hsent ⊢
        rw [htx.pendingDescs_sendHead (htx.pos_of_busy hidle)] at hd
        rcases List.mem_cons.mp hd with rfl | hrest
        · simp [NetEvent.sentBuf] at hsent
        · exact hrest
  · rcases (netStep_moves s hl).1 with htx' | ⟨buf, len, htx'⟩
    · rw [htx']
      exact hd
    · rw [htx']
      exact (htx.pendingDescs_transmit buf len).subset hd

/-- The NIC step that sends the page of a pending descriptor sends that
descriptor, with its length. -/
theorem netStep_nic_sends (hnd : (txPages s.tx).Nodup) (htx : TxRep s.tx n) {d : TxDesc}
    (hd : d ∈ s.tx.pendingDescs) (h0 : d.addr ≠ 0)
    (hsent : d.addr ∈ (netStep s .nic).2.flatMap NetEvent.sentBuf) :
    (netStep s .nic).2 = [.sent d.addr d.length] := by
  cases hp : s.panicked
  case true =>
    rw [netStep_panicked hp] at hsent
    simp at hsent
  case false =>
    by_cases hidle : s.tx.tdh = s.tx.tdt
    · rw [netStep_nic_none hp (nicTransmit_idle hidle)] at hsent
      simp at hsent
    · rw [netStep_nic_some hp (nicTransmit_busy hidle)] at hsent ⊢
      have hhead : s.tx.txRing s.tx.tdh ∈ s.tx.pendingDescs := by
        rw [htx.pendingDescs_sendHead (htx.pos_of_busy hidle)]
        exact List.mem_cons_self ..
      have he : d.addr = (s.tx.txRing s.tx.tdh).addr := by
        simpa [NetEvent.sentBuf] using hsent
      rw [pendingDescs_addr_inj htx hnd hd hhead h0 he]

/-- A `send` step that reports 0 ran `sys_send`, which returned 0. -/
theorem netStep_send_ok {pgdir : Nat} {a : SendArgs}
    (hok : (netStep s (.send pgdir a)).2 = [.returned 0]) :
    (netStep s (.send pgdir a)).1 = (sysSend s pgdir a).1 ∧ (sysSend s pgdir a).2 = 0 := by
  cases hp : s.panicked
  case true =>
    rw [netStep_panicked hp] at hok
    simp at hok
  case false =>
    rcases hr : sysSend s pgdir a with ⟨s', r⟩
    rw [netStep_send hp hr] at hok ⊢
    simp only [List.cons.injEq, NetEvent.returned.injEq, and_true] at hok
    exact ⟨rfl, hok⟩

end Step

section Boot

variable {freelist : List Addr} {mem : Addr → Page} {phys : PhysMem} {s : NetState}

theorem storeRep_of_reachable (hnd : freelist.Nodup) (h0 : 0 ∉ freelist)
    (hs : Reachable netStep (boot freelist mem phys) s) : ∃ pqs nodes, StoreRep s pqs nodes [] := by
  obtain ⟨ls, rfl⟩ := hs
  exact run_invariant netStep (fun s => ∃ pqs nodes, StoreRep s pqs nodes [])
    (fun _ l ⟨_, _, h⟩ => netStep_rep h l) ls _ ⟨[], fun _ => [], boot_rep hnd h0 mem phys⟩

theorem txRep_of_reachable (hs : Reachable netStep (boot freelist mem phys) s) :
    ∃ n, TxRep s.tx n := by
  obtain ⟨ls, rfl⟩ := hs
  exact netStack_txRep freelist mem phys ls

/-- A pending descriptor that the NIC does not send along a run, from a state
reached from boot, is still pending at its end, and its page is as it was. -/
theorem pendingDesc_run (hnd : freelist.Nodup) (h0 : 0 ∉ freelist)
    (hs : Reachable netStep (boot freelist mem phys) s) (ls : List NetLabel) {d : TxDesc}
    (hd : d ∈ s.tx.pendingDescs)
    (hsent : d.addr ∉ (run netStep s ls).2.flatMap NetEvent.sentBuf) :
    d ∈ (run netStep s ls).1.tx.pendingDescs ∧ (run netStep s ls).1.mem d.addr = s.mem d.addr := by
  refine run_invariant_of_events netStep (Reachable netStep (boot freelist mem phys))
    (fun s' => d ∈ s'.tx.pendingDescs ∧ s'.mem d.addr = s.mem d.addr) (fun e => d.addr ∉ e.sentBuf)
    (fun _ l hr => hr.next netStep l) ?_ ls s hs ⟨hd, rfl⟩
    (fun e he hbe => hsent (List.mem_flatMap.mpr ⟨e, he, hbe⟩))
  rintro s' l hr ⟨hd', hm⟩ hok
  obtain ⟨pqs, nodes, h⟩ := storeRep_of_reachable hnd h0 hr
  obtain ⟨n, htx⟩ := txRep_of_reachable hr
  have hns : d.addr ∉ (netStep s' l).2.flatMap NetEvent.sentBuf := fun hm' => by
    obtain ⟨e, he, hbe⟩ := List.mem_flatMap.mp hm'
    exact hok e he hbe
  have hpend : d.addr ∈ s'.tx.pendingBufs := by
    rw [TxState.pendingBufs_eq_map]
    exact List.mem_map_of_mem hd'
  exact ⟨netStep_pendingDesc_stays htx l hd' hns, (h.netStep_pending_mem htx l _ hpend).trans hm⟩

/-- The descriptor a `send` that returned 0 queued, for the page `kalloc` gave
it and the frame's length, is the one the NIC step sends for that page after
any run that does not send the page first; the page then holds the frame. -/
theorem sysSend_sent (hnd : freelist.Nodup) (h0 : 0 ∉ freelist)
    (hs : Reachable netStep (boot freelist mem phys) s) {pgdir : Nat} {a : SendArgs}
    (hok : (netStep s (.send pgdir a)).2 = [.returned 0]) (ls : List NetLabel)
    (hsent : (kalloc s).1 ∉ (run netStep (netStep s (.send pgdir a)).1 ls).2.flatMap NetEvent.sentBuf)
    (hnic : (kalloc s).1 ∈
      (netStep (run netStep (netStep s (.send pgdir a)).1 ls).1 .nic).2.flatMap NetEvent.sentBuf) :
    ∃ d : TxDesc, d.addr = (kalloc s).1 ∧ d.length = toUShort (sendTotal (argint a.len)) ∧
      (netStep (run netStep (netStep s (.send pgdir a)).1 ls).1 .nic).2 = [.sent d.addr d.length] ∧
      (run netStep (netStep s (.send pgdir a)).1 ls).1.mem d.addr =
        .raw (sendPage a (copyinUser s.phys pgdir (argaddr a.buf) (toUInt64 (argint a.len))).1) := by
  obtain ⟨hstep, hret⟩ := netStep_send_ok hok
  obtain ⟨pqs, nodes, h⟩ := storeRep_of_reachable hnd h0 hs
  obtain ⟨n, htx⟩ := txRep_of_reachable hs
  obtain ⟨hb0, ⟨d, hds, hda, hdl⟩, hm⟩ := h.sysSend_queues htx hret
  rw [← hda] at hsent hnic hb0 hm
  have hstart : d ∈ (netStep s (.send pgdir a)).1.tx.pendingDescs := by
    rw [hstep, hds]
    exact List.mem_append_right _ (List.mem_singleton_self _)
  have hs' := hs.next netStep (.send pgdir a)
  obtain ⟨hd, hmem⟩ := pendingDesc_run hnd h0 hs' ls hstart hsent
  have hend := hs'.extend netStep ls
  obtain ⟨pqs', nodes', h'⟩ := storeRep_of_reachable hnd h0 hend
  obtain ⟨n', htx'⟩ := txRep_of_reachable hend
  refine ⟨d, hda, hdl, netStep_nic_sends h'.txPages_nodup htx' hd hb0 hnic, ?_⟩
  rw [hmem, hstep, hm]

end Boot

end Net
end Xv6Net
