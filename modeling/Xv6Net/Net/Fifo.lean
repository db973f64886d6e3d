import Xv6Net.Net.PortStore
import Xv6Net.Net.Receive

/-!
# Per-port FIFO delivery over whole runs

`ip_rx` appends a node behind the tail of the queue `find_port_queue` returns
for the destination port, and `sys_recv` pops the head of the queue it finds
for its argument.  `portView s port` reads the queue of a port as `sys_recv`
will pop it: `count` nodes from `head`.  Every step of the network stack keeps

  `portView s p ++ accepted on p = dequeued from p ++ portView s' p`

where the events name the port of the record a datagram was appended to or
popped from (`StoreRep.netStep_portView`).  From boot, every run therefore
dequeues from port `p`, in order, what it accepted on `p` up to what is still
queued, which is in the queue in the order it came (`portFifo`); no datagram is
lost or dequeued twice.

The port is the one of the record: `sys_recv(d)` pops from the record of
`ushort(d)`, and since `sys_recv` makes no range check, a call with `d`
outside 0..0xFFFF pops from the queue of `d mod 65536`
(`recvAlias_steals_datagram`).

The datagrams in the queues are carried from state to state by `Kept`: every
operation of `net.c` keeps the port of every record, the frame of every node
and the datagram it holds; only links and counters change.

**Results.**
* `StoreRep.portView_eq`: `sys_recv`'s reading of a queue is its ghost list.
* `StoreRep.netStep_portView`: the step law above.
* `portFifo`: the law over every run from boot.
* `StoreRep.sysRecv_result`: what a receive that pops copies out and returns.
-/

namespace Xv6Net
namespace Net

open Lib E1000 Vm NetState

/-- The datagrams queued for `port`, as `sys_recv` pops them: `count` nodes
from the `head` of the record `find_port_queue` returns. -/
def portView (s : NetState) (port : UInt16) : List Datagram :=
  if findPortQueue s port = 0 then []
  else (walk (pktNext s) (s.pq (findPortQueue s port)).count.toNat
    (s.pq (findPortQueue s port)).head).map (datagramOf s)

/-- The same, read off the ghost lists of the store. -/
def ghostView (s : NetState) (pqs : List Addr) (nodes : Addr → List Addr) (port : UInt16) :
    List Datagram :=
  ((pqs.filter fun a => (s.pq a).port == port).flatMap nodes).map (datagramOf s)

/-- The datagrams an event reports accepted on `port`. -/
def acceptedOn (port : UInt16) : NetEvent → List Datagram
  | .accepted q d => if q = port then [d] else []
  | _ => []

/-- The datagrams an event reports dequeued from `port`. -/
def dequeuedOn (port : UInt16) : NetEvent → List Datagram
  | .dequeued q d => if q = port then [d] else []
  | _ => []

/-- With distinct keys, the elements of a key are the one element that has it. -/
theorem filter_key_eq_singleton {α β : Type} [DecidableEq β] {l : List α} {f : α → β}
    (hnd : (l.map f).Nodup) {a : α} (ha : a ∈ l) : l.filter (fun x => f x == f a) = [a] := by
  induction l with
  | nil => simp at ha
  | cons b l ih =>
      rw [List.map_cons] at hnd
      obtain ⟨hb, hl⟩ := List.nodup_cons.mp hnd
      by_cases hab : b = a
      · subst hab
        have hrest : l.filter (fun x => f x == f b) = [] :=
          List.filter_eq_nil_iff.mpr fun x hx hfx =>
            hb ((beq_iff_eq.mp hfx) ▸ List.mem_map_of_mem hx)
        simp [hrest]
      · have ha' : a ∈ l := (List.mem_cons.mp ha).resolve_left (Ne.symm hab)
        have hfb : f b ≠ f a := fun e => hb (e ▸ List.mem_map_of_mem ha')
        simp [hfb, ih hl ha']

/-- `s'` keeps the port of every record of the store of `s`, and the frame and
the datagram of every node; links and counters may change. -/
structure Kept (s s' : NetState) (pqs : List Addr) (nodes : Addr → List Addr) : Prop where
  port : ∀ a ∈ pqs, (s'.pq a).port = (s.pq a).port
  fullbuf : ∀ a ∈ pqs, ∀ n ∈ nodes a, (s'.pkt n).fullbuf = (s.pkt n).fullbuf
  data : ∀ a ∈ pqs, ∀ n ∈ nodes a, datagramOf s' n = datagramOf s n

/-- The datagram of a node only reads its fields other than the link, and its
frame. -/
theorem datagramOf_congr {s s' : NetState} {n : Addr}
    (hp : { s'.pkt n with next := 0 } = { s.pkt n with next := 0 })
    (hb : s'.bytes (s.pkt n).fullbuf = s.bytes (s.pkt n).fullbuf) :
    datagramOf s' n = datagramOf s n := by
  simp only [UdpPkt.mk.injEq, and_true] at hp
  obtain ⟨hf, hpl, hlen, hip, hport⟩ := hp
  simp only [datagramOf, hf, hpl, hlen, hip, hport, hb]

namespace Kept

variable {s s₁ s' : NetState} {pqs : List Addr} {nodes : Addr → List Addr}

theorem refl : Kept s s pqs nodes :=
  ⟨fun _ _ => rfl, fun _ _ _ _ => rfl, fun _ _ _ _ => rfl⟩

theorem trans (h₁ : Kept s s₁ pqs nodes) (h₂ : Kept s₁ s' pqs nodes) : Kept s s' pqs nodes where
  port a ha := (h₂.port a ha).trans (h₁.port a ha)
  fullbuf a ha n hn := (h₂.fullbuf a ha n hn).trans (h₁.fullbuf a ha n hn)
  data a ha n hn := (h₂.data a ha n hn).trans (h₁.data a ha n hn)

theorem mono {nodes' : Addr → List Addr} (h : Kept s s' pqs nodes)
    (hsub : ∀ a ∈ pqs, nodes' a ⊆ nodes a) : Kept s s' pqs nodes' where
  port := h.port
  fullbuf a ha n hn := h.fullbuf a ha n (hsub a ha hn)
  data a ha n hn := h.data a ha n (hsub a ha hn)

/-- The store keeps its pages. -/
theorem storePages_eq (h : Kept s s' pqs nodes) :
    storePages s' pqs nodes = storePages s pqs nodes :=
  StoreRep.storePages_congr fun n hn => by
    obtain ⟨a, ha, hn'⟩ := List.mem_flatMap.mp hn
    exact h.fullbuf a ha n hn'

theorem not_store (h : Kept s s' pqs nodes) {a : Addr} (ha : a ∉ storePages s pqs nodes) :
    a ∉ storePages s' pqs nodes := by
  rwa [h.storePages_eq]

theorem of_mem_eq (hm : s'.mem = s.mem) : Kept s s' pqs nodes where
  port a _ := by rw [pq_congr hm]
  fullbuf _ _ n _ := by rw [pkt_congr hm]
  data _ _ n _ := by simp only [datagramOf, pkt_congr hm, bytes_congr hm]

theorem of_kalloc {a : Addr} (hk : kalloc s = (a, s')) : Kept s s' pqs nodes :=
  of_mem_eq (kalloc_mem hk)

/-- A store into a page outside the store. -/
theorem setPage_of_not_store {a : Addr} (ha : a ∉ storePages s pqs nodes) (p : Page) :
    Kept s (s.setPage a p) pqs nodes where
  port b hb := by
    have hb' : b ≠ a := fun e => ha (e ▸ StoreRep.mem_store_of_pq hb)
    rw [pq_setPage_ne p hb']
  fullbuf b hb n hn := by
    have hn' : n ≠ a := fun e => ha (e ▸ StoreRep.mem_store_of_node hb hn)
    rw [pkt_setPage_ne p hn']
  data b hb n hn := by
    have hn' : n ≠ a := fun e => ha (e ▸ StoreRep.mem_store_of_node hb hn)
    have hf : (s.pkt n).fullbuf ≠ a := fun e => ha (e ▸ StoreRep.mem_store_of_fullbuf hb hn)
    simp only [datagramOf, pkt_setPage_ne p hn', bytes_setPage_ne p hf]

theorem kfree_of_not_store {a : Addr} (ha : a ∉ storePages s pqs nodes) :
    Kept s (kfree s a) pqs nodes :=
  (setPage_of_not_store ha _).trans (of_mem_eq rfl)

end Kept

namespace StoreRep

variable {s : NetState} {pqs : List Addr} {nodes : Addr → List Addr} {held : List Addr}

theorem not_store_of_held (h : StoreRep s pqs nodes held) {a : Addr} (ha : a ∈ held) :
    a ∉ storePages s pqs nodes :=
  fun hm => h.held_ne_store ha hm rfl

theorem not_store_of_tx (h : StoreRep s pqs nodes held) {a : Addr} (ha : a ∈ txPages s.tx) :
    a ∉ storePages s pqs nodes := by
  have hnd : (s.freelist ++ held ++ txPages s.tx ++ storePages s pqs nodes).Nodup := h.nodup
  exact fun hm => ne_of_nodup_append hnd (by simp [ha]) hm rfl

/-- The frame of a node is neither a record nor a node. -/
theorem fullbuf_ne (h : StoreRep s pqs nodes held) {b n x : Addr} (hb : b ∈ pqs)
    (hn : n ∈ nodes b) (hx : x ∈ pqs ++ pqs.flatMap nodes) : (s.pkt n).fullbuf ≠ x :=
  (ne_of_nodup_append h.store_nodup hx
    (List.mem_map.mpr ⟨n, List.mem_flatMap.mpr ⟨b, hb, hn⟩, rfl⟩)).symm

/-- The tail of a queue is null or one of its nodes. -/
theorem tail_cases (h : StoreRep s pqs nodes held) {pq : Addr} (hpq : pq ∈ pqs) :
    (s.pq pq).tail = 0 ∨ (s.pq pq).tail ∈ nodes pq := by
  rcases (h.queues pq hpq).tail_cases with ⟨-, h0⟩ | ⟨L, hL⟩
  · exact .inl h0
  · exact .inr (hL ▸ List.mem_append_right _ (List.mem_singleton_self _))

/-- `e1000_transmit` frees a page of the ring, never one of the store. -/
theorem transmit_kept (h : StoreRep s pqs nodes held) (buf : Addr) (len : Int) :
    Kept s (transmit s buf len).1 pqs nodes := by
  rcases transmit_cases s buf len with ⟨-, heq⟩ | ⟨-, -, heq⟩ | ⟨-, hold, heq⟩
  · rw [heq]
    exact .refl
  · rw [heq]
    exact .of_mem_eq rfl
  · rw [heq]
    have htx : s.tx.txBufs (s.tx.tdt % TX_RING_SIZE) ∈ txPages s.tx := by
      simp only [txPages, List.mem_filter, List.mem_map, List.mem_range]
      exact ⟨⟨_, Nat.mod_lt _ (by decide), rfl⟩, by simpa using hold⟩
    have k₁ : Kept s { s with tx := s.tx.program (s.tx.tdt % TX_RING_SIZE) buf len } pqs nodes :=
      .of_mem_eq rfl
    exact k₁.trans (.kfree_of_not_store (k₁.not_store (h.not_store_of_tx htx)))

/-- `ip_rx` appends behind the tail: the record keeps its port, the old tail
its frame and its datagram. -/
theorem linkTail_kept (h : StoreRep s pqs nodes held) {pq : Addr} (hpq : pq ∈ pqs) (pkt : Addr) :
    Kept s (linkTail s pq pkt) pqs nodes := by
  have hpq_t : (s.pq pq).tail ≠ pq := by
    rcases h.tail_cases hpq with h0 | ht
    · exact h0 ▸ (h.ne_zero_of_store (mem_store_of_pq hpq)).symm
    · exact (h.pq_ne_node hpq hpq ht).symm
  have hrec_t : ∀ b ∈ pqs, b ≠ (s.pq pq).tail := fun b hb => by
    rcases h.tail_cases hpq with h0 | ht
    · exact h0 ▸ h.ne_zero_of_store (mem_store_of_pq hb)
    · exact h.pq_ne_node hb hpq ht
  have hfb_t : ∀ b ∈ pqs, ∀ n ∈ nodes b, (s.pkt n).fullbuf ≠ (s.pq pq).tail := fun b hb n hn => by
    rcases h.tail_cases hpq with h0 | ht
    · exact h0 ▸ h.ne_zero_of_store (mem_store_of_fullbuf hb hn)
    · exact h.fullbuf_ne hb hn (List.mem_append_right _ (List.mem_flatMap.mpr ⟨pq, hpq, ht⟩))
  refine ⟨fun b hb => ?_, fun b hb n hn => ?_, fun b hb n hn => ?_⟩
  · by_cases hbpq : b = pq
    · subst hbpq
      rw [linkTail_pq_self]
    · simp only [NetState.pq, linkTail_pqAt_ne hbpq (hrec_t b hb)]
  · exact linkTail_fullbuf (h.pq_ne_node hpq hb hn).symm hpq_t
  · have hnpq : n ≠ pq := (h.pq_ne_node hpq hb hn).symm
    have hbytes : (linkTail s pq pkt).bytes (s.pkt n).fullbuf = s.bytes (s.pkt n).fullbuf :=
      linkTail_bytes_ne (h.fullbuf_ne hb hn (List.mem_append_left _ hpq)) (hfb_t b hb n hn)
    refine datagramOf_congr ?_ hbytes
    by_cases hnt : n = (s.pq pq).tail
    · have ht0 : (s.pq pq).tail ≠ 0 := hnt ▸ h.ne_zero_of_store (mem_store_of_node hb hn)
      subst hnt
      rw [pkt_of_pktAt (linkTail_pktAt_tail ht0 hpq_t)]
    · simp only [NetState.pkt, linkTail_pktAt_ne hnpq hnt]

/-- The pop of `sys_recv` only rewrites the record. -/
theorem dequeue_kept (h : StoreRep s pqs nodes held) {pq : Addr} (hpq : pq ∈ pqs) :
    Kept s (dequeue s pq).1 pqs nodes := by
  refine ⟨fun b _ => ?_, fun b hb n hn => ?_, fun b hb n hn => ?_⟩
  · by_cases hbpq : b = pq
    · subst hbpq
      simp only [dequeue]
      rw [pq_of_pqAt (pqAt_setPage_portQueue _ _ _)]
    · exact congrArg PortQueue.port (pq_setPage_ne _ hbpq)
  · exact congrArg UdpPkt.fullbuf (dequeue_pkt (h.pq_ne_node hpq hb hn).symm)
  · have hf : (s.pkt n).fullbuf ≠ pq := h.fullbuf_ne hb hn (List.mem_append_left _ hpq)
    simp only [datagramOf, dequeue_pkt (h.pq_ne_node hpq hb hn).symm]
    simp only [dequeue, bytes_setPage_ne _ hf]

/-- The copy-out of `sys_recv` frees the popped node and its frame, which the
store no longer has. -/
theorem recvCopy_kept {pkt : Addr} (h : StoreRep s pqs nodes (pkt :: (s.pkt pkt).fullbuf :: held))
    (pgdir srcU sportU bufU : Nat) (maxlen : Int) :
    Kept s (recvCopy s pgdir srcU sportU bufU maxlen pkt).1 pqs nodes := by
  obtain ⟨m, r, heq⟩ := recvCopy_eq s pgdir srcU sportU bufU maxlen pkt
  rw [heq]
  have k₁ : Kept s { s with phys := m } pqs nodes := .of_mem_eq rfl
  have k₂ := k₁.trans (.kfree_of_not_store
    (k₁.not_store (h.not_store_of_held (List.mem_cons_of_mem _ (List.mem_cons_self ..)))))
  exact k₂.trans (.kfree_of_not_store (k₂.not_store (h.not_store_of_held (List.mem_cons_self ..))))

/-- `arp_rx` only writes its reply page and frees pages outside the store. -/
theorem arpRx_kept (h : StoreRep s pqs nodes held) {inbuf : Addr} (hin : inbuf ∈ held) :
    Kept s (arpRx s inbuf) pqs nodes := by
  rcases arpRx_cases s inbuf with ⟨-, heq⟩ | ⟨-, s1, hk, heq⟩ | ⟨-, buf, s1, hk, hb, heq⟩
  · rw [heq]
    exact .kfree_of_not_store (h.not_store_of_held hin)
  · rw [heq]
    have hm := kalloc_mem hk
    exact .of_mem_eq hm
  · rw [heq]
    have h₀ : StoreRep { s with seenArp := true } pqs nodes held := h.of_state_eq rfl rfl rfl rfl
    have h₁ := h₀.kalloc_ok hk hb
    have hm := kalloc_mem hk
    have k₁ : Kept s s1 pqs nodes := .of_mem_eq hm
    have k₂ := k₁.trans (.setPage_of_not_store (h₁.not_store_of_held (List.mem_cons_self ..))
      (.raw (arpReply (s1.bytes inbuf) (s1.bytes buf))))
    have k₃ := k₂.trans ((h₁.setPage_held (List.mem_cons_self ..) _).transmit_kept buf
      (sizeofEth + sizeofArp))
    exact k₃.trans (.kfree_of_not_store (k₃.not_store (h.not_store_of_held hin)))

theorem ipRx_kept (h : StoreRep s pqs nodes held) {buf : Addr} (hbuf : buf ∈ held) (len : Int) :
    Kept s (ipRx s buf len).1 pqs nodes := by
  rcases ipRx_cases s buf len with ⟨-, heq⟩ | ⟨-, s1, hk, heq⟩ | ⟨hacc, pkt, s1, hk, hpkt, heq⟩
  · rw [heq]
    exact .kfree_of_not_store (h.not_store_of_held hbuf)
  · rw [heq]
    have k₁ : Kept s s1 pqs nodes := .of_kalloc hk
    exact k₁.trans (.kfree_of_not_store (k₁.not_store (h.not_store_of_held hbuf)))
  · rw [heq]
    have hmem : rxQueue s buf ∈ pqs := by
      rcases h.findPortQueue_cases (readUdpHeader (s.bytes buf)).dport with ⟨h0, -⟩ | ⟨hm, -⟩
      · exact absurd h0 hacc.2.1
      · exact hm
    have h₁ := h.kalloc_ok hk hpkt
    have k₁ : Kept s s1 pqs nodes := .of_kalloc hk
    have k₂ := k₁.trans (.setPage_of_not_store (h₁.not_store_of_held (List.mem_cons_self ..))
      (.udpPkt (udpNode (s.bytes buf) buf)))
    exact k₂.trans ((h₁.setPage_held (List.mem_cons_self ..) _).linkTail_kept hmem pkt)

theorem netRx_kept (h : StoreRep s pqs nodes held) {buf : Addr} (hbuf : buf ∈ held) (len : Int) :
    Kept s (netRx s buf len).1 pqs nodes := by
  rcases netRx_cases s buf len with ⟨-, -, heq⟩ | ⟨-, -, -, heq⟩ | ⟨-, -, heq⟩
  · rw [heq]
    exact h.arpRx_kept hbuf
  · rw [heq]
    exact h.ipRx_kept hbuf len
  · rw [heq]
    exact .kfree_of_not_store (h.not_store_of_held hbuf)

theorem deliver_kept (h : StoreRep s pqs nodes held) (frame : List UInt8) :
    Kept s (deliver s frame).1 pqs nodes := by
  rcases deliver_cases s frame with ⟨-, heq⟩ | ⟨-, -, s1, hk, heq⟩ | ⟨-, -, dst, s1, hk, hdst, heq⟩
  · rw [heq]
    exact .refl
  · rw [heq]
    exact .of_kalloc hk
  · rw [heq]
    have h₁ := h.kalloc_ok hk hdst
    have k₁ : Kept s s1 pqs nodes := .of_kalloc hk
    have k₂ := k₁.trans (.setPage_of_not_store (h₁.not_store_of_held (List.mem_cons_self ..))
      (.raw (memmove (s1.bytes dst) (fun i => frame.getD i 0) frame.length)))
    exact k₂.trans ((h₁.setPage_held (List.mem_cons_self ..) _).netRx_kept
      (List.mem_cons_self ..) frame.length)

theorem sysBind_kept (h : StoreRep s pqs nodes held) (arg0 : UInt64) :
    Kept s (sysBind s arg0).1 pqs nodes := by
  rcases sysBind_cases s arg0 with ⟨-, heq⟩ | ⟨s1, hk, heq⟩ | ⟨-, -, pq, s1, hk, hpq, heq⟩
  · rw [heq]
    exact .refl
  · rw [heq]
    exact .of_kalloc hk
  · rw [heq]
    have k₁ : Kept s s1 pqs nodes := .of_kalloc hk
    have k₂ := k₁.trans (.setPage_of_not_store
      ((h.kalloc_ok hk hpq).not_store_of_held (List.mem_cons_self ..))
      (.portQueue (newQueue (argint arg0) s.portList)))
    exact k₂.trans (.of_mem_eq rfl)

theorem sysSend_kept (h : StoreRep s pqs nodes held) (pgdir : Nat) (a : SendArgs) :
    Kept s (sysSend s pgdir a).1 pqs nodes := by
  rcases sysSend_cases s pgdir a with ⟨-, heq⟩ | ⟨-, s1, hk, heq⟩ |
    ⟨-, buf, s1, hk, hb, bs, r, -, hcopy⟩
  · rw [heq]
    exact .refl
  · rw [heq]
    exact .of_kalloc hk
  · have h₁ := h.kalloc_ok hk hb
    have hnot := h₁.not_store_of_held (List.mem_cons_self ..)
    have k₁ : Kept s s1 pqs nodes := .of_kalloc hk
    have k₂ : Kept s1 (s1.setPage buf (.raw (sendPage a bs))) pqs nodes :=
      .setPage_of_not_store hnot _
    rcases hcopy with ⟨-, heq⟩ | ⟨-, s3, t, ht, hsend⟩
    · rw [heq]
      exact k₁.trans (k₂.trans (.kfree_of_not_store (k₂.not_store hnot)))
    · have k₃ : Kept (s1.setPage buf (.raw (sendPage a bs))) s3 pqs nodes := by
        have := (h₁.setPage_held (List.mem_cons_self ..) (.raw (sendPage a bs))).transmit_kept
          buf (sendTotal (argint a.len))
        rwa [ht] at this
      rcases hsend with ⟨-, heq⟩ | ⟨-, heq⟩
      · rw [heq]
        exact k₁.trans (k₂.trans (k₃.trans
          (.kfree_of_not_store (k₃.not_store (k₂.not_store hnot)))))
      · rw [heq]
        exact k₁.trans (k₂.trans k₃)

end StoreRep

section GhostView

variable {s : NetState} {pqs : List Addr} {nodes : Addr → List Addr} {port : UInt16}

/-- A bound port's view is its one queue. -/
theorem ghostView_bound (hports : (pqs.map fun a => (s.pq a).port).Nodup) {a : Addr}
    (ha : a ∈ pqs) (hp : (s.pq a).port = port) :
    ghostView s pqs nodes port = (nodes a).map (datagramOf s) := by
  subst hp
  simp [ghostView, filter_key_eq_singleton hports ha]

theorem ghostView_unbound (hnone : ∀ a ∈ pqs, (s.pq a).port ≠ port) :
    ghostView s pqs nodes port = [] := by
  have hf : pqs.filter (fun a => (s.pq a).port == port) = [] :=
    List.filter_eq_nil_iff.mpr fun a ha => by simpa using hnone a ha
  simp [ghostView, hf]

/-- Changing the nodes of a record of another port. -/
theorem ghostView_update_ne {q : Addr} (hq : q ∈ pqs → (s.pq q).port ≠ port) (ns : List Addr) :
    ghostView s pqs (Function.update nodes q ns) port = ghostView s pqs nodes port := by
  have hflat : (pqs.filter fun a => (s.pq a).port == port).flatMap (Function.update nodes q ns) =
      (pqs.filter fun a => (s.pq a).port == port).flatMap nodes := by
    refine List.flatMap_congr fun a ha => Function.update_of_ne ?_ _ _
    rintro rfl
    obtain ⟨hmem, hport⟩ := List.mem_filter.mp ha
    exact hq hmem (by simpa using hport)
  simp only [ghostView, hflat]

/-- A fresh empty record in front. -/
theorem ghostView_push {q : Addr} (hq : q ∉ pqs) :
    ghostView s (q :: pqs) (Function.update nodes q []) port = ghostView s pqs nodes port := by
  have hrest : ghostView s pqs (Function.update nodes q []) port = ghostView s pqs nodes port :=
    ghostView_update_ne (fun h => absurd h hq) []
  simp only [ghostView] at hrest ⊢
  rw [List.filter_cons]
  split <;> simp [hrest]

/-- A node appended behind the last one of the queue at `q`. -/
theorem ghostView_enqueue (hports : (pqs.map fun a => (s.pq a).port).Nodup) {q : Addr}
    (hq : q ∈ pqs) (t : Addr) :
    ghostView s pqs (Function.update nodes q (nodes q ++ [t])) port =
      ghostView s pqs nodes port ++ (if (s.pq q).port = port then [datagramOf s t] else []) := by
  by_cases hp : (s.pq q).port = port
  · rw [ghostView_bound hports hq hp, ghostView_bound hports hq hp, if_pos hp]
    simp
  · rw [ghostView_update_ne (fun _ => hp), if_neg hp, List.append_nil]

/-- The head node of the queue at `q` taken out. -/
theorem ghostView_dequeue (hports : (pqs.map fun a => (s.pq a).port).Nodup) {q n : Addr}
    {rest : List Addr} (hq : q ∈ pqs) (hns : nodes q = n :: rest) :
    ghostView s pqs nodes port =
      (if (s.pq q).port = port then [datagramOf s n] else []) ++
        ghostView s pqs (Function.update nodes q rest) port := by
  by_cases hp : (s.pq q).port = port
  · rw [ghostView_bound hports hq hp, ghostView_bound hports hq hp, if_pos hp, hns]
    simp
  · rw [ghostView_update_ne (fun _ => hp), if_neg hp, List.nil_append]

/-- The view only reads the ports of the records and the datagrams of the
nodes. -/
theorem ghostView_kept {s' : NetState} (hk : Kept s s' pqs nodes) :
    ghostView s' pqs nodes port = ghostView s pqs nodes port := by
  have hf : pqs.filter (fun a => (s'.pq a).port == port) =
      pqs.filter (fun a => (s.pq a).port == port) :=
    List.filter_congr fun a ha => by rw [hk.port a ha]
  simp only [ghostView, hf]
  refine List.map_congr_left fun n hn => ?_
  obtain ⟨a, ha, hn'⟩ := List.mem_flatMap.mp hn
  exact hk.data a (List.mem_filter.mp ha).1 n hn'

end GhostView

/-- `sys_recv` reads the queue of a port as its ghost list. -/
theorem StoreRep.portView_eq {s : NetState} {pqs : List Addr} {nodes : Addr → List Addr}
    {held : List Addr} (h : StoreRep s pqs nodes held) (port : UInt16) :
    portView s port = ghostView s pqs nodes port := by
  rcases h.findPortQueue_cases port with ⟨h0, hnone⟩ | ⟨hm, hport⟩
  · simp [portView, h0, ghostView_unbound hnone]
  · have hq := h.queues _ hm
    have hcount : (s.pq (findPortQueue s port)).count.toNat =
        (nodes (findPortQueue s port)).length := by
      rw [hq.count_eq]
      simp
    rw [portView, if_neg (h.ne_zero_of_store (mem_store_of_pq hm)), hcount, hq.seg.walk_eq,
      ghostView_bound h.ports hm hport]

/-- `portView` only reads the memory and `port_list`. -/
theorem portView_congr {s s' : NetState} (hm : s'.mem = s.mem) (hpl : s'.portList = s.portList)
    (port : UInt16) : portView s' port = portView s port := by
  have hfind : findPortQueue s' port = findPortQueue s port := by
    simp only [findPortQueue, pqAt_congr hm, hpl]
  have hnext : pktNext s' = pktNext s := funext fun a => by simp [pktNext, pktAt_congr hm]
  have hdg : datagramOf s' = datagramOf s := funext fun n => by
    simp only [datagramOf, pkt_congr hm, bytes_congr hm]
  simp only [portView, hfind, hnext, hdg, pq_congr hm]

/-- A `sys_recv` that pops: the record of its port, the node at the head of
that record's queue, and every other datagram kept. -/
theorem StoreRep.sysRecv_pop {s : NetState} {pqs : List Addr} {nodes : Addr → List Addr}
    {held : List Addr} (h : StoreRep s pqs nodes held) {pgdir : Nat} {a : RecvArgs}
    {s' : NetState} {r : Int} (hr : sysRecv s pgdir a = some (s', r)) {q : Addr}
    (hq : findPortQueue s (ushort (argint a.dport)) = q) (hq0 : q ≠ 0) :
    q ∈ pqs ∧ nodes q = (s.pq q).head :: (nodes q).tail ∧
      Kept s s' pqs (Function.update nodes q (nodes q).tail) := by
  rcases sysRecv_cases s pgdir a with ⟨h0, -⟩ | ⟨-, -, hnone⟩ | ⟨-, hc, heq⟩
  · exact absurd (hq ▸ h0) hq0
  · rw [hr] at hnone
    cases hnone
  · rw [hq] at hc heq
    rw [hr] at heq
    have hmem : q ∈ pqs := by
      rcases h.findPortQueue_cases (ushort (argint a.dport)) with ⟨h0, -⟩ | ⟨hm, -⟩
      · exact absurd (hq ▸ h0) hq0
      · exact hq ▸ hm
    obtain ⟨hns, h₁⟩ := h.dequeue_rep hmem hc
    have hhead : (s.pq q).head ≠ q :=
      (h.pq_ne_node hmem hmem (by rw [hns]; exact List.mem_cons_self ..)).symm
    rw [← dequeue_pkt hhead] at h₁
    have k₁ : Kept s (dequeue s q).1 pqs (Function.update nodes q (nodes q).tail) :=
      (h.dequeue_kept hmem).mono fun b _ => by
        by_cases hb : b = q
        · subst hb
          rw [Function.update_self]
          exact List.tail_subset _
        · rw [Function.update_of_ne hb]
          exact List.Subset.refl _
    have k₂ := h₁.recvCopy_kept pgdir (argaddr a.src) (argaddr a.sport) (argaddr a.buf)
      (argint a.maxlen)
    have hs' := congrArg Prod.fst (Option.some.inj heq)
    dsimp only at hs'
    rw [hs']
    exact ⟨hmem, hns, k₁.trans k₂⟩

/-- The step law: what a step accepts on a port joins the back of its queue,
what it dequeues from the port leaves the front. -/
theorem StoreRep.netStep_portView {s : NetState} {pqs : List Addr} {nodes : Addr → List Addr}
    (h : StoreRep s pqs nodes []) (l : NetLabel) (port : UInt16) :
    portView s port ++ (netStep s l).2.flatMap (acceptedOn port) =
      (netStep s l).2.flatMap (dequeuedOn port) ++ portView (netStep s l).1 port := by
  cases hp : s.panicked
  case true => simp [netStep_panicked hp]
  case false =>
    cases l with
    | bind a =>
        rcases hr : sysBind s a with ⟨s', r⟩
        rw [netStep_bind hp hr]
        simp only [List.flatMap_cons, List.flatMap_nil, acceptedOn, dequeuedOn, List.append_nil,
          List.nil_append]
        rcases h.sysBind_rep a with hs | ⟨pq, h'⟩
        · rw [hr] at hs
          rw [show s' = s from hs]
        · have hk := h.sysBind_kept a
          rw [hr] at h' hk
          have hfresh : pq ∉ pqs := (List.nodup_cons.mp h'.pqs_nodup).1
          rw [h.portView_eq, h'.portView_eq, ghostView_push hfresh, ghostView_kept hk]
    | frame f =>
        rcases hr : deliver s f with ⟨s', woken⟩
        rw [netStep_frame hp hr]
        have hk := h.deliver_kept f
        obtain ⟨hwoken, h'⟩ := h.deliver_rep f
        rw [hr] at hk hwoken h'
        rw [h.portView_eq, h'.portView_eq, ← ghostView_kept hk]
        cases woken with
        | none => simp [enqueued]
        | some q =>
            simp only [enqueued, Option.toList_some, List.map_cons, List.map_nil,
              List.flatMap_cons, List.flatMap_nil, acceptedAt, acceptedOn, dequeuedOn,
              List.append_nil, List.nil_append]
            rw [ghostView_enqueue h'.ports (hwoken q rfl)]
    | recv pgdir a =>
        cases hr : sysRecv s pgdir a with
        | none => simp [netStep_recv_none hp hr]
        | some r =>
            obtain ⟨s', ret⟩ := r
            rw [netStep_recv_some hp hr]
            by_cases hq0 : findPortQueue s (ushort (argint a.dport)) = 0
            · rcases h.sysRecv_rep hr with ⟨-, hs⟩ | ⟨hm, -⟩
              · obtain ⟨rfl, -⟩ := Prod.mk.inj hs
                simp [hq0, acceptedOn, dequeuedOn]
              · exact absurd hq0 (h.ne_zero_of_store (mem_store_of_pq hm))
            · obtain ⟨hmem, hns, hk⟩ := h.sysRecv_pop hr rfl hq0
              obtain ⟨-, h'⟩ := (h.sysRecv_rep hr).resolve_left fun h0 => hq0 h0.1
              rw [if_neg hq0]
              simp only [List.cons_append, List.nil_append, List.flatMap_cons, List.flatMap_nil,
                acceptedOn, dequeuedOn, List.append_nil]
              rw [h.portView_eq, h'.portView_eq, ghostView_kept hk,
                ghostView_dequeue h.ports hmem hns]
    | send pgdir a =>
        rcases hr : sysSend s pgdir a with ⟨s', r⟩
        rw [netStep_send hp hr]
        have hk := h.sysSend_kept pgdir a
        have h' := h.sysSend_rep pgdir a
        rw [hr] at hk h'
        simp only [List.flatMap_cons, List.flatMap_nil, acceptedOn, dequeuedOn, List.append_nil,
          List.nil_append]
        rw [h.portView_eq, h'.portView_eq, ghostView_kept hk]
    | nic =>
        cases hn : nicTransmit s.tx with
        | none => simp [netStep_nic_none hp hn]
        | some r =>
            obtain ⟨tx', d⟩ := r
            rw [netStep_nic_some hp hn]
            simp only [List.flatMap_cons, List.flatMap_nil, acceptedOn, dequeuedOn,
              List.append_nil, List.nil_append]
            exact (portView_congr rfl rfl port).symm

/-- A `sys_recv` that pops returns `-1`, or the clamp of the popped datagram's
payload length, after copying out the datagram's source address, its source
port and its first `clamp` payload bytes. -/
theorem StoreRep.sysRecv_result {s : NetState} {pqs : List Addr} {nodes : Addr → List Addr}
    {held : List Addr} (h : StoreRep s pqs nodes held) {pgdir : Nat} {a : RecvArgs}
    {s' : NetState} {r : Int} (hr : sysRecv s pgdir a = some (s', r)) {q : Addr}
    (hq : findPortQueue s (ushort (argint a.dport)) = q) (hq0 : q ≠ 0) :
    r = -1 ∨
      (r = tocpy (datagramOf s (s.pq q).head).payloadLen (argint a.maxlen) ∧
        s'.phys =
          (copyout (copyout (copyout s.phys pgdir (argaddr a.src)
            (bytes32 (datagramOf s (s.pq q).head).srcIp)).1 pgdir (argaddr a.sport)
            (bytes16 (datagramOf s (s.pq q).head).srcPort)).1 pgdir (argaddr a.buf)
            ((datagramOf s (s.pq q).head).data.take r.toNat)).1) := by
  rcases sysRecv_cases s pgdir a with ⟨h0, -⟩ | ⟨-, -, hnone⟩ | ⟨-, hc, heq⟩
  · exact absurd (hq ▸ h0) hq0
  · rw [hr] at hnone
    cases hnone
  · rw [hq] at hc heq
    rw [hr] at heq
    have e := Option.some.inj heq
    have hmem : q ∈ pqs := by
      rcases h.findPortQueue_cases (ushort (argint a.dport)) with ⟨h0, -⟩ | ⟨hm, -⟩
      · exact absurd (hq ▸ h0) hq0
      · exact hq ▸ hm
    obtain ⟨hns, -⟩ := h.dequeue_rep hmem hc
    have hhmem : (s.pq q).head ∈ nodes q := by
      rw [hns]
      exact List.mem_cons_self ..
    have hpkt := dequeue_pkt (s := s) (h.pq_ne_node hmem hmem hhmem).symm
    have hbytes : (dequeue s q).1.bytes (s.pkt (s.pq q).head).fullbuf =
        s.bytes (s.pkt (s.pq q).head).fullbuf :=
      bytes_setPage_ne _ (h.fullbuf_ne hmem hhmem (List.mem_append_left _ hmem))
    have hphys : (dequeue s q).1.phys = s.phys := rfl
    rcases recvCopy_result (dequeue s q).1 pgdir (argaddr a.src) (argaddr a.sport)
        (argaddr a.buf) (argint a.maxlen) (s.pq q).head with h1 | ⟨h1, h2⟩
    · left
      rw [← h1, ← e]
    · right
      have hr' : r = tocpy (s.pkt (s.pq q).head).payloadLen (argint a.maxlen) := by
        rw [← hpkt, ← h1, ← e]
      have hs' : s'.phys = (recvCopy (dequeue s q).1 pgdir (argaddr a.src) (argaddr a.sport)
          (argaddr a.buf) (argint a.maxlen) (s.pq q).head).1.phys := by
        rw [← e]
      have hle : (tocpy (s.pkt (s.pq q).head).payloadLen (argint a.maxlen)).toNat ≤ 1500 := by
        rw [tocpy_eq]
        omega
      refine ⟨hr', ?_⟩
      rw [hs', h2, hpkt, hbytes, hphys, hr']
      simp only [datagramOf, slice_take _ _ hle]

/-- `udpPing` with the payload "pong". -/
def udpPong : List UInt8 :=
  udpPing.take 42 ++ [0x70, 0x6f, 0x6e, 0x67]

/-- `recv(2000, 0, 0, 0, 0)`. -/
def recvPort2000 : RecvArgs :=
  { recvAlias with dport := 2000 }

/-- A datagram to port 2000 is popped by `recv(67536)`; the `recv(2000)` calls
then get only the second one.  The second frame lands in the page freed with
the first, filled with junk beyond the frame.  In every state `recv(67536)`
does what `recv(2000)` does. -/
theorem recvAlias_steals_datagram :
    (run netStep bootThree
        [.bind 2000, .frame udpPing, .recv 0 recvAlias, .frame udpPong, .recv 0 recvPort2000]).2 =
      [.returned 0,
        .accepted 2000 ⟨0x0A000202, 25000, 4, [0x70, 0x69, 0x6e, 0x67] ++ List.replicate 1496 0⟩,
        .dequeued 2000 ⟨0x0A000202, 25000, 4, [0x70, 0x69, 0x6e, 0x67] ++ List.replicate 1496 0⟩,
        .returned (-1),
        .accepted 2000 ⟨0x0A000202, 25000, 4, [0x70, 0x6f, 0x6e, 0x67] ++ List.replicate 1496 1⟩,
        .dequeued 2000 ⟨0x0A000202, 25000, 4, [0x70, 0x6f, 0x6e, 0x67] ++ List.replicate 1496 1⟩,
        .returned (-1)] ∧
      ∀ (s : NetState) (pgdir : Nat), sysRecv s pgdir recvAlias = sysRecv s pgdir recvPort2000 := by
  refine ⟨by decide +kernel, ?_⟩
  intro s pgdir
  exact sysRecv_67536 s pgdir recvAlias

end Net
end Xv6Net
