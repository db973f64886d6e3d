import Xv6Net.Net.Spec

/-!
# The representation invariant of the receive store

`StoreRep s pqs nodes held` ties the pointer structure of `net.c` to ghost
lists: `pqs` are the `struct port_queue` records of `port_list`, in order, and
`nodes a` are the `struct udp_pkt` nodes of the queue at `a`, from head to
tail.  `held` are the pages the running code holds in local variables (a frame
being dispatched, a node not yet linked, a reply being sent).

Besides the shape of each list, the invariant says that every page has at most
one owner: the free list, the running code, a transmit slot, a queue record, a
queue node, or the frame held by a node (`owned` has no duplicates), and that
no owner holds the null page.

This module proves the frame rules for the allocator and for stores into a
held page, and the specification of `find_port_queue`.
-/

namespace Xv6Net
namespace Net

open Lib E1000 NetState

/-- The links of the port-queue records. -/
def pqNext (s : NetState) (a : Addr) : Option Addr :=
  (s.pqAt a).map PortQueue.next

/-- The links of the packet nodes. -/
def pktNext (s : NetState) (a : Addr) : Option Addr :=
  (s.pktAt a).map UdpPkt.next

/-- The pages held by the transmit ring: the non-null `tx_bufs` slots. -/
def txPages (t : TxState) : List Addr :=
  ((List.range TX_RING_SIZE).map t.txBufs).filter (· ≠ 0)

/-- One queue: its nodes from `head`, linked up to null, counted by `count`,
the last one at `tail`, at most `MAX_QUEUED_PER_PORT` of them. -/
structure QueueRep (s : NetState) (q : PortQueue) (ns : List Addr) : Prop where
  seg : ListSeg (pktNext s) 0 q.head ns 0
  count_eq : q.count = ns.length
  tail_eq : q.tail = ns.getLastD 0
  length_le : ns.length ≤ 16

/-- The pages of the receive store: records, nodes, and the frames of the
nodes. -/
def storePages (s : NetState) (pqs : List Addr) (nodes : Addr → List Addr) : List Addr :=
  pqs ++ pqs.flatMap nodes ++ (pqs.flatMap nodes).map fun n => (s.pkt n).fullbuf

/-- Every page the network code owns, listed once per owner. -/
def owned (s : NetState) (pqs : List Addr) (nodes : Addr → List Addr) (held : List Addr) :
    List Addr :=
  s.freelist ++ held ++ txPages s.tx ++ storePages s pqs nodes

/-- The representation invariant of the receive store. -/
structure StoreRep (s : NetState) (pqs : List Addr) (nodes : Addr → List Addr)
    (held : List Addr) : Prop where
  plist : ListSeg (pqNext s) 0 s.portList pqs 0
  ports : (pqs.map fun a => (s.pq a).port).Nodup
  queues : ∀ a ∈ pqs, QueueRep s (s.pq a) (nodes a)
  nodup : (owned s pqs nodes held).Nodup
  nonnull : 0 ∉ owned s pqs nodes held

theorem ne_of_nodup_append {α : Type} {l₁ l₂ : List α} {a b : α}
    (h : (l₁ ++ l₂).Nodup) (ha : a ∈ l₁) (hb : b ∈ l₂) : a ≠ b :=
  (List.nodup_append.mp h).2.2 a ha b hb

namespace StoreRep

variable {s : NetState} {pqs : List Addr} {nodes : Addr → List Addr} {held : List Addr}

theorem held_ne_store (h : StoreRep s pqs nodes held) {a b : Addr} (ha : a ∈ held)
    (hb : b ∈ storePages s pqs nodes) : a ≠ b :=
  ne_of_nodup_append h.nodup (by simp [ha]) hb

theorem mem_store_of_pq {a : Addr} (ha : a ∈ pqs) : a ∈ storePages s pqs nodes := by
  simp [storePages, ha]

theorem mem_store_of_node {a n : Addr} (ha : a ∈ pqs) (hn : n ∈ nodes a) :
    n ∈ storePages s pqs nodes := by
  simp only [storePages, List.mem_append, List.mem_flatMap]
  exact .inl (.inr ⟨a, ha, hn⟩)

theorem mem_store_of_fullbuf {a n : Addr} (ha : a ∈ pqs) (hn : n ∈ nodes a) :
    (s.pkt n).fullbuf ∈ storePages s pqs nodes := by
  simp only [storePages, List.mem_append, List.mem_map, List.mem_flatMap]
  exact .inr ⟨n, ⟨a, ha, hn⟩, rfl⟩

/-- The queues only read the records and nodes they contain. -/
theorem queueRep_congr {s' : NetState} {q : PortQueue} {ns : List Addr}
    (hq : QueueRep s q ns) (hn : ∀ n ∈ ns, s'.pktAt n = s.pktAt n) : QueueRep s' q ns where
  seg := hq.seg.congr fun n hmem => by simp [pktNext, hn n hmem]
  count_eq := hq.count_eq
  tail_eq := hq.tail_eq
  length_le := hq.length_le

/-- The shape of the store only depends on the memory and on `port_list`. -/
theorem of_mem_eq (h : StoreRep s pqs nodes held) {s' : NetState} {held' : List Addr}
    (hm : s'.mem = s.mem) (hpl : s'.portList = s.portList)
    (hperm : List.Perm (owned s' pqs nodes held') (owned s pqs nodes held)) :
    StoreRep s' pqs nodes held' := by
  have hpqAt : ∀ a, s'.pqAt a = s.pqAt a := fun a => by simp [pqAt, hm]
  have hpq : ∀ a, s'.pq a = s.pq a := fun a => by simp [pq, hpqAt]
  refine ⟨?_, ?_, ?_, hperm.nodup_iff.mpr h.nodup, fun h0 => h.nonnull (hperm.mem_iff.mp h0)⟩
  · rw [hpl]
    exact h.plist.congr fun b _ => by simp [pqNext, hpqAt]
  · simpa only [hpq] using h.ports
  · intro b hb
    rw [hpq]
    exact queueRep_congr (h.queues b hb) fun n _ => by simp [pktAt, hm]

/-- A store into a page the running code holds leaves the store as it is. -/
theorem setPage_held (h : StoreRep s pqs nodes held) {a : Addr} (ha : a ∈ held) (p : Page) :
    StoreRep (s.setPage a p) pqs nodes held := by
  have hpq : ∀ b ∈ pqs, b ≠ a := fun b hb => (h.held_ne_store ha (mem_store_of_pq hb)).symm
  have hnode : ∀ b ∈ pqs, ∀ n ∈ nodes b, n ≠ a :=
    fun b hb n hn => (h.held_ne_store ha (mem_store_of_node hb hn)).symm
  have hstore : storePages (s.setPage a p) pqs nodes = storePages s pqs nodes := by
    simp only [storePages]
    congr 1
    apply List.map_congr_left
    intro n hn
    obtain ⟨b, hb, hn'⟩ := List.mem_flatMap.mp hn
    rw [pkt_setPage_ne p (hnode b hb n hn')]
  have howned : owned (s.setPage a p) pqs nodes held = owned s pqs nodes held := by
    simp only [owned, setPage_freelist, setPage_tx, hstore]
  refine ⟨?_, ?_, ?_, howned ▸ h.nodup, howned ▸ h.nonnull⟩
  · exact h.plist.congr fun b hb => by simp [pqNext, pqAt_setPage_ne p (hpq b hb)]
  · rw [List.map_congr_left fun b hb => by rw [pq_setPage_ne p (hpq b hb)]]
    exact h.ports
  · intro b hb
    rw [pq_setPage_ne p (hpq b hb)]
    exact queueRep_congr (h.queues b hb) fun n hn => pktAt_setPage_ne p (hnode b hb n hn)

/-- `kalloc` moves the head of the free list to the running code. -/
theorem kalloc_ok (h : StoreRep s pqs nodes held) {a : Addr} {s' : NetState}
    (hk : kalloc s = (a, s')) (ha : a ≠ 0) : StoreRep s' pqs nodes (a :: held) := by
  rcases kalloc_cases s with ⟨_, hk'⟩ | ⟨b, rest, hfl, hk'⟩
  · rw [hk'] at hk
    exact absurd (Prod.mk.inj hk).1.symm ha
  · rw [hk'] at hk
    obtain ⟨rfl, rfl⟩ := Prod.mk.inj hk
    have hperm : List.Perm (owned { s with freelist := rest } pqs nodes (b :: held))
        (owned s pqs nodes held) := by
      have h1 : List.Perm (rest ++ b :: held) (s.freelist ++ held) := by
        rw [hfl]
        exact List.perm_middle
      exact (h1.append_right _).append_right _
    exact h.of_mem_eq rfl rfl hperm

theorem kalloc_eq_zero {a : Addr} {s' : NetState} (hk : kalloc s = (a, s')) (ha : a = 0)
    (h : StoreRep s pqs nodes held) : s' = s := by
  rcases kalloc_cases s with ⟨_, hk'⟩ | ⟨b, rest, hfl, hk'⟩
  · rw [hk'] at hk
    exact (Prod.mk.inj hk).2.symm
  · rw [hk'] at hk
    obtain ⟨rfl, rfl⟩ := Prod.mk.inj hk
    exact absurd (by simp [owned, hfl, ha]) h.nonnull

/-- `kfree` moves a page of the running code to the free list. -/
theorem kfree_held (h : StoreRep s pqs nodes held) {v : Addr} (hv : v ∈ held) :
    StoreRep (kfree s v) pqs nodes (held.erase v) := by
  have h' := h.setPage_held hv (.raw (memsetPage 1))
  have h1 : List.Perm (v :: s.freelist ++ held.erase v) (s.freelist ++ held) :=
    List.perm_middle.symm.trans ((List.perm_cons_erase hv).symm.append_left _)
  have hperm : List.Perm (owned (kfree s v) pqs nodes (held.erase v))
      (owned (s.setPage v (.raw (memsetPage 1))) pqs nodes held) :=
    (h1.append_right _).append_right _
  exact h'.of_mem_eq rfl rfl hperm

/-- A page the running code drops without freeing it leaves every owner. -/
theorem forget (h : StoreRep s pqs nodes held) (v : Addr) :
    StoreRep s pqs nodes (held.erase v) := by
  have hsub : List.Sublist (owned s pqs nodes (held.erase v)) (owned s pqs nodes held) :=
    (((List.erase_sublist).append_left _).append_right _).append_right _
  exact ⟨h.plist, h.ports, h.queues, h.nodup.sublist hsub, fun h0 => h.nonnull (hsub.subset h0)⟩

/-- A record on `port_list` is a `struct port_queue`. -/
theorem pqAt_of_mem (h : StoreRep s pqs nodes held) {a : Addr} (ha : a ∈ pqs) :
    s.pqAt a = some (s.pq a) := by
  obtain ⟨-, b, hb⟩ := h.plist.mem_node ha
  cases hq : s.pqAt a with
  | none => simp [pqNext, hq] at hb
  | some q => simp [pq, hq]

/-- Distinct ports: at most 65536 records. -/
theorem length_le (h : StoreRep s pqs nodes held) : pqs.length ≤ 65536 := by
  have hnd : ((pqs.map fun a => (s.pq a).port).map UInt16.toNat).Nodup :=
    h.ports.map fun _ _ hxy => UInt16.toNat_inj.mp hxy
  have hsub : (pqs.map fun a => (s.pq a).port).map UInt16.toNat ⊆ List.range 65536 := by
    intro n hn
    obtain ⟨x, -, rfl⟩ := List.mem_map.mp hn
    exact List.mem_range.mpr x.toNat_lt
  simpa using List.Nodup.length_le_of_subset hnd hsub

/-- The search never runs out of its bound: it returns the first record of
the port, or null. -/
theorem findPortQueue_eq (h : StoreRep s pqs nodes held) (port : UInt16) :
    findPortQueue s port = (pqs.find? fun a => (s.pqAt a).any fun q => q.port == port).getD 0 :=
  seek_eq _ 65536 h.plist h.length_le

/-- `find_port_queue` returns the record of the port, if one is bound. -/
theorem findPortQueue_cases (h : StoreRep s pqs nodes held) (port : UInt16) :
    (findPortQueue s port = 0 ∧ ∀ a ∈ pqs, (s.pq a).port ≠ port) ∨
      (findPortQueue s port ∈ pqs ∧ (s.pq (findPortQueue s port)).port = port) := by
  rw [h.findPortQueue_eq port]
  cases hf : pqs.find? (fun a => (s.pqAt a).any fun q => q.port == port) with
  | none =>
      refine .inl ⟨rfl, fun a ha hport => ?_⟩
      have := List.find?_eq_none.mp hf a ha
      simp [h.pqAt_of_mem ha, hport] at this
  | some a =>
      have ha := List.mem_of_find?_eq_some hf
      have hhit := List.find?_some hf
      simp only [h.pqAt_of_mem ha, Option.any_some, beq_iff_eq] at hhit
      exact .inr ⟨ha, hhit⟩

/-- A bound port is found at its own record. -/
theorem findPortQueue_of_mem (h : StoreRep s pqs nodes held) {a : Addr} (ha : a ∈ pqs) :
    findPortQueue s (s.pq a).port = a := by
  rcases h.findPortQueue_cases (s.pq a).port with ⟨_, hnone⟩ | ⟨hmem, hport⟩
  · exact absurd rfl (hnone a ha)
  · exact List.inj_on_of_nodup_map h.ports hmem ha hport

end StoreRep

end Net
end Xv6Net
