import Xv6Net.Net.Ownership

/-!
# The port-queue store over whole runs

`PortStoreWF` states, in the terms of the C structures, what the receive store
of `net.c` looks like between two steps: the records on `port_list` have
distinct ports, so that `find_port_queue` finds the record of a bound port and
null for any other; and every queue is a null-terminated chain of `count`
distinct `udp_pkt` nodes from `head`, whose last node is `tail` and has a null
`next`, with `head`, `tail` and `count` null or zero together and
`0 ≤ count ≤ MAX_QUEUED_PER_PORT`.

Between two steps the running code holds no page, so the invariant carried by
the runs is `StoreRep s pqs nodes []` for some ghost lists; `netStep_rep` is the
step lemma, `storeRep_wf` reads `PortStoreWF` off it.

**Results.**
* `netStep_rep`: every step of the network stack keeps the invariant.
* `portStore_invariant`: after boot and any run, the store is well formed.
-/

namespace Xv6Net
namespace Net

open Lib E1000 Vm NetState

/-- One queue as the C code sees it, with `ns` the nodes reachable from
`head`. -/
structure QueueWF (s : NetState) (q : PortQueue) (ns : List Addr) : Prop where
  chain : ListSeg (pktNext s) 0 q.head ns 0
  acyclic : ns.Nodup
  count_eq : q.count = ns.length
  tail_last : q.tail = ns.getLastD 0
  tail_next : q.tail ≠ 0 → s.pktAt q.tail = some (s.pkt q.tail) ∧ (s.pkt q.tail).next = 0
  head_iff_tail : q.head = 0 ↔ q.tail = 0
  tail_iff_count : q.tail = 0 ↔ q.count = 0
  count_bounds : 0 ≤ q.count ∧ q.count ≤ MAX_QUEUED_PER_PORT

/-- The store as the C code sees it, with `pqs` the records reachable from
`port_list` and `nodes a` the nodes of the queue at `a`. -/
structure PortStoreWF (s : NetState) (pqs : List Addr) (nodes : Addr → List Addr) : Prop where
  records : ListSeg (pqNext s) 0 s.portList pqs 0
  ports_distinct : (pqs.map fun a => (s.pq a).port).Nodup
  find_bound : ∀ a ∈ pqs, findPortQueue s (s.pq a).port = a
  find_unbound : ∀ port : UInt16, (∀ a ∈ pqs, (s.pq a).port ≠ port) → findPortQueue s port = 0
  queues : ∀ a ∈ pqs, QueueWF s (s.pq a) (nodes a)

/-- The C-level facts of one represented queue. -/
theorem QueueRep.wf {s : NetState} {q : PortQueue} {ns : List Addr} (hq : QueueRep s q ns) :
    QueueWF s q ns := by
  have hnil : ns = [] ↔ q.head = 0 := hq.seg.eq_nil_iff
  have htail : q.tail = 0 ↔ ns = [] := by
    rcases hq.tail_cases with ⟨hns, h0⟩ | ⟨L, hL⟩
    · exact ⟨fun _ => hns, fun _ => h0⟩
    · have ht0 : q.tail ≠ 0 := (hq.seg.mem_node (by rw [hL]; simp)).1
      exact ⟨fun h0 => absurd h0 ht0, fun hns => by simp [hL] at hns⟩
  refine ⟨hq.seg, hq.seg.nodup, hq.count_eq, hq.tail_eq, ?_, ?_, ?_, ?_⟩
  · intro ht0
    obtain ⟨L, hL⟩ := hq.tail_cases.resolve_left fun h => ht0 h.2
    have hlink := (hL ▸ hq.seg).last_link
    cases hp : s.pktAt q.tail with
    | none => simp [pktNext, hp] at hlink
    | some p => simp_all [pktNext, NetState.pkt]
  · rw [← hnil, htail]
  · rw [htail, hq.count_eq]
    simp
  · have := hq.length_le
    rw [hq.count_eq, MAX_QUEUED_PER_PORT]
    omega

namespace StoreRep

variable {s : NetState} {pqs : List Addr} {nodes : Addr → List Addr} {held : List Addr}

/-- A represented queue is empty exactly when its count is zero. -/
theorem nodes_eq_nil_iff (h : StoreRep s pqs nodes held) {pq : Addr} (hpq : pq ∈ pqs) :
    nodes pq = [] ↔ (s.pq pq).count = 0 := by
  rw [(h.queues pq hpq).count_eq]
  simp

/-- The representation invariant gives the C-level description. -/
theorem wf (h : StoreRep s pqs nodes held) : PortStoreWF s pqs nodes where
  records := h.plist
  ports_distinct := h.ports
  find_bound := fun _ ha => h.findPortQueue_of_mem ha
  find_unbound := fun port hnone => by
    rcases h.findPortQueue_cases port with ⟨h0, -⟩ | ⟨hm, hport⟩
    · exact h0
    · exact absurd hport (hnone _ hm)
  queues := fun a ha => (h.queues a ha).wf

end StoreRep

/-- The transmit ring holds no buffer after `e1000_init`. -/
theorem txPages_txInit : txPages txInit = [] := by
  simp [txPages, txInit]

/-- The free list built by `kinit` is the only owner after boot. -/
theorem boot_rep {freelist : List Addr} (hnd : freelist.Nodup) (h0 : 0 ∉ freelist)
    (mem : Addr → Page) (phys : PhysMem) :
    StoreRep (boot freelist mem phys) [] (fun _ => []) [] := by
  have howned : owned (boot freelist mem phys) [] (fun _ => []) [] = freelist := by
    simp [owned, storePages, boot, txPages_txInit]
  refine ⟨.nil 0, List.nodup_nil, by simp, ?_, ?_⟩
  · rw [howned]
    exact hnd
  · rw [howned]
    exact h0

/-- The step lemma: with no page held between steps, every step of the network
stack keeps the invariant, for some new ghost lists. -/
theorem netStep_rep {s : NetState} {pqs : List Addr} {nodes : Addr → List Addr}
    (h : StoreRep s pqs nodes []) (l : NetLabel) :
    ∃ pqs' nodes', StoreRep (netStep s l).1 pqs' nodes' [] := by
  cases hp : s.panicked
  case true => exact ⟨pqs, nodes, by rw [netStep_panicked hp]; exact h⟩
  case false =>
    cases l with
    | bind a =>
        rcases hr : sysBind s a with ⟨s', r⟩
        rw [netStep_bind hp hr]
        rcases h.sysBind_rep a with hs | ⟨pq, h'⟩
        · rw [hr] at hs
          exact ⟨pqs, nodes, by rw [hs]; exact h⟩
        · rw [hr] at h'
          exact ⟨pq :: pqs, _, h'⟩
    | frame f =>
        rcases hr : deliver s f with ⟨s', woken⟩
        rw [netStep_frame hp hr]
        have h' := (h.deliver_rep f).2
        rw [hr] at h'
        exact ⟨pqs, _, h'⟩
    | recv pgdir a =>
        cases hr : sysRecv s pgdir a with
        | none => exact ⟨pqs, nodes, by rw [netStep_recv_none hp hr]; exact h⟩
        | some r =>
            obtain ⟨s', ret⟩ := r
            rw [netStep_recv_some hp hr]
            rcases h.sysRecv_rep hr with ⟨-, hs⟩ | ⟨-, h'⟩
            · obtain ⟨rfl, -⟩ := Prod.mk.inj hs
              exact ⟨pqs, nodes, h⟩
            · exact ⟨pqs, _, h'⟩
    | send pgdir a =>
        rcases hr : sysSend s pgdir a with ⟨s', r⟩
        rw [netStep_send hp hr]
        have h' := h.sysSend_rep pgdir a
        rw [hr] at h'
        exact ⟨pqs, nodes, h'⟩
    | nic =>
        cases hn : nicTransmit s.tx with
        | none => exact ⟨pqs, nodes, by rw [netStep_nic_none hp hn]; exact h⟩
        | some r =>
            obtain ⟨tx', d⟩ := r
            rw [netStep_nic_some hp hn]
            refine ⟨pqs, nodes, h.of_state_eq rfl rfl rfl ?_⟩
            simp [txPages, nicTransmit_txBufs hn]

/-- The receive store is well formed after boot and after any run of the
network stack: any interleaving of `sys_bind`, frame deliveries through
`net_rx`, `sys_recv`, `sys_send` and NIC steps. -/
theorem portStore_invariant (freelist : List Addr) (mem : Addr → Page) (phys : PhysMem)
    (hnd : freelist.Nodup) (h0 : 0 ∉ freelist) (ls : List NetLabel) :
    ∃ pqs nodes, PortStoreWF (run netStep (boot freelist mem phys) ls).1 pqs nodes := by
  have hrun := run_invariant netStep (fun s => ∃ pqs nodes, StoreRep s pqs nodes [])
    (fun _ l ⟨_, _, h⟩ => netStep_rep h l) ls (boot freelist mem phys)
    ⟨[], fun _ => [], boot_rep hnd h0 mem phys⟩
  obtain ⟨pqs, nodes, h⟩ := hrun
  exact ⟨pqs, nodes, h.wf⟩

/-- A run that binds a port and delivers a datagram to it. -/
theorem portStore_invariant_bind_frame :
    (([8192, 12288, 16384] : List Addr).Nodup ∧ 0 ∉ ([8192, 12288, 16384] : List Addr)) ∧
      ∃ pqs nodes, PortStoreWF (run netStep (boot [8192, 12288, 16384]
        (fun _ => .raw fun _ => 0) (fun _ => 0)) [.bind 2000, .frame (List.replicate 60 0)]).1
        pqs nodes :=
  ⟨⟨by decide, by decide⟩, portStore_invariant _ _ _ (by decide) (by decide) _⟩

end Net
end Xv6Net
