import Xv6Net.Net.StoreRep

/-!
# The store operations keep the representation invariant

For each way `net.c` changes the receive store, the new state satisfies
`StoreRep` again, with the ghost lists changed as the operation intends:

* `bind_rep`: a new empty queue at the front of `port_list`;
* `linkTail_rep`: a node appended behind the tail of one queue, its frame
  with it;
* `dequeue_rep`: the head node of one queue removed, with its frame, into the
  hands of the running code.

Every other queue keeps its nodes, and every node keeps its record except for
the link of the old tail.
-/

namespace Xv6Net
namespace Net

open Lib E1000 NetState

/-- In a family of lists with no repetition overall, different indices have
disjoint lists. -/
theorem disjoint_of_nodup_flatMap {α β : Type} {l : List α} {f : α → List β}
    (h : (l.flatMap f).Nodup) (hl : l.Nodup) {a b : α} (ha : a ∈ l) (hb : b ∈ l) (hab : a ≠ b)
    {x : β} (hxa : x ∈ f a) (hxb : x ∈ f b) : False := by
  induction l with
  | nil => simp at ha
  | cons c l ih =>
      rw [List.flatMap_cons] at h
      obtain ⟨hc, hl'⟩ := List.nodup_cons.mp hl
      have hdis := fun y (hy : y ∈ f c) (hy' : y ∈ l.flatMap f) => ne_of_nodup_append h hy hy' rfl
      rcases List.mem_cons.mp ha with rfl | ha'
      · exact hdis x hxa (List.mem_flatMap.mpr ⟨b, (List.mem_cons.mp hb).resolve_left
          (Ne.symm hab), hxb⟩)
      · rcases List.mem_cons.mp hb with rfl | hb'
        · exact hdis x hxb (List.mem_flatMap.mpr ⟨a, ha', hxa⟩)
        · exact ih (List.nodup_append.mp h).2.1 hl' ha' hb'

/-- Replacing one list of a family, at an index that occurs once. -/
theorem flatMap_update_perm {α β : Type} [DecidableEq α] [DecidableEq β] {l : List α} (hl : l.Nodup) {a : α}
    (ha : a ∈ l) (f : α → List β) (g : List β) :
    List.Perm (l.flatMap (Function.update f a g) ++ f a) (l.flatMap f ++ g) := by
  induction l with
  | nil => simp at ha
  | cons b l ih =>
      obtain ⟨hb, hl'⟩ := List.nodup_cons.mp hl
      by_cases hab : b = a
      · subst hab
        have hrest : l.flatMap (Function.update f b g) = l.flatMap f :=
          List.flatMap_congr fun x hx => Function.update_of_ne (fun (hxb : x = b) => hb (hxb ▸ hx)) _ _
        simp only [List.flatMap_cons, Function.update_self, hrest, List.append_assoc]
        rw [List.perm_iff_count]
        intro e
        simp only [List.count_append]
        omega
      · have ha' : a ∈ l := (List.mem_cons.mp ha).resolve_left (Ne.symm hab)
        simp only [List.flatMap_cons, Function.update_of_ne hab, List.append_assoc]
        exact (ih hl' ha').append_left _

/-- One list of the family grows at its end. -/
theorem flatMap_update_append {α β : Type} [DecidableEq α] [DecidableEq β] {l : List α}
    (hl : l.Nodup) {a : α} (ha : a ∈ l) (f : α → List β) (g : List β) :
    List.Perm (l.flatMap (Function.update f a (f a ++ g))) (l.flatMap f ++ g) := by
  have h := flatMap_update_perm hl ha f (f a ++ g)
  rw [List.perm_iff_count] at h ⊢
  intro e
  have he := h e
  simp only [List.count_append] at he ⊢
  omega

/-- One list of the family loses its first element. -/
theorem flatMap_update_tail {α β : Type} [DecidableEq α] [DecidableEq β] {l : List α}
    (hl : l.Nodup) {a : α} (ha : a ∈ l) {f : α → List β} {x : β} {t : List β}
    (hf : f a = x :: t) :
    List.Perm (l.flatMap f) (x :: l.flatMap (Function.update f a t)) := by
  have h := flatMap_update_perm hl ha f t
  rw [List.perm_iff_count] at h ⊢
  intro e
  have he := h e
  simp only [List.count_append, hf, List.count_cons] at he ⊢
  omega

namespace StoreRep

variable {s : NetState} {pqs : List Addr} {nodes : Addr → List Addr} {held : List Addr}

theorem store_nodup (h : StoreRep s pqs nodes held) : (storePages s pqs nodes).Nodup :=
  h.nodup.sublist (List.sublist_append_right _ _)

theorem pqs_nodup (h : StoreRep s pqs nodes held) : pqs.Nodup :=
  h.plist.nodup

theorem nodes_nodup (h : StoreRep s pqs nodes held) : (pqs.flatMap nodes).Nodup :=
  (List.nodup_append.mp (List.nodup_append.mp h.store_nodup).1).2.1

theorem ne_zero_of_store (h : StoreRep s pqs nodes held) {x : Addr}
    (hx : x ∈ storePages s pqs nodes) : x ≠ 0 := by
  rintro rfl
  exact h.nonnull (by simp only [owned, List.mem_append]; exact .inr hx)

theorem ne_zero_of_held (h : StoreRep s pqs nodes held) {x : Addr} (hx : x ∈ held) : x ≠ 0 := by
  rintro rfl
  exact h.nonnull (by simp [owned, hx])

theorem pq_ne_node (h : StoreRep s pqs nodes held) {a b n : Addr} (ha : a ∈ pqs) (hb : b ∈ pqs)
    (hn : n ∈ nodes b) : a ≠ n :=
  ne_of_nodup_append (List.nodup_append.mp h.store_nodup).1 ha (List.mem_flatMap.mpr ⟨b, hb, hn⟩)

theorem node_not_other (h : StoreRep s pqs nodes held) {a b n : Addr} (ha : a ∈ pqs)
    (hb : b ∈ pqs) (hab : a ≠ b) (hn : n ∈ nodes a) : n ∉ nodes b :=
  fun hn' => disjoint_of_nodup_flatMap h.nodes_nodup h.pqs_nodup ha hb hab hn hn'

theorem held_ne_node (h : StoreRep s pqs nodes held) {x b n : Addr} (hx : x ∈ held)
    (hb : b ∈ pqs) (hn : n ∈ nodes b) : x ≠ n :=
  h.held_ne_store hx (mem_store_of_node hb hn)

theorem held_nodup (h : StoreRep s pqs nodes held) : held.Nodup :=
  (List.nodup_append.mp (List.nodup_append.mp (List.nodup_append.mp h.nodup).1).1).2.1

/-- A queue's nodes are `struct udp_pkt` pages. -/
theorem pktAt_of_node (h : StoreRep s pqs nodes held) {b n : Addr} (hb : b ∈ pqs)
    (hn : n ∈ nodes b) : s.pktAt n = some (s.pkt n) := by
  obtain ⟨-, c, hc⟩ := (h.queues b hb).seg.mem_node hn
  cases hp : s.pktAt n with
  | none => simp [pktNext, hp] at hc
  | some p => simp [pkt, hp]

/-- The store only reads the `fullbuf` field of its nodes. -/
theorem storePages_congr {s' : NetState}
    (hf : ∀ n ∈ pqs.flatMap nodes, (s'.pkt n).fullbuf = (s.pkt n).fullbuf) :
    storePages s' pqs nodes = storePages s pqs nodes := by
  simp only [storePages, List.map_congr_left hf]

/-- A change confined to the queue at `pq`: every record keeps its link and its
port, every other queue keeps its record and its nodes. -/
theorem modify (h : StoreRep s pqs nodes held) {s' : NetState} {pq : Addr} {ns : List Addr}
    {held' : List Addr} (hpl : s'.portList = s.portList)
    (hrec : ∀ b ∈ pqs, pqNext s' b = pqNext s b ∧ (s'.pq b).port = (s.pq b).port)
    (hother : ∀ b ∈ pqs, b ≠ pq → s'.pq b = s.pq b ∧ ∀ n ∈ nodes b, s'.pktAt n = s.pktAt n)
    (hq : QueueRep s' (s'.pq pq) ns)
    (hperm : List.Perm (owned s' pqs (Function.update nodes pq ns) held')
      (owned s pqs nodes held)) :
    StoreRep s' pqs (Function.update nodes pq ns) held' where
  plist := by
    rw [hpl]
    exact h.plist.congr fun b hb => (hrec b hb).1
  ports := by
    rw [List.map_congr_left fun b hb => (hrec b hb).2]
    exact h.ports
  queues := by
    intro b hb
    by_cases hbpq : b = pq
    · subst hbpq
      simpa using hq
    · obtain ⟨hpq', hnodes⟩ := hother b hb hbpq
      rw [Function.update_of_ne hbpq, hpq']
      exact queueRep_congr (h.queues b hb) hnodes
  nodup := hperm.nodup_iff.mpr h.nodup
  nonnull := fun h0 => h.nonnull (hperm.mem_iff.mp h0)

/-- A fresh record at the front of `port_list`, as `sys_bind` links it: an
empty queue for a port no record has. -/
theorem push (h : StoreRep s pqs nodes held) {pq : Addr} {q : PortQueue} (hpq : pq ∈ held)
    (hq : s.pqAt pq = some q) (hhead : q.head = 0) (htail : q.tail = 0) (hcount : q.count = 0)
    (hnext : q.next = s.portList) (hport : ∀ b ∈ pqs, (s.pq b).port ≠ q.port) :
    StoreRep { s with portList := pq } (pq :: pqs) (Function.update nodes pq [])
      (held.erase pq) := by
  have hpq0 : pq ≠ 0 := h.ne_zero_of_held hpq
  have hfresh : pq ∉ pqs := fun hmem => h.held_ne_store hpq (mem_store_of_pq hmem) rfl
  have hne : ∀ b ∈ pqs, b ≠ pq := fun b hb hbpq => hfresh (hbpq ▸ hb)
  have hflat : (pq :: pqs).flatMap (Function.update nodes pq []) = pqs.flatMap nodes := by
    simp only [List.flatMap_cons, Function.update_self, List.nil_append]
    exact List.flatMap_congr fun b hb => Function.update_of_ne (hne b hb) _ _
  have hm : ({ s with portList := pq } : NetState).mem = s.mem := rfl
  have hperm : List.Perm (owned { s with portList := pq } (pq :: pqs)
      (Function.update nodes pq []) (held.erase pq)) (owned s pqs nodes held) := by
    have hh := List.perm_cons_erase hpq
    rw [List.perm_iff_count] at hh ⊢
    intro e
    have he := hh e
    simp only [owned, storePages, hflat, pkt_congr hm, List.cons_append, List.count_append,
      List.count_cons] at he ⊢
    omega
  refine ⟨?_, ?_, ?_, hperm.nodup_iff.mpr h.nodup, fun h0 => h.nonnull (hperm.mem_iff.mp h0)⟩
  · exact .cons hpq0 (by simp [pqNext, pqAt_congr hm, hq, hnext])
      (h.plist.congr fun b _ => by simp [pqNext, pqAt_congr hm])
  · simp only [pq_congr hm]
    rw [List.map_cons, pq_of_pqAt hq]
    exact List.nodup_cons.mpr ⟨fun hmem => by
      obtain ⟨b, hb, hbport⟩ := List.mem_map.mp hmem
      exact hport b hb hbport, h.ports⟩
  · intro b hb
    rcases List.mem_cons.mp hb with rfl | hb'
    · rw [Function.update_self, pq_congr hm, pq_of_pqAt hq]
      exact ⟨by rw [hhead]; exact .nil 0, by simp [hcount], by simp [htail], by simp⟩
    · rw [Function.update_of_ne (hne b hb'), pq_congr hm]
      exact queueRep_congr (h.queues b hb') fun n _ => pktAt_congr hm n

end StoreRep

/-- The tail of a represented queue: null when it is empty, its last node
otherwise. -/
theorem QueueRep.tail_cases {s : NetState} {q : PortQueue} {ns : List Addr}
    (hq : QueueRep s q ns) :
    (ns = [] ∧ q.tail = 0) ∨ ∃ L, ns = L ++ [q.tail] := by
  rcases List.eq_nil_or_concat ns with rfl | ⟨L, t, rfl⟩
  · exact .inl ⟨rfl, by simpa using hq.tail_eq⟩
  · refine .inr ⟨L, ?_⟩
    rw [hq.tail_eq, List.concat_eq_append, List.getLastD_concat]

section LinkTail

variable {s : NetState} {pq pkt : Addr}

@[simp] theorem linkTail_portList : (linkTail s pq pkt).portList = s.portList := by
  simp only [linkTail]
  split <;> rfl

@[simp] theorem linkTail_freelist : (linkTail s pq pkt).freelist = s.freelist := by
  simp only [linkTail]
  split <;> rfl

@[simp] theorem linkTail_tx : (linkTail s pq pkt).tx = s.tx := by
  simp only [linkTail]
  split <;> rfl

/-- The record of the queue after the append: the new node is the tail, and
also the head if the queue was empty. -/
theorem linkTail_pqAt_self :
    (linkTail s pq pkt).pqAt pq = some { s.pq pq with
      head := if (s.pq pq).tail ≠ 0 then (s.pq pq).head else pkt,
      tail := pkt, count := (s.pq pq).count + 1 } := by
  simp only [linkTail]
  split <;> simp_all

theorem linkTail_pq_self :
    (linkTail s pq pkt).pq pq = { s.pq pq with
      head := if (s.pq pq).tail ≠ 0 then (s.pq pq).head else pkt,
      tail := pkt, count := (s.pq pq).count + 1 } :=
  pq_of_pqAt linkTail_pqAt_self

theorem linkTail_pqAt_ne {b : Addr} (hb : b ≠ pq) (ht : b ≠ (s.pq pq).tail) :
    (linkTail s pq pkt).pqAt b = s.pqAt b := by
  simp only [linkTail]
  split <;> simp [pqAt_setPage_ne _ hb, pqAt_setPage_ne _ ht]

theorem linkTail_pktAt_ne {n : Addr} (hn : n ≠ pq) (ht : n ≠ (s.pq pq).tail) :
    (linkTail s pq pkt).pktAt n = s.pktAt n := by
  simp only [linkTail]
  split <;> simp [pktAt_setPage_ne _ hn, pktAt_setPage_ne _ ht]

theorem linkTail_bytes_ne {b : Addr} (hb : b ≠ pq) (ht : b ≠ (s.pq pq).tail) :
    (linkTail s pq pkt).bytes b = s.bytes b := by
  simp only [linkTail]
  split <;> simp [bytes_setPage_ne _ hb, bytes_setPage_ne _ ht]

/-- The old tail now links to the new node. -/
theorem linkTail_pktAt_tail (ht : (s.pq pq).tail ≠ 0) (htq : (s.pq pq).tail ≠ pq) :
    (linkTail s pq pkt).pktAt (s.pq pq).tail =
      some { s.pkt (s.pq pq).tail with next := pkt } := by
  simp [linkTail, ht, pktAt_setPage_ne _ htq]

/-- Only links change: every node keeps its frame. -/
theorem linkTail_fullbuf {n : Addr} (hn : n ≠ pq) (htq : (s.pq pq).tail ≠ pq) :
    ((linkTail s pq pkt).pkt n).fullbuf = (s.pkt n).fullbuf := by
  by_cases ht : n = (s.pq pq).tail ∧ (s.pq pq).tail ≠ 0
  · obtain ⟨rfl, ht0⟩ := ht
    simp [pkt_of_pktAt (linkTail_pktAt_tail ht0 htq)]
  · have hne : n ≠ (s.pq pq).tail ∨ (s.pq pq).tail = 0 := by tauto
    rcases hne with hnt | ht0
    · simp [NetState.pkt, linkTail_pktAt_ne hn hnt]
    · simp [linkTail, ht0, pkt_setPage_ne _ hn]

/-- The queue at `pq` after the append, from its own facts: the new node is not
yet in it, and it has room. -/
theorem linkTail_queueRep {ns : List Addr} {node : UdpPkt} (hq : QueueRep s (s.pq pq) ns)
    (hpq : pq ∉ ns) (hpkt : pkt ∉ ns) (hpkt0 : pkt ≠ 0) (hpkt_pq : pkt ≠ pq)
    (hnode : s.pktAt pkt = some node) (hnext : node.next = 0) (hlen : ns.length < 16) :
    QueueRep (linkTail s pq pkt) ((linkTail s pq pkt).pq pq) (ns ++ [pkt]) := by
  rcases hq.tail_cases with ⟨rfl, h0⟩ | ⟨L, hL⟩
  · have hpktAt : (linkTail s pq pkt).pktAt pkt = some node := by
      rw [linkTail_pktAt_ne hpkt_pq (by rw [h0]; exact hpkt0), hnode]
    refine ⟨?_, ?_, ?_, ?_⟩
    · rw [linkTail_pq_self]
      simp only [h0, ne_eq, not_true_eq_false, if_false, List.nil_append]
      exact .cons hpkt0 (by simp [pktNext, hpktAt, hnext]) (.nil 0)
    · simp [linkTail_pq_self, hq.count_eq]
    · simp [linkTail_pq_self]
    · simp
  · have htmem : (s.pq pq).tail ∈ ns := hL ▸ List.mem_append_right _ (List.mem_singleton_self _)
    have ht0 : (s.pq pq).tail ≠ 0 := (hq.seg.mem_node htmem).1
    have htpq : (s.pq pq).tail ≠ pq := fun e => hpq (e ▸ htmem)
    have hpkt_t : pkt ≠ (s.pq pq).tail := fun e => hpkt (e ▸ htmem)
    have hseg0 : ListSeg (pktNext s) 0 (s.pq pq).head (L ++ [(s.pq pq).tail]) 0 := hL ▸ hq.seg
    have htL : (s.pq pq).tail ∉ L := fun hmem =>
      (List.nodup_append.mp hseg0.nodup).2.2 _ hmem _ (List.mem_singleton_self _) rfl
    have hframe : ∀ n ∈ L, pktNext (linkTail s pq pkt) n = pktNext s n := by
      intro n hn
      have hnpq : n ≠ pq := fun e => hpq (hL ▸ List.mem_append_left _ (e ▸ hn))
      have hnt : n ≠ (s.pq pq).tail := fun e => htL (e ▸ hn)
      simp [pktNext, linkTail_pktAt_ne hnpq hnt]
    have htl : pktNext (linkTail s pq pkt) (s.pq pq).tail = some pkt := by
      simp [pktNext, linkTail_pktAt_tail ht0 htpq]
    have hpn : pktNext (linkTail s pq pkt) pkt = some 0 := by
      simp [pktNext, linkTail_pktAt_ne hpkt_pq hpkt_t, hnode, hnext]
    have hseg := hseg0.snoc hframe htl hpkt0 hpn
    refine ⟨?_, ?_, ?_, ?_⟩
    · rw [linkTail_pq_self, hL]
      simpa [ht0] using hseg
    · simp [linkTail_pq_self, hq.count_eq]
    · simp [linkTail_pq_self]
    · simp
      omega

end LinkTail

namespace StoreRep

variable {s : NetState} {pqs : List Addr} {nodes : Addr → List Addr} {held : List Addr}

/-- `ip_rx` links a node it holds, with the frame it holds, at the tail of a
queue with room. -/
theorem linkTail_rep (h : StoreRep s pqs nodes held) {pq pkt buf : Addr} {node : UdpPkt}
    (hpq : pq ∈ pqs) (hpkt : pkt ∈ held) (hbuf : buf ∈ held) (hne : pkt ≠ buf)
    (hnode : s.pktAt pkt = some node) (hnext : node.next = 0) (hfull : node.fullbuf = buf)
    (hcount : (s.pq pq).count < MAX_QUEUED_PER_PORT) :
    StoreRep (linkTail s pq pkt) pqs (Function.update nodes pq (nodes pq ++ [pkt]))
      ((held.erase pkt).erase buf) := by
  have hq := h.queues pq hpq
  have hpqn : pq ∉ nodes pq := fun hmem => h.pq_ne_node hpq hpq hmem rfl
  have hpkt_pq : pkt ≠ pq := h.held_ne_store hpkt (mem_store_of_pq hpq)
  have hpktn : pkt ∉ nodes pq := fun hmem => h.held_ne_node hpkt hpq hmem rfl
  have htail : (s.pq pq).tail = 0 ∨ (s.pq pq).tail ∈ nodes pq := by
    rcases hq.tail_cases with ⟨-, h0⟩ | ⟨L, hL⟩
    · exact .inl h0
    · exact .inr (hL ▸ List.mem_append_right _ (List.mem_singleton_self _))
  have hrec_t : ∀ b ∈ pqs, b ≠ (s.pq pq).tail := by
    intro b hb
    rcases htail with h0 | hmem
    · rw [h0]
      exact h.ne_zero_of_store (mem_store_of_pq hb)
    · exact h.pq_ne_node hb hpq hmem
  have hnode_t : ∀ b ∈ pqs, b ≠ pq → ∀ n ∈ nodes b, n ≠ (s.pq pq).tail := by
    intro b hb hbpq n hn hnt
    rcases htail with h0 | hmem
    · exact h.ne_zero_of_store (mem_store_of_node hb hn) (hnt.trans h0)
    · exact h.node_not_other hpq hb (Ne.symm hbpq) hmem (hnt ▸ hn)
  have htpq : (s.pq pq).tail ≠ pq := fun e => hrec_t pq hpq e.symm
  have hq' := linkTail_queueRep hq hpqn hpktn (h.ne_zero_of_held hpkt) hpkt_pq hnode hnext
    (by have := hq.count_eq; simp only [MAX_QUEUED_PER_PORT] at hcount; omega)
  have hF := flatMap_update_append h.pqs_nodup hpq nodes [pkt]
  have hfb : ∀ n ∈ pqs.flatMap nodes, ((linkTail s pq pkt).pkt n).fullbuf = (s.pkt n).fullbuf := by
    intro n hn
    obtain ⟨b, hb, hn'⟩ := List.mem_flatMap.mp hn
    exact linkTail_fullbuf (h.pq_ne_node hpq hb hn').symm htpq
  have hpkt_fb : ((linkTail s pq pkt).pkt pkt).fullbuf = buf := by
    rw [linkTail_fullbuf hpkt_pq htpq, pkt_of_pktAt hnode, hfull]
  have hM : List.Perm ((pqs.flatMap (Function.update nodes pq (nodes pq ++ [pkt]))).map
      fun n => ((linkTail s pq pkt).pkt n).fullbuf)
      ((pqs.flatMap nodes).map (fun n => (s.pkt n).fullbuf) ++ [buf]) := by
    refine (hF.map _).trans ?_
    rw [List.map_append, List.map_congr_left hfb]
    simp [hpkt_fb]
  have hheld : List.Perm held (pkt :: buf :: (held.erase pkt).erase buf) :=
    (List.perm_cons_erase hpkt).trans
      (List.Perm.cons _ (List.perm_cons_erase ((List.mem_erase_of_ne hne.symm).mpr hbuf)))
  have hperm : List.Perm (owned (linkTail s pq pkt) pqs
      (Function.update nodes pq (nodes pq ++ [pkt])) ((held.erase pkt).erase buf))
      (owned s pqs nodes held) := by
    rw [List.perm_iff_count]
    intro e
    have h1 := hF.count_eq e
    have h2 := hM.count_eq e
    have h3 := hheld.count_eq e
    simp only [owned, storePages, linkTail_freelist, linkTail_tx, List.count_append,
      List.count_cons, List.count_nil] at h1 h2 h3 ⊢
    omega
  refine h.modify linkTail_portList ?_ ?_ hq' hperm
  · intro b hb
    by_cases hbpq : b = pq
    · subst hbpq
      simp [pqNext, linkTail_pqAt_self, linkTail_pq_self, h.pqAt_of_mem hb]
    · have hpqAt : (linkTail s pq pkt).pqAt b = s.pqAt b := linkTail_pqAt_ne hbpq (hrec_t b hb)
      simp [pqNext, NetState.pq, hpqAt]
  · intro b hb hbpq
    refine ⟨by simp [NetState.pq, linkTail_pqAt_ne hbpq (hrec_t b hb)], fun n hn => ?_⟩
    exact linkTail_pktAt_ne (h.pq_ne_node hpq hb hn).symm (hnode_t b hb hbpq n hn)

@[simp] theorem dequeue_snd (s : NetState) (pq : Addr) : (dequeue s pq).2 = (s.pq pq).head := rfl

theorem dequeue_pkt {s : NetState} {pq n : Addr} (hn : n ≠ pq) :
    (dequeue s pq).1.pkt n = s.pkt n :=
  pkt_setPage_ne _ hn

/-- `sys_recv` takes the head node of a non-empty queue, and with it the
node's frame. -/
theorem dequeue_rep (h : StoreRep s pqs nodes held) {pq : Addr} (hpq : pq ∈ pqs)
    (hc : (s.pq pq).count ≠ 0) :
    nodes pq = (s.pq pq).head :: (nodes pq).tail ∧
      StoreRep (dequeue s pq).1 pqs (Function.update nodes pq (nodes pq).tail)
        ((s.pq pq).head :: (s.pkt (s.pq pq).head).fullbuf :: held) := by
  have hq := h.queues pq hpq
  obtain ⟨n, rest, hns⟩ : ∃ n rest, nodes pq = n :: rest := by
    cases hn : nodes pq with
    | nil => exact absurd (by simpa [hn] using hq.count_eq) hc
    | cons n rest => exact ⟨n, rest, rfl⟩
  obtain ⟨hhead, hn0, b, hb, hrest⟩ := ListSeg.cons_inv (hns ▸ hq.seg)
  have hnmem : n ∈ nodes pq := by simp [hns]
  have hbnext : b = (s.pkt n).next := by
    rw [pktNext, h.pktAt_of_node hpq hnmem] at hb
    exact (Option.some.inj hb).symm
  refine ⟨by rw [hns, ← hhead]; rfl, ?_⟩
  rw [hhead, hns]
  simp only [List.tail_cons]
  set s' := (dequeue s pq).1 with hs'
  have hseq : s' = s.setPage pq (.portQueue { s.pq pq with
      head := b, tail := if b = 0 then 0 else (s.pq pq).tail, count := (s.pq pq).count - 1 }) := by
    rw [hs', hbnext, ← hhead]
    rfl
  have hnode_pq : ∀ c ∈ pqs, ∀ x ∈ nodes c, x ≠ pq := fun c hcm x hx =>
    (h.pq_ne_node hpq hcm hx).symm
  have hpktAt : ∀ x, x ≠ pq → s'.pktAt x = s.pktAt x := fun x hx => by
    rw [hseq, pktAt_setPage_ne _ hx]
  have hselfAt : s'.pqAt pq = some { s.pq pq with
      head := b, tail := if b = 0 then 0 else (s.pq pq).tail, count := (s.pq pq).count - 1 } := by
    rw [hseq, pqAt_setPage_portQueue]
  have hself := pq_of_pqAt hselfAt
  have hq' : QueueRep s' (s'.pq pq) rest := by
    have hcount := hq.count_eq
    rw [hns] at hcount
    refine ⟨?_, ?_, ?_, ?_⟩
    · rw [hself]
      exact hrest.congr fun x hx => by
        simp [pktNext, hpktAt x (hnode_pq pq hpq x (by simp [hns, hx]))]
    · rw [hself]
      simp only [List.length_cons, Nat.cast_add] at hcount
      simp only
      omega
    · rw [hself]
      by_cases hb0 : b = 0
      · rw [if_pos hb0, (hrest.eq_nil_iff).mpr hb0]
        rfl
      · rw [if_neg hb0, hq.tail_eq, hns]
        rcases List.eq_nil_or_concat rest with hnil | ⟨L, t, rfl⟩
        · exact absurd ((hrest.eq_nil_iff).mp hnil) hb0
        · rw [List.concat_eq_append, ← List.cons_append, List.getLastD_concat,
            List.getLastD_concat]
    · have := hq.length_le
      rw [hns] at this
      simp at this
      omega
  have hF := flatMap_update_tail h.pqs_nodup hpq hns
  have hfb : ∀ x ∈ pqs.flatMap nodes, (s'.pkt x).fullbuf = (s.pkt x).fullbuf := by
    intro x hx
    obtain ⟨c, hcm, hx'⟩ := List.mem_flatMap.mp hx
    simp [NetState.pkt, hpktAt x (hnode_pq c hcm x hx')]
  have hfb' : ∀ x ∈ pqs.flatMap (Function.update nodes pq rest),
      (s'.pkt x).fullbuf = (s.pkt x).fullbuf :=
    fun x hx => hfb x (hF.symm.subset (List.mem_cons_of_mem _ hx))
  have hM : List.Perm ((pqs.flatMap nodes).map fun x => (s.pkt x).fullbuf)
      ((s.pkt n).fullbuf :: (pqs.flatMap (Function.update nodes pq rest)).map
        fun x => (s'.pkt x).fullbuf) := by
    rw [List.map_congr_left hfb']
    exact hF.map _
  have hperm : List.Perm (owned s' pqs (Function.update nodes pq rest)
      (n :: (s.pkt n).fullbuf :: held)) (owned s pqs nodes held) := by
    rw [List.perm_iff_count]
    intro e
    have h1 := hF.count_eq e
    have h2 := hM.count_eq e
    simp only [owned, storePages, hseq, setPage_freelist, setPage_tx, List.count_append,
      List.count_cons] at h1 h2 ⊢
    omega
  refine h.modify (by rw [hseq]; rfl) ?_ ?_ hq' hperm
  · intro c hcm
    by_cases hcpq : c = pq
    · subst hcpq
      simp [pqNext, hselfAt, hself, h.pqAt_of_mem hcm]
    · simp [pqNext, hseq, pq_setPage_ne _ hcpq, pqAt_setPage_ne _ hcpq]
  · intro c hcm hcpq
    exact ⟨by rw [hseq, pq_setPage_ne _ hcpq],
      fun x hx => hpktAt x (hnode_pq c hcm x hx)⟩

end StoreRep

end Net
end Xv6Net
