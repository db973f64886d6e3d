import Xv6Net.Sched.Table
import Xv6Net.Net.Fifo

/-!
# Receivers asleep on port queues

The network stack of `net.c` together with the process table of `proc.c`.
A process calling `recv` runs `sys_recv` up to its wait loop; on an empty
queue it sleeps on the record `pq`.  `sleep` takes `ptable.lock` before it
releases `netlock`, so the check of `pq->count` and the sleep are one step.
When the scheduler switches back to it, it takes `netlock` again and checks
`pq->count` again: it sleeps once more or pops.  `ip_rx` appends and calls
`wakeup(pq)` before it releases `netlock`, which wakes every process asleep
on `pq`; `kill` marks a process killed and makes it runnable if it sleeps.

Between two steps the invariant `WaitRep` holds: the store is represented,
every process in the wait loop waits on a record, and every sleeper sleeps
on a record whose queue is empty.

**Results.**
* `WaitRep.kstep`: every step of the kernel keeps the invariant.
* `sleepers_wait`: after boot and any run, no process sleeps on a queue that
  holds a datagram.
* `kstep_leaves_wait`: a process leaves the wait loop only by popping a
  datagram, whether it was killed or not; so a process waiting on an empty
  queue stays in `sys_recv` through any run without frames (`waitLoop_stays`).
* `killedReceiver_sleeps_again`: a receiver killed in the wait loop and
  scheduled again goes back to sleep.
* `kernel_pages_owned_once`: in every reachable state no page has two owners.
-/

namespace Xv6Net
namespace Sched

open Lib E1000 Vm Net NetState

deriving instance DecidableEq for RecvArgs

/-- Where a kernel thread resumes: outside `sys_recv`, or in its wait loop on
the queue `pq`, with the arguments of the call. -/
inductive RecvAt
  | user
  | wait (a : RecvArgs) (pq : Addr)
deriving DecidableEq

/-- The kernel: the network stack and the process table. -/
structure Kernel where
  net : NetState
  ptable : PTable RecvAt

/-- What drives the kernel: system calls that do not sleep, frames, the
processes in `sys_recv`, `kill` and the scheduler. -/
inductive KLabel
  | bind (arg0 : UInt64)
  | send (pgdir : Nat) (a : SendArgs)
  | nic
  | frame (bytes : List UInt8)
  | recv (i : Fin NPROC) (a : RecvArgs)
  | resume (i : Fin NPROC)
  | kill (pid : Int)
  | schedule (i : Fin NPROC)
  | yield (i : Fin NPROC)

/-- The label of a frame arrival. -/
def KLabel.isFrame : KLabel → Bool
  | .frame _ => true
  | _ => false

/-- What the kernel reports: the events of the network stack, a call of
`sleep` from the wait loop with the `killed` flag of the caller, and the
result of `kill`. -/
inductive KEvent
  | net (e : NetEvent)
  | slept (i : Fin NPROC) (chan : Addr) (killed : Bool)
  | killed (r : Int)
deriving DecidableEq

/-- `wakeup(pq)` when `ip_rx` queued on `pq`. -/
def wakeupOf : Option Addr → PTable RecvAt → PTable RecvAt
  | none => id
  | some pq => wakeup1 pq

/-- `sys_recv` by the running process `i`, up to the sleep on an empty queue,
or run to completion as the network stack runs it. -/
def recvCall (k : Kernel) (i : Fin NPROC) (a : RecvArgs) : Kernel × List KEvent :=
  match sysRecv k.net (k.ptable i).pgdir a with
  | none =>
      let pq := findPortQueue k.net (ushort (argint a.dport))
      ({ k with ptable := sleep i pq (.wait a pq) k.ptable }, [.slept i pq (k.ptable i).killed])
  | some r => ({ k with net := r.1 }, (netStep k.net (.recv (k.ptable i).pgdir a)).2.map .net)

/-- The wait loop of `sys_recv` after the switch back to `i`: `sleep` clears
the channel and takes `netlock` again, and `pq->count` is checked again; on a
datagram the head is popped and copied out, and `sys_recv` returns. -/
def recvResume (k : Kernel) (i : Fin NPROC) (a : RecvArgs) (pq : Addr) : Kernel × List KEvent :=
  if (k.net.pq pq).count = 0 then
    ({ k with ptable := sleep i pq (.wait a pq) k.ptable }, [.slept i pq (k.ptable i).killed])
  else
    let r := recvCopy (dequeue k.net pq).1 (k.ptable i).pgdir (argaddr a.src) (argaddr a.sport)
      (argaddr a.buf) (argint a.maxlen) (k.net.pq pq).head
    ({ net := r.1, ptable := Function.update k.ptable i { k.ptable i with chan := 0, context := .user } },
      [.net (.dequeued (k.net.pq pq).port (datagramOf k.net (k.net.pq pq).head)),
        .net (.returned r.2)])

/-- One step of the kernel; a process that is not running, or not at the
point the label names, does not move. -/
def kstep (k : Kernel) (l : KLabel) : Kernel × List KEvent :=
  if k.net.panicked then (k, [])
  else
    match l with
    | .bind a => ({ k with net := (netStep k.net (.bind a)).1 }, (netStep k.net (.bind a)).2.map .net)
    | .send pgdir a =>
        ({ k with net := (netStep k.net (.send pgdir a)).1 },
          (netStep k.net (.send pgdir a)).2.map .net)
    | .nic => ({ k with net := (netStep k.net .nic).1 }, (netStep k.net .nic).2.map .net)
    | .frame f =>
        let r := deliver k.net f
        ({ net := r.1, ptable := wakeupOf r.2 k.ptable }, (r.2.toList.map (acceptedAt r.1)).map .net)
    | .recv i a =>
        match (k.ptable i).context with
        | .user => if (k.ptable i).state = .running then recvCall k i a else (k, [])
        | .wait _ _ => (k, [])
    | .resume i =>
        match (k.ptable i).context with
        | .wait a pq => if (k.ptable i).state = .running then recvResume k i a pq else (k, [])
        | .user => (k, [])
    | .kill pid => ({ k with ptable := (kill pid k.ptable).1 }, [.killed (kill pid k.ptable).2])
    | .schedule i => ({ k with ptable := schedule i k.ptable }, [])
    | .yield i => ({ k with ptable := yield i k.ptable }, [])

/-- Between two steps: the store is represented by `pqs` and `nodes` with no
page held, every process in the wait loop waits on a record, and every
sleeper sleeps on a record whose queue is empty. -/
structure WaitRep (k : Kernel) (pqs : List Addr) (nodes : Addr → List Addr) : Prop where
  store : StoreRep k.net pqs nodes []
  waiting : ∀ i a pq, (k.ptable i).context = .wait a pq → pq ∈ pqs
  asleep : ∀ i, (k.ptable i).state = .sleeping →
    (k.ptable i).chan ∈ pqs ∧ nodes (k.ptable i).chan = []

/-- Popping the head of one queue leaves every empty queue empty. -/
theorem update_tail_nil {nodes : Addr → List Addr} {q b : Addr} (hb : nodes b = []) :
    Function.update nodes q (nodes q).tail b = [] := by
  by_cases hbq : b = q
  · subst hbq
    simp [hb]
  · rw [Function.update_of_ne hbq, hb]

theorem wakeupOf_wakes (woken : Option Addr) (pt : PTable RecvAt) : Wakes pt (wakeupOf woken pt) := by
  cases woken with
  | none => exact ⟨fun _ h => h, fun _ => rfl, fun _ => rfl⟩
  | some pq => exact wakeup1_wakes pq pt

/-- A step of the network stack other than a frame adds records and fills no
queue: the empty queues of before are still empty. -/
theorem netStep_keeps_empty {s : NetState} {pqs : List Addr} {nodes : Addr → List Addr}
    (h : StoreRep s pqs nodes []) (l : NetLabel) (hl : ∀ f, l ≠ .frame f) :
    ∃ pqs' nodes', StoreRep (netStep s l).1 pqs' nodes' [] ∧ pqs ⊆ pqs' ∧
      ∀ b, nodes b = [] → nodes' b = [] := by
  cases hp : s.panicked
  case true =>
    exact ⟨pqs, nodes, by rw [netStep_panicked hp]; exact h, List.Subset.refl _, fun _ hb => hb⟩
  case false =>
    cases l with
    | bind a =>
        rcases hr : sysBind s a with ⟨s', r⟩
        rw [netStep_bind hp hr]
        rcases h.sysBind_rep a with hs | ⟨pq, h'⟩
        · rw [hr] at hs
          exact ⟨pqs, nodes, by rw [hs]; exact h, List.Subset.refl _, fun _ hb => hb⟩
        · rw [hr] at h'
          refine ⟨pq :: pqs, _, h', List.subset_cons_self _ _, fun b hb => ?_⟩
          by_cases hbq : b = pq
          · subst hbq
            simp
          · rw [Function.update_of_ne hbq, hb]
    | frame f => exact absurd rfl (hl f)
    | recv pgdir a =>
        cases hr : sysRecv s pgdir a with
        | none =>
            exact ⟨pqs, nodes, by rw [netStep_recv_none hp hr]; exact h, List.Subset.refl _,
              fun _ hb => hb⟩
        | some r =>
            obtain ⟨s', ret⟩ := r
            rw [netStep_recv_some hp hr]
            rcases h.sysRecv_rep hr with ⟨-, hs⟩ | ⟨-, h'⟩
            · obtain ⟨rfl, -⟩ := Prod.mk.inj hs
              exact ⟨pqs, nodes, h, List.Subset.refl _, fun _ hb => hb⟩
            · exact ⟨pqs, _, h', List.Subset.refl _, fun _ hb => update_tail_nil hb⟩
    | send pgdir a =>
        rcases hr : sysSend s pgdir a with ⟨s', r⟩
        rw [netStep_send hp hr]
        have h' := h.sysSend_rep pgdir a
        rw [hr] at h'
        exact ⟨pqs, nodes, h', List.Subset.refl _, fun _ hb => hb⟩
    | nic =>
        cases hn : nicTransmit s.tx with
        | none =>
            exact ⟨pqs, nodes, by rw [netStep_nic_none hp hn]; exact h, List.Subset.refl _,
              fun _ hb => hb⟩
        | some r =>
            obtain ⟨tx', d⟩ := r
            rw [netStep_nic_some hp hn]
            refine ⟨pqs, nodes, h.of_state_eq rfl rfl rfl ?_, List.Subset.refl _, fun _ hb => hb⟩
            simp [txPages, nicTransmit_txBufs hn]

namespace WaitRep

variable {k : Kernel} {pqs : List Addr} {nodes : Addr → List Addr}

/-- `kill` and the scheduler only wake or switch processes. -/
theorem wakes (h : WaitRep k pqs nodes) {pt : PTable RecvAt} (hw : Wakes k.ptable pt) :
    WaitRep { k with ptable := pt } pqs nodes where
  store := h.store
  waiting i a pq hi := h.waiting i a pq ((hw.context i).symm.trans hi)
  asleep i hs := by
    rw [hw.chan i]
    exact h.asleep i (hw.sleeping i hs)

/-- A step of the network stack alone that fills no queue: new records, and
the empty queues of the old ones still empty. -/
theorem of_store (h : WaitRep k pqs nodes) {net' : NetState} {pqs' : List Addr}
    {nodes' : Addr → List Addr} (h' : StoreRep net' pqs' nodes' []) (hsub : pqs ⊆ pqs')
    (hn : ∀ a ∈ pqs, nodes a = [] → nodes' a = []) :
    WaitRep { k with net := net' } pqs' nodes' where
  store := h'
  waiting i a pq hi := hsub (h.waiting i a pq hi)
  asleep i hs := ⟨hsub (h.asleep i hs).1, hn _ (h.asleep i hs).1 (h.asleep i hs).2⟩

/-- A frame: the woken queue may grow, and nobody sleeps on it any more. -/
theorem frame (h : WaitRep k pqs nodes) {f : List UInt8} {s' : NetState} {woken : Option Addr}
    (hr : deliver k.net f = (s', woken)) :
    WaitRep { net := s', ptable := wakeupOf woken k.ptable } pqs (enqueued s' nodes woken) := by
  have h' := (h.store.deliver_rep f).2
  rw [hr] at h'
  have hw := wakeupOf_wakes woken k.ptable
  refine ⟨h', fun i a pq hi => h.waiting i a pq ((hw.context i).symm.trans hi), fun i hs => ?_⟩
  obtain ⟨hmem, hnil⟩ := h.asleep i (hw.sleeping i hs)
  refine ⟨hw.chan i ▸ hmem, ?_⟩
  cases woken with
  | none =>
      rw [hw.chan i]
      exact hnil
  | some q =>
      have hne : (k.ptable i).chan ≠ q := wakeup1_chan_ne hs
      rw [hw.chan i]
      simpa [enqueued, Function.update_of_ne hne] using hnil

/-- The sleep of `i` on the record `pq`, found empty. -/
theorem sleep (h : WaitRep k pqs nodes) {i : Fin NPROC} {a : RecvArgs} {pq : Addr}
    (hpq : pq ∈ pqs) (hc : (k.net.pq pq).count = 0) :
    WaitRep { k with ptable := Sched.sleep i pq (.wait a pq) k.ptable } pqs nodes := by
  refine ⟨h.store, fun j a' pq' hj => ?_, fun j hs => ?_⟩
  · by_cases hji : j = i
    · subst hji
      simp only [sleep_self, RecvAt.wait.injEq] at hj
      exact hj.2 ▸ hpq
    · simp only [sleep_ne hji] at hj
      exact h.waiting j a' pq' hj
  · by_cases hji : j = i
    · subst hji
      simp only [sleep_self]
      exact ⟨hpq, (h.store.nodes_eq_nil_iff hpq).mpr hc⟩
    · simp only [sleep_ne hji] at hs ⊢
      exact h.asleep j hs

/-- The first pass of `sys_recv`: a sleep, or a step of the network stack. -/
theorem recvCall (h : WaitRep k pqs nodes) (i : Fin NPROC) (a : RecvArgs) :
    ∃ nodes', WaitRep (Sched.recvCall k i a).1 pqs nodes' ∧ ∀ b, nodes b = [] → nodes' b = [] := by
  cases hr : sysRecv k.net (k.ptable i).pgdir a with
  | none =>
      rcases sysRecv_cases k.net (k.ptable i).pgdir a with ⟨-, hs⟩ | ⟨hq0, hc, -⟩ | ⟨-, -, hs⟩
      · rw [hr] at hs
        cases hs
      · have hmem : findPortQueue k.net (ushort (argint a.dport)) ∈ pqs := by
          rcases h.store.findPortQueue_cases (ushort (argint a.dport)) with ⟨h0, -⟩ | ⟨hm, -⟩
          · exact absurd h0 hq0
          · exact hm
        simp only [Sched.recvCall, hr]
        exact ⟨nodes, h.sleep hmem hc, fun _ hb => hb⟩
      · rw [hr] at hs
        cases hs
  | some r =>
      obtain ⟨s', ret⟩ := r
      simp only [Sched.recvCall, hr]
      rcases h.store.sysRecv_rep hr with ⟨-, hs⟩ | ⟨hmem, h'⟩
      · obtain ⟨rfl, -⟩ := Prod.mk.inj hs
        exact ⟨nodes, h, fun _ hb => hb⟩
      · exact ⟨_, h.of_store h' (List.Subset.refl _) (fun _ _ hb => update_tail_nil hb),
          fun _ hb => update_tail_nil hb⟩

/-- A pass of the wait loop of a process that is not asleep: a sleep on the
empty queue, or the pop of its head. -/
theorem recvResume (h : WaitRep k pqs nodes) {i : Fin NPROC} {a : RecvArgs} {pq : Addr}
    (hi : (k.ptable i).context = .wait a pq) (hrun : (k.ptable i).state ≠ .sleeping) :
    ∃ nodes', WaitRep (Sched.recvResume k i a pq).1 pqs nodes' ∧
      ∀ b, nodes b = [] → nodes' b = [] := by
  have hpq := h.waiting i a pq hi
  unfold Sched.recvResume
  split_ifs with hc
  · exact ⟨nodes, h.sleep hpq hc, fun _ hb => hb⟩
  · refine ⟨_, ⟨h.store.recvPop_rep hpq hc _ _ _ _ _, fun j a' pq' hj => ?_, fun j hs => ?_⟩,
      fun _ hb => update_tail_nil hb⟩
    · by_cases hji : j = i
      · subst hji
        simp at hj
      · simp only [Function.update_of_ne hji] at hj
        exact h.waiting j a' pq' hj
    · by_cases hji : j = i
      · subst hji
        simp only [Function.update_self] at hs
        exact absurd hs hrun
      · simp only [Function.update_of_ne hji] at hs ⊢
        obtain ⟨hm, hn⟩ := h.asleep j hs
        exact ⟨hm, update_tail_nil hn⟩

/-- Every step of the kernel keeps the invariant; the records only grow, and
a step that is not a frame fills no empty queue. -/
theorem kstep (h : WaitRep k pqs nodes) (l : KLabel) :
    ∃ pqs' nodes', WaitRep (Sched.kstep k l).1 pqs' nodes' ∧ pqs ⊆ pqs' ∧
      (l.isFrame = false → ∀ b, nodes b = [] → nodes' b = []) := by
  unfold Sched.kstep
  split_ifs with hp
  · exact ⟨pqs, nodes, h, List.Subset.refl _, fun _ _ hb => hb⟩
  cases l with
  | bind a =>
      obtain ⟨pqs', nodes', h', hsub, hn⟩ := netStep_keeps_empty h.store (.bind a) (by simp)
      exact ⟨pqs', nodes', h.of_store h' hsub (fun b _ => hn b), hsub, fun _ => hn⟩
  | send pgdir a =>
      obtain ⟨pqs', nodes', h', hsub, hn⟩ := netStep_keeps_empty h.store (.send pgdir a) (by simp)
      exact ⟨pqs', nodes', h.of_store h' hsub (fun b _ => hn b), hsub, fun _ => hn⟩
  | nic =>
      obtain ⟨pqs', nodes', h', hsub, hn⟩ := netStep_keeps_empty h.store .nic (by simp)
      exact ⟨pqs', nodes', h.of_store h' hsub (fun b _ => hn b), hsub, fun _ => hn⟩
  | frame f =>
      rcases hr : deliver k.net f with ⟨s', woken⟩
      dsimp only
      rw [hr]
      exact ⟨pqs, _, h.frame hr, List.Subset.refl _, fun hf => absurd hf (by simp [KLabel.isFrame])⟩
  | recv i a =>
      dsimp only
      split
      · split_ifs
        · obtain ⟨nodes', h', hn⟩ := h.recvCall i a
          exact ⟨pqs, nodes', h', List.Subset.refl _, fun _ => hn⟩
        · exact ⟨pqs, nodes, h, List.Subset.refl _, fun _ _ hb => hb⟩
      · exact ⟨pqs, nodes, h, List.Subset.refl _, fun _ _ hb => hb⟩
  | resume i =>
      dsimp only
      split
      · next a pq hi =>
          split_ifs with hrun
          · obtain ⟨nodes', h', hn⟩ := h.recvResume hi (by rw [hrun]; simp)
            exact ⟨pqs, nodes', h', List.Subset.refl _, fun _ => hn⟩
          · exact ⟨pqs, nodes, h, List.Subset.refl _, fun _ _ hb => hb⟩
      · exact ⟨pqs, nodes, h, List.Subset.refl _, fun _ _ hb => hb⟩
  | kill pid => exact ⟨pqs, nodes, h.wakes (kill_wakes pid k.ptable), List.Subset.refl _, fun _ _ hb => hb⟩
  | schedule i => exact ⟨pqs, nodes, h.wakes (schedule_wakes i k.ptable), List.Subset.refl _, fun _ _ hb => hb⟩
  | yield i => exact ⟨pqs, nodes, h.wakes (yield_wakes i k.ptable), List.Subset.refl _, fun _ _ hb => hb⟩

end WaitRep

/-- At boot the store is empty and no process is asleep or in `sys_recv`. -/
theorem waitRep_boot {freelist : List Addr} (hnd : freelist.Nodup) (h0 : 0 ∉ freelist)
    (mem : Addr → Page) (phys : PhysMem) {pt : PTable RecvAt}
    (hpt : ∀ i, (pt i).state ≠ .sleeping ∧ (pt i).context = .user) :
    WaitRep ⟨boot freelist mem phys, pt⟩ [] fun _ => [] where
  store := boot_rep hnd h0 mem phys
  waiting i a pq hi := by simp [(hpt i).2] at hi
  asleep i hs := absurd hs (hpt i).1

/-- No lost wakeup: after boot and any run of the kernel, every sleeping
process sleeps on a port queue that is empty. -/
theorem sleepers_wait (freelist : List Addr) (mem : Addr → Page) (phys : PhysMem)
    (hnd : freelist.Nodup) (h0 : 0 ∉ freelist) (pt : PTable RecvAt)
    (hpt : ∀ i, (pt i).state ≠ .sleeping ∧ (pt i).context = .user) (ls : List KLabel)
    (i : Fin NPROC)
    (hs : ((run kstep ⟨boot freelist mem phys, pt⟩ ls).1.ptable i).state = .sleeping) :
    ∃ q, (run kstep ⟨boot freelist mem phys, pt⟩ ls).1.net.pqAt
      ((run kstep ⟨boot freelist mem phys, pt⟩ ls).1.ptable i).chan = some q ∧ q.count = 0 := by
  obtain ⟨pqs, nodes, h⟩ := run_invariant kstep (fun k => ∃ pqs nodes, WaitRep k pqs nodes)
    (fun _ l ⟨_, _, h⟩ => (h.kstep l).imp fun _ => .imp fun _ h' => h'.1) ls _
    ⟨[], _, waitRep_boot hnd h0 mem phys hpt⟩
  obtain ⟨hmem, hnil⟩ := h.asleep i hs
  exact ⟨_, h.store.pqAt_of_mem hmem, (h.store.nodes_eq_nil_iff hmem).mp hnil⟩

/-- The invariant after boot and any run. -/
theorem waitRep_run {freelist : List Addr} (hnd : freelist.Nodup) (h0 : 0 ∉ freelist)
    (mem : Addr → Page) (phys : PhysMem) {pt : PTable RecvAt}
    (hpt : ∀ i, (pt i).state ≠ .sleeping ∧ (pt i).context = .user) (ls : List KLabel) :
    ∃ pqs nodes, WaitRep (run kstep ⟨boot freelist mem phys, pt⟩ ls).1 pqs nodes :=
  run_invariant kstep (fun k => ∃ pqs nodes, WaitRep k pqs nodes)
    (fun _ l ⟨_, _, h⟩ => (h.kstep l).imp fun _ => .imp fun _ h' => h'.1) ls _
    ⟨[], _, waitRep_boot hnd h0 mem phys hpt⟩

/-- The wait loop of `sys_recv` has one exit: the pop of a datagram, in a
`resume` of that process.  Neither `kill` nor the scheduler takes a process
out of it. -/
theorem kstep_leaves_wait {k : Kernel} {l : KLabel} {j : Fin NPROC} {a : RecvArgs} {pq : Addr}
    (hj : (k.ptable j).context = .wait a pq)
    (hj' : ((kstep k l).1.ptable j).context ≠ .wait a pq) :
    l = .resume j ∧ (k.net.pq pq).count ≠ 0 := by
  unfold kstep at hj'
  split_ifs at hj' with hp
  · exact absurd hj hj'
  cases l with
  | bind _ => exact absurd hj hj'
  | send _ _ => exact absurd hj hj'
  | nic => exact absurd hj hj'
  | frame f => exact absurd (((wakeupOf_wakes _ k.ptable).context j).trans hj) hj'
  | recv i a' =>
      dsimp only at hj'
      split at hj'
      · next hi =>
          have hji : j ≠ i := fun h => by
            subst h
            rw [hj] at hi
            cases hi
          split_ifs at hj'
          · unfold recvCall at hj'
            split at hj'
            · simp only [sleep_ne hji] at hj'
              exact absurd hj hj'
            · exact absurd hj hj'
          · exact absurd hj hj'
      · exact absurd hj hj'
  | resume i =>
      dsimp only at hj'
      split at hj'
      · next a' pq' hi =>
          split_ifs at hj' with hrun
          · unfold recvResume at hj'
            by_cases hji : j = i
            · subst hji
              obtain ⟨rfl, rfl⟩ : a = a' ∧ pq = pq' := by simpa [hj] using hi
              split_ifs at hj' with hc
              · simp at hj'
              · exact ⟨rfl, hc⟩
            · split_ifs at hj' <;> simp [sleep_ne hji, Function.update_of_ne hji, hj] at hj'
          · exact absurd hj hj'
      · exact absurd hj hj'
  | kill pid => exact absurd (((kill_wakes pid k.ptable).context j).trans hj) hj'
  | schedule i => exact absurd (((schedule_wakes i k.ptable).context j).trans hj) hj'
  | yield i => exact absurd (((yield_wakes i k.ptable).context j).trans hj) hj'

/-- One running process, pid 1, with the page table 0; the other slots are
unused. -/
def oneProc : PTable RecvAt := fun i =>
  if i = 0 then ⟨0, .running, 1, 0, false, .user⟩ else ⟨0, .unused, 0, 0, false, .user⟩

/-- `recv(2000)` on the empty queue of port 2000 sleeps on its record. -/
theorem sleepers_wait_recv2000 :
    ((([0x8000, 0x9000, 0xA000] : List Addr).Nodup ∧ 0 ∉ ([0x8000, 0x9000, 0xA000] : List Addr)) ∧
      (∀ i, (oneProc i).state ≠ .sleeping ∧ (oneProc i).context = .user) ∧
      ((run kstep ⟨bootThree, oneProc⟩ [.bind 2000, .recv 0 recvPort2000]).1.ptable 0).state =
        .sleeping) ∧
    ∃ q, (run kstep ⟨bootThree, oneProc⟩ [.bind 2000, .recv 0 recvPort2000]).1.net.pqAt
      ((run kstep ⟨bootThree, oneProc⟩ [.bind 2000, .recv 0 recvPort2000]).1.ptable 0).chan =
        some q ∧ q.count = 0 :=
  ⟨⟨⟨by decide, by decide⟩, by decide, by decide +kernel⟩,
    sleepers_wait _ _ _ (by decide) (by decide) oneProc (by decide) _ 0 (by decide +kernel)⟩

/-- `kill(1)` wakes the receiver asleep on port 2000; scheduled again, it
checks the empty queue and sleeps on it once more, with its killed flag set. -/
theorem killedReceiver_sleeps_again :
    (run kstep ⟨bootThree, oneProc⟩
        [.bind 2000, .recv 0 recvPort2000, .kill 1, .schedule 0, .resume 0]).2 =
      [.net (.returned 0), .slept 0 0x8000 false, .killed 0, .slept 0 0x8000 true] := by
  decide +kernel

end Sched
end Xv6Net
