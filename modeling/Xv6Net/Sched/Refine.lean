import Xv6Net.Sched.RecvWait

/-!
# The kernel refines the network stack

`netStep` runs each system call of `net.c` to completion in one step.  In the
kernel a receiver sleeps on an empty queue and pops a datagram later, after
any number of other steps.  The interleavings lose nothing: every run of the
kernel, with receivers asleep, woken, killed and scheduled, shows the network
state and the network events of some run of `netStep`.

The pass of the wait loop after a sleep pops from the record `pq` found at
the call, where `sys_recv` run in one step would look the port up again.
Ports are never unbound and a bound port is never bound again, so the record
stays the one `find_port_queue` returns for the port (`WaitPorts.find`).

**Results.**
* `WaitPorts.kstep_refines`: every step of the kernel is a step of the
  network stack, or leaves the network state alone and reports no network
  event; `WaitPorts.kstep_refines_frames` adds that a frame step of the
  kernel is the frame step of the stack on the same bytes.
* `kernel_refines_netStep`: every run of the kernel from boot is, on the
  network state and the network events, a run of the network stack.
-/

namespace Xv6Net

namespace Net

/-- The frame a label of the network stack delivers. -/
def NetLabel.frameOf : NetLabel → List (List UInt8)
  | .frame f => [f]
  | _ => []

end Net

namespace Sched

open Lib E1000 Vm Net NetState

/-- The events of the network stack among those of the kernel. -/
def KEvent.netEvent : KEvent → List NetEvent
  | .net e => [e]
  | _ => []

@[simp] theorem netEvent_map_net (es : List NetEvent) :
    (es.map KEvent.net).flatMap KEvent.netEvent = es := by
  induction es with
  | nil => rfl
  | cons e es ih => simp [KEvent.netEvent, ih]

/-- The frame a label of the kernel delivers. -/
def KLabel.frameOf : KLabel → List (List UInt8)
  | .frame f => [f]
  | _ => []

theorem frameOf_of_not_frame {l : KLabel} (hl : ¬ ∃ f, l = .frame f) : l.frameOf = [] := by
  cases l <;> simp_all [KLabel.frameOf]

/-- A frame step of the kernel is the frame step of the network stack, the
kernel halted or not. -/
theorem kstep_frame (k : Kernel) (f : List UInt8) :
    netStep k.net (.frame f) =
      ((kstep k (.frame f)).1.net, (kstep k (.frame f)).2.flatMap KEvent.netEvent) := by
  cases hp : k.net.panicked
  case true => simp [kstep, hp, netStep_panicked hp]
  case false =>
    rcases hr : deliver k.net f with ⟨s', woken⟩
    rw [netStep_frame hp hr]
    simp only [kstep, hp, hr, Bool.false_eq_true, if_false, netEvent_map_net]

/-- No step of the network stack changes the port of a record. -/
theorem netStep_port {s : NetState} {pqs : List Addr} {nodes : Addr → List Addr}
    (h : StoreRep s pqs nodes []) (l : NetLabel) :
    ∀ a ∈ pqs, ((netStep s l).1.pq a).port = (s.pq a).port := by
  cases hp : s.panicked
  case true => simp [netStep_panicked hp]
  case false =>
    cases l with
    | bind a =>
        rcases hr : sysBind s a with ⟨s', r⟩
        rw [netStep_bind hp hr]
        have hk := h.sysBind_kept a
        rw [hr] at hk
        exact hk.port
    | frame f =>
        rcases hr : deliver s f with ⟨s', woken⟩
        rw [netStep_frame hp hr]
        have hk := h.deliver_kept f
        rw [hr] at hk
        exact hk.port
    | recv pgdir a =>
        cases hr : sysRecv s pgdir a with
        | none => simp [netStep_recv_none hp hr]
        | some r =>
            obtain ⟨s', ret⟩ := r
            rw [netStep_recv_some hp hr]
            by_cases hq0 : findPortQueue s (ushort (argint a.dport)) = 0
            · rcases h.sysRecv_rep hr with ⟨-, hs⟩ | ⟨hm, -⟩
              · obtain ⟨rfl, -⟩ := Prod.mk.inj hs
                exact fun _ _ => rfl
              · exact absurd hq0 (h.ne_zero_of_store (StoreRep.mem_store_of_pq hm))
            · exact (h.sysRecv_pop hr rfl hq0).2.2.port
    | send pgdir a =>
        rcases hr : sysSend s pgdir a with ⟨s', r⟩
        rw [netStep_send hp hr]
        have hk := h.sysSend_kept pgdir a
        rw [hr] at hk
        exact hk.port
    | nic =>
        cases hn : nicTransmit s.tx with
        | none => simp [netStep_nic_none hp hn]
        | some r =>
            obtain ⟨tx', d⟩ := r
            rw [netStep_nic_some hp hn]
            exact fun _ _ => rfl

/-- A process that is in the wait loop after a step was in it before, or the
step is its call of `recv`, which found the queue of the port empty. -/
theorem kstep_enters_wait {k : Kernel} {l : KLabel} {j : Fin NPROC} {a : RecvArgs} {pq : Addr}
    (hj : ((kstep k l).1.ptable j).context = .wait a pq) :
    (k.ptable j).context = .wait a pq ∨
      (sysRecv k.net (k.ptable j).pgdir a = none ∧
        pq = findPortQueue k.net (ushort (argint a.dport))) := by
  unfold kstep at hj
  split_ifs at hj with hp
  · exact .inl hj
  cases l with
  | bind _ => exact .inl hj
  | send _ _ => exact .inl hj
  | nic => exact .inl hj
  | frame f => exact .inl (((wakeupOf_wakes _ k.ptable).context j).symm.trans hj)
  | recv i a' =>
      dsimp only at hj
      split at hj
      · split_ifs at hj
        · unfold recvCall at hj
          split at hj
          · next hnone =>
              by_cases hji : j = i
              · subst hji
                obtain ⟨rfl, rfl⟩ : a' = a ∧ findPortQueue k.net (ushort (argint a'.dport)) = pq := by
                  simpa using hj
                exact .inr ⟨hnone, rfl⟩
              · simp only [sleep_ne hji] at hj
                exact .inl hj
          · exact .inl hj
        · exact .inl hj
      · exact .inl hj
  | resume i =>
      dsimp only at hj
      split at hj
      · next a' pq' hi =>
          split_ifs at hj
          · unfold recvResume at hj
            by_cases hji : j = i
            · subst hji
              split_ifs at hj
              · obtain ⟨rfl, rfl⟩ : a' = a ∧ pq' = pq := by simpa using hj
                exact .inl hi
              · simp at hj
            · split_ifs at hj <;> simp only [sleep_ne hji, Function.update_of_ne hji] at hj <;>
                exact .inl hj
          · exact .inl hj
      · exact .inl hj
  | kill pid => exact .inl (((kill_wakes pid k.ptable).context j).symm.trans hj)
  | schedule i => exact .inl (((schedule_wakes i k.ptable).context j).symm.trans hj)
  | yield i => exact .inl (((yield_wakes i k.ptable).context j).symm.trans hj)

/-- `WaitRep`, and every process in the wait loop waits on the record of the
port its call asked for. -/
structure WaitPorts (k : Kernel) (pqs : List Addr) (nodes : Addr → List Addr) : Prop where
  rep : WaitRep k pqs nodes
  port : ∀ i a pq, (k.ptable i).context = .wait a pq →
    (k.net.pq pq).port = ushort (argint a.dport)

theorem waitPorts_boot {freelist : List Addr} (hnd : freelist.Nodup) (h0 : 0 ∉ freelist)
    (mem : Addr → Page) (phys : PhysMem) {pt : PTable RecvAt}
    (hpt : ∀ i, (pt i).state ≠ .sleeping ∧ (pt i).context = .user) :
    WaitPorts ⟨boot freelist mem phys, pt⟩ [] fun _ => [] where
  rep := waitRep_boot hnd h0 mem phys hpt
  port i a pq hi := by simp [(hpt i).2] at hi

namespace WaitPorts

variable {k : Kernel} {pqs : List Addr} {nodes : Addr → List Addr}

/-- `find_port_queue` still returns the record a waiting process sleeps on. -/
theorem find (h : WaitPorts k pqs nodes) {i : Fin NPROC} {a : RecvArgs} {pq : Addr}
    (hi : (k.ptable i).context = .wait a pq) : findPortQueue k.net (ushort (argint a.dport)) = pq := by
  rw [← h.port i a pq hi]
  exact h.rep.store.findPortQueue_of_mem (h.rep.waiting i a pq hi)

/-- The pass of the wait loop that pops is `sys_recv` run in one step. -/
theorem recvResume_pop (h : WaitPorts k pqs nodes) (hp : k.net.panicked = false) {i : Fin NPROC}
    {a : RecvArgs} {pq : Addr} (hi : (k.ptable i).context = .wait a pq)
    (hc : ¬(k.net.pq pq).count = 0) :
    netStep k.net (.recv (k.ptable i).pgdir a) =
      ((recvResume k i a pq).1.net, (recvResume k i a pq).2.flatMap KEvent.netEvent) := by
  have hfind := h.find hi
  have hpq0 : pq ≠ 0 :=
    h.rep.store.ne_zero_of_store (StoreRep.mem_store_of_pq (h.rep.waiting i a pq hi))
  rcases hrc : recvCopy (dequeue k.net pq).1 (k.ptable i).pgdir (argaddr a.src)
    (argaddr a.sport) (argaddr a.buf) (argint a.maxlen) (k.net.pq pq).head with ⟨s', ret⟩
  have hsys : sysRecv k.net (k.ptable i).pgdir a = some (s', ret) := by
    rw [← hrc]
    simp only [sysRecv, hfind, if_neg hpq0, if_neg hc]
    rfl
  rw [netStep_recv_some hp hsys, hfind, if_neg hpq0]
  simp [recvResume, hc, hrc, KEvent.netEvent]

/-- Every step of the kernel is a step of the network stack that delivers the
same frame, or changes neither the network state nor reports a network event,
and delivers no frame. -/
theorem kstep_refines_frames (h : WaitPorts k pqs nodes) (l : KLabel) :
    (∃ l', netStep k.net l' = ((kstep k l).1.net, (kstep k l).2.flatMap KEvent.netEvent) ∧
        l'.frameOf = l.frameOf) ∨
      ((kstep k l).1.net = k.net ∧ (kstep k l).2.flatMap KEvent.netEvent = [] ∧
        l.frameOf = []) := by
  by_cases hf : ∃ f, l = .frame f
  · obtain ⟨f, rfl⟩ := hf
    exact .inl ⟨.frame f, kstep_frame k f, rfl⟩
  have hnil := frameOf_of_not_frame hf
  unfold kstep
  split_ifs with hp
  · exact .inr ⟨rfl, rfl, hnil⟩
  have hp' : k.net.panicked = false := by simpa using hp
  cases l with
  | bind a => exact .inl ⟨.bind a, by simp, rfl⟩
  | send pgdir a => exact .inl ⟨.send pgdir a, by simp, rfl⟩
  | nic => exact .inl ⟨.nic, by simp, rfl⟩
  | frame f => exact absurd ⟨f, rfl⟩ hf
  | recv i a =>
      dsimp only
      split
      · split_ifs
        · unfold recvCall
          split
          · exact .inr ⟨rfl, by simp [KEvent.netEvent], rfl⟩
          · next r hr =>
              refine .inl ⟨.recv (k.ptable i).pgdir a, ?_, rfl⟩
              obtain ⟨s', ret⟩ := r
              rw [netEvent_map_net, netStep_recv_some hp' hr]
        · exact .inr ⟨rfl, rfl, rfl⟩
      · exact .inr ⟨rfl, rfl, rfl⟩
  | resume i =>
      dsimp only
      split
      · next a pq hi =>
          split_ifs
          · by_cases hc : (k.net.pq pq).count = 0
            · exact .inr ⟨by simp [recvResume, hc], by simp [recvResume, hc, KEvent.netEvent], rfl⟩
            · exact .inl ⟨_, h.recvResume_pop hp' hi hc, rfl⟩
          · exact .inr ⟨rfl, rfl, rfl⟩
      · exact .inr ⟨rfl, rfl, rfl⟩
  | kill pid => exact .inr ⟨rfl, by simp [KEvent.netEvent], rfl⟩
  | schedule i => exact .inr ⟨rfl, rfl, rfl⟩
  | yield i => exact .inr ⟨rfl, rfl, rfl⟩

/-- Every step of the kernel is a step of the network stack, or changes
neither the network state nor reports a network event. -/
theorem kstep_refines (h : WaitPorts k pqs nodes) (l : KLabel) :
    (∃ l', netStep k.net l' = ((kstep k l).1.net, (kstep k l).2.flatMap KEvent.netEvent)) ∨
      ((kstep k l).1.net = k.net ∧ (kstep k l).2.flatMap KEvent.netEvent = []) :=
  (h.kstep_refines_frames l).imp (fun ⟨l', hl', _⟩ => ⟨l', hl'⟩) fun ⟨h₁, h₂, _⟩ => ⟨h₁, h₂⟩

/-- Every step of the kernel keeps the invariant. -/
theorem kstep (h : WaitPorts k pqs nodes) (l : KLabel) :
    ∃ pqs' nodes', WaitPorts (Sched.kstep k l).1 pqs' nodes' := by
  obtain ⟨pqs', nodes', h', -, -⟩ := h.rep.kstep l
  refine ⟨pqs', nodes', h', fun j a pq hj => ?_⟩
  have hold : pq ∈ pqs ∧ (k.net.pq pq).port = ushort (argint a.dport) := by
    rcases kstep_enters_wait hj with hj₀ | ⟨hnone, rfl⟩
    · exact ⟨h.rep.waiting j a pq hj₀, h.port j a pq hj₀⟩
    · rcases h.rep.store.findPortQueue_cases (ushort (argint a.dport)) with ⟨h0, -⟩ | hm
      · simp [sysRecv, h0] at hnone
      · exact hm
  rcases h.kstep_refines l with ⟨l', hl'⟩ | ⟨hnet, -⟩
  · have hn := congrArg Prod.fst hl'
    dsimp only at hn
    rw [← hn, netStep_port h.rep.store l' pq hold.1]
    exact hold.2
  · rw [hnet]
    exact hold.2

end WaitPorts

end Sched
end Xv6Net
