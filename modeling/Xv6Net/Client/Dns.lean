import Xv6Net.Kernel.Defs

/-!
# The DNS client of nettest

`encode_qname`, `skip_qname` and `dns_rep` of `nettest.c`.  The parser works
over the reply buffer `ibuf` as `Bytes` and the count `cc` that `recv`
returned; each of its functions returns, beside
its result, the offsets into `ibuf` of the loads it makes, in order; a header
field loaded again by a loop test or a message is logged at its first load.
The `%s` of the A-record message is not modelled.

`dns_rep` walks the reply in three counted loops (questions, answers,
additional records) with the offset `len`; `loopReads` is that loop, with the
body of each section a function of its own.

**The passes of the three loops.** Each pass either ends the parse or moves
`len` forward past every byte it loaded; none ends with `return 1`.

**The name of the query.** `encode_qname(qn, host)` writes the host name of
`dns_req` in the form `skip_qname` reads: each label as its length byte and its
bytes, then a zero byte. For a host of labels of 1 to 63 bytes, each ended by a
'.', the name it writes is read back by `skip_qname` to exactly its end.

**An EDNS record longer than the reply.** A reply of 23 bytes with two
additional records, the first an EDNS record whose `len` field says 1000: the
first pass moves `len` to 1023, and the second loads `ibuf[1023]` and on, past
the 1000 bytes of `ibuf`.

**Results.**
* `dnsRep_ret_one_reads`: a reply that `dns_rep` accepts was read inside `cc`.
* `dnsRep_reads_past_buffer`: an EDNS record length that overruns the reply
  makes the next pass load beyond the 1000-byte buffer.
* `skipQname_encodeQname`: `skip_qname` reads the name `encode_qname` wrote
  to exactly its end.
-/

namespace Xv6Net
namespace Client

/-- How `dns_rep` ends: its return value, or the `exit()` of `skip_qname`. -/
inductive DnsEnd where
  | ret (r : Int)
  | exit
  deriving DecidableEq, Repr

/-- `sizeof(struct dns)`. -/
def sizeofDns : Nat := 12

/-- `sizeof(struct dns_question)`. -/
def sizeofDnsQuestion : Nat := 4

/-- `sizeof(struct dns_data)` (packed). -/
def sizeofDnsData : Nat := 10

/-- `ARECORD`. -/
def ARECORD : UInt16 := 0x0001

/-- `skip_qname(ibuf + p, cc - p)`: the offset after the name at `p`, or
`none` where it exits, with the offsets it loads. The bound `end` is the
offset `cc`. -/
def skipQname (ibuf : Bytes) (cc : Int) (p : Nat) : Option Nat × List Nat :=
  if cc ≤ p then (none, [])
  else
    let c := ibuf p
    if c = 0 then (some (p + 1), [p])
    else if c &&& 0xC0 = 0xC0 then
      if cc ≤ p + 1 then (none, [p]) else (some (p + 2), [p])
    else if c.toNat > 63 ∨ cc < p + 1 + c.toNat then (none, [p])
    else
      let r := skipQname ibuf cc (p + 1 + c.toNat)
      (r.1, p :: r.2)
termination_by (cc - p).toNat

/-- A counted loop of `dns_rep` whose body may end the parse; the loads of
the passes are logged in order. -/
def loopReads {σ ε : Type} (body : σ → Except ε σ × List Nat) : Nat → σ → Except ε σ × List Nat
  | 0, x => (.ok x, [])
  | n + 1, x =>
      let r := body x
      match r.1 with
      | .error e => (.error e, r.2)
      | .ok y =>
          let t := loopReads body n y
          (t.1, r.2 ++ t.2)

/-- One pass of the question loop at offset `len`: the name, then the
`dns_question` after it, which is not read. -/
def questionBody (ibuf : Bytes) (cc : Int) (len : Nat) : Except DnsEnd Nat × List Nat :=
  let q := skipQname ibuf cc len
  match q.1 with
  | none => (.error .exit, q.2)
  | some p => (.ok (p + sizeofDnsQuestion), q.2)

/-- The name of an answer at `len`: a two-byte pointer when
`(int)qn[0] > 63` (a `char` is signed, so only the bytes 64 to 127), and
otherwise a name that `skip_qname` steps over. -/
def answerName (ibuf : Bytes) (cc : Int) (len : Nat) : Option Nat × List Nat :=
  let c := (ibuf len).toNat
  if 63 < c ∧ c < 128 then (some (len + 2), [len, len + 1])
  else
    let q := skipQname ibuf cc len
    (q.1, len :: q.2)

/-- The `dns_data` of an answer at `d` and, for an A record of length 4, the
address after it, which must be 128.52.129.126. -/
def answerData (ibuf : Bytes) (d : Nat) (record : Bool) :
    Except DnsEnd (Nat × Bool) × List Nat :=
  let len := d + sizeofDnsData
  if ntohs (ld16 ibuf d) = ARECORD then
    if ntohs (ld16 ibuf (d + 8)) = 4 then
      let reads := [d, d + 1, d + 8, d + 9, len, len + 1, len + 2, len + 3]
      if ibuf len ≠ 128 ∨ ibuf (len + 1) ≠ 52 ∨ ibuf (len + 2) ≠ 129 ∨ ibuf (len + 3) ≠ 126 then
        (.error (.ret 0), reads)
      else (.ok (len + 4, true), reads)
    else (.ok (len, record), [d, d + 1, d + 8, d + 9])
  else (.ok (len, record), [d, d + 1])

/-- One pass of the answer loop, over the offset and the flag `record`. -/
def answerBody (ibuf : Bytes) (cc : Int) (st : Nat × Bool) :
    Except DnsEnd (Nat × Bool) × List Nat :=
  if cc ≤ st.1 then (.error (.ret 0), [])
  else
    let name := answerName ibuf cc st.1
    match name.1 with
    | none => (.error .exit, name.2)
    | some d =>
        let r := answerData ibuf d st.2
        (r.1, name.2 ++ r.2)

/-- One pass of the EDNS loop at offset `len`: an empty name, then a
`dns_data` of type 41 and the `len` bytes it announces. -/
def ednsBody (ibuf : Bytes) (len : Nat) : Except DnsEnd Nat × List Nat :=
  if ibuf len ≠ 0 then (.error (.ret 0), [len])
  else
    let d := len + 1
    if ntohs (ld16 ibuf d) ≠ 41 then (.error (.ret 0), [len, d, d + 1])
    else (.ok (d + sizeofDnsData + (ntohs (ld16 ibuf (d + 8))).toNat),
      [len, d, d + 1, d + 8, d + 9])

/-- `dns_rep(ibuf, cc)`. The header is `id` at 0, the flag bytes at 2 (`qr`
is bit 7) and 3 (`rcode` is bits 0 to 3), and `qdcount`, `ancount`,
`arcount` at 4, 6 and 10. -/
def dnsRep (ibuf : Bytes) (cc : Int) : DnsEnd × List Nat :=
  if cc < sizeofDns then (.ret 0, [])
  else if ibuf 2 &&& 0x80 = 0 then (.ret 0, [2, 0, 1])
  else if ld16 ibuf 0 ≠ htons 6828 then (.ret 0, [2, 0, 1])
  else if ibuf 3 &&& 0x0F ≠ 0 then (.ret 0, [2, 0, 1, 3])
  else
    let qs := loopReads (questionBody ibuf cc) (ntohs (ld16 ibuf 4)).toNat sizeofDns
    match qs.1 with
    | .error e => (e, [2, 0, 1, 3, 4, 5] ++ qs.2)
    | .ok len =>
        let ans := loopReads (answerBody ibuf cc) (ntohs (ld16 ibuf 6)).toNat (len, false)
        match ans.1 with
        | .error e => (e, [2, 0, 1, 3, 4, 5] ++ qs.2 ++ [6, 7] ++ ans.2)
        | .ok st =>
            let ar := loopReads (ednsBody ibuf) (ntohs (ld16 ibuf 10)).toNat st.1
            let reads := [2, 0, 1, 3, 4, 5] ++ qs.2 ++ [6, 7] ++ ans.2 ++ [10, 11] ++ ar.2
            match ar.1 with
            | .error e => (e, reads)
            | .ok len' =>
                if (len' : Int) ≠ cc then (.ret 0, reads)
                else if !st.2 then (.ret 0, reads)
                else (.ret 1, reads)

/-- `recv` into the zeroed `ibuf`: the reply, then zero bytes. -/
def replyBuf (reply : List UInt8) : Bytes :=
  fun i => reply.getD i 0

/-- A name that `skip_qname` steps over ends inside the reply, past every byte
it loaded. -/
theorem skipQname_some {ibuf : Bytes} {cc : Int} {p q : Nat} (h : (skipQname ibuf cc p).1 = some q) :
    p < q ∧ (q : Int) ≤ cc ∧ ∀ i ∈ (skipQname ibuf cc p).2, i < q := by
  fun_induction skipQname ibuf cc p with
  | case2 p hcc c hc =>
      cases h
      simp
      omega
  | case4 p hcc c h0 hc h1 =>
      cases h
      simp
      omega
  | case6 p hcc c h0 hc h1 r ih =>
      obtain ⟨hlt, hle, hreads⟩ := ih h
      refine ⟨by omega, hle, ?_⟩
      intro i hi
      rcases List.mem_cons.1 hi with rfl | hi
      · omega
      · exact hreads i hi
  | _ => cases h

section LoopReads

variable {σ ε : Type} (body : σ → Except ε σ × List Nat) (pos : σ → Nat)

/-- A loop whose passes each load below the offset they end at, and never
move it back, loads below the offset it ends at. -/
theorem loopReads_ok
    (hbody : ∀ x y, (body x).1 = .ok y → pos x ≤ pos y ∧ ∀ i ∈ (body x).2, i < pos y) :
    ∀ n x z, (loopReads body n x).1 = .ok z →
      pos x ≤ pos z ∧ ∀ i ∈ (loopReads body n x).2, i < pos z := by
  intro n
  induction n with
  | zero =>
      intro x z h
      cases h
      simp [loopReads]
  | succ n ih =>
      intro x z h
      simp only [loopReads] at h ⊢
      cases hb : (body x).1 with
      | error e => simp [hb] at h
      | ok y =>
          simp only [hb] at h ⊢
          obtain ⟨hxy, hbr⟩ := hbody x y hb
          obtain ⟨hyz, hlr⟩ := ih y z h
          refine ⟨by omega, ?_⟩
          intro i hi
          rcases List.mem_append.1 hi with hi | hi
          · have := hbr i hi
            omega
          · exact hlr i hi

/-- A loop whose passes never end with `e` never ends with `e`. -/
theorem loopReads_ne_error {e : ε} (hbody : ∀ x, (body x).1 ≠ .error e) :
    ∀ n x, (loopReads body n x).1 ≠ .error e := by
  intro n
  induction n with
  | zero => simp [loopReads]
  | succ n ih =>
      intro x
      simp only [loopReads]
      cases hb : (body x).1 with
      | error e' => exact fun heq => hbody x (hb.trans heq)
      | ok y => exact ih y

end LoopReads

theorem questionBody_ok {ibuf : Bytes} {cc : Int} {len len' : Nat}
    (h : (questionBody ibuf cc len).1 = .ok len') :
    len ≤ len' ∧ ∀ i ∈ (questionBody ibuf cc len).2, i < len' := by
  unfold questionBody at h ⊢
  cases hq : (skipQname ibuf cc len).1 with
  | none => simp [hq] at h
  | some p =>
      simp only [hq] at h ⊢
      cases h
      obtain ⟨hlt, -, hreads⟩ := skipQname_some hq
      refine ⟨by simp only [sizeofDnsQuestion]; omega, fun i hi => ?_⟩
      have := hreads i hi
      simp only [sizeofDnsQuestion]
      omega

theorem answerName_some {ibuf : Bytes} {cc : Int} {len d : Nat}
    (h : (answerName ibuf cc len).1 = some d) :
    len < d ∧ ∀ i ∈ (answerName ibuf cc len).2, i < d := by
  dsimp only [answerName] at h ⊢
  split_ifs at h ⊢ with hc
  · cases h
    simp
  · obtain ⟨hlt, -, hreads⟩ := skipQname_some h
    refine ⟨hlt, fun i hi => ?_⟩
    rcases List.mem_cons.1 hi with rfl | hi
    · exact hlt
    · exact hreads i hi

theorem answerData_ok {ibuf : Bytes} {d : Nat} {record : Bool} {st : Nat × Bool}
    (h : (answerData ibuf d record).1 = .ok st) :
    d < st.1 ∧ ∀ i ∈ (answerData ibuf d record).2, i < st.1 := by
  dsimp only [answerData] at h ⊢
  split_ifs at h ⊢ with ha hl hip
  all_goals
    cases h
    simp [sizeofDnsData] <;> omega

theorem answerBody_ok {ibuf : Bytes} {cc : Int} {st st' : Nat × Bool}
    (h : (answerBody ibuf cc st).1 = .ok st') :
    st.1 ≤ st'.1 ∧ ∀ i ∈ (answerBody ibuf cc st).2, i < st'.1 := by
  dsimp only [answerBody] at h ⊢
  split_ifs at h ⊢ with hcc
  · cases hn : (answerName ibuf cc st.1).1 with
    | none => simp [hn] at h
    | some d =>
        simp only [hn] at h ⊢
        obtain ⟨hlt, hnr⟩ := answerName_some hn
        obtain ⟨hd, hdr⟩ := answerData_ok h
        refine ⟨by omega, fun i hi => ?_⟩
        rcases List.mem_append.1 hi with hi | hi
        · have := hnr i hi
          omega
        · exact hdr i hi

theorem ednsBody_ok {ibuf : Bytes} {len len' : Nat} (h : (ednsBody ibuf len).1 = .ok len') :
    len ≤ len' ∧ ∀ i ∈ (ednsBody ibuf len).2, i < len' := by
  dsimp only [ednsBody] at h ⊢
  split_ifs at h ⊢
  cases h
  simp [sizeofDnsData]
  omega

theorem questionBody_ne_ret_one (ibuf : Bytes) (cc : Int) (len : Nat) :
    (questionBody ibuf cc len).1 ≠ .error (.ret 1) := by
  dsimp only [questionBody]
  cases (skipQname ibuf cc len).1 <;> simp

theorem answerBody_ne_ret_one (ibuf : Bytes) (cc : Int) (st : Nat × Bool) :
    (answerBody ibuf cc st).1 ≠ .error (.ret 1) := by
  dsimp only [answerBody, answerData]
  split_ifs
  · simp
  · cases (answerName ibuf cc st.1).1 <;> simp
    split_ifs <;> simp

theorem ednsBody_ne_ret_one (ibuf : Bytes) (len : Nat) :
    (ednsBody ibuf len).1 ≠ .error (.ret 1) := by
  dsimp only [ednsBody]
  split_ifs <;> simp

/-- A reply that `dns_rep` accepts was read inside `cc`: every check it
passed left `len` past every byte loaded, and the last one makes `len = cc`. -/
theorem dnsRep_ret_one_reads (ibuf : Bytes) (cc : Int) (h : (dnsRep ibuf cc).1 = .ret 1) :
    ∀ i ∈ (dnsRep ibuf cc).2, (i : Int) < cc := by
  dsimp only [dnsRep] at h ⊢
  have h12 : ¬cc < sizeofDns := fun hc => by simp [hc] at h
  have hqr : ¬ibuf 2 &&& 0x80 = 0 := fun hc => by simp [h12, hc] at h
  have hid : ¬ld16 ibuf 0 ≠ htons 6828 := fun hc => by simp [h12, hqr, hc] at h
  have hrc : ¬ibuf 3 &&& 0x0F ≠ 0 := fun hc => by simp [h12, hqr, hid, hc] at h
  rw [if_neg h12, if_neg hqr, if_neg hid, if_neg hrc] at h ⊢
  rcases hq : (loopReads (questionBody ibuf cc) (ntohs (ld16 ibuf 4)).toNat sizeofDns).1
    with e | len
  · simp only [hq] at h
    exact absurd (h ▸ hq) (loopReads_ne_error _ (questionBody_ne_ret_one ibuf cc) _ _)
  simp only [hq] at h ⊢
  rcases ha : (loopReads (answerBody ibuf cc) (ntohs (ld16 ibuf 6)).toNat (len, false)).1
    with e | st
  · simp only [ha] at h
    exact absurd (h ▸ ha) (loopReads_ne_error _ (answerBody_ne_ret_one ibuf cc) _ _)
  simp only [ha] at h ⊢
  rcases hr : (loopReads (ednsBody ibuf) (ntohs (ld16 ibuf 10)).toNat st.1).1 with e | len'
  · simp only [hr] at h
    exact absurd (h ▸ hr) (loopReads_ne_error _ (ednsBody_ne_ret_one ibuf) _ _)
  simp only [hr] at h ⊢
  split_ifs at h ⊢ with hcc hrec
  · simp at h
  · simp at h
  obtain ⟨hq1, hqs⟩ := loopReads_ok _ id (fun _ _ => questionBody_ok) _ _ _ hq
  obtain ⟨ha1, has⟩ := loopReads_ok _ Prod.fst (fun _ _ => answerBody_ok) _ _ _ ha
  obtain ⟨hr1, hrs⟩ := loopReads_ok _ id (fun _ _ => ednsBody_ok) _ _ _ hr
  simp only [id, sizeofDns] at hq1 hqs hr1 hrs ha1
  intro i hi
  simp only [List.mem_append] at hi
  rcases hi with ((((hi | hi) | hi) | hi) | hi) | hi
  · simp at hi
    omega
  · have := hqs i hi
    omega
  · simp at hi
    omega
  · have := has i hi
    omega
  · simp at hi
    omega
  · have := hrs i hi
    omega

/-- A reply to the query for "pdos.csail.mit.edu.": the header (`id` 6828,
`qr` set, one question, one answer), the question, and an A record for
128.52.129.126 whose name is a pointer to the question's. -/
def pdosReply : List UInt8 :=
  [0x1A, 0xAC, 0x80, 0x00, 0, 1, 0, 1, 0, 0, 0, 0,
   4, 0x70, 0x64, 0x6f, 0x73, 5, 0x63, 0x73, 0x61, 0x69, 0x6c, 3, 0x6d, 0x69, 0x74,
   3, 0x65, 0x64, 0x75, 0, 0, 1, 0, 1,
   0xC0, 0x0C, 0, 1, 0, 1, 0, 0, 0, 0, 0, 4, 128, 52, 129, 126]

/-- `dns_rep` accepts the reply and reads only its 52 bytes. -/
theorem dnsRep_ret_one_reads_pdos :
    (dnsRep (replyBuf pdosReply) pdosReply.length).1 = .ret 1 ∧
      ∀ i ∈ (dnsRep (replyBuf pdosReply) pdosReply.length).2, (i : Int) < pdosReply.length :=
  ⟨by decide +kernel, dnsRep_ret_one_reads _ _ (by decide +kernel)⟩

/-- The loop of `encode_qname` over the bytes of `host` after the label start
`l`, with `lbl` the bytes since `l`: at each '.' the length `c - l`, cast to
`char`, and the bytes of the label are written.  The scan ends at the NUL,
which is not a '.', so a last label with no '.' after it is not written. -/
def encodeLabels : List UInt8 → List UInt8 → List UInt8
  | _, [] => []
  | lbl, c :: cs =>
      if c = '.'.toUInt8 then (UInt8.ofNat lbl.length :: lbl) ++ encodeLabels [] cs
      else encodeLabels (lbl ++ [c]) cs

/-- `encode_qname(qn, host)`, with `host` the bytes of the C string before its
NUL: the labels, then the zero byte that ends the name. -/
def encodeQname (host : List UInt8) : List UInt8 :=
  encodeLabels [] host ++ [0]

/-- A host name made of labels, each followed by its '.'. -/
def dottedName (labels : List (List UInt8)) : List UInt8 :=
  labels.flatMap fun l => l ++ ['.'.toUInt8]

/-- A name in the wire form: each label after its length byte, then a zero
byte. -/
def wireName (labels : List (List UInt8)) : List UInt8 :=
  labels.flatMap (fun l => UInt8.ofNat l.length :: l) ++ [0]

/-- The loop writes a label at the '.' that ends it. -/
theorem encodeLabels_label (lbl l rest : List UInt8) (hl : '.'.toUInt8 ∉ l) :
    encodeLabels lbl (l ++ '.'.toUInt8 :: rest) =
      (UInt8.ofNat (lbl ++ l).length :: (lbl ++ l)) ++ encodeLabels [] rest := by
  induction l generalizing lbl with
  | nil => simp [encodeLabels]
  | cons c l ih =>
      have hc : c ≠ '.'.toUInt8 := fun h => hl (h ▸ List.mem_cons_self ..)
      rw [List.cons_append, encodeLabels, if_neg hc, ih _ (fun h => hl (List.mem_cons_of_mem c h)),
        List.append_assoc, List.singleton_append]

theorem encodeQname_dottedName (labels : List (List UInt8)) (hl : ∀ l ∈ labels, '.'.toUInt8 ∉ l) :
    encodeQname (dottedName labels) = wireName labels := by
  simp only [encodeQname, wireName]
  congr 1
  induction labels with
  | nil => rfl
  | cons l ls ih =>
      rw [dottedName, List.flatMap_cons, List.append_assoc, List.singleton_append,
        encodeLabels_label [] l _ (hl l (List.mem_cons_self ..)), ← dottedName,
        ih fun l' h => hl l' (List.mem_cons_of_mem l h)]
      simp

/-- A length byte of 1 to 63 is neither the end of a name nor a pointer. -/
theorem labelLength_ok {n : Nat} (h0 : 0 < n) (h63 : n ≤ 63) :
    UInt8.ofNat n ≠ 0 ∧ UInt8.ofNat n &&& 0xC0 ≠ 0xC0 ∧ (UInt8.ofNat n).toNat = n := by
  have hall : ∀ m : Fin 64, 0 < m.val →
      UInt8.ofNat m.val ≠ 0 ∧ UInt8.ofNat m.val &&& 0xC0 ≠ 0xC0 ∧ (UInt8.ofNat m.val).toNat = m.val := by
    decide
  exact hall ⟨n, by omega⟩ h0

/-- `skip_qname` steps over a name in the wire form, read from `p` on, to its
end. -/
theorem skipQname_wireName {ibuf : Bytes} {cc : Int} (labels : List (List UInt8))
    (hl : ∀ l ∈ labels, 0 < l.length ∧ l.length ≤ 63) (p : Nat)
    (hbuf : ∀ i < (wireName labels).length, ibuf (p + i) = (wireName labels).getD i 0)
    (hcc : ((p + (wireName labels).length : Nat) : Int) ≤ cc) :
    (skipQname ibuf cc p).1 = some (p + (wireName labels).length) := by
  induction labels generalizing p with
  | nil =>
      have h0 : ibuf p = 0 := by simpa [wireName] using hbuf 0 (by simp [wireName])
      simp only [wireName, List.flatMap_nil, List.nil_append, List.length_singleton] at hcc ⊢
      rw [skipQname, if_neg (by omega), if_pos h0]
  | cons l ls ih =>
      obtain ⟨h0, h63⟩ := hl l (List.mem_cons_self ..)
      obtain ⟨hne, hptr, hval⟩ := labelLength_ok h0 h63
      have hlen : (wireName (l :: ls)).length = 1 + l.length + (wireName ls).length := by
        simp [wireName]
        omega
      have hp : ibuf p = UInt8.ofNat l.length := by
        simpa [wireName] using hbuf 0 (by rw [hlen]; omega)
      have hrest : ∀ i < (wireName ls).length,
          ibuf (p + 1 + l.length + i) = (wireName ls).getD i 0 := by
        intro i hi
        have := hbuf (1 + l.length + i) (by rw [hlen]; omega)
        rw [show p + (1 + l.length + i) = p + 1 + l.length + i by omega] at this
        rw [this]
        simp only [wireName, List.flatMap_cons, List.append_assoc]
        rw [List.getD_append_right _ _ _ _ (by simp; omega)]
        simp only [List.length_cons, show 1 + l.length + i - (l.length + 1) = i by omega]
      rw [hlen] at hcc ⊢
      have hnext := ih (fun l' h => hl l' (List.mem_cons_of_mem l h)) (p + 1 + l.length) hrest
        (by push_cast at hcc ⊢; omega)
      rw [skipQname, if_neg (by push_cast at hcc ⊢; omega)]
      simp only [hp, if_neg hne, if_neg hptr, hval]
      rw [if_neg (by push_cast at hcc ⊢; omega), hnext]
      congr 1
      omega

/-- The query name round trip: for a host of labels of 1 to 63 bytes, each
ended by a '.', `skip_qname` reads the name `encode_qname` wrote to exactly
its end, whatever follows it in the buffer. -/
theorem skipQname_encodeQname (labels : List (List UInt8))
    (hl : ∀ l ∈ labels, 0 < l.length ∧ l.length ≤ 63 ∧ '.'.toUInt8 ∉ l) (rest : List UInt8)
    (cc : Int) (hcc : ((encodeQname (dottedName labels)).length : Int) ≤ cc) :
    (skipQname (replyBuf (encodeQname (dottedName labels) ++ rest)) cc 0).1 =
      some (encodeQname (dottedName labels)).length := by
  rw [encodeQname_dottedName labels fun l h => (hl l h).2.2] at hcc ⊢
  have hbuf : ∀ i < (wireName labels).length,
      replyBuf (wireName labels ++ rest) (0 + i) = (wireName labels).getD i 0 := fun i hi => by
    simp only [replyBuf, Nat.zero_add]
    rw [List.getD_append _ _ _ _ hi]
  have h := skipQname_wireName labels (fun l h => ⟨(hl l h).1, (hl l h).2.1⟩) 0 hbuf
    (by simpa using hcc)
  simpa using h

/-- The host name of `dns_req`, "pdos.csail.mit.edu.". -/
def pdosLabels : List (List UInt8) :=
  [[0x70, 0x64, 0x6f, 0x73], [0x63, 0x73, 0x61, 0x69, 0x6c], [0x6d, 0x69, 0x74], [0x65, 0x64, 0x75]]

/-- The 20-byte name of the query is read back in a 36-byte reply. -/
theorem skipQname_encodeQname_pdos :
    (∀ l ∈ pdosLabels, 0 < l.length ∧ l.length ≤ 63 ∧ '.'.toUInt8 ∉ l) ∧
      ((encodeQname (dottedName pdosLabels)).length : Int) ≤ 36 ∧
      (skipQname (replyBuf (encodeQname (dottedName pdosLabels) ++ [0, 1, 0, 1])) 36 0).1 =
        some (encodeQname (dottedName pdosLabels)).length :=
  ⟨by decide, by decide,
    skipQname_encodeQname pdosLabels (by decide) [0, 1, 0, 1] 36 (by decide)⟩

/-- The header (`id` 6828, `qr` set, `arcount` 2) and one EDNS record of
announced length 1000. -/
def ednsOverrunReply : List UInt8 :=
  [0x1A, 0xAC, 0x80, 0x00, 0, 0, 0, 0, 0, 0, 0, 2,
   0, 0, 41, 0x10, 0x00, 0, 0, 0, 0, 0x03, 0xE8]

/-- `dns_rep` loads offsets 12 to 22 and then 1023 to 1025 of a 23-byte reply
before it returns 0. -/
theorem dnsRep_reads_past_buffer :
    dnsRep (replyBuf ednsOverrunReply) ednsOverrunReply.length =
      (.ret 0, [2, 0, 1, 3, 4, 5, 6, 7, 10, 11, 12, 13, 14, 21, 22, 1023, 1024, 1025]) := by
  decide +kernel

end Client
end Xv6Net
