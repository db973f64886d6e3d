import Xv6Net.Client.Dns

/-!
# The query of nettest's DNS client and the answer it accepts

`dns_req(obuf)` builds the query that `dns()` sends to port 53 of 8.8.8.8:
the `struct dns` header (`id` 6828, `rd` set, one question), the name that
`encode_qname` writes for "pdos.csail.mit.edu.", and the `dns_question` (type
1, class 1), placed after the NUL of the name as `strlen` finds it.  A
resolver answers with the query itself, `qr` and `ra` set and one answer, and
an A record after it whose name is a pointer to the question's.

**Results.**
* `dnsQuery_eq`: for a host of labels of 1 to 63 bytes, none holding a '.' or
  a NUL, the bytes `dns()` sends are the header, the name in the wire form and
  the question.
* `dnsRep_answerTo`: `dns_rep` accepts the answer to the query of `dns_req`
  exactly when its A record holds 128.52.129.126, whatever the TTL.
-/

namespace Xv6Net
namespace Client

/-- `strlen` of a string whose bytes begin with `l`, which holds its NUL. -/
def strlen (l : List UInt8) : Nat :=
  (l.takeWhile (· != 0)).length

/-- The `struct dns` header of `dns_req` on the zeroed `obuf`: `id =
htons(6828)`, `rd = 1` (bit 0 of byte 2) and `qdcount = htons(1)`. -/
def dnsReqHeader : Bytes :=
  let obuf := st16 (fun _ => 0) 0 (htons 6828)
  let obuf := Function.update obuf 2 (obuf 2 &&& 0xFE ||| 1)
  st16 obuf 4 (htons 1)

/-- `dns_req(obuf)` on the zeroed `obuf`, for the host name `s` (the bytes of
the C string before its NUL): the bytes of `obuf` after the call, and the
length it returns. -/
def dnsReqFor (s : List UInt8) : Bytes × Nat :=
  let qname := encodeQname s
  let obuf := stBytes dnsReqHeader sizeofDns qname
  let q := sizeofDns + strlen qname + 1
  let obuf := st16 (st16 obuf q (htons 1)) (q + 2) (htons 1)
  (obuf, q + sizeofDnsQuestion)

/-- `dns_req(obuf)`, for "pdos.csail.mit.edu.". -/
def dnsReq : Bytes × Nat :=
  dnsReqFor (dottedName pdosLabels)

/-- The payload of `send(10000, dst, 53, obuf, len)`. -/
def dnsQuery (s : List UInt8) : List UInt8 :=
  slice (dnsReqFor s).1 0 (dnsReqFor s).2

/-- The header of the answer to the header `h` of a query: `qr` and `ra` set,
`rcode` 0 and one answer. -/
def answerHeader (h : List UInt8) : List UInt8 :=
  ((h.set 2 (h.getD 2 0 ||| 0x80)).set 3 0x80).set 7 1

/-- An A record: the name as a pointer to offset 12, type 1, class 1, the TTL,
the length 4 and the address. -/
def aRecord (ttl : UInt32) (addr : List UInt8) : List UInt8 :=
  [0xC0, 0x0C, 0, 1, 0, 1] ++ bytes32 (htonl ttl) ++ [0, 4] ++ addr

/-- The answer to `query` with one A record. -/
def answerTo (query : List UInt8) (ttl : UInt32) (addr : List UInt8) : List UInt8 :=
  answerHeader (query.take sizeofDns) ++ query.drop sizeofDns ++ aRecord ttl addr

/-- The header `dns_req` writes, as bytes. -/
def queryHeader : List UInt8 :=
  [0x1A, 0xAC, 0x01, 0, 0, 1, 0, 0, 0, 0, 0, 0]

/-- The header of the answer to it. -/
def replyHeader : List UInt8 :=
  [0x1A, 0xAC, 0x81, 0x80, 0, 1, 0, 1, 0, 0, 0, 0]

section Slices

theorem slice_add (b : Bytes) (o m n : Nat) :
    slice b o (m + n) = slice b o m ++ slice b (o + m) n := by
  simp only [slice, List.range_add, List.map_append, List.map_map]
  congr 1
  apply List.map_congr_left
  intro i _
  simp only [Function.comp_apply, Nat.add_assoc]

theorem slice_dnsReqHeader : slice dnsReqHeader 0 sizeofDns = queryHeader := by
  decide

/-- A name in the wire form with no NUL in its labels has its own NUL last. -/
theorem strlen_wireName (labels : List (List UInt8))
    (hl : ∀ l ∈ labels, 0 < l.length ∧ l.length ≤ 63 ∧ (0 : UInt8) ∉ l) :
    strlen (wireName labels) + 1 = (wireName labels).length := by
  induction labels with
  | nil => rfl
  | cons l ls ih =>
      obtain ⟨h0, h63, hnul⟩ := hl l (List.mem_cons_self ..)
      have hlen := (labelLength_ok h0 h63).1
      have hpos : ∀ a ∈ UInt8.ofNat l.length :: l, (a != 0) = true := by
        intro a ha
        rcases List.mem_cons.mp ha with rfl | ha
        · simpa using hlen
        · simpa using fun h : a = 0 => hnul (h ▸ ha)
      have hwire : wireName (l :: ls) = (UInt8.ofNat l.length :: l) ++ wireName ls := by
        simp [wireName]
      rw [hwire, strlen, List.takeWhile_append_of_pos hpos, List.length_append, List.length_append,
        ← strlen, ← ih fun l' h => hl l' (List.mem_cons_of_mem l h)]
      omega

end Slices

/-- The bytes `dns()` sends for a host of labels of 1 to 63 bytes, none
holding a '.' or a NUL: the header, the name in the wire form, then type 1
and class 1. -/
theorem dnsQuery_eq (labels : List (List UInt8))
    (hl : ∀ l ∈ labels, 0 < l.length ∧ l.length ≤ 63 ∧ '.'.toUInt8 ∉ l ∧ (0 : UInt8) ∉ l) :
    dnsQuery (dottedName labels) = queryHeader ++ wireName labels ++ [0, 1, 0, 1] := by
  have hname := encodeQname_dottedName labels fun l h => (hl l h).2.2.1
  have hs := strlen_wireName labels fun l h => ⟨(hl l h).1, (hl l h).2.1, (hl l h).2.2.2⟩
  simp only [dnsQuery, dnsReqFor, hname]
  generalize wireName labels = W at hs ⊢
  have hq : sizeofDns + strlen W + 1 = sizeofDns + W.length := by omega
  rw [hq, show sizeofDns + W.length + sizeofDnsQuestion = sizeofDns + W.length + 4 from rfl,
    slice_add, slice_add]
  simp only [Nat.zero_add]
  have hhead : slice (st16 (st16 (stBytes dnsReqHeader sizeofDns W) (sizeofDns + W.length)
      (htons 1)) (sizeofDns + W.length + 2) (htons 1)) 0 sizeofDns = queryHeader := by
    rw [← slice_dnsReqHeader]
    apply slice_congr
    intro i _ hi
    rw [st16_of_ne _ (by omega) (by omega), st16_of_ne _ (by omega) (by omega),
      stBytes_of_lt _ (by omega)]
  have hbody : slice (st16 (st16 (stBytes dnsReqHeader sizeofDns W) (sizeofDns + W.length)
      (htons 1)) (sizeofDns + W.length + 2) (htons 1)) sizeofDns W.length = W := by
    conv => rhs; rw [← slice_stBytes dnsReqHeader sizeofDns W]
    apply slice_congr
    intro i _ hi
    rw [st16_of_ne _ (by omega) (by omega), st16_of_ne _ (by omega) (by omega)]
  have htail : slice (st16 (st16 (stBytes dnsReqHeader sizeofDns W) (sizeofDns + W.length)
      (htons 1)) (sizeofDns + W.length + 2) (htons 1)) (sizeofDns + W.length) 4 =
      [0, 1, 0, 1] := by
    generalize sizeofDns + W.length = o
    generalize stBytes dnsReqHeader sizeofDns W = b
    have h0 : st16 (st16 b o (htons 1)) (o + 2) (htons 1) o = 0 := by
      rw [st16_of_ne _ (by omega) (by omega), st16_self]
      decide
    have h1 : st16 (st16 b o (htons 1)) (o + 2) (htons 1) (o + 1) = 1 := by
      rw [st16_of_ne _ (by omega) (by omega), st16_succ]
      decide
    have h2 : st16 (st16 b o (htons 1)) (o + 2) (htons 1) (o + 2) = 0 := by
      rw [st16_self]
      decide
    have h3 : st16 (st16 b o (htons 1)) (o + 2) (htons 1) (o + 3) = 1 := by
      rw [show o + 3 = o + 2 + 1 by omega, st16_succ]
      decide
    show [_, _, _, _] = _
    simp only [Nat.add_zero, h0, h1, h2, h3]
  rw [hhead, hbody, htail]

section Reply

variable (pre rest : List UInt8)

theorem replyBuf_append_of_lt {i : Nat} (h : i < pre.length) :
    replyBuf (pre ++ rest) i = replyBuf pre i := by
  simp only [replyBuf, List.getD_append _ _ _ _ h]

theorem replyBuf_append_length_add (k : Nat) :
    replyBuf (pre ++ rest) (pre.length + k) = replyBuf rest k := by
  simp only [replyBuf]
  rw [List.getD_append_right _ _ _ _ (by omega), Nat.add_sub_cancel_left]

end Reply

/-- An answer name that is a pointer: two bytes. -/
theorem answerName_pointer {ibuf : Bytes} {cc : Int} {p : Nat} (hc : ibuf p = 0xC0)
    (hcc : ((p + 2 : Nat) : Int) ≤ cc) : (answerName ibuf cc p).1 = some (p + 2) := by
  have hne : (0xC0 : UInt8) ≠ 0 := by decide
  have hptr : (0xC0 : UInt8) &&& 0xC0 = 0xC0 := by decide
  have hsigned : ¬ (63 < (0xC0 : UInt8).toNat ∧ (0xC0 : UInt8).toNat < 128) := by decide
  have hq : (skipQname ibuf cc p).1 = some (p + 2) := by
    rw [skipQname, if_neg (by omega)]
    simp only [hc, hne, hptr, if_false, if_true, if_neg (show ¬ cc ≤ (p : Int) + 1 by omega)]
  simp only [answerName, hc, hsigned, if_false, hq]

/-- The `dns_data` of an A record of length 4: the address is checked, and
the parse goes on after it. -/
theorem answerData_aRecord {ibuf : Bytes} {d : Nat} (record : Bool) (h0 : ibuf d = 0)
    (h1 : ibuf (d + 1) = 1) (h8 : ibuf (d + 8) = 0) (h9 : ibuf (d + 8 + 1) = 4) :
    (answerData ibuf d record).1 =
      if ibuf (d + sizeofDnsData) ≠ 128 ∨ ibuf (d + sizeofDnsData + 1) ≠ 52 ∨
          ibuf (d + sizeofDnsData + 2) ≠ 129 ∨ ibuf (d + sizeofDnsData + 3) ≠ 126 then
        .error (.ret 0)
      else .ok (d + sizeofDnsData + 4, true) := by
  have htype : ntohs (ld16 ibuf d) = ARECORD := by
    simp only [ld16, h0, h1]
    decide
  have hlen : ntohs (ld16 ibuf (d + 8)) = 4 := by
    simp only [ld16, h8, h9]
    decide
  simp only [answerData, htype, hlen, if_true]
  split_ifs <;> rfl

/-- The byte checks of the A record against 128.52.129.126. -/
theorem addr_ne_iff (a0 a1 a2 a3 : UInt8) :
    (a0 ≠ 128 ∨ a1 ≠ 52 ∨ a2 ≠ 129 ∨ a3 ≠ 126) ↔ ¬ [a0, a1, a2, a3] = [128, 52, 129, 126] := by
  simp only [ne_eq, List.cons.injEq, and_true, not_and_or]

/-- One pass of the answer loop over an A record at `p` that ends the reply:
accepted exactly for 128.52.129.126. -/
theorem answerBody_aRecord {ibuf : Bytes} {p : Nat} (ttl : UInt32) (a0 a1 a2 a3 : UInt8)
    (record : Bool) (hb : ∀ k, ibuf (p + k) = (aRecord ttl [a0, a1, a2, a3]).getD k 0) :
    (answerBody ibuf (p + 16 : Nat) (p, record)).1 =
      if [a0, a1, a2, a3] = [128, 52, 129, 126] then .ok (p + 16, true)
      else .error (.ret 0) := by
  have hname : (answerName ibuf (p + 16 : Nat) p).1 = some (p + 2) :=
    answerName_pointer (hb 0) (by omega)
  have hdata := answerData_aRecord record (hb 2) (hb 3) (hb 10) (hb 11)
  simp only [answerBody, if_neg (show ¬ ((p + 16 : Nat) : Int) ≤ p by omega), hname, hdata]
  simp only [sizeofDnsData, Nat.add_assoc, Nat.reduceAdd, hb 12, hb 13, hb 14, hb 15]
  change (if a0 ≠ 128 ∨ a1 ≠ 52 ∨ a2 ≠ 129 ∨ a3 ≠ 126 then _ else _) = _
  simp only [addr_ne_iff, ite_not]

/-- A counted loop of one pass ends as its pass does. -/
theorem loopReads_one {σ ε : Type} (body : σ → Except ε σ × List Nat) (x : σ) :
    (loopReads body 1 x).1 = (body x).1 := by
  simp only [loopReads]
  split <;> simp_all

/-- Past the header of `replyHeader` (an answer to query 6828, without error,
with one question, one answer and no other record) `dns_rep` is one pass of
the question loop, one of the answer loop and the final checks. -/
theorem dnsRep_replyHeader {ibuf : Bytes} {cc : Int}
    (hh : ∀ i < sizeofDns, ibuf i = replyBuf replyHeader i) (hcc : (sizeofDns : Int) ≤ cc) :
    (dnsRep ibuf cc).1 =
      match (questionBody ibuf cc sizeofDns).1 with
      | .error e => e
      | .ok len =>
          match (answerBody ibuf cc (len, false)).1 with
          | .error e => e
          | .ok st => if (st.1 : Int) ≠ cc then .ret 0 else if !st.2 then .ret 0 else .ret 1 := by
  have hld : ∀ o, o + 1 < sizeofDns → ld16 ibuf o = ld16 (replyBuf replyHeader) o :=
    fun o ho => ld16_congr fun i _ _ => hh i (by omega)
  have hqr : ¬ ibuf 2 &&& 0x80 = 0 := by rw [hh 2 (by decide)]; decide
  have hid : ¬ ld16 ibuf 0 ≠ htons 6828 := by rw [hld 0 (by decide)]; decide
  have hrcode : ¬ ibuf 3 &&& 0x0F ≠ 0 := by rw [hh 3 (by decide)]; decide
  have hqd : (ntohs (ld16 ibuf 4)).toNat = 1 := by rw [hld 4 (by decide)]; decide
  have han : (ntohs (ld16 ibuf 6)).toNat = 1 := by rw [hld 6 (by decide)]; decide
  have har : (ntohs (ld16 ibuf 10)).toNat = 0 := by rw [hld 10 (by decide)]; decide
  simp only [dnsRep, if_neg (show ¬ cc < sizeofDns by omega), hqr, hid, hrcode, if_false, hqd,
    han, har, loopReads_one]
  cases (questionBody ibuf cc sizeofDns).1 with
  | error e => rfl
  | ok len =>
      dsimp only
      cases (answerBody ibuf cc (len, false)).1 with
      | error e => rfl
      | ok st => simp only [loopReads]; split_ifs <;> rfl

/-- `dns_rep` on an answer with one question, whose name is in the wire form,
and one A record: accepted exactly for 128.52.129.126. -/
theorem dnsRep_reply (labels : List (List UInt8))
    (hl : ∀ l ∈ labels, 0 < l.length ∧ l.length ≤ 63) (ttl : UInt32) (a0 a1 a2 a3 : UInt8) :
    (dnsRep (replyBuf (replyHeader ++ wireName labels ++ [0, 1, 0, 1] ++ aRecord ttl [a0, a1, a2, a3]))
        (replyHeader ++ wireName labels ++ [0, 1, 0, 1] ++ aRecord ttl [a0, a1, a2, a3]).length).1 =
      if [a0, a1, a2, a3] = [128, 52, 129, 126] then .ret 1 else .ret 0 := by
  have hpl : (replyHeader ++ wireName labels ++ [0, 1, 0, 1]).length =
      sizeofDns + (wireName labels).length + sizeofDnsQuestion := by
    simp [replyHeader, sizeofDns, sizeofDnsQuestion]
    omega
  set pre := replyHeader ++ wireName labels ++ [0, 1, 0, 1] with hpre
  have hlen : (pre ++ aRecord ttl [a0, a1, a2, a3]).length = pre.length + 16 := by
    simp [aRecord, bytes32]
  have hh : ∀ i < sizeofDns,
      replyBuf (pre ++ aRecord ttl [a0, a1, a2, a3]) i = replyBuf replyHeader i := by
    intro i hi
    rw [hpre, List.append_assoc, List.append_assoc]
    exact replyBuf_append_of_lt _ _ hi
  have hname : ∀ i < (wireName labels).length,
      replyBuf (pre ++ aRecord ttl [a0, a1, a2, a3]) (sizeofDns + i) = (wireName labels).getD i 0 := by
    intro i hi
    rw [hpre, List.append_assoc, List.append_assoc, show sizeofDns = replyHeader.length from rfl,
      replyBuf_append_length_add, replyBuf_append_of_lt _ _ hi]
    rfl
  have hq : (questionBody (replyBuf (pre ++ aRecord ttl [a0, a1, a2, a3]))
      (pre ++ aRecord ttl [a0, a1, a2, a3]).length sizeofDns).1 = .ok pre.length := by
    have hskip : (skipQname (replyBuf (pre ++ aRecord ttl [a0, a1, a2, a3]))
        (pre ++ aRecord ttl [a0, a1, a2, a3]).length sizeofDns).1 =
          some (sizeofDns + (wireName labels).length) :=
      skipQname_wireName labels hl sizeofDns hname (by rw [hlen, hpl]; omega)
    simp only [questionBody, hskip, hpl]
  rw [dnsRep_replyHeader hh (by rw [hlen]; omega), hq]
  dsimp only
  rw [hlen, answerBody_aRecord ttl a0 a1 a2 a3 false (replyBuf_append_length_add _ _)]
  by_cases ha : [a0, a1, a2, a3] = [128, 52, 129, 126]
  · rw [if_pos ha, if_pos ha]
    dsimp only
    rw [if_neg (not_not.mpr rfl)]
    rfl
  · rw [if_neg ha, if_neg ha]

theorem answerHeader_queryHeader : answerHeader queryHeader = replyHeader := by decide

/-- The answer to a query of header `queryHeader`: `replyHeader`, the
question as it was asked, then the record. -/
theorem answerTo_queryHeader (question : List UInt8) (ttl : UInt32) (addr : List UInt8) :
    answerTo (queryHeader ++ question) ttl addr = replyHeader ++ question ++ aRecord ttl addr := by
  have h : queryHeader.length = sizeofDns := rfl
  simp only [answerTo, ← h, List.take_left, List.drop_left, answerHeader_queryHeader]

/-- The client end to end: for any host of labels of 1 to 63 bytes, none
holding a '.' or a NUL, `dns_rep` on the answer to the query `dns_req` built
for it returns 1 exactly when the record's address is 128.52.129.126. -/
theorem dnsRep_answerTo (labels : List (List UInt8))
    (hl : ∀ l ∈ labels, 0 < l.length ∧ l.length ≤ 63 ∧ '.'.toUInt8 ∉ l ∧ (0 : UInt8) ∉ l)
    (ttl : UInt32) (a0 a1 a2 a3 : UInt8) :
    (dnsRep (replyBuf (answerTo (dnsQuery (dottedName labels)) ttl [a0, a1, a2, a3]))
        (answerTo (dnsQuery (dottedName labels)) ttl [a0, a1, a2, a3]).length).1 =
      if [a0, a1, a2, a3] = [128, 52, 129, 126] then .ret 1 else .ret 0 := by
  rw [dnsQuery_eq labels hl, List.append_assoc, answerTo_queryHeader, ← List.append_assoc]
  exact dnsRep_reply labels (fun l hm => ⟨(hl l hm).1, (hl l hm).2.1⟩) ttl a0 a1 a2 a3

/-- The query for "pdos.csail.mit.edu." and an answer with its address. -/
theorem dnsRep_answerTo_pdos :
    (∀ l ∈ pdosLabels, 0 < l.length ∧ l.length ≤ 63 ∧ '.'.toUInt8 ∉ l ∧ (0 : UInt8) ∉ l) ∧
      (dnsRep (replyBuf (answerTo (dnsQuery (dottedName pdosLabels)) 300 [128, 52, 129, 126]))
        (answerTo (dnsQuery (dottedName pdosLabels)) 300 [128, 52, 129, 126]).length).1 =
      if [(128 : UInt8), 52, 129, 126] = [128, 52, 129, 126] then .ret 1 else .ret 0 :=
  ⟨by decide, dnsRep_answerTo pdosLabels (by decide) 300 128 52 129 126⟩

end Client
end Xv6Net
