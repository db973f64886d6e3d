import Mathlib.Data.List.Nodup

/-!
# Singly linked list segments in a heap

A heap is seen through its link function `nxt : A → Option A`: `nxt a = some b`
when the cell at `a` holds a node whose link field is `b`, and `nxt a = none`
when `a` holds no node at all.  The pointer `null` ends a list.

`ListSeg nxt null a L b` says that following links from `a` visits exactly the
nodes `L`, none of them `null`, and arrives at `b`.  A complete list is a
segment that arrives at `null`.

**Results.**
* `ListSeg.unique`: a complete list is determined by its first pointer.
* `ListSeg.nodup`: a complete list is acyclic.
* `ListSeg.congr`: a segment only depends on the links of its own nodes.
* `ListSeg.snoc`: linking a fresh node behind the last one extends the list.
* `ListSeg.walk_eq`: following `L.length` links from the start reads `L` back.
* `seek_eq`: the bounded search loop over a complete list returns its first
  hit, once the bound covers the list.
-/

namespace Xv6Net
namespace Lib

universe u

variable {A : Type u}

/-- The nodes visited from `a` up to (excluding) `b`. -/
inductive ListSeg (nxt : A → Option A) (null : A) : A → List A → A → Prop
  | nil (a : A) : ListSeg nxt null a [] a
  | cons {a b c : A} {L : List A} :
      a ≠ null → nxt a = some b → ListSeg nxt null b L c →
      ListSeg nxt null a (a :: L) c

/-- The first `n` nodes reached from `a` by following links. -/
def walk (nxt : A → Option A) : Nat → A → List A
  | 0, _ => []
  | n + 1, a =>
      a :: match nxt a with
        | some b => walk nxt n b
        | none => []

namespace ListSeg

variable {nxt nxt' : A → Option A} {null : A}

theorem nil_inv {a b : A} (h : ListSeg nxt null a [] b) : a = b := by
  cases h
  rfl

theorem cons_inv {a q c : A} {L : List A} (h : ListSeg nxt null a (q :: L) c) :
    a = q ∧ q ≠ null ∧ ∃ b, nxt q = some b ∧ ListSeg nxt null b L c := by
  cases h with
  | cons hne hb rest => exact ⟨rfl, hne, _, hb, rest⟩

theorem append {a b c : A} {L₁ L₂ : List A}
    (h₁ : ListSeg nxt null a L₁ b) (h₂ : ListSeg nxt null b L₂ c) :
    ListSeg nxt null a (L₁ ++ L₂) c := by
  induction h₁ with
  | nil => exact h₂
  | cons hne hb _ ih => exact .cons hne hb (ih h₂)

theorem split {a c : A} {L₁ L₂ : List A} (h : ListSeg nxt null a (L₁ ++ L₂) c) :
    ∃ b, ListSeg nxt null a L₁ b ∧ ListSeg nxt null b L₂ c := by
  induction L₁ generalizing a with
  | nil => exact ⟨a, .nil a, h⟩
  | cons q L ih =>
      obtain ⟨rfl, hne, b, hb, rest⟩ := cons_inv h
      obtain ⟨m, h1, h2⟩ := ih rest
      exact ⟨m, .cons hne hb h1, h2⟩

/-- A segment leaving from `null` visits nothing. -/
theorem eq_nil_of_null {L : List A} {c : A} (h : ListSeg nxt null null L c) :
    L = [] ∧ c = null := by
  cases h with
  | nil => exact ⟨rfl, rfl⟩
  | cons hne _ _ => exact absurd rfl hne

/-- Every visited pointer is a non-null node. -/
theorem mem_node {a c q : A} {L : List A} (h : ListSeg nxt null a L c) (hq : q ∈ L) :
    q ≠ null ∧ ∃ b, nxt q = some b := by
  induction h with
  | nil => simp at hq
  | @cons a b _ _ hne hb _ ih =>
      rcases List.mem_cons.mp hq with rfl | hq
      · exact ⟨hne, b, hb⟩
      · exact ih hq

/-- A complete list is empty exactly when it starts at `null`. -/
theorem eq_nil_iff {a : A} {L : List A} (h : ListSeg nxt null a L null) :
    L = [] ↔ a = null := by
  constructor
  · rintro rfl
    exact nil_inv h
  · rintro rfl
    exact (eq_nil_of_null h).1

/-- Complete lists are determined by their first pointer. -/
theorem unique {a : A} {L L' : List A}
    (h : ListSeg nxt null a L null) (h' : ListSeg nxt null a L' null) : L = L' := by
  induction L generalizing a L' with
  | nil =>
      have ha : a = null := nil_inv h
      subst ha
      exact ((eq_nil_of_null h').1).symm
  | cons q L ih =>
      obtain ⟨rfl, hne, b, hb, rest⟩ := cons_inv h
      cases L' with
      | nil => exact absurd (nil_inv h') hne
      | cons q' L' =>
          obtain ⟨rfl, -, b', hb', rest'⟩ := cons_inv h'
          have hbb : b = b' := Option.some.inj (hb.symm.trans hb')
          subst hbb
          rw [ih rest rest']

/-- Complete lists are acyclic. -/
theorem nodup {a : A} {L : List A} (h : ListSeg nxt null a L null) : L.Nodup := by
  induction L generalizing a with
  | nil => exact List.nodup_nil
  | cons q L ih =>
      obtain ⟨haq, _, b, _, rest⟩ := cons_inv h
      subst haq
      refine List.nodup_cons.mpr ⟨fun ha => ?_, ih rest⟩
      obtain ⟨l₁, l₂, hsplit⟩ := List.append_of_mem ha
      rw [hsplit] at rest
      obtain ⟨m, _, hm⟩ := split rest
      obtain ⟨rfl, -⟩ := cons_inv hm
      have heq : m :: l₂ = m :: L := unique hm h
      have hlen := congrArg List.length heq
      rw [hsplit] at hlen
      simp at hlen
      omega

/-- A segment only reads the links of the nodes it visits. -/
theorem congr {a c : A} {L : List A} (h : ListSeg nxt null a L c)
    (hc : ∀ q ∈ L, nxt' q = nxt q) : ListSeg nxt' null a L c := by
  induction h with
  | nil => exact .nil _
  | cons hne hb _ ih =>
      refine .cons hne ((hc _ List.mem_cons_self).trans hb) ?_
      exact ih (fun q hq => hc q (List.mem_cons_of_mem _ hq))

/-- The last node of a complete list links to `null`. -/
theorem last_link {a t : A} {L : List A} (h : ListSeg nxt null a (L ++ [t]) null) :
    nxt t = some null := by
  obtain ⟨m, _, hm⟩ := split h
  obtain ⟨rfl, -, b, hb, rest⟩ := cons_inv hm
  rw [hb, nil_inv rest]

/-- Appending behind the last node: the old last node now links to `p`, and
`p` links to `null`; the other nodes keep their links. -/
theorem snoc {a t p : A} {L : List A} (h : ListSeg nxt null a (L ++ [t]) null)
    (hframe : ∀ q ∈ L, nxt' q = nxt q) (ht : nxt' t = some p)
    (hp : p ≠ null) (hpn : nxt' p = some null) :
    ListSeg nxt' null a (L ++ [t, p]) null := by
  obtain ⟨m, hL, hm⟩ := split h
  obtain ⟨rfl, htn, -, -, -⟩ := cons_inv hm
  exact append (congr hL hframe) (.cons htn ht (.cons hp hpn (.nil _)))

/-- A segment is what `walk` reads over as many links as it has nodes. -/
theorem walk_eq {a c : A} {L : List A} (h : ListSeg nxt null a L c) :
    walk nxt L.length a = L := by
  induction h with
  | nil => rfl
  | cons _ hb _ ih => simp [walk, hb, ih]

end ListSeg

variable [DecidableEq A]

/-- The search loop `for (p = a; p; p = p->next) if (hit(p)) return p;`,
run over at most `fuel` nodes; it returns `null` when nothing is hit. -/
def seek (nxt : A → Option A) (null : A) (hit : A → Bool) : Nat → A → A
  | 0, _ => null
  | fuel + 1, a =>
      if a = null then null
      else if hit a then a
      else
        match nxt a with
        | some b => seek nxt null hit fuel b
        | none => null

/-- On a complete list no longer than the bound, the search returns the first
node that is hit, or `null`. -/
theorem seek_eq {nxt : A → Option A} {null : A} (hit : A → Bool) :
    ∀ (fuel : Nat) {a : A} {L : List A}, ListSeg nxt null a L null →
      L.length ≤ fuel → seek nxt null hit fuel a = (L.find? hit).getD null
  | 0, a, L, h, hlen => by
      have hL : L = [] := List.eq_nil_of_length_eq_zero (by omega)
      subst hL
      simp [seek]
  | fuel + 1, a, [], h, _ => by
      simp [seek, ListSeg.nil_inv h]
  | fuel + 1, a, q :: L, h, hlen => by
      obtain ⟨rfl, hne, b, hb, rest⟩ := ListSeg.cons_inv h
      have ih := seek_eq hit fuel rest (by simp at hlen; omega)
      by_cases hq : hit a = true
      · simp [seek, hne, hq]
      · simp [seek, hne, hq, hb, ih]

end Lib
end Xv6Net
