import Mathlib.Data.List.Nodup

namespace Mmltk.Foundation

/-! Doubly linked lists threaded through nodes that live elsewhere. -/

variable {P : Type}

/-- `nodes` in order between `before` and `after`, each pointing at both neighbours. -/
def Linked (prev next : P → Option P) : Option P → List P → Option P → Prop
  | _, [], _ => True
  | before, node :: rest, after =>
      prev node = before ∧ next node = rest.head?.or after ∧
        Linked prev next (some node) rest after

namespace Linked

variable {prev next prev' next' : P → Option P} {before after : Option P}

@[simp] theorem nil : Linked prev next before [] after := trivial

theorem cons_iff {node : P} {rest : List P} :
    Linked prev next before (node :: rest) after ↔
      prev node = before ∧ next node = rest.head?.or after ∧
        Linked prev next (some node) rest after := Iff.rfl

theorem append_iff {front back : List P} :
    Linked prev next before (front ++ back) after ↔
      Linked prev next before front (back.head?.or after) ∧
        Linked prev next (front.getLast?.or before) back after := by
  induction front generalizing before with
  | nil => simp
  | cons node rest ih =>
      have hlast : (node :: rest).getLast?.or before = rest.getLast?.or (some node) := by
        rw [List.getLast?_cons]
        cases rest.getLast? with
        | none => rfl
        | some last => rfl
      have hhead : (rest ++ back).head?.or after = rest.head?.or (back.head?.or after) := by
        cases rest with
        | nil => rfl
        | cons second rest => rfl
      rw [List.cons_append, cons_iff, cons_iff, ih, hlast, hhead]
      constructor
      · intro h
        exact ⟨⟨h.1, h.2.1, h.2.2.1⟩, h.2.2.2⟩
      · intro h
        exact ⟨h.1.1, h.1.2.1, h.1.2.2, h.2⟩

theorem congr {nodes : List P} (h : Linked prev next before nodes after)
    (hprev : ∀ node ∈ nodes, prev' node = prev node)
    (hnext : ∀ node ∈ nodes, next' node = next node) :
    Linked prev' next' before nodes after := by
  induction nodes generalizing before with
  | nil => trivial
  | cons node rest ih =>
      refine ⟨(hprev node (by simp)).trans h.1, (hnext node (by simp)).trans h.2.1, ?_⟩
      apply ih h.2.2
      · intro other hother
        exact hprev other (List.mem_cons_of_mem _ hother)
      · intro other hother
        exact hnext other (List.mem_cons_of_mem _ hother)

/-- Both neighbours of a node in the middle. -/
theorem middle {front back : List P} {node : P}
    (h : Linked prev next before (front ++ node :: back) after) :
    prev node = front.getLast?.or before ∧ next node = back.head?.or after := by
  have hback := (append_iff.mp h).2
  exact ⟨hback.1, hback.2.1⟩

variable [DecidableEq P]

/-- A new right neighbour, once the last node points at it. -/
theorem retarget_after {nodes : List P} {other : Option P}
    (h : Linked prev next before nodes after) (hnodup : nodes.Nodup)
    (hprev : ∀ node ∈ nodes, prev' node = prev node)
    (hnext : ∀ node ∈ nodes, next' node =
      if nodes.getLast? = some node then other else next node) :
    Linked prev' next' before nodes other := by
  rcases nodes.eq_nil_or_concat' with rfl | ⟨front, last, rfl⟩
  · trivial
  simp only [List.getLast?_concat] at hnext
  rw [append_iff] at h ⊢
  constructor
  · apply h.1.congr
    · intro node hnode
      exact hprev node (List.mem_append_left _ hnode)
    · intro node hnode
      rw [hnext node (List.mem_append_left _ hnode), if_neg]
      rintro ⟨⟩
      exact (List.nodup_append.mp hnodup).2.2 last hnode last (by simp) rfl
  · refine ⟨(hprev last (by simp)).trans h.2.1, ?_, trivial⟩
    rw [hnext last (by simp), if_pos rfl]
    rfl

/-- A new left neighbour, once the first node points back at it. -/
theorem retarget_before {nodes : List P} {other : Option P}
    (h : Linked prev next before nodes after) (hnodup : nodes.Nodup)
    (hnext : ∀ node ∈ nodes, next' node = next node)
    (hprev : ∀ node ∈ nodes, prev' node =
      if nodes.head? = some node then other else prev node) :
    Linked prev' next' other nodes after := by
  cases nodes with
  | nil => trivial
  | cons first rest =>
      rw [List.head?_cons] at hprev
      refine ⟨?_, (hnext first (by simp)).trans h.2.1, ?_⟩
      · rw [hprev first (by simp), if_pos rfl]
      apply h.2.2.congr
      · intro node hnode
        rw [hprev node (List.mem_cons_of_mem _ hnode), if_neg]
        rintro ⟨⟩
        exact (List.nodup_cons.mp hnodup).1 hnode
      · intro node hnode
        exact hnext node (List.mem_cons_of_mem _ hnode)

/-- The nodes between `front` and `back` exchanged for others, with the two seams redirected. -/
theorem splice {front middle middle' back : List P}
    (h : Linked prev next none (front ++ middle ++ back) none)
    (hnodup : (front ++ middle ++ back).Nodup) (hmiddle : middle' ≠ [])
    (hlinked : Linked prev' next' front.getLast? middle' back.head?)
    (hfront_prev : ∀ node ∈ front, prev' node = prev node)
    (hfront_next : ∀ node ∈ front, next' node =
      if front.getLast? = some node then middle'.head? else next node)
    (hback_next : ∀ node ∈ back, next' node = next node)
    (hback_prev : ∀ node ∈ back, prev' node =
      if back.head? = some node then middle'.getLast? else prev node) :
    Linked prev' next' none (front ++ middle' ++ back) none := by
  rw [append_iff, append_iff] at h
  have hnodup_front := ((List.nodup_append.mp hnodup).1 |> List.nodup_append.mp).1
  have hnodup_back := (List.nodup_append.mp hnodup).2.1
  have hfront := h.1.1.retarget_after hnodup_front hfront_prev hfront_next
  have hback := h.2.retarget_before hnodup_back hback_next hback_prev
  have hhead : middle'.head?.or back.head? = middle'.head? := by
    cases middle' with
    | nil => exact absurd rfl hmiddle
    | cons node rest => rfl
  rw [append_iff, append_iff, Option.or_none, Option.or_none, Option.or_none, hhead,
    List.getLast?_append_of_ne_nil _ hmiddle]
  exact ⟨⟨hfront, hlinked⟩, hback⟩

/-- One node taken out, with its two neighbours pointed at each other. -/
theorem remove {front back : List P} {node : P}
    (h : Linked prev next none (front ++ node :: back) none)
    (hnodup : (front ++ node :: back).Nodup)
    (hprev : ∀ other ∈ front ++ back, prev' other =
      if next node = some other then prev node else prev other)
    (hnext : ∀ other ∈ front ++ back, next' other =
      if prev node = some other then next node else next other) :
    Linked prev' next' none (front ++ back) none := by
  obtain ⟨hbefore, hafter⟩ := h.middle
  rw [Option.or_none] at hbefore hafter
  rw [hbefore, hafter] at hprev hnext
  rw [append_iff] at h ⊢
  obtain ⟨hnodup_front, hnodup_back, hdisjoint⟩ := List.nodup_append.mp hnodup
  rw [Option.or_none, Option.or_none]
  constructor
  · apply h.1.retarget_after hnodup_front
    · intro other hother
      rw [hprev other (List.mem_append_left _ hother), if_neg]
      exact fun heq => hdisjoint other hother other
        (List.mem_cons_of_mem _ (List.mem_of_mem_head? heq)) rfl
    · exact fun other hother => hnext other (List.mem_append_left _ hother)
  · apply h.2.2.2.retarget_before (List.nodup_cons.mp hnodup_back).2
    · intro other hother
      rw [hnext other (List.mem_append_right _ hother), if_neg]
      exact fun heq => hdisjoint other (List.mem_of_getLast? heq) other
        (List.mem_cons_of_mem _ hother) rfl
    · exact fun other hother => hprev other (List.mem_append_right _ hother)

theorem push {nodes : List P} {node : P} (h : Linked prev next none nodes none)
    (hnodup : nodes.Nodup) (hnode_prev : prev' node = none)
    (hnode_next : next' node = nodes.head?)
    (hprev : ∀ other ∈ nodes, prev' other =
      if nodes.head? = some other then some node else prev other)
    (hnext : ∀ other ∈ nodes, next' other = next other) :
    Linked prev' next' none (node :: nodes) none :=
  ⟨hnode_prev, hnode_next.trans (Option.or_none).symm, h.retarget_before hnodup hnext hprev⟩

end Linked

/-- A list threaded one way only, from its first node on. -/
def SinglyLinked (next : P → Option P) : Option P → List P → Prop
  | first, [] => first = none
  | first, node :: rest => first = some node ∧ SinglyLinked next (next node) rest

namespace SinglyLinked

variable {next next' : P → Option P} {first : Option P} {nodes : List P} {node : P}

theorem head?_eq (h : SinglyLinked next first nodes) : first = nodes.head? := by
  cases nodes with
  | nil => exact h
  | cons node rest => exact h.1

theorem congr (h : SinglyLinked next first nodes) (hnext : ∀ node ∈ nodes, next' node = next node) :
    SinglyLinked next' first nodes := by
  induction nodes generalizing first with
  | nil => exact h
  | cons node rest ih =>
      refine ⟨h.1, ?_⟩
      rw [hnext node List.mem_cons_self]
      exact ih h.2 fun other hother => hnext other (List.mem_cons_of_mem _ hother)

/-- A node behind the last one, once that points at it. -/
theorem concat (h : SinglyLinked next first nodes) (hnodup : nodes.Nodup) (hnode : next' node = none)
    (hlast : ∀ last, nodes.getLast? = some last → next' last = some node)
    (hnext : ∀ other ∈ nodes, nodes.getLast? ≠ some other → next' other = next other) :
    SinglyLinked next' (first.or (some node)) (nodes ++ [node]) := by
  induction nodes generalizing first with
  | nil =>
      obtain rfl : first = none := h
      exact ⟨rfl, hnode⟩
  | cons start rest ih =>
      obtain ⟨rfl, hrest⟩ := h
      obtain ⟨hstart, hnodup⟩ := List.nodup_cons.mp hnodup
      refine ⟨rfl, ?_⟩
      cases rest with
      | nil =>
          rw [hlast start rfl]
          exact ⟨rfl, hnode⟩
      | cons second rest =>
          have hsame : (start :: second :: rest).getLast? = (second :: rest).getLast? :=
            List.getLast?_cons_cons
          rw [hsame] at hlast hnext
          have hmem : (second :: rest).getLast? ≠ some start := fun heq =>
            hstart (List.mem_of_getLast? heq)
          rw [hnext start List.mem_cons_self hmem]
          have hback := ih hrest hnodup hlast fun other hother =>
            hnext other (List.mem_cons_of_mem _ hother)
          rwa [hrest.1] at hback ⊢

end SinglyLinked

/-- The nodes met by following `next` for at most `fuel` steps. -/
def follow (next : P → Option P) : Nat → Option P → List P
  | 0, _ => []
  | _ + 1, none => []
  | fuel + 1, some node => node :: follow next fuel (next node)

theorem Linked.follow_eq {prev next : P → Option P} {before : Option P} {nodes : List P}
    (h : Linked prev next before nodes none) {fuel : Nat} (hfuel : nodes.length ≤ fuel) :
    follow next fuel nodes.head? = nodes := by
  induction nodes generalizing before fuel with
  | nil =>
      cases fuel with
      | zero => rfl
      | succ fuel => rfl
  | cons node rest ih =>
      cases fuel with
      | zero => exact absurd hfuel (Nat.not_succ_le_zero _)
      | succ fuel =>
          have hnext : next node = rest.head? := by
            rw [h.2.1, Option.or_none]
          show node :: follow next fuel (next node) = node :: rest
          rw [hnext, ih h.2.2 (Nat.le_of_succ_le_succ hfuel)]

end Mmltk.Foundation
