import IfCollapse.Proofs.Representation

/-! Walking through a tree. The cursor alone decides what a walk has still to show: its node with all
below it, then its later siblings, then those of each ancestor. Every call of `next` shows the first
of these nodes and leaves the others, so a walk from a node shows the node and all below it in
preorder. In rows this is the block from the row of the node to the next row that is not deeper. -/

namespace IfCollapse.Java

namespace Cursor

def ahead (c : Cursor) : List Cst :=
  Cst.preorderAll (c.later ++ c.above.flatMap (·.2))

/-- What is left of a walk, from the node of the cursor on. -/
def left (c : Cursor) : List Cst :=
  c.node.preorder ++ c.ahead

theorem left_of_toFirstChild? {c d : Cursor} (h : c.toFirstChild? = some d) :
    c.left = c.node :: d.left := by
  unfold toFirstChild? at h
  cases hchildren : c.node.children with
  | nil => simp [hchildren] at h
  | cons child children =>
    simp only [hchildren, Option.some.injEq] at h
    subst h
    simp [left, ahead, Cst.preorder_eq c.node, hchildren, Cst.preorderAll_eq]

theorem preorder_of_toFirstChild? {c : Cursor} (h : c.toFirstChild? = none) :
    c.node.preorder = [c.node] := by
  unfold toFirstChild? at h
  cases hchildren : c.node.children with
  | nil => rw [Cst.preorder_eq, hchildren, Cst.preorderAll]
  | cons child children => simp [hchildren] at h

theorem ahead_of_toNextSibling? {c d : Cursor} (h : c.toNextSibling? = some d) :
    c.ahead = d.left := by
  unfold toNextSibling? at h
  cases hlater : c.later with
  | nil => simp [hlater] at h
  | cons sibling later =>
    simp only [hlater, Option.some.injEq] at h
    subst h
    simp [left, ahead, hlater, Cst.preorderAll]

theorem later_of_toNextSibling? {c : Cursor} (h : c.toNextSibling? = none) : c.later = [] := by
  unfold toNextSibling? at h
  cases hlater : c.later with
  | nil => rfl
  | cons sibling later => simp [hlater] at h

theorem toNextAbove?_eq (c : Cursor) :
    toNextAbove? c.above =
      c.toParent?.bind fun p => p.toNextSibling?.or (toNextAbove? p.above) := by
  unfold toParent?
  cases habove : c.above with
  | nil => rfl
  | cons entry above =>
    rw [toNextAbove?, Option.bind_some]
    cases toNextSibling? ⟨entry.1, entry.2, above⟩ <;> rfl

end Cursor

namespace Walker

def left (w : Walker) : List Cst :=
  match w.cursor with
  | none => []
  | some c => c.left

theorem left_toNextAbove? (c : Cursor) :
    left ⟨Cursor.toNextAbove? c.above⟩ = Cst.preorderAll (c.above.flatMap (·.2)) := by
  obtain ⟨node, later, above⟩ := c
  -- from each cursor the climb goes on at its parent
  induction above generalizing node later with
  | nil => rfl
  | cons entry above ih =>
    let parent : Cursor := ⟨entry.1, entry.2, above⟩
    have hparent : Cursor.toParent? ⟨node, later, entry :: above⟩ = some parent := rfl
    rw [Cursor.toNextAbove?_eq, hparent, Option.bind_some, List.flatMap_cons]
    cases hsibling : parent.toNextSibling? with
    | some d => exact (Cursor.ahead_of_toNextSibling? hsibling).symm
    | none =>
      have hlater : entry.2 = [] := Cursor.later_of_toNextSibling? hsibling
      rw [Option.none_or, hlater, List.nil_append]
      exact ih entry.1 entry.2

/-- A move takes the node of the cursor, and no other, from what is left. -/
theorem left_next? (c : Cursor) : c.left = c.node :: left ⟨c.next?⟩ := by
  unfold Cursor.next?
  cases hchild : c.toFirstChild? with
  | some d => exact Cursor.left_of_toFirstChild? hchild
  | none =>
    rw [Cursor.left, Cursor.preorder_of_toFirstChild? hchild, List.singleton_append]
    cases hsibling : c.toNextSibling? with
    | some d => rw [Cursor.ahead_of_toNextSibling? hsibling]; rfl
    | none =>
      have hlater := Cursor.later_of_toNextSibling? hsibling
      simp only [left_toNextAbove?, Cursor.ahead, hlater, List.nil_append]

theorem left_next (w : Walker) :
    w.left = (w.next.map fun shown => shown.1.node :: shown.2.left).getD [] := by
  obtain ⟨cursor⟩ := w
  cases cursor with
  | none => rfl
  | some c => exact left_next? c

def moved (w : Walker) : Walker :=
  (w.next.map (·.2)).getD w

def after (w : Walker) : Nat → Walker
  | 0 => w
  | n + 1 => w.moved.after n

def call (w : Walker) (n : Nat) : Option Cursor :=
  (w.after n).next.map (·.1)

theorem left_moved (w : Walker) : w.moved.left = w.left.tail := by
  rw [left_next w, moved]
  cases hnext : w.next with
  | some shown => rfl
  | none => simp [left_next w, hnext]

theorem left_after (w : Walker) (n : Nat) : (w.after n).left = w.left.drop n := by
  induction n generalizing w with
  | zero => rfl
  | succ n ih => rw [after, ih, left_moved, List.drop_tail]

theorem left_of_call {w : Walker} {n : Nat} {c : Cursor} (h : w.call n = some c) :
    c.left = w.left.drop n := by
  rw [← left_after]
  unfold call at h
  generalize w.after n = v at h
  obtain ⟨cursor⟩ := v
  cases cursor with
  | none => simp [next] at h
  | some d =>
    have hd : d = c := by simpa [next] using h
    rw [hd]
    rfl

theorem node_call (w : Walker) (n : Nat) : (w.call n).map (·.node) = w.left[n]? := by
  have hhead : (w.after n).left.head? = (w.call n).map (·.node) := by
    rw [left_next, call]
    cases (w.after n).next <;> rfl
  rw [← hhead, left_after, List.head?_drop]

theorem call_injective {w : Walker} {m n : Nat} {c : Cursor} (hm : w.call m = some c)
    (hn : w.call n = some c) : m = n := by
  have hlength := congrArg List.length ((left_of_call hm).symm.trans (left_of_call hn))
  have hlt : ∀ k, w.call k = some c → k < w.left.length := by
    intro k hk
    have hnode := node_call w k
    rw [hk] at hnode
    exact (List.getElem?_eq_some_iff.1 hnode.symm).1
  have hltm := hlt m hm
  have hltn := hlt n hn
  rw [List.length_drop, List.length_drop] at hlength
  omega

theorem left_start (t : Cst) : (start t).left = t.preorder :=
  List.append_nil t.preorder

theorem getElem?_take (w : Walker) (k n : Nat) :
    (w.take k)[n]? = if n < k then w.call n else none := by
  induction k generalizing w n with
  | zero => simp [take]
  | succ k ih =>
    rw [take]
    cases hnext : w.next with
    | none =>
      have hcall : (w.call n).map (·.node) = none := by
        rw [node_call, left_next, hnext]
        rfl
      simp [Option.map_eq_none_iff.1 hcall]
    | some shown =>
      cases n with
      | zero => simp [call, after, hnext]
      | succ n =>
        have hmoved : w.moved = shown.2 := by simp [moved, hnext]
        simp [ih, call, after, hmoved]

theorem node_call_start (t : Cst) (n : Nat) :
    ((start t).call n).map (·.node) = t.preorder[n]? := by
  rw [node_call, left_start]

theorem call_start_eq_none {t : Cst} {n : Nat} (h : t.size ≤ n) : (start t).call n = none := by
  rw [← Option.map_eq_none_iff, node_call_start, List.getElem?_eq_none_iff, Cst.length_preorder]
  exact h

theorem getElem?_places (t : Cst) (n : Nat) : t.places[n]? = (start t).call n := by
  rw [Cst.places, getElem?_take]
  by_cases hn : n < t.size
  · rw [if_pos hn]
  · rw [if_neg hn, call_start_eq_none (Nat.le_of_not_lt hn)]

end Walker

/-- A row and the deeper ones behind it, up to the next that is not deeper, each with its number. -/
def rowBlock (rows : List Row) (first i : Nat) : List (Row × Nat) :=
  match (rows.zipIdx first).drop i with
  | [] => []
  | entry :: later => entry :: later.takeWhile fun e => entry.1.depth < e.1.depth

section Blocks

variable {rows : List Row} {first i j : Nat} {t : Cst}

theorem Cst.entries_nodes (rows : List Row) (first : Nat) :
    (Cst.nodes rows first).map (fun t => (t.row, t.index)) = rows.zipIdx first := by
  induction rows generalizing first with
  | nil => rfl
  | cons row rows ih =>
    rw [Cst.nodes_cons, List.map_cons, ih, List.zipIdx_cons]
    rfl

theorem row_of_zipIdx {entry : Row × Nat} (h : (rows.zipIdx first)[i]? = some entry) :
    rows[i]? = some entry.1 := by
  rw [List.getElem?_zipIdx, Option.map_eq_some_iff] at h
  obtain ⟨row, hrow, rfl⟩ := h
  exact hrow

theorem takeWhile_eq_take {α : Type} {p : α → Bool} {xs : List α} {k : Nat}
    (hfront : ∀ x ∈ xs.take k, p x = true) (hnext : ∀ x ∈ xs[k]?, p x = false) :
    xs.takeWhile p = xs.take k := by
  have hback : (xs.drop k).takeWhile p = [] := by
    rw [← List.head?_drop] at hnext
    cases hdrop : xs.drop k with
    | nil => rfl
    | cons x rest =>
      rw [hdrop] at hnext
      exact List.takeWhile_cons_of_neg (by simp [hnext x rfl])
  calc
    xs.takeWhile p = (xs.take k ++ xs.drop k).takeWhile p := by rw [List.take_append_drop]
    _ = xs.take k ++ (xs.drop k).takeWhile p := List.takeWhile_append_of_pos hfront
    _ = xs.take k := by rw [hback, List.append_nil]

theorem covers_iff_deeper {row s : Row} (hij : i < j) (hrow : rows[i]? = some row)
    (hs : rows[j]? = some s) :
    Covers rows i j ↔ row.depth < s.depth ∧ ∀ k, i < k → k < j → Covers rows i k := by
  constructor
  · intro h
    exact ⟨h.2.2 j (Nat.le_refl j) hij row hrow s hs,
      fun k hik hkj => h.of_le hik (Nat.le_of_lt hkj)⟩
  · rintro ⟨hdeeper, hbetween⟩
    refine ⟨hij, (List.getElem?_eq_some_iff.1 hs).1, ?_⟩
    intro k hkj hik r hr u hu
    by_cases hk : k = j
    · subst hk
      rw [hrow, Option.mem_some_iff] at hr
      rw [hs, Option.mem_some_iff] at hu
      rwa [← hr, ← hu]
    · exact (hbetween k hik (by omega)).2.2 k (Nat.le_refl k) hik r hr u hu

theorem Cst.map_preorder_eq (h : (Cst.nodes rows first)[i]? = some t) :
    t.preorder.map (fun u => (u.row, u.index)) = rowBlock rows first i := by
  obtain ⟨k, hk⟩ : ∃ k, t.size = k + 1 := by
    obtain ⟨row, index, children⟩ := t
    exact ⟨_, rfl⟩
  have hrow := Cst.row_of_nodes h
  have hcovers : ∀ j, Covers rows i j ↔ i < j ∧ j < i + 1 + k := by
    intro j
    rw [covers_iff_lt_size h, hk]
    omega
  have hblock : ((rows.zipIdx first).drop (i + 1)).takeWhile
      (fun e => t.row.depth < e.1.depth) = ((rows.zipIdx first).drop (i + 1)).take k := by
    apply takeWhile_eq_take
    · intro e he
      obtain ⟨m, hm⟩ := List.mem_iff_getElem?.1 he
      rw [List.getElem?_take, List.getElem?_drop] at hm
      split at hm
      · have hbelow := (hcovers (i + 1 + m)).2 (by omega)
        exact decide_eq_true ((covers_iff_deeper (by omega) hrow (row_of_zipIdx hm)).1 hbelow).1
      · simp at hm
    · intro e he
      rw [Option.mem_def, List.getElem?_drop] at he
      have hnot : ¬Covers rows i (i + 1 + k) := by
        rw [hcovers]
        omega
      rw [covers_iff_deeper (by omega) hrow (row_of_zipIdx he)] at hnot
      exact decide_eq_false fun hdeeper => hnot ⟨hdeeper, fun j hij hjk => (hcovers j).2 ⟨hij, hjk⟩⟩
  have hentry : (rows.zipIdx first)[i]? = some (t.row, t.index) := by
    rw [← Cst.entries_nodes, List.getElem?_map, h]
    rfl
  obtain ⟨hi, hget⟩ := List.getElem?_eq_some_iff.1 hentry
  rw [Cst.preorder_eq_slice h, List.map_take, List.map_drop, Cst.entries_nodes, rowBlock,
    List.drop_eq_getElem_cons hi, hget, hk, List.take_succ_cons]
  simp only [hblock]

end Blocks

/-- Calling `next` again and again shows every node from the start down once, in preorder, and then
nothing any more. If the tree is read from rows, these are the rows of one block. -/
theorem walk_is_preorder (t : Cst) :
    (∀ n, ((Walker.start t).call n).map (·.node) = t.preorder[n]?) ∧
    (∀ m n c, (Walker.start t).call m = some c → (Walker.start t).call n = some c → m = n) ∧
    (∀ n, t.size ≤ n → (Walker.start t).call n = none) ∧
    (∀ n, (Walker.start t).call n = t.places[n]?) ∧
    ∀ rows first i, (Cst.nodes rows first)[i]? = some t → ∀ n,
      ((Walker.start t).call n).map (fun c => (c.node.row, c.node.index)) =
        (rowBlock rows first i)[n]? := by
  refine ⟨Walker.node_call_start t, fun m n c => Walker.call_injective,
    fun n => Walker.call_start_eq_none, fun n => (Walker.getElem?_places t n).symm, ?_⟩
  intro rows first i h n
  have hnode := congrArg (Option.map fun u : Cst => (u.row, u.index)) (Walker.node_call_start t n)
  rw [Option.map_map, ← List.getElem?_map, Cst.map_preorder_eq h] at hnode
  exact hnode

/-- From the arguments of the call the walk enters the error, climbs out of it and ends before the
semicolon. -/
theorem arguments_are_walked : ∃ t, (Cst.nodes commentedRows 0)[6]? = some t ∧
    ∀ n, ((Walker.start t).call n).map (fun c => (c.node.row, c.node.index)) =
      ((commentedRows.zipIdx.drop 6).take 7)[n]? := by
  have hlt : 6 < commentedRows.length := by decide
  have hblock : rowBlock commentedRows 0 6 = (commentedRows.zipIdx.drop 6).take 7 := by decide
  obtain ⟨t, ht⟩ := Cst.exists_node 0 hlt
  refine ⟨t, ht, fun n => ?_⟩
  rw [← hblock]
  exact (walk_is_preorder t).2.2.2.2 commentedRows 0 6 ht n

end IfCollapse.Java
