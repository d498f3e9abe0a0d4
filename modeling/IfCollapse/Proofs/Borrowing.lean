import IfCollapse.Proofs.Arena
import IfCollapse.Proofs.DanglingElse

/-! Borrowed statements do the same in the else branch as behind the `if`. The nodes behind the `if`
are the borrowed ones and a rest. Since the then-branch ends in a jump, nothing behind the `if` runs
after it, and the statements that replace the `if` end in the same kind of jump. -/

namespace IfCollapse.Java.Place

def FollowedBy (p : Place) (nodes : List Place) : Prop :=
  ∃ parent earlier behind, p.parent? = some parent ∧ parent.children = earlier ++ p :: behind ∧
    (behind.filter fun c => !c.isToken) = nodes

theorem followedBy_followingSiblings {p parent : Place} (hd : parent.Distinct)
    (hparent : p.parent? = some parent) (hp : p ∈ parent.children) :
    p.FollowedBy p.followingSiblings := by
  obtain ⟨earlier, behind, hsplit⟩ := List.append_of_mem hp
  have hother : ∀ c ∈ earlier, (c.id != p.id) = true := by
    intro c hc
    have hapart := hd.unrelated
    rw [hsplit, Unrelated, List.pairwise_append] at hapart
    have hcp := hapart.2.2 c hc p List.mem_cons_self
    have hchild : c ∈ parent.children := by
      rw [hsplit]
      exact List.mem_append_left _ hc
    rw [bne_iff_ne]
    intro hid
    have heq : c = p := hd.eq (child_mem_below hchild) (child_mem_below hp) hid
    exact hcp p (heq ▸ c.mem_below_self) p.mem_below_self
  refine ⟨parent, earlier, behind, hparent, hsplit, ?_⟩
  rw [followingSiblings, hparent]
  simp only [hsplit, List.dropWhile_append_of_pos hother, List.dropWhile_cons, bne_self_eq_false,
    Bool.false_eq_true, if_false, List.drop_succ_cons, List.drop_zero]

theorem isToken_of_mem_followingSiblings {p c : Place} (h : c ∈ p.followingSiblings) :
    c.isToken = false := by
  unfold followingSiblings at h
  split at h
  · simp at h
  · rw [List.mem_filter, Bool.not_eq_true'] at h
    exact h.2

end IfCollapse.Java.Place

namespace IfCollapse.Branch

open Java

section Sequences

variable {α σ ε : Type}

/-- Running items one after the other. The first one that completes abruptly ends the run. -/
inductive InTurn (run : α → σ → Except ε σ → Prop) : List α → σ → Except ε σ → Prop
  | done (a : σ) : InTurn run [] a (.ok a)
  | next {x : α} {xs : List α} {a b : σ} {d : Except ε σ} :
      run x a (.ok b) → InTurn run xs b d → InTurn run (x :: xs) a d
  | stop {x : α} {xs : List α} {a : σ} {why : ε} :
      run x a (.error why) → InTurn run (x :: xs) a (.error why)

variable {run : α → σ → Except ε σ → Prop} {xs ys : List α} {a b : σ} {d : Except ε σ}

theorem InTurn.append (h : InTurn run xs a (.ok b)) (hys : InTurn run ys b d) :
    InTurn run (xs ++ ys) a d := by
  induction xs generalizing a with
  | nil =>
    cases h with
    | done => exact hys
  | cons x xs ih =>
    cases h with
    | next hx hrest => exact .next hx (ih hrest)

theorem InTurn.append_stopped {why : ε} (h : InTurn run xs a (.error why)) :
    InTurn run (xs ++ ys) a (.error why) := by
  induction xs generalizing a with
  | nil => cases h
  | cons x xs ih =>
    cases h with
    | next hx hrest => exact .next hx (ih hrest)
    | stop hx => exact .stop hx

theorem inTurn_append : InTurn run (xs ++ ys) a d ↔
    (∃ b, InTurn run xs a (.ok b) ∧ InTurn run ys b d) ∨
      ∃ why, d = .error why ∧ InTurn run xs a (.error why) := by
  constructor
  · intro h
    induction xs generalizing a with
    | nil => exact Or.inl ⟨a, .done a, h⟩
    | cons x xs ih =>
      cases h with
      | next hx hrest =>
        cases ih hrest with
        | inl hpass =>
          obtain ⟨b, hxs, hys⟩ := hpass
          exact Or.inl ⟨b, .next hx hxs, hys⟩
        | inr hstop =>
          obtain ⟨why, hwhy, hxs⟩ := hstop
          exact Or.inr ⟨why, hwhy, .next hx hxs⟩
      | stop hx => exact Or.inr ⟨_, rfl, .stop hx⟩
  · intro h
    cases h with
    | inl hpass =>
      obtain ⟨b, hxs, hys⟩ := hpass
      exact hxs.append hys
    | inr hstop =>
      obtain ⟨why, rfl, hxs⟩ := hstop
      exact hxs.append_stopped

theorem inTurn_singleton {x : α} : InTurn run [x] a d ↔ run x a d := by
  constructor
  · intro h
    cases h with
    | next hx hrest =>
      cases hrest with
      | done => exact hx
    | stop hx => exact hx
  · intro h
    cases d with
    | error why => exact .stop h
    | ok b => exact .next h (.done b)

end Sequences

/-- How statements and conditions can complete: with a state, or abruptly. Jumps never complete
normally; everything else is left open. -/
structure Semantics (σ ε : Type) where
  run : Shape → σ → Except ε σ → Prop
  test : Shape → σ → Except ε (Bool × σ) → Prop
  jumps : ∀ {s : Shape} {a b : σ}, s.kind.isJump = true → ¬run s a (.ok b)

inductive Command
  | plain (statement : Shape)
  | choose (condition : Shape) (thens elses : List Shape)

namespace Semantics

variable {σ ε : Type}

inductive Performs (m : Semantics σ ε) : Command → σ → Except ε σ → Prop
  | plain {s : Shape} {a : σ} {d : Except ε σ} : m.run s a d → m.Performs (.plain s) a d
  | whenTrue {c : Shape} {thens elses : List Shape} {a b : σ} {d : Except ε σ} :
      m.test c a (.ok (true, b)) → InTurn m.run thens b d → m.Performs (.choose c thens elses) a d
  | whenFalse {c : Shape} {thens elses : List Shape} {a b : σ} {d : Except ε σ} :
      m.test c a (.ok (false, b)) → InTurn m.run elses b d → m.Performs (.choose c thens elses) a d
  | untested {c : Shape} {thens elses : List Shape} {a : σ} {why : ε} :
      m.test c a (.error why) → m.Performs (.choose c thens elses) a (.error why)

/-- Nothing that stands behind the statements can run. -/
def NeverPasses (m : Semantics σ ε) (statements : List Shape) : Prop :=
  ∀ a b, ¬InTurn m.run statements a (.ok b)

variable {m : Semantics σ ε} {statements thens borrowed rest : List Shape} {a : σ}
  {d : Except ε σ}

theorem neverPasses_of_jump {last : Shape} (h : statements.getLast? = some last)
    (hjump : last.kind.isJump = true) : m.NeverPasses statements := by
  intro a b hrun
  obtain ⟨before, rfl⟩ := List.getLast?_eq_some_iff.1 h
  cases inTurn_append.1 hrun with
  | inl hpass =>
    obtain ⟨c, _, hlast⟩ := hpass
    exact m.jumps hjump (inTurn_singleton.1 hlast)
  | inr hstop =>
    obtain ⟨why, hwhy, _⟩ := hstop
    simp at hwhy

theorem inTurn_plain :
    InTurn m.Performs (statements.map .plain) a d ↔ InTurn m.run statements a d := by
  induction statements generalizing a with
  | nil =>
    constructor
    · intro h
      cases h with
      | done => exact .done a
    · intro h
      cases h with
      | done => exact .done a
  | cons s statements ih =>
    constructor
    · intro h
      cases h with
      | next hs hrest =>
        cases hs with
        | plain hs => exact .next hs (ih.1 hrest)
      | stop hs =>
        cases hs with
        | plain hs => exact .stop hs
    · intro h
      cases h with
      | next hs hrest => exact .next (.plain hs) (ih.2 hrest)
      | stop hs => exact .stop (.plain hs)

theorem inTurn_choose_iff (hthens : m.NeverPasses thens) (condition : Shape) :
    InTurn m.Performs (.choose condition thens [] :: (borrowed ++ rest).map .plain) a d ↔
      InTurn m.Performs (.choose condition thens borrowed :: rest.map .plain) a d := by
  -- control gets behind the `if` only where the condition is false
  constructor
  · intro h
    cases h with
    | next hif hrest =>
      cases hif with
      | whenTrue _ hrun => exact absurd hrun (hthens _ _)
      | whenFalse htest hrun =>
        cases hrun with
        | done =>
          cases inTurn_append.1 (inTurn_plain.1 hrest) with
          | inl hpass =>
            obtain ⟨b, hborrowed, hrest⟩ := hpass
            exact .next (.whenFalse htest hborrowed) (inTurn_plain.2 hrest)
          | inr hstop =>
            obtain ⟨why, rfl, hborrowed⟩ := hstop
            exact .stop (.whenFalse htest hborrowed)
    | stop hif =>
      cases hif with
      | whenTrue htest hrun => exact .stop (.whenTrue htest hrun)
      | whenFalse _ hrun => cases hrun
      | untested htest => exact .stop (.untested htest)
  · intro h
    cases h with
    | next hif hrest =>
      cases hif with
      | whenTrue _ hrun => exact absurd hrun (hthens _ _)
      | whenFalse htest hborrowed =>
        have hall := hborrowed.append (inTurn_plain.1 hrest)
        exact .next (.whenFalse htest (.done _)) (inTurn_plain.2 hall)
    | stop hif =>
      cases hif with
      | whenTrue htest hrun => exact .stop (.whenTrue htest hrun)
      | whenFalse htest hborrowed =>
        exact .next (.whenFalse htest (.done _)) (inTurn_plain.2 hborrowed.append_stopped)
      | untested htest => exact .stop (.untested htest)

end Semantics

section Jumps

variable {source : Source} {cst : Cst} {tree : Tree} {root place condition : Place} {id : Nat}
  {r : Replacement} {sites : List Site} {borrowed : List Place}

theorem Borrows.exists_followedBy {thens : List Place} (h : Borrows place thens borrowed)
    (hl : Lowered source cst tree root) (hp : place ∈ root.below) :
    ∃ rest, place.FollowedBy (borrowed ++ rest) := by
  obtain ⟨parent, hparent, _⟩ := h.inSequence
  obtain ⟨hproot, hchild⟩ := Place.child_of_parent? hl.top hp hparent
  refine ⟨place.followingSiblings.drop thens.length, ?_⟩
  rw [h.taken, List.take_append_drop]
  exact Place.followedBy_followingSiblings (hl.distinct.of_mem_below hproot) hparent hchild

theorem Borrows.exists_last {thens : List Place} (h : Borrows place thens borrowed) :
    ∃ e, borrowed.getLast? = some e := by
  obtain ⟨last, hlast, _⟩ := h.jumps
  have hne : borrowed ≠ [] := by
    rw [← List.length_pos_iff, h.sameCount, List.length_pos_iff]
    exact List.ne_nil_of_mem (List.mem_of_getLast? hlast)
  exact ⟨borrowed.getLast hne, List.getLast?_eq_some_getLast hne⟩

theorem Replaced.borrowed_cases (h : Replaced tree id r place condition sites borrowed) :
    (∃ alternative, place.childByField? "alternative" = some alternative ∧ r.borrowed = []) ∨
      Borrows place (thenBranch place) r.borrowed ∧ elseBranch place = r.borrowed := by
  have heq : r.borrowed = borrowed := by
    rw [h.built]
    rfl
  rw [heq]
  cases elseStatements_cases h.elses with
  | inl halternative =>
    obtain ⟨alternative, ha, _, hnone⟩ := halternative
    exact Or.inl ⟨alternative, ha, hnone⟩
  | inr hborrowed => exact Or.inr hborrowed

theorem Accepted.name_eq {p q : Place} {ds : List Difference} (hroot : root.Distinct)
    (hp : p ∈ root.below) (hq : q ∈ root.below) (hpn : p.isToken = false)
    (h : Accepted p q ds sites) : p.here.name = q.here.name := by
  cases compareAt_cases h.compared with
  | inl hsame => rw [hroot.eq hp hq hsame.1]
  | inr hother =>
    cases hother with
    | inl htokens => simp [hpn] at htokens
    | inr hnodes =>
      cases hnodes with
      | inr hparts => exact hparts.2.2.1
      | inl hwhole =>
        obtain ⟨_, _, rfl, _⟩ := hwhole
        -- a site around the difference would be the whole node, which is no site of its own
        obtain ⟨s, hs, hin⟩ := h.covered _ List.mem_cons_self
        obtain ⟨path, hne, hbefore, _⟩ := h.aligned s hs
        have hlength := Place.length_line_of_descend hbefore
        have heq := Place.below_antisymm (Place.mem_below_of_descend hbefore) hin
        rw [← heq] at hlength
        have hnil : path.length = 0 := by omega
        exact absurd (List.length_eq_zero_iff.1 hnil) hne

theorem Replaced.name_eq (hl : Lowered source cst tree root)
    (h : Replaced tree id r place condition sites borrowed) {i : Nat} {t e : Place}
    (ht : (thenBranch place)[i]? = some t) (he : (elseBranch place)[i]? = some e)
    (htn : t.isToken = false) (hen : e.isToken = false) : t.here.name = e.here.name := by
  obtain ⟨parts, _, hall, _⟩ := classify_of_sitesOf h.sited
  obtain ⟨part, _, hclass⟩ := hall i t e ht he
  have htroot := h.then_mem hl (List.mem_of_getElem? ht)
  have heroot := h.else_mem hl (List.mem_of_getElem? he)
  obtain ⟨ds, hacc⟩ := accepted_of_classify hl.distinct hl.top htroot htn hen hclass
  exact hacc.name_eq hl.distinct htroot heroot htn

theorem Replaced.last_name_eq (hl : Lowered source cst tree root)
    (h : Replaced tree id r place condition sites borrowed) {t e : Place}
    (ht : (thenBranch place).getLast? = some t) (he : (elseBranch place).getLast? = some e)
    (htn : t.isToken = false) (hen : e.isToken = false) : t.here.name = e.here.name := by
  rw [List.getLast?_eq_getElem?] at ht he
  rw [← h.sameCount] at he
  exact h.name_eq hl ht he htn hen

theorem Replaced.ends_alike (hl : Lowered source cst tree root)
    (h : Replaced tree id r place condition sites borrowed) {statements : List Place}
    (hb : Borrows place (thenBranch place) statements)
    (hnodes : ∀ t ∈ thenBranch place, t.isToken = false) :
    r.borrowed = statements ∧ ∃ t e, (thenBranch place).getLast? = some t ∧
      statements.getLast? = some e ∧ t.here.name = e.here.name ∧ e.kind.isJump = true := by
  have hsame : r.borrowed = statements ∧ elseBranch place = statements := by
    cases h.borrowed_cases with
    | inl halternative => simp [hb.noElse] at halternative
    | inr hborrowed =>
      have heq : r.borrowed = statements := hborrowed.1.taken.trans hb.taken.symm
      exact ⟨heq, hborrowed.2.trans heq⟩
  obtain ⟨last, hlast, hjump⟩ := hb.jumps
  obtain ⟨e, he⟩ := hb.exists_last
  have hen : e.isToken = false := by
    have hin := List.mem_of_getLast? he
    rw [hb.taken] at hin
    exact Place.isToken_of_mem_followingSiblings (List.mem_of_mem_take hin)
  have hname := h.last_name_eq hl hlast (hsame.2 ▸ he)
    (hnodes last (List.mem_of_getLast? hlast)) hen
  have hkind : last.kind = e.kind := congrArg Kind.ofName hname
  exact ⟨hsame.1, last, e, hlast, he, hname, hkind ▸ hjump⟩

theorem Replaced.kind_filled (hl : Lowered source cst tree root)
    (h : Replaced tree id r place condition sites borrowed) {s : Statement}
    (hs : s ∈ r.statements) (expression : Conditional → Shape) :
    (s.filled expression).kind = s.template.kind := by
  have hlabel : (s.filled expression).label = s.template.here.label :=
    label_graft (h.template_not_target hl hs expression)
  rw [Shape.kind, hlabel]
  rfl

theorem Replaced.neverPasses_filled (hl : Lowered source cst tree root)
    (h : Replaced tree id r place condition sites borrowed) {last : Place}
    (hlast : (thenBranch place).getLast? = some last) (hjump : last.kind.isJump = true)
    {σ ε : Type} (m : Semantics σ ε) (expression : Conditional → Shape) :
    m.NeverPasses (r.statements.map (·.filled expression)) := by
  have hstatement : ∃ s, r.statements.getLast? = some s ∧ s.template = last := by
    rw [h.statements, List.getLast?_map, hlast]
    exact ⟨_, rfl, rfl⟩
  obtain ⟨s, hs, rfl⟩ := hstatement
  have hend : (r.statements.map (·.filled expression)).getLast? = some (s.filled expression) := by
    rw [List.getLast?_map, hs]
    rfl
  apply Semantics.neverPasses_of_jump hend
  rw [h.kind_filled hl (List.mem_of_getLast? hs)]
  exact hjump

end Jumps

/-- The nodes behind an `if` that borrows are the borrowed statements and a rest. In every semantics
it comes to the same whether the borrowed statements stand behind the `if` or in its else branch.
If the `if` is replaced, the borrowed statements end in the same kind of jump as the then-branch, and
so does what takes its place. -/
theorem borrowing_keeps_results {source : Source} {cst : Cst} {tree : Tree} {id : Nat}
    {place : Place} {borrowed : List Place} (htree : Tree.ofCst source cst = .ok tree)
    (hget : tree.get? id = some place)
    (hborrow : borrowElse place (thenBranch place) = .ok borrowed) :
    ∃ rest, place.FollowedBy (borrowed ++ rest) ∧
      (∀ (σ ε : Type) (m : Semantics σ ε) (condition : Shape) (a : σ) (d : Except ε σ),
        InTurn m.Performs (.choose condition ((thenBranch place).map (·.here)) [] ::
            ((borrowed ++ rest).map (·.here)).map .plain) a d ↔
          InTurn m.Performs (.choose condition ((thenBranch place).map (·.here))
            (borrowed.map (·.here)) :: (rest.map (·.here)).map .plain) a d) ∧
      ∀ r, evaluate tree id = .ok (.replace r) → (∀ t ∈ thenBranch place, t.isToken = false) →
        r.borrowed = borrowed ∧
        (∃ t e, (thenBranch place).getLast? = some t ∧ borrowed.getLast? = some e ∧
          t.here.name = e.here.name ∧ e.kind.isJump = true) ∧
        ∀ (σ ε : Type) (m : Semantics σ ε) (expression : Conditional → Shape),
          m.NeverPasses ((thenBranch place).map (·.here)) ∧
            m.NeverPasses (r.statements.map (·.filled expression)) := by
  obtain ⟨root, hl⟩ := lowered_of_ofCst htree
  have hb := borrows_of_borrowElse hborrow
  obtain ⟨rest, hrest⟩ := hb.exists_followedBy hl (hl.mem_below hget)
  obtain ⟨last, hlast, hjump⟩ := hb.jumps
  have hnever : ∀ (σ ε : Type) (m : Semantics σ ε),
      m.NeverPasses ((thenBranch place).map (·.here)) := by
    intro σ ε m
    have hend : ((thenBranch place).map (·.here)).getLast? = some last.here := by
      rw [List.getLast?_map, hlast]
      rfl
    exact Semantics.neverPasses_of_jump hend hjump
  refine ⟨rest, hrest, ?_, ?_⟩
  · intro σ ε m condition a d
    rw [List.map_append]
    exact Semantics.inTurn_choose_iff (hnever σ ε m) condition
  · intro r heval hnodes
    obtain ⟨place', condition, sites, borrowed', hr⟩ := replaced_of_evaluate heval
    obtain rfl : place = place' := Option.some.inj (hget.symm.trans hr.get)
    obtain ⟨hsame, hends⟩ := hr.ends_alike hl hb hnodes
    refine ⟨hsame, hends, ?_⟩
    intro σ ε m expression
    exact ⟨hnever σ ε m, hr.neverPasses_filled hl hlast hjump m expression⟩

def returnName (start : Nat) (field : Option String) : Cst :=
  .part "return_statement" start 9 field [
    .mark "return" start, .part "identifier" (start + 7) 1 none [], .mark ";" (start + 8)]

def returnsText : Source :=
  .ofText "\x7b if (c) return a; ; return b; return d; \x7d".toList

def returnsTree : Cst :=
  .part "block" 0 42 none [
    .mark "\x7b" 0,
    .part "if_statement" 2 16 none [
      .mark "if" 2,
      .part "parenthesized_expression" 5 3 (some "condition") [
        .mark "(" 5, .part "identifier" 6 1 none [], .mark ")" 7],
      returnName 9 (some "consequence")],
    .mark ";" 19, returnName 21 none, returnName 31 none, .mark "\x7d" 41]

/-- Notes the numbers of the statements that run. Every condition has the same value. -/
def Semantics.noting (value : Bool) : Semantics (List Nat) (List Nat) where
  run s a d := d = if s.kind.isJump then .error (a ++ [s.id]) else .ok (a ++ [s.id])
  test _ a d := d = .ok (value, a)
  jumps := by
    intro s a b hjump h
    simp [hjump] at h

/-- The `if` borrows the next `return`. The empty statement between them is a bare token, and the
last `return` is the rest, which does not run where the condition is false. -/
theorem next_return_is_borrowed : ∃ tree place borrowed rest r,
    Tree.ofCst returnsText returnsTree = .ok tree ∧ tree.get? 2 = some place ∧
    borrowElse place (thenBranch place) = .ok borrowed ∧ borrowed.map Place.id = [15] ∧
    place.FollowedBy (borrowed ++ rest) ∧
    (∀ (σ ε : Type) (m : Semantics σ ε) (condition : Shape) (a : σ) (d : Except ε σ),
      InTurn m.Performs (.choose condition ((thenBranch place).map (·.here)) [] ::
          ((borrowed ++ rest).map (·.here)).map .plain) a d ↔
        InTurn m.Performs (.choose condition ((thenBranch place).map (·.here))
          (borrowed.map (·.here)) :: (rest.map (·.here)).map .plain) a d) ∧
    (∀ condition, InTurn (Semantics.noting false).Performs
      (.choose condition ((thenBranch place).map (·.here)) [] ::
        ((borrowed ++ rest).map (·.here)).map .plain) [] (.error [15])) ∧
    evaluate tree 2 = .ok (.replace r) ∧ r.borrowed = borrowed ∧
    ∀ (σ ε : Type) (m : Semantics σ ε) (expression : Conditional → Shape),
      m.NeverPasses ((thenBranch place).map (·.here)) ∧
        m.NeverPasses (r.statements.map (·.filled expression)) := by
  have hcheck : (replacementAt? returnsText returnsTree 2).any (fun found =>
      (found.1.get? 2).any fun place => (thenBranch place).all (fun t => !t.isToken) &&
        (borrowElse place (thenBranch place)).toOption.any fun borrowed =>
          borrowed.map Place.id == [15]) = true := by
    decide +kernel
  obtain ⟨tree, r, htree, heval, hfound⟩ := exists_of_replacementAt? hcheck
  simp only [Bool.and_eq_true, Option.any_eq_true, List.all_eq_true, Bool.not_eq_true',
    beq_iff_eq, toOption_eq_some] at hfound
  obtain ⟨place, hget, hnodes, borrowed, hborrow, hids⟩ := hfound
  obtain ⟨rest, hrest, hmeaning, haccepted⟩ := borrowing_keeps_results htree hget hborrow
  obtain ⟨hsame, ⟨_, e, _, he, _, hjump⟩, hnever⟩ := haccepted r heval hnodes
  obtain ⟨last, rfl, hid⟩ := List.map_eq_singleton_iff.1 hids
  obtain rfl : last = e := by simpa using he
  have hnoted : (Semantics.noting false).run last.here [] (.error [15]) := by
    change Except.error [15] = if last.kind.isJump then .error [last.id] else .ok [last.id]
    rw [hjump, hid]
    rfl
  exact ⟨tree, place, [last], rest, r, htree, hget, hborrow, hids, hrest, hmeaning,
    fun condition => (hmeaning _ _ _ condition _ _).2 (.stop (.whenFalse rfl (.stop hnoted))),
    heval, hsame, hnever⟩

end IfCollapse.Branch
