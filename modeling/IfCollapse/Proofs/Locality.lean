import IfCollapse.Proofs.Strays
import IfCollapse.Proofs.Subtrees

/-! A verdict on an `if` rests on nothing above its parent. Each step of the evaluation, done in a
larger tree, gives what it gives in the tree of the parent alone, with all places lifted. -/

namespace IfCollapse.Branch

open Java

section Lifts

variable (base : Place)

def Difference.lift (d : Difference) : Difference :=
  ⟨base.lift d.before, base.lift d.after⟩

def Site.lift (s : Site) : Site :=
  ⟨base.lift s.before, base.lift s.after, s.position⟩

def Obstacle.lift : Obstacle → Obstacle
  | .assignmentTarget place => .assignmentTarget (base.lift place)
  | .innerScope place => .innerScope (base.lift place)
  | .noPosition => .noPosition

def Misplaced.lift (m : Misplaced) : Misplaced :=
  ⟨m.difference.lift base, m.obstacle.lift base⟩

def Conditional.lift (c : Conditional) : Conditional :=
  ⟨base.lift c.target, base.lift c.condition, base.lift c.whenTrue, base.lift c.whenFalse,
    c.position⟩

def Statement.lift (s : Statement) : Statement :=
  ⟨base.lift s.template, s.substitutions.map (Conditional.lift base)⟩

def Replacement.lift (r : Replacement) : Replacement :=
  ⟨base.lift r.ifStatement, r.statements.map (Statement.lift base), r.borrowed.map base.lift⟩

def Refusal.lift : Refusal → Refusal
  | .misplaced why => .misplaced (why.lift base)
  | .noElse why => .noElse why
  | .unequalCounts thenCount elseCount => .unequalCounts thenCount elseCount
  | .equivalentBranches => .equivalentBranches
  | .doesNotFit => .doesNotFit

def Verdict.lift : Verdict → Verdict
  | .keep why => .keep (why.lift base)
  | .replace r => .replace (r.lift base)

end Lifts

section Climbing

variable {base q limit : Place} {k : Nat}

theorem isShortCircuit_shift (s : Shape) : isShortCircuit (s.shift k) = isShortCircuit s := by
  unfold isShortCircuit
  rw [Shape.childByField?_shift]
  cases s.childByField? "operator" <;> simp [Shape.text]

theorem positionIn?_shift {here parent : Shape} {g h : Option Shape}
    (hkind : h.map Shape.kind = g.map Shape.kind) :
    positionIn? (here.shift k) (parent.shift k) h = positionIn? here parent g := by
  simp only [positionIn?, Shape.kind_shift, Shape.field_shift, isShortCircuit_shift, hkind]

theorem kind_head_liftLine (s : Shape) (line : List Shape) :
    (Place.liftLine base (s :: line)).head?.map Shape.kind = some s.kind := by
  cases line <;> simp [Place.liftLine, Shape.kind]

/-- Of the root only the kind counts for the position of a place that is not one of its children. -/
theorem position?_lift (h : 2 ≤ q.above.length) : position? (base.lift q) = position? q := by
  obtain ⟨s, above⟩ := q
  cases above with
  | nil => simp at h
  | cons parent above =>
    cases above with
    | nil => simp at h
    | cons grandparent above =>
      have hposition : positionIn? (s.shift base.id) (parent.shift base.id)
          (Place.liftLine base (grandparent :: above)).head? =
          positionIn? s parent (some grandparent) :=
        positionIn?_shift (kind_head_liftLine grandparent above)
      have habove : (base.lift ⟨s, parent :: grandparent :: above⟩).above =
          parent.shift base.id :: Place.liftLine base (grandparent :: above) := rfl
      have hhere : (base.lift ⟨s, parent :: grandparent :: above⟩).here = s.shift base.id := rfl
      simp only [position?, Place.isToken_lift, Place.kind_lift, habove, hhere, hposition,
        List.head?_cons]

theorem isAssignmentTarget_lift (h : q.above ≠ []) :
    isAssignmentTarget (base.lift q) = isAssignmentTarget q := by
  rw [isAssignmentTarget, isAssignmentTarget, Place.field_lift h, Place.parent?_lift h]
  cases q.parent? <;> simp

theorem opensScope_lift : opensScope (base.lift q) = opensScope q := by
  simp [opensScope]

theorem any_takeWhile_lift {f : Place → Bool}
    (hf : ∀ m : Place, m.above ≠ [] → f (base.lift m) = f m) (front : List Shape) :
    ((Place.chain (Place.liftLine base (front ++ limit.line))).takeWhile
        (·.id != limit.id + base.id)).any f =
      ((Place.chain (front ++ limit.line)).takeWhile (·.id != limit.id)).any f := by
  induction front with
  | nil =>
    have hlimit : (base.lift limit).id = limit.id + base.id := Place.id_lift
    have hline : Place.liftLine base limit.line = (base.lift limit).line := Place.line_lift.symm
    rw [List.nil_append, hline]
    simp [Place.line, Place.chain, hlimit]
  | cons s front ih =>
    let m : Place := ⟨s, front ++ limit.line⟩
    have habove : m.above ≠ [] := by simp [m, Place.line]
    have hchain : Place.chain (Place.liftLine base m.line) =
        base.lift m :: Place.chain (Place.liftLine base (front ++ limit.line)) := by
      rw [← Place.line_lift, Place.lift_of_above habove]
      rfl
    have htest : (m.id + base.id != limit.id + base.id) = (m.id != limit.id) := by
      rw [Bool.eq_iff_iff]
      simp
    change ((Place.chain (Place.liftLine base m.line)).takeWhile _).any f =
      ((m :: Place.chain (front ++ limit.line)).takeWhile _).any f
    rw [hchain, List.takeWhile_cons, List.takeWhile_cons, Place.id_lift, htest]
    cases hm : m.id != limit.id with
    | false => rfl
    | true => simp only [if_true, List.any_cons, hf m habove, ih]

theorem inAssignmentTarget_lift (hq : q ∈ limit.below) :
    inAssignmentTarget (base.lift q) (limit.id + base.id) = inAssignmentTarget q limit.id := by
  obtain ⟨front, hfront⟩ := Place.line_suffix_of_mem_below hq
  unfold inAssignmentTarget
  rw [Place.lineage_eq, Place.lineage_eq, Place.line_lift, ← hfront]
  exact any_takeWhile_lift (fun m hm => isAssignmentTarget_lift hm) front

theorem inInnerScope_lift {p : Place} (hp : p ∈ limit.below) (hq : q ∈ p.children) :
    inInnerScope (base.lift q) (limit.id + base.id) = inInnerScope q limit.id := by
  obtain ⟨front, hfront⟩ := Place.line_suffix_of_mem_below hp
  unfold inInnerScope Place.ancestors
  rw [Place.above_lift_of_mem_children hq, Place.above_of_mem_children hq, Place.line_lift,
    ← hfront]
  exact any_takeWhile_lift (fun m _ => opensScope_lift) front

theorem nearest_at_limit {l m : Nat} {b a : Place} (h : b.id = l ∨ a.id = m) :
    nearest l m b.here b.above a.here a.above = .error .noPosition := by
  unfold nearest
  exact if_pos h

theorem nearest_of_parents {l k : Nat} {b a m n : Place} (hb : b ∈ m.children)
    (ha : a ∈ n.children) (hlimit : ¬(b.id = l ∨ a.id = k)) :
    nearest l k b.here b.above a.here a.above =
      if b.field ≠ a.field then .error .noPosition
      else
        match position? b with
        | some position =>
          if position? a ≠ some position then .error .noPosition
          else if inInnerScope b l then .error (.innerScope b)
          else .ok ⟨b, a, position⟩
        | none => nearest l k m.here m.above n.here n.above := by
  obtain ⟨s, _, rfl⟩ := List.mem_map.1 hb
  obtain ⟨t, _, rfl⟩ := List.mem_map.1 ha
  rw [nearest]
  exact if_neg hlimit

theorem two_le_above {t m : Place} (ht : t.above ≠ []) (hm : m ∈ t.below) (hq : q ∈ m.children) :
    2 ≤ q.above.length := by
  have hlength := (Place.line_suffix_of_mem_below hm).length_le
  have hpos := List.length_pos_iff.2 ht
  rw [Place.above_of_mem_children hq]
  simp only [Place.line, List.length_cons] at hlength ⊢
  omega

/-- A climb that starts below the limits never gets to see the root. -/
theorem nearest_lift {t e b a : Place} (ht : t.above ≠ []) (he : e.above ≠ [])
    (hb : b ∈ t.below) (ha : a ∈ e.below) :
    nearest (t.id + base.id) (e.id + base.id) (base.lift b).here (base.lift b).above
        (base.lift a).here (base.lift a).above =
      ((nearest t.id e.id b.here b.above a.here a.above).mapError (Obstacle.lift base)).map
        (Site.lift base) := by
  -- the number of levels above the first side falls with each step
  induction hlevels : b.above.length using Nat.strongRecOn generalizing b a with
  | ind levels ih =>
    by_cases hlimit : b.id = t.id ∨ a.id = e.id
    · have hlifted : (base.lift b).id = t.id + base.id ∨ (base.lift a).id = e.id + base.id := by
        simpa using hlimit
      rw [nearest_at_limit hlimit, nearest_at_limit hlifted]
      rfl
    · have hlifted : ¬((base.lift b).id = t.id + base.id ∨ (base.lift a).id = e.id + base.id) := by
        simpa using hlimit
      have hneb : b ≠ t := fun heq => hlimit (Or.inl (by rw [heq]))
      have hnea : a ≠ e := fun heq => hlimit (Or.inr (by rw [heq]))
      obtain ⟨m, hm, hbm⟩ := Place.exists_parent_of_mem_below hb hneb
      obtain ⟨n, hn, han⟩ := Place.exists_parent_of_mem_below ha hnea
      have hbm' : base.lift b ∈ (base.lift m).children := by
        rw [Place.children_lift]
        exact List.mem_map_of_mem hbm
      have han' : base.lift a ∈ (base.lift n).children := by
        rw [Place.children_lift]
        exact List.mem_map_of_mem han
      have hfewer : m.above.length < levels := by
        rw [← hlevels, Place.above_of_mem_children hbm]
        simp [Place.line]
      rw [nearest_of_parents hbm han hlimit, nearest_of_parents hbm' han' hlifted,
        Place.field_lift (Place.above_ne_nil_of_mem_children hbm),
        Place.field_lift (Place.above_ne_nil_of_mem_children han),
        position?_lift (two_le_above ht hm hbm), position?_lift (two_le_above he hn han),
        inInnerScope_lift hm hbm, ih _ hfewer hm hn rfl]
      split
      · rfl
      · cases position? b with
        | none => rfl
        | some position =>
          simp only
          split
          · rfl
          · split <;> rfl

end Climbing

section Comparing

variable {base : Place}

mutual

theorem compare_lift : ∀ (s t : Shape) {above above' : List Shape}, above ≠ [] → above' ≠ [] →
    compare (Place.liftLine base above) (s.shift base.id) (Place.liftLine base above')
        (t.shift base.id) =
      (compare above s above' t).map (List.map (Difference.lift base))
  | .token a named, .token b other, above, above', _, _ => by
    by_cases hid : a.id = b.id
    · simp [Shape.shift, compare, Shape.id, Shape.label, hid]
    · by_cases hsame : sameToken a named b = true
      · simp_all [Shape.shift, compare, Shape.id, Shape.label, sameToken]
      · simp_all [Shape.shift, compare, Shape.id, Shape.label, sameToken]
  | .token a named, .node b others, above, above', _, _ => by
    by_cases hid : a.id = b.id <;> simp [Shape.shift, compare, Shape.id, Shape.label, hid]
  | .node a children, .token b other, above, above', _, _ => by
    by_cases hid : a.id = b.id <;> simp [Shape.shift, compare, Shape.id, Shape.label, hid]
  | .node a children, .node b others, above, above', h, h' => by
    have hhere : Difference.lift base ⟨⟨.node a children, above⟩, ⟨.node b others, above'⟩⟩ =
        ⟨⟨(Shape.node a children).shift base.id, Place.liftLine base above⟩,
          ⟨(Shape.node b others).shift base.id, Place.liftLine base above'⟩⟩ := by
      rw [Difference.lift, Place.lift_of_above (q := ⟨.node a children, above⟩) h,
        Place.lift_of_above (q := ⟨.node b others, above'⟩) h']
    have hall : compareAll (Place.liftLine base (.node a children :: above))
        (children.map (Shape.shift base.id)) (Place.liftLine base (.node b others :: above'))
        (others.map (Shape.shift base.id)) = _ :=
      compareAll_lift children others (by simp) (by simp)
    rw [Place.liftLine_cons h, Place.liftLine_cons h'] at hall
    simp only [Shape.shift, Shape.shiftAll_eq] at hall hhere ⊢
    by_cases hid : a.id = b.id
    · simp [compare, Shape.id, Shape.label, hid]
    · by_cases hparts : a.name ≠ b.name ∨ children.length ≠ others.length
      · simp [compare, Shape.id, Shape.label, hid, hparts, hhere]
      · simp only [compare, Shape.id, Shape.label, Nat.add_right_cancel_iff, if_neg hid,
          List.length_map, if_neg hparts, hall]
        cases compareAll (.node a children :: above) children (.node b others :: above') others with
        | none => simp [hhere]
        | some ds => rfl

theorem compareAll_lift : ∀ (ss ts : List Shape) {above above' : List Shape}, above ≠ [] →
    above' ≠ [] →
    compareAll (Place.liftLine base above) (ss.map (Shape.shift base.id))
        (Place.liftLine base above') (ts.map (Shape.shift base.id)) =
      (compareAll above ss above' ts).map (List.map (Difference.lift base))
  | [], ts, above, above', _, _ => by simp [compareAll]
  | s :: ss, [], above, above', _, _ => by simp [compareAll]
  | s :: ss, t :: ts, above, above', h, h' => by
    rw [List.map_cons, List.map_cons, compareAll, compareAll, compare_lift s t h h',
      compareAll_lift ss ts h h']
    cases compare above s above' t with
    | none => rfl
    | some ds =>
      cases compareAll above ss above' ts with
      | none => rfl
      | some more => simp

end

theorem differences_lift {t e : Place} (ht : t.above ≠ []) (he : e.above ≠ [])
    (htn : t.isToken = false) (hen : e.isToken = false) :
    differences (base.lift t) (base.lift e) = (differences t e).map (Difference.lift base) := by
  obtain ⟨ds, hds, hdiff⟩ := compareAt_of_nodes htn hen
  have hlift : compare (Place.liftLine base t.above) (t.here.shift base.id)
      (Place.liftLine base e.above) (e.here.shift base.id) = _ := compare_lift t.here e.here ht he
  simp only [compareAt] at hds
  rw [hds] at hlift
  rw [hdiff, differences, Place.lift_of_above ht, Place.lift_of_above he]
  simp only [hlift, Option.map_some]

end Comparing

def Inner (places : List Place) : Prop :=
  ∀ p ∈ places, p.above ≠ [] ∧ p.isToken = false

section Sites

variable {base t e : Place}

theorem climb_lift {d : Difference} (ht : t.above ≠ []) (he : e.above ≠ [])
    (hb : d.before ∈ t.below) (ha : d.after ∈ e.below) :
    climb (t.id + base.id) (e.id + base.id) (d.lift base) =
      ((climb t.id e.id d).mapError (Obstacle.lift base)).map (Site.lift base) := by
  have hbefore : inAssignmentTarget (d.lift base).before (t.id + base.id) =
      inAssignmentTarget d.before t.id := inAssignmentTarget_lift hb
  have hafter : inAssignmentTarget (d.lift base).after (e.id + base.id) =
      inAssignmentTarget d.after e.id := inAssignmentTarget_lift ha
  rw [climb, climb, hbefore, hafter]
  split
  · rfl
  · exact nearest_lift ht he hb ha

theorem climbAll_lift {ds : List Difference} (ht : t.above ≠ []) (he : e.above ≠ [])
    (h : ∀ d ∈ ds, d.before ∈ t.below ∧ d.after ∈ e.below) :
    climbAll (t.id + base.id) (e.id + base.id) (ds.map (Difference.lift base)) =
      ((climbAll t.id e.id ds).mapError (Misplaced.lift base)).map (List.map (Site.lift base)) := by
  induction ds with
  | nil => rfl
  | cons d ds ih =>
    obtain ⟨hb, ha⟩ := h d List.mem_cons_self
    rw [List.map_cons, climbAll, climbAll, climb_lift ht he hb ha,
      ih fun f hf => h f (List.mem_cons_of_mem d hf)]
    cases climb t.id e.id d with
    | error obstacle => rfl
    | ok site => cases climbAll t.id e.id ds <;> rfl

-- the ancestors of the base have smaller numbers than anything that is lifted
variable (hfresh : ∀ s ∈ base.above, s.id < base.id)

include hfresh

theorem isWithin_lift {q : Place} (id : Nat) :
    (base.lift q).isWithin (id + base.id) = q.isWithin id := by
  have hline : ∀ line : List Shape, line ≠ [] →
      (Place.chain (Place.liftLine base line)).any (·.id == id + base.id) =
        (Place.chain line).any (·.id == id) := by
    intro line hne
    induction line with
    | nil => exact absurd rfl hne
    | cons s line ih =>
      have htest : (s.id + base.id == id + base.id) = (s.id == id) := by
        rw [Bool.eq_iff_iff]
        simp
      cases line with
      | nil =>
        have hnone : (Place.chain base.above).any (·.id == id + base.id) = false := by
          rw [List.any_eq_false]
          intro m hm
          have hmem := (Place.mem_chain_iff.1 hm).subset List.mem_cons_self
          have hlt : m.id < base.id := hfresh m.here hmem
          simp only [beq_iff_eq]
          omega
        have hfirst : (⟨(s.shift base.id).withField base.field, base.above⟩ : Place).id =
            s.id + base.id := by
          simp [Place.id, Shape.id]
        rw [Place.liftLine, Place.chain, List.any_cons, hfirst, htest, hnone]
        rfl
      | cons x line =>
        have hfirst : (⟨s.shift base.id, Place.liftLine base (x :: line)⟩ : Place).id =
            s.id + base.id := Shape.id_shift s
        rw [Place.liftLine_cons (by simp), Place.chain, List.any_cons, hfirst, htest,
          ih (by simp)]
        rfl
  unfold Place.isWithin
  rw [Place.lineage_eq, Place.lineage_eq, Place.line_lift]
  exact hline q.line (by simp [Place.line])

theorem dropNested_lift (kept sites : List Site) :
    dropNested (kept.map (Site.lift base)) (sites.map (Site.lift base)) =
      (dropNested kept sites).map (Site.lift base) := by
  induction sites generalizing kept with
  | nil => simp [dropNested]
  | cons site sites ih =>
    have hnested : (kept.map (Site.lift base)).any
        (fun outer => (site.lift base).before.isWithin outer.before.id) =
        kept.any fun outer => site.before.isWithin outer.before.id := by
      rw [List.any_map]
      congr 1
      funext outer
      have hid : (outer.lift base).before.id = outer.before.id + base.id := Place.id_lift
      rw [Function.comp, hid]
      exact isWithin_lift hfresh outer.before.id
    rw [List.map_cons, dropNested, dropNested, hnested]
    split
    · exact ih kept
    · exact ih (site :: kept)

theorem fold_lift (sites : List Site) :
    fold (sites.map (Site.lift base)) = (fold sites).map (Site.lift base) := by
  have hprecedes : ∀ a ∈ sites, ∀ b ∈ sites,
      a.precedes b = (a.lift base).precedes (b.lift base) := by
    intro a _ b _
    simp [Site.precedes, Site.lift]
  rw [fold, fold, ← List.map_mergeSort hprecedes]
  exact dropNested_lift hfresh [] _

theorem classify_lift (ht : t.above ≠ []) (he : e.above ≠ []) (htn : t.isToken = false)
    (hen : e.isToken = false) :
    classify (differences (base.lift t) (base.lift e)) (base.lift t).id (base.lift e).id =
      ((classify (differences t e) t.id e.id).mapError (Misplaced.lift base)).map
        (List.map (Site.lift base)) := by
  obtain ⟨ds, hds, hdiff⟩ := compareAt_of_nodes htn hen
  have hin : ∀ d ∈ differences t e, d.before ∈ t.below ∧ d.after ∈ e.below := by
    intro d hd
    rw [hdiff] at hd
    obtain ⟨path, hbefore, hafter⟩ := descend_of_mem_compare hds hd
    exact ⟨Place.mem_below_of_descend hbefore, Place.mem_below_of_descend hafter⟩
  rw [classify, classify, differences_lift ht he htn hen, Place.id_lift, Place.id_lift,
    climbAll_lift ht he hin]
  cases climbAll t.id e.id (differences t e) with
  | error why => rfl
  | ok sites =>
    change Except.ok (fold (sites.map (Site.lift base))) =
      Except.ok ((fold sites).map (Site.lift base))
    rw [fold_lift hfresh]

theorem sitesOf_lift {befores afters : List Place} (hb : Inner befores) (ha : Inner afters) :
    sitesOf (befores.map base.lift) (afters.map base.lift) =
      ((sitesOf befores afters).mapError (Misplaced.lift base)).map
        (List.map (Site.lift base)) := by
  induction befores generalizing afters with
  | nil => cases afters <;> rfl
  | cons t befores ih =>
    cases afters with
    | nil => rfl
    | cons e afters =>
      obtain ⟨ht, htn⟩ := hb t List.mem_cons_self
      obtain ⟨he, hen⟩ := ha e List.mem_cons_self
      have hrest := ih (fun p hp => hb p (List.mem_cons_of_mem t hp))
        (fun p hp => ha p (List.mem_cons_of_mem e hp))
      rw [List.map_cons, List.map_cons, sitesOf, sitesOf, classify_lift hfresh ht he htn hen, hrest]
      cases classify (differences t e) t.id e.id with
      | error why => rfl
      | ok first =>
        cases sitesOf befores afters with
        | error why => rfl
        | ok rest =>
          change Except.ok (first.map (Site.lift base) ++ rest.map (Site.lift base)) =
            Except.ok ((first ++ rest).map (Site.lift base))
          rw [List.map_append]

end Sites

section Judging

variable {base place : Place}

theorem filter_nodes_lift (places : List Place) :
    (places.map base.lift).filter (fun c => !c.isToken) =
      (places.filter fun c => !c.isToken).map base.lift := by
  rw [List.filter_map]
  congr 2
  funext c
  rw [Function.comp, Place.isToken_lift]

theorem childNodes_lift (q : Place) : (base.lift q).childNodes = q.childNodes.map base.lift := by
  rw [Place.childNodes, Place.children_lift, filter_nodes_lift]
  rfl

theorem branchStatements_lift (branch : Place) :
    branchStatements (base.lift branch) = (branchStatements branch).map base.lift := by
  rw [branchStatements, branchStatements, Place.kind_lift]
  split
  · exact childNodes_lift branch
  · rfl

theorem followingSiblings_lift (h : place.above ≠ []) :
    (base.lift place).followingSiblings = place.followingSiblings.map base.lift := by
  have hother : (fun c : Place => c.id != (base.lift place).id) ∘ base.lift =
      fun c => c.id != place.id := by
    funext c
    rw [Function.comp, Place.id_lift, Place.id_lift, Bool.eq_iff_iff]
    simp
  rw [Place.followingSiblings, Place.followingSiblings, Place.parent?_lift h]
  cases place.parent? with
  | none => rfl
  | some parent =>
    simp only [Option.map_some, Place.children_lift, List.dropWhile_map, hother, ← List.map_drop,
      filter_nodes_lift]

theorem inSequence_lift (h : place.above ≠ []) :
    (base.lift place).parent?.any (·.kind.isSequence) =
      place.parent?.any (·.kind.isSequence) := by
  rw [Place.parent?_lift h]
  cases place.parent? <;> simp

theorem borrowElse_lift (h : place.above ≠ []) (thens : List Place) :
    borrowElse (base.lift place) (thens.map base.lift) =
      (borrowElse place thens).map (List.map base.lift) := by
  rw [borrowElse, borrowElse, Place.childByField?_lift, Option.isSome_map, inSequence_lift h,
    List.getLast?_map, List.length_map, followingSiblings_lift h]
  split
  · rfl
  · split
    · rfl
    · cases thens.getLast? with
      | none => rfl
      | some last =>
        simp only [Option.map_some, Place.kind_lift, ← List.map_take, List.length_map]
        split
        · rfl
        · split <;> rfl

theorem elseStatements_lift (h : place.above ≠ []) (thens : List Place) :
    elseStatements (base.lift place) (thens.map base.lift) =
      (elseStatements place thens).map fun found =>
        (found.1.map base.lift, found.2.map base.lift) := by
  rw [elseStatements, elseStatements, Place.childByField?_lift]
  cases place.childByField? "alternative" with
  | some alternative =>
    simp only [Option.map_some, branchStatements_lift]
    rfl
  | none =>
    simp only [Option.map_none, borrowElse_lift h]
    cases borrowElse place thens <;> rfl

theorem fits_lift (h : place.above ≠ []) (thens : List Place) :
    fits (base.lift place) (thens.map base.lift) = fits place thens := by
  unfold fits
  rw [inSequence_lift h]
  cases thens with
  | nil => rfl
  | cons t thens => cases thens <;> simp

theorem innerCondition_lift (condition : Place) :
    innerCondition (base.lift condition) = base.lift (innerCondition condition) := by
  rw [innerCondition, innerCondition, childNodes_lift, List.head?_map]
  cases condition.childNodes.head? <;> rfl

variable (hfresh : ∀ s ∈ base.above, s.id < base.id)

include hfresh

theorem substitutionsIn_lift (condition : Place) (sites : List Site) (template : Place) :
    substitutionsIn (base.lift condition) (sites.map (Site.lift base)) (base.lift template) =
      (substitutionsIn condition sites template).map (Conditional.lift base) := by
  have htest : (fun site : Site => site.before.isWithin (base.lift template).id) ∘ Site.lift base =
      fun site => site.before.isWithin template.id := by
    funext site
    rw [Function.comp, Place.id_lift]
    exact isWithin_lift hfresh template.id
  rw [substitutionsIn, substitutionsIn, List.filter_map, htest, List.map_map, List.map_map]
  rfl

theorem build_lift (condition : Place) (sites : List Site) (thens borrowed : List Place) :
    build (base.lift place) (base.lift condition) (sites.map (Site.lift base))
        (thens.map base.lift) (borrowed.map base.lift) =
      (build place condition sites thens borrowed).lift base := by
  have hcondition : innerCondition (base.lift condition) = base.lift (innerCondition condition) :=
    innerCondition_lift condition
  simp only [innerCondition] at hcondition
  simp only [build, Replacement.lift, List.map_map, hcondition]
  congr 1
  refine List.map_congr_left fun t _ => ?_
  simp only [Function.comp, Statement.lift, substitutionsIn_lift hfresh]

theorem judge_lift (h : place.above ≠ []) {condition consequence : Place}
    (hthen : place.childByField? "consequence" = some consequence)
    (hnodes : ∀ s ∈ thenBranch place ++ elseBranch place, s.isToken = false) :
    judge (base.lift place) (base.lift condition) (base.lift consequence) =
      (judge place condition consequence).lift base := by
  have hthens : branchStatements consequence = thenBranch place := by
    rw [thenBranch, hthen]
  obtain ⟨parent, hparent⟩ := exists_parent_thenBranch place
  have hinner : Inner (thenBranch place) := fun t ht =>
    ⟨Place.above_ne_nil_of_mem_children (hparent t ht), hnodes t (List.mem_append_left _ ht)⟩
  simp only [judge, branchStatements_lift, hthens, elseStatements_lift h]
  cases helse : elseStatements place (thenBranch place) with
  | error why => rfl
  | ok found =>
    obtain ⟨elses, borrowed⟩ := found
    have helses : elses = elseBranch place := elses_eq_of_elseStatements helse
    subst helses
    obtain ⟨other, hother⟩ := exists_parent_elseBranch place
    have hinner' : Inner (elseBranch place) := fun e he =>
      ⟨Place.above_ne_nil_of_mem_children (hother e he), hnodes e (List.mem_append_right _ he)⟩
    simp only [Except.map, List.length_map, sitesOf_lift hfresh hinner hinner', fits_lift h]
    split
    · rfl
    · cases sitesOf (thenBranch place) (elseBranch place) with
      | error why => rfl
      | ok sites =>
        cases sites with
        | nil => rfl
        | cons site sites =>
          simp only [Except.mapError, List.map_cons]
          split
          · rw [← List.map_cons, build_lift hfresh]
            rfl
          · rfl

theorem evaluate_lift {large small : Tree} (h : place.above ≠ [])
    (hlarge : large.get? (base.lift place).id = some (base.lift place))
    (hsmall : small.get? place.id = some place)
    (hnodes : ∀ s ∈ thenBranch place ++ elseBranch place, s.isToken = false) :
    evaluate large (base.lift place).id = (evaluate small place.id).map (Verdict.lift base) := by
  unfold evaluate
  simp only [hlarge, hsmall, Place.kind_lift, Place.name_lift, Place.childByField?_lift]
  split
  · rfl
  · cases place.childByField? "condition" with
    | none => rfl
    | some condition =>
      cases hthen : place.childByField? "consequence" with
      | none => rfl
      | some consequence =>
        simp only [Option.map_some, judge_lift hfresh h hthen hnodes]
        rfl

end Judging

/-- Let a node be lowered as the root of a tree and as a part of a larger one. The small tree is a
slice of the large one, from the number of the node on, with all places lifted; and the verdict on a
part of the node, if its branches are made of nodes, is the same in both. -/
theorem evaluate_subtree {text : List Char} {rows : List Row} {whole r p i : Cst}
    (hrows : Cst.ofRows? rows = some whole) (hwhole : whole.ParsedFrom text)
    (hr : r ∈ whole.preorder) (hp : r.Reaches p) (hi : i ∈ p.children)
    (hextra : i.row.extra = false) :
    ∃ large small base place, Tree.ofCst (.ofText text) r = .ok large ∧
      Tree.ofCst (.ofText text) p = .ok small ∧ large.find? p.index = some base ∧
      small.find? i.index = some place ∧ large.find? i.index = some (base.lift place) ∧
      (large.places.drop base.id).take small.size = small.places.map base.lift ∧
      ((∀ s ∈ thenBranch place ++ elseBranch place, s.isToken = false) →
        evaluate large (base.lift place).id =
          (evaluate small place.id).map (Verdict.lift base)) := by
  have hered : ∀ t : Cst, t.ParsedFrom text → ∀ c ∈ t.children, c.ParsedFrom text :=
    fun t ht c hc => ht.child hc
  have hrparsed := of_mem_preorder hered hwhole hr
  have hpparsed := of_mem_preorder hered hrparsed hp.mem_preorder
  obtain ⟨⟨shape, after⟩, hlarge⟩ := exists_lower r none 0 hrparsed
  obtain ⟨⟨part, after'⟩, hsmall⟩ := exists_lower p none 0 hpparsed
  let root : Place := ⟨shape, []⟩
  let top : Place := ⟨part, []⟩
  have hroot : lower text r none 0 = .ok (root.here, after) := hlarge
  have htop : lower text p none 0 = .ok (top.here, after') := hsmall
  obtain ⟨base, hbase, htags, role, n, m, hfound⟩ := exists_place_of_reaches hp hroot
  obtain ⟨place, hchild, htags', _, _, _⟩ := exists_child_of_lower htop hi hextra
  have hplace : place ∈ top.below := Place.child_mem_below hchild
  have hbelow : base.below = top.below.map base.lift := by
    rw [← Place.below_lift, lift_root hfound htop]
  have hlifted : base.lift place ∈ root.below := by
    refine Place.below_trans hbase ?_
    rw [hbelow]
    exact List.mem_map_of_mem hplace
  -- rows have different numbers, so each place is found by that of its row
  have hindices := (nodup_of_ofRows? hrows).sublist ((Cst.preorder_sublist hr).map Cst.index)
  have hindices' := hindices.sublist ((Cst.preorder_sublist hp.mem_preorder).map Cst.index)
  have htag : (place, some i.index) ∈ tagged p top := htags' (mem_tagged_self i place)
  have htag' : (base.lift place, some i.index) ∈ tagged p base := by
    have hlift : base.lift top = base := lift_root hfound htop
    have htagged := tagged_lift base p top
    rw [hlift] at htagged
    rw [htagged]
    exact List.mem_map_of_mem (f := fun tag => (base.lift tag.1, tag.2)) htag
  have hnumbered : root.here.Numbered 0 := (numbered_of_lower r hroot).1
  refine ⟨_, _, base, place, ofCst_of_lower hlarge, ofCst_of_lower hsmall,
    (Tree.find?_eq_some_iff hindices hlarge).2 (htags (mem_tagged_self p base)),
    (Tree.find?_eq_some_iff hindices' hsmall).2 htag,
    (Tree.find?_eq_some_iff hindices hlarge).2 (htags htag'), ?_, ?_⟩
  · have hslice := Place.slice_below hnumbered hbase
    rw [hbelow, List.length_map] at hslice
    exact hslice
  · intro hnodes
    exact evaluate_lift (Place.id_lt_of_mem_above rfl hnumbered hbase)
      (Place.above_ne_nil_of_mem_children hchild) (Place.getElem?_id hnumbered hlifted)
      (Place.getElem?_id (numbered_of_lower p htop).1 hplace) hnodes

def replacesWithin (text : List Char) (whole p i : Cst) : Bool :=
  match Tree.ofCst (.ofText text) whole, Tree.ofCst (.ofText text) p with
  | .ok large, .ok small =>
    (large.find? p.index).any (0 < ·.id) && (small.find? i.index).any fun place =>
      (thenBranch place ++ elseBranch place).all (!·.isToken) &&
        match evaluate small place.id with
        | .ok (.replace _) => true
        | _ => false
  | _, _ => false

theorem block_judged_alone : ∃ whole p i large small base place r,
    Cst.ofRows? Lint.accentedRows = some whole ∧ whole.ParsedFrom Lint.accentedText ∧
    whole.Reaches p ∧ i ∈ p.children ∧
    Tree.ofCst (.ofText Lint.accentedText) whole = .ok large ∧
    Tree.ofCst (.ofText Lint.accentedText) p = .ok small ∧
    large.find? p.index = some base ∧ 0 < base.id ∧ small.find? i.index = some place ∧
    (large.places.drop base.id).take small.size = small.places.map base.lift ∧
    evaluate small place.id = .ok (.replace r) ∧
    evaluate large (place.id + base.id) = .ok (.replace (r.lift base)) := by
  have hcheck : (Cst.ofRows? Lint.accentedRows).any (fun whole =>
      decide (whole.ParsedFrom Lint.accentedText) && whole.children.any fun p =>
        !p.row.extra && p.children.any fun i =>
          !i.row.extra && replacesWithin Lint.accentedText whole p i) = true := by
    decide +kernel
  obtain ⟨whole, hwhole, hfound⟩ := (Option.any_eq_true _ _).1 hcheck
  simp only [Bool.and_eq_true, decide_eq_true_eq, List.any_eq_true, Bool.not_eq_true'] at hfound
  obtain ⟨hparsed, p, hp, hpextra, i, hi, hextra, hreplaces⟩ := hfound
  have hreaches : whole.Reaches p := .part hp hpextra (.here p)
  have hself : whole ∈ whole.preorder := (Cst.Reaches.here whole).mem_preorder
  obtain ⟨large, small, base, place, hlarge, hsmall, hbase, hplace, _, hslice, heval⟩ :=
    evaluate_subtree hwhole hparsed hself hreaches hi hextra
  simp only [replacesWithin, hlarge, hsmall, hbase, hplace, Option.any_some, Bool.and_eq_true,
    decide_eq_true_eq, List.all_eq_true, Bool.not_eq_true'] at hreplaces
  obtain ⟨hpos, hnodes, hreplace⟩ := hreplaces
  have hsame := heval hnodes
  rw [Place.id_lift] at hsame
  split at hreplace
  · rename_i r hr
    refine ⟨whole, p, i, large, small, base, place, r, hwhole, hparsed, hreaches, hi, hlarge,
      hsmall, hbase, hpos, hplace, hslice, hr, ?_⟩
    rw [hsame, hr]
    rfl
  · simp at hreplace

end IfCollapse.Branch
