import IfCollapse.Proofs.Strays

/-! Two nodes have no differences exactly if they are alike, and putting the other side's element at
every difference makes them alike. Where the name of an unnamed token is its text, nodes without
differences consist of the same tokens. -/

namespace IfCollapse.Branch

open Java

section Alike

variable {root p q : Place}

theorem compareAll_of_equal {above above' : List Shape} {shapes others : List Shape}
    (h : ∀ (i : Nat) (a b : Shape), shapes[i]? = some a → others[i]? = some b →
      compare above a above' b = some []) : compareAll above shapes above' others = some [] := by
  induction shapes generalizing others with
  | nil => rw [compareAll.eq_def]
  | cons s shapes ih =>
    cases others with
    | nil => rw [compareAll.eq_def]
    | cons t others =>
      have hrest := ih fun i a b ha hb => h (i + 1) a b ha hb
      rw [compareAll, h 0 s t rfl rfl, hrest]
      rfl

theorem compareAt_of_alike (h : Alike p.here q.here) : compareAt p q = some [] := by
  induction p using Place.induct generalizing q with
  | step p ih =>
    obtain ⟨s, above⟩ := p
    obtain ⟨t, above'⟩ := q
    cases s with
    | token a named => exact compareAt_of_alike_tokens rfl h
    | node a children =>
      cases t with
      | token b named => exact absurd h (by simp [Alike])
      | node b others =>
        obtain ⟨hname, hparts⟩ := h
        obtain ⟨hlength, hall⟩ := alikeAll_iff.1 hparts
        have hnone : compareAll (.node a children :: above) children
            (.node b others :: above') others = some [] := by
          apply compareAll_of_equal
          intro i c d hc hd
          let x : Place := ⟨c, .node a children :: above⟩
          let y : Place := ⟨d, .node b others :: above'⟩
          have hx : x ∈ Place.children ⟨.node a children, above⟩ :=
            List.mem_map_of_mem (List.mem_of_getElem? hc)
          have hxy : Alike x.here y.here := hall i c d hc hd
          exact ih x hx hxy
        change compare above (.node a children) above' (.node b others) = some []
        rw [compare.eq_def]
        simp [hname, hlength, hnone]

def exchange? (ds : List Difference) (id : Nat) : Option Shape :=
  (ds.find? (·.before.id == id)).map (·.after.here)

theorem alike_exchange {ds : List Difference} (hroot : root.Distinct) (hp : p ∈ root.below)
    (hq : q ∈ root.below) (h : compareAt p q = some ds) :
    Alike (graft (exchange? ds) p.here) q.here := by
  have hdist := hroot.of_mem_below hp
  apply alike_graft hroot hp hq h
  · intro path x y z hx hy hz
    obtain ⟨d, hd, hid, rfl⟩ := exists_of_assigned hz
    obtain ⟨path', hb, ha⟩ := descend_of_mem_compare h hd
    have hbx : d.before = x :=
      hdist.eq (before_mem_below h hd) (Place.mem_below_of_descend hx) hid
    rw [hbx] at hb
    rw [← hdist.path_eq hx hb, hy, Option.some.injEq] at ha
    rw [ha]
  · intro d hd
    exact ⟨d.before, before_mem_below h hd, d.before.mem_below_self, assigned_ne_none hd⟩
  · intro x hx hne
    obtain ⟨z, hz⟩ := Option.ne_none_iff_exists'.1 hne
    obtain ⟨d, hd, hid, _⟩ := exists_of_assigned hz
    have hbx : d.before = x := hdist.eq (before_mem_below h hd) hx hid
    exact ⟨d, hd, hbx ▸ d.before.mem_below_self⟩

theorem compareAt_eq_nil_iff (hroot : root.Distinct) (hp : p ∈ root.below) (hq : q ∈ root.below) :
    compareAt p q = some [] ↔ Alike p.here q.here := by
  constructor
  · intro h
    have halike := alike_exchange hroot hp hq h
    rwa [graft_eq_self p fun x _ s hs => by simp [exchange?] at hs] at halike
  · exact compareAt_of_alike

end Alike

end IfCollapse.Branch

namespace IfCollapse.Java

def Shape.isAnonymous : Shape → Bool
  | .token _ named => !named
  | .node _ _ => false

def Place.tokenTexts (p : Place) : List (List Char) :=
  (p.below.filter (·.isToken)).map (·.text)

/-- The name of an unnamed token is its text, and no named token shares it. -/
structure Tree.PlainTokens (tree : Tree) : Prop where
  spelled : ∀ p ∈ tree.places, p.here.isAnonymous = true → p.here.name.toList = p.text
  apart : ∀ p ∈ tree.places, ∀ q ∈ tree.places, p.isToken = true → q.isToken = true →
    p.here.name = q.here.name → p.here.isAnonymous = q.here.isAnonymous

instance (tree : Tree) : Decidable tree.PlainTokens :=
  decidable_of_iff
    ((∀ p ∈ tree.places, p.here.isAnonymous = true → p.here.name.toList = p.text) ∧
      ∀ p ∈ tree.places, ∀ q ∈ tree.places, p.isToken = true → q.isToken = true →
        p.here.name = q.here.name → p.here.isAnonymous = q.here.isAnonymous)
    ⟨fun h => ⟨h.1, h.2⟩, fun h => ⟨h.spelled, h.apart⟩⟩

theorem Place.tokenTexts_of_token {p : Place} (h : p.isToken = true) :
    p.tokenTexts = [p.text] := by
  obtain ⟨s, above⟩ := p
  cases s with
  | token label named => rfl
  | node label children => simp [Place.isToken, Shape.isToken] at h

theorem Place.tokenTexts_of_node {p : Place} (h : p.isToken = false) :
    p.tokenTexts = (p.children.map Place.tokenTexts).flatten := by
  rw [Place.tokenTexts, Place.below_eq, List.filter_cons_of_neg (by simp [h]),
    List.filter_flatMap, List.map_flatMap, List.flatMap_def]
  rfl

end IfCollapse.Java

namespace IfCollapse.Branch

open Java

theorem Alike.children {p q : Place} (h : Alike p.here q.here) (hp : p.isToken = false) :
    q.isToken = false ∧ p.children.length = q.children.length ∧
      ∀ (i : Nat) (c d : Place), p.children[i]? = some c → q.children[i]? = some d →
        Alike c.here d.here := by
  obtain ⟨s, above⟩ := p
  obtain ⟨t, above'⟩ := q
  cases s with
  | token a named => simp [Place.isToken, Shape.isToken] at hp
  | node a children =>
    cases t with
    | token b named => exact absurd h (by simp [Alike])
    | node b others =>
      obtain ⟨hlength, hall⟩ := alikeAll_iff.1 h.2
      refine ⟨rfl, by simpa [Place.children, Shape.children] using hlength, ?_⟩
      intro i c d hc hd
      exact hall i c.here d.here (Place.getElem?_children hc) (Place.getElem?_children hd)

theorem text_eq_of_alike {tree : Tree} {p q : Place} (h : tree.PlainTokens)
    (hp : p ∈ tree.places) (hq : q ∈ tree.places) (htoken : p.isToken = true)
    (halike : Alike p.here q.here) : q.isToken = true ∧ p.text = q.text := by
  have hspelled := h.spelled p hp
  have hspelled' := h.spelled q hq
  have hapart := h.apart p hp q hq htoken
  obtain ⟨s, above⟩ := p
  obtain ⟨t, above'⟩ := q
  cases s with
  | node a children => simp [Place.isToken, Shape.isToken] at htoken
  | token a named =>
    cases t with
    | node b children => exact absurd halike (by simp [Alike])
    | token b other =>
      obtain ⟨hname, htext⟩ := halike
      refine ⟨rfl, ?_⟩
      cases named with
      | true => exact htext (Or.inl rfl)
      | false =>
        have hother : other = false := by simpa [Shape.isAnonymous] using (hapart rfl hname).symm
        subst hother
        calc
          a.text = a.name.toList := (hspelled rfl).symm
          _ = b.name.toList := by rw [hname]
          _ = b.text := hspelled' rfl

theorem tokenTexts_eq_of_alike {tree : Tree} {root p q : Place} (h : tree.PlainTokens)
    (hplaces : tree.places = root.below) (hp : p ∈ root.below) (hq : q ∈ root.below)
    (halike : Alike p.here q.here) : p.tokenTexts = q.tokenTexts := by
  induction p using Place.induct generalizing q with
  | step p ih =>
    cases htoken : p.isToken with
    | true =>
      obtain ⟨hqtoken, htext⟩ := text_eq_of_alike h (hplaces ▸ hp) (hplaces ▸ hq) htoken halike
      rw [Place.tokenTexts_of_token htoken, Place.tokenTexts_of_token hqtoken, htext]
    | false =>
      obtain ⟨hqtoken, hlength, hall⟩ := halike.children htoken
      rw [Place.tokenTexts_of_node htoken, Place.tokenTexts_of_node hqtoken]
      congr 1
      apply List.ext_getElem (by simp [hlength])
      intro i hi hi'
      rw [List.length_map] at hi hi'
      have hc := List.getElem?_eq_getElem hi
      have hd := List.getElem?_eq_getElem hi'
      have hcmem := List.mem_of_getElem? hc
      rw [List.getElem_map, List.getElem_map]
      exact ih _ hcmem (Place.below_trans hp (Place.child_mem_below hcmem))
        (Place.below_trans hq (Place.child_mem_below (List.mem_of_getElem? hd)))
        (hall i _ _ hc hd)

/-- Two nodes have no differences exactly if they are alike; with the other side's elements at all
differences they become alike; and where unnamed tokens are spelled out, no differences means the
same tokens. -/
theorem differences_exact {source : Source} {cst : Cst} {tree : Tree} {p q : Place} {b a : Nat}
    (htree : Tree.ofCst source cst = .ok tree) (hp : tree.get? b = some p)
    (hq : tree.get? a = some q) (hpn : p.isToken = false) (hqn : q.isToken = false) :
    (differences p q = [] ↔ Alike p.here q.here) ∧
      Alike (graft (exchange? (differences p q)) p.here) q.here ∧
      (tree.PlainTokens → differences p q = [] → p.tokenTexts = q.tokenTexts) := by
  obtain ⟨root, hl⟩ := lowered_of_ofCst htree
  have hproot := hl.mem_below hp
  have hqroot := hl.mem_below hq
  obtain ⟨ds, hds, hdiff⟩ := compareAt_of_nodes hpn hqn
  have hiff : differences p q = [] ↔ Alike p.here q.here := by
    rw [← compareAt_eq_nil_iff hl.distinct hproot hqroot, hds, hdiff, Option.some.injEq]
  refine ⟨hiff, ?_, ?_⟩
  · rw [hdiff]
    exact alike_exchange hl.distinct hproot hqroot hds
  · intro hplain hnone
    exact tokenTexts_eq_of_alike hplain hl.places_eq hproot hqroot (hiff.1 hnone)

/-- The tree of a call of `f` with a sum or difference of two names, which start at `left` and
`right`; the closing bracket is at `close`. -/
def operandCall (start left middle right close : Nat) (operator : String) : Cst :=
  .part "expression_statement" start (close + 2 - start) none [
    .part "method_invocation" start (close + 1 - start) none [
      .part "identifier" start 1 (some "name") [],
      .part "argument_list" (start + 1) (close - start) (some "arguments") [
        .mark "(" (start + 1),
        .part "binary_expression" left (right + 1 - left) none [
          .part "identifier" left 1 (some "left") [], .mark operator middle,
          .part "identifier" right 1 (some "right") []],
        .mark ")" close]],
    .mark ";" (close + 1)]

def operandText : Source :=
  .ofText "\x7b f(x + b); f(y - b); f( x+b ); \x7d".toList

def operandTree : Cst :=
  .part "block" 0 33 none [
    .mark "\x7b" 0, operandCall 2 4 6 8 9 "+", operandCall 12 14 16 18 19 "-",
    operandCall 22 25 26 27 29 "+", .mark "\x7d" 32]

/-- The operators of the first two calls differ, so the names before them are not reported; the
third call has the tokens of the first. -/
theorem operators_take_over : ∃ tree p q r, Tree.ofCst operandText operandTree = .ok tree ∧
    tree.get? 2 = some p ∧ tree.get? 16 = some q ∧ tree.get? 30 = some r ∧ tree.PlainTokens ∧
    (differences p q).map (fun d => (d.before.id, d.after.id)) = [(8, 22)] ∧
    ¬Alike p.here q.here ∧ Alike (graft (exchange? (differences p q)) p.here) q.here ∧
    differences p r = [] ∧ Alike p.here r.here ∧ p.tokenTexts = r.tokenTexts := by
  have hcheck : (match Tree.ofCst operandText operandTree with
      | .ok tree => decide tree.PlainTokens && (tree.get? 2).any fun p =>
          (tree.get? 16).any fun q => (tree.get? 30).any fun r =>
            !p.isToken && !q.isToken && !r.isToken && (differences p r).isEmpty &&
              (differences p q).map (fun d => (d.before.id, d.after.id)) == [(8, 22)]
      | .error _ => false) = true := by
    decide +kernel
  split at hcheck
  · rename_i tree htree
    simp only [Bool.and_eq_true, decide_eq_true_eq, Option.any_eq_true, Bool.not_eq_true',
      List.isEmpty_iff, beq_iff_eq] at hcheck
    obtain ⟨hplain, p, hp, q, hq, r, hr, ⟨⟨⟨hpn, hqn⟩, hrn⟩, hnone⟩, hone⟩ := hcheck
    obtain ⟨hiff, hexchange, _⟩ := differences_exact htree hp hq hpn hqn
    obtain ⟨hiff', _, htexts⟩ := differences_exact htree hp hr hpn hrn
    have hsome : differences p q ≠ [] := by
      intro hnil
      simp [hnil] at hone
    exact ⟨tree, p, q, r, htree, hp, hq, hr, hplain, hone, fun h => hsome (hiff.2 h), hexchange,
      hnone, hiff'.1 hnone, htexts hplain hnone⟩
  · simp at hcheck

end IfCollapse.Branch
