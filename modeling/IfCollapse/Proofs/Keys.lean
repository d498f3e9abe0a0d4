import IfCollapse.Proofs.Lookup
import IfCollapse.Toml.Document

/-! Keys of TOML tables. Whether a table grows by headers, by dotted keys or in a line, and whether it
stands alone or in an array, it never gets a key twice, and when a document is finished the keys of each
table are ascending. -/

namespace IfCollapse.Toml

inductive Value.Ordered : Value → Prop
  | string (text : List Char) : Ordered (.string text)
  | integer (n : Int) : Ordered (.integer n)
  | real (x : Real) : Ordered (.real x)
  | boolean (b : Bool) : Ordered (.boolean b)
  | dateTime (d : DateTime) : Ordered (.dateTime d)
  | array {items : List Value} : (∀ v ∈ items, Ordered v) → Ordered (.array items)
  | table {entries : List (String × Value)} : (entries.map (·.1)).Pairwise (· < ·) →
      (∀ e ∈ entries, Ordered e.2) → Ordered (.table entries)

inductive Draft.Distinct : Draft → Prop
  | value {v : Value} : v.Ordered → Distinct (.value v)
  | table {origin : Origin} {entries : Entries} : (entries.map (·.1)).Nodup →
      (∀ e ∈ entries, Distinct e.2) → Distinct (.table origin entries)
  | tables {earlier : List Entries} {last : Entries} :
      (∀ part ∈ earlier ++ [last], (part.map (·.1)).Nodup) →
      (∀ part ∈ earlier ++ [last], ∀ e ∈ part, Distinct e.2) → Distinct (.tables earlier last)

structure Entries.Distinct (entries : Entries) : Prop where
  keys : (entries.map (·.1)).Nodup
  drafts : ∀ e ∈ entries, e.2.Distinct

def ValueReader.Orderly (value? : ValueReader) : Prop :=
  ∀ {text v rest}, value? text = some (v, rest) → v.Ordered

section Drafts

variable {entries new : Entries} {key : String} {draft : Draft} {origin : Origin}

theorem Draft.distinct_table : (Draft.table origin entries).Distinct ↔ entries.Distinct := by
  constructor
  · intro h
    cases h with
    | table hkeys hdrafts => exact ⟨hkeys, hdrafts⟩
  · intro h
    exact .table h.keys h.drafts

theorem Draft.distinct_tables {earlier : List Entries} {last : Entries} :
    (Draft.tables earlier last).Distinct ↔
      (∀ part ∈ earlier, Entries.Distinct part) ∧ Entries.Distinct last := by
  rw [← List.forall_mem_singleton (p := Entries.Distinct), ← List.forall_mem_append]
  constructor
  · intro h
    cases h with
    | tables hkeys hdrafts => exact fun part hpart => ⟨hkeys part hpart, hdrafts part hpart⟩
  · intro h
    exact .tables (fun part hpart => (h part hpart).keys) fun part hpart => (h part hpart).drafts

theorem Entries.distinct_nil : Entries.Distinct [] :=
  ⟨List.nodup_nil, by simp⟩

theorem Entries.Distinct.of_lookup (h : entries.Distinct) (hlookup : entries.lookup key = some draft) :
    draft.Distinct :=
  h.drafts _ (mem_of_lookup_eq_some hlookup)

theorem Entries.Distinct.add (h : entries.Distinct) (hlookup : entries.lookup key = none)
    (hdraft : draft.Distinct) : Entries.Distinct (entries ++ [(key, draft)]) := by
  constructor
  · rw [List.map_append, List.nodup_append]
    refine ⟨h.keys, by simp, fun a ha b hb heq => lookup_eq_none_iff_keys.1 hlookup ?_⟩
    have hkey : b = key := by simpa using hb
    rwa [← hkey, ← heq]
  · intro e he
    cases List.mem_append.1 he with
    | inl hold => exact h.drafts e hold
    | inr hnew => rwa [List.mem_singleton.1 hnew]

theorem Entries.set_of_not_mem (h : key ∉ entries.map (·.1)) :
    Entries.set key draft entries = entries ++ [(key, draft)] := by
  induction entries with
  | nil => rfl
  | cons e entries ih =>
    rw [List.map_cons, List.mem_cons, not_or] at h
    rw [Entries.set, if_neg (Ne.symm h.1), ih h.2, List.cons_append]

theorem Entries.keys_set_of_mem (h : key ∈ entries.map (·.1)) :
    (Entries.set key draft entries).map (·.1) = entries.map (·.1) := by
  induction entries with
  | nil => simp at h
  | cons e entries ih =>
    rw [Entries.set]
    split
    · rename_i heq
      simp [heq]
    · rename_i hne
      have hrest : key ∈ entries.map (·.1) := by
        rw [List.map_cons, List.mem_cons] at h
        exact h.resolve_left (Ne.symm hne)
      rw [List.map_cons, ih hrest, List.map_cons]

theorem Entries.mem_of_mem_set {e : String × Draft} (h : e ∈ Entries.set key draft entries) :
    e = (key, draft) ∨ e ∈ entries := by
  induction entries with
  | nil => exact Or.inl (by simpa [Entries.set] using h)
  | cons d entries ih =>
    rw [Entries.set] at h
    split at h
    · exact (List.mem_cons.1 h).imp_right (List.mem_cons_of_mem d)
    · cases List.mem_cons.1 h with
      | inl heq => exact Or.inr (by simp [heq])
      | inr hrest => exact (ih hrest).imp_right (List.mem_cons_of_mem d)

theorem Entries.Distinct.set (h : entries.Distinct) (hdraft : draft.Distinct) :
    Entries.Distinct (Entries.set key draft entries) := by
  by_cases hmem : key ∈ entries.map (·.1)
  · refine ⟨by rw [keys_set_of_mem hmem]; exact h.keys, fun e he => ?_⟩
    cases mem_of_mem_set he with
    | inl heq => rwa [heq]
    | inr hold => exact h.drafts e hold
  · rw [set_of_not_mem hmem]
    exact h.add (lookup_eq_none_iff_keys.2 hmem) hdraft

theorem Entries.Distinct.within {dotted : Bool} {change : Origin → Entries → Option Entries}
    {path : List String}
    (hchange : ∀ origin entries new, Entries.Distinct entries → change origin entries = some new →
      Entries.Distinct new)
    (h : entries.Distinct) (hnew : Entries.within dotted change path origin entries = some new) :
    new.Distinct := by
  induction path generalizing origin entries new with
  | nil => exact hchange origin entries new h hnew
  | cons key path ih =>
    rw [Entries.within.eq_def] at hnew
    cases hlookup : entries.lookup key with
    | none =>
      simp only [hlookup] at hnew
      obtain ⟨inner, hinner, heq⟩ := Option.bind_eq_some_iff.1 hnew
      rw [← Option.some.inj heq]
      exact h.set (Draft.distinct_table.2 (ih distinct_nil hinner))
    | some draft =>
      have hdraft := h.of_lookup hlookup
      cases draft with
      | value v => simp [hlookup] at hnew
      | table origin inner =>
        simp only [hlookup] at hnew
        split at hnew
        · cases hnew
        · obtain ⟨grown, hgrown, heq⟩ := Option.bind_eq_some_iff.1 hnew
          rw [← Option.some.inj heq]
          exact h.set (Draft.distinct_table.2 (ih (Draft.distinct_table.1 hdraft) hgrown))
      | tables earlier last =>
        -- of an array of tables only the last one can grow
        simp only [hlookup] at hnew
        obtain ⟨grown, hgrown, heq⟩ := Option.bind_eq_some_iff.1 hnew
        obtain ⟨hearlier, hlast⟩ := Draft.distinct_tables.1 hdraft
        rw [← Option.some.inj heq]
        exact h.set (Draft.distinct_tables.2 ⟨hearlier, ih hlast hgrown⟩)

theorem Entries.Distinct.assign {path : List String} {v : Value} (h : entries.Distinct)
    (hv : v.Ordered) (hnew : entries.assign path key v = some new) : new.Distinct := by
  refine h.within (fun origin entries new h hnew => ?_) hnew
  split at hnew
  · cases hnew
  · split at hnew
    · cases hnew
    · rename_i hlookup
      rw [← Option.some.inj hnew]
      exact h.add (Option.not_isSome_iff_eq_none.1 hlookup) (.value hv)

theorem Entries.Distinct.open {path : List String} (h : entries.Distinct)
    (hnew : entries.open path key = some new) : new.Distinct := by
  refine h.within (fun origin entries new h hnew => ?_) hnew
  split at hnew
  · rename_i hlookup
    rw [← Option.some.inj hnew]
    exact h.add hlookup (Draft.distinct_table.2 distinct_nil)
  · rename_i inner hlookup
    rw [← Option.some.inj hnew]
    exact h.set (Draft.distinct_table.2 (Draft.distinct_table.1 (h.of_lookup hlookup)))
  · cases hnew

theorem Entries.Distinct.openItem {path : List String} (h : entries.Distinct)
    (hnew : entries.openItem path key = some new) : new.Distinct := by
  refine h.within (fun origin entries new h hnew => ?_) hnew
  split at hnew
  · rename_i hlookup
    rw [← Option.some.inj hnew]
    exact h.add hlookup (Draft.distinct_tables.2 ⟨by simp, distinct_nil⟩)
  · rename_i earlier last hlookup
    obtain ⟨hearlier, hlast⟩ := Draft.distinct_tables.1 (h.of_lookup hlookup)
    rw [← Option.some.inj hnew]
    refine h.set (Draft.distinct_tables.2 ⟨?_, distinct_nil⟩)
    exact List.forall_mem_append.2 ⟨hearlier, List.forall_mem_singleton.2 hlast⟩
  · cases hnew

end Drafts

section Finish

theorem finishEntries_eq (entries : Entries) :
    finishEntries entries = entries.map fun e => (e.1, e.2.finish) := by
  induction entries with
  | nil => rfl
  | cons e entries ih => rw [finishEntries, ih, List.map_cons, finishEntry]

theorem finishTables_eq (parts : List Entries) :
    finishTables parts = parts.map fun part => .table (sortKeys (finishEntries part)) := by
  induction parts with
  | nil => rfl
  | cons part parts ih => rw [finishTables, ih, List.map_cons]

section Sorting

variable {entry : String × Value} {entries : List (String × Value)}

theorem insertKey_perm : (insertKey entry entries).Perm (entry :: entries) := by
  induction entries with
  | nil => exact .refl _
  | cons first entries ih =>
    rw [insertKey]
    split
    · exact .refl _
    · exact (ih.cons first).trans (.swap entry first entries)

theorem sortKeys_perm : (sortKeys entries).Perm entries := by
  induction entries with
  | nil => exact .refl _
  | cons entry entries ih => exact insertKey_perm.trans (ih.cons entry)

theorem ascending_insertKey (h : (entries.map (·.1)).Pairwise (· < ·))
    (hkey : entry.1 ∉ entries.map (·.1)) :
    ((insertKey entry entries).map (·.1)).Pairwise (· < ·) := by
  induction entries with
  | nil => exact List.pairwise_singleton _ _
  | cons first entries ih =>
    obtain ⟨hleast, hrest⟩ := List.pairwise_cons.1 h
    rw [List.map_cons, List.mem_cons, not_or] at hkey
    rw [insertKey]
    split
    · rename_i hless
      refine List.pairwise_cons.2 ⟨List.forall_mem_cons.2 ⟨hless, fun key hin => ?_⟩, h⟩
      exact String.lt_trans hless (hleast key hin)
    · rename_i hless
      have hfirst : first.1 < entry.1 :=
        String.not_le.1 fun hge => hkey.1 (String.le_antisymm hge (String.not_lt.1 hless))
      refine List.pairwise_cons.2 ⟨fun key hin => ?_, ih hrest hkey.2⟩
      rw [(insertKey_perm.map _).mem_iff, List.map_cons, List.mem_cons] at hin
      cases hin with
      | inl heq => exact heq ▸ hfirst
      | inr hold => exact hleast key hold

theorem ascending_sortKeys (h : (entries.map (·.1)).Nodup) :
    ((sortKeys entries).map (·.1)).Pairwise (· < ·) := by
  induction entries with
  | nil => exact .nil
  | cons entry entries ih =>
    obtain ⟨hkey, hrest⟩ := List.nodup_cons.1 h
    have hfresh : entry.1 ∉ (sortKeys entries).map (·.1) := by
      rw [(sortKeys_perm.map _).mem_iff]
      exact hkey
    exact ascending_insertKey (ih hrest) hfresh

end Sorting

theorem ordered_of_entries {entries : Entries} (h : (entries.map (·.1)).Nodup)
    (hvalues : ∀ e ∈ entries, e.2.finish.Ordered) :
    (Value.table (sortKeys (finishEntries entries))).Ordered := by
  refine .table (ascending_sortKeys ?_) fun e he => ?_
  · rw [finishEntries_eq, List.map_map]
    exact h
  · rw [sortKeys_perm.mem_iff, finishEntries_eq] at he
    obtain ⟨d, hd, rfl⟩ := List.mem_map.1 he
    exact hvalues d hd

theorem Draft.Distinct.ordered_finish {draft : Draft} (h : draft.Distinct) :
    draft.finish.Ordered := by
  induction h with
  | value hv => exact hv
  | table hkeys _ ih => exact ordered_of_entries hkeys ih
  | @tables earlier last hkeys _ ih =>
    have hitems : (Draft.tables earlier last).finish = .array ((earlier ++ [last]).map fun part =>
        .table (sortKeys (finishEntries part))) := by
      rw [Draft.finish, finishTables_eq, List.map_append]
      rfl
    rw [hitems]
    refine .array fun v hv => ?_
    obtain ⟨part, hpart, rfl⟩ := List.mem_map.1 hv
    exact ordered_of_entries (hkeys part hpart) (ih part hpart)

end Finish

section Readers

variable {value? : ValueReader} {fuel : Nat} {text rest : List Char} {entries new : Entries}

theorem ordered_of_items? (hvalue : value?.Orderly) {items : List Value}
    (h : items? value? fuel text = some (items, rest)) : ∀ v ∈ items, v.Ordered := by
  induction fuel generalizing text items with
  | zero => simp [items?] at h
  | succ fuel ih =>
    rw [items?] at h
    split at h
    · cases h
      simp
    · obtain ⟨⟨v, behind⟩, hv, h⟩ := Option.bind_eq_some_iff.1 h
      dsimp only at h
      split at h
      · cases h
        simpa using hvalue hv
      · obtain ⟨⟨others, last⟩, hothers, heq⟩ := Option.bind_eq_some_iff.1 h
        cases heq
        exact List.forall_mem_cons.2 ⟨hvalue hv, ih hothers⟩
      · cases h

theorem distinct_of_assignment? (hvalue : value?.Orderly) (hentries : entries.Distinct)
    (h : assignment? value? entries text = some (new, rest)) : new.Distinct := by
  obtain ⟨⟨⟨path, key⟩, behind⟩, _, h⟩ := Option.bind_eq_some_iff.1 h
  dsimp only at h
  split at h
  · obtain ⟨⟨v, behind⟩, hv, h⟩ := Option.bind_eq_some_iff.1 h
    obtain ⟨grown, hgrown, heq⟩ := Option.bind_eq_some_iff.1 h
    cases heq
    exact hentries.assign (hvalue hv) hgrown
  · cases h

theorem distinct_of_fields? (hvalue : value?.Orderly) (hentries : entries.Distinct)
    (h : fields? value? fuel entries text = some (new, rest)) : new.Distinct := by
  induction fuel generalizing text entries with
  | zero => simp [fields?] at h
  | succ fuel ih =>
    rw [fields?] at h
    split at h
    · cases h
      exact hentries
    · obtain ⟨⟨grown, behind⟩, hgrown, h⟩ := Option.bind_eq_some_iff.1 h
      have hstep := distinct_of_assignment? hvalue hentries hgrown
      dsimp only at h
      split at h
      · cases h
        exact hstep
      · exact ih hstep h
      · cases h

theorem ordered_of_scalar? {v : Value} (h : scalar? text = some v) : v.Ordered := by
  rw [scalar?] at h
  split at h
  · cases h
    constructor
  · split at h
    · cases h
      constructor
    · simp only [Option.orElse_eq_or, Option.or_eq_some_iff, Option.map_eq_some_iff] at h
      obtain ⟨n, -, rfl⟩ | ⟨-, ⟨x, -, rfl⟩ | ⟨-, d, -, rfl⟩⟩ := h <;> constructor

theorem orderly_scalarValue? : ValueReader.Orderly scalarValue? := by
  intro text v rest h
  obtain ⟨w, hw, heq⟩ := Option.map_eq_some_iff.1 h
  cases heq
  exact ordered_of_scalar? hw

theorem orderly_value? (depth : Nat) : ValueReader.Orderly (Toml.value? depth) := by
  induction depth using Nat.strongRecOn with
  | _ depth ih =>
    intro text v rest
    fun_cases Toml.value? depth text with
    | case1 => simp
    | case2 inside depth =>
      intro h
      obtain ⟨⟨items, behind⟩, hitems, heq⟩ := Option.bind_eq_some_iff.1 h
      cases heq
      exact .array (ordered_of_items? (ih depth depth.lt_succ_self) hitems)
    | case3 => simp
    | case4 inside depth =>
      intro h
      obtain ⟨⟨entries, behind⟩, hentries, heq⟩ := Option.bind_eq_some_iff.1 h
      cases heq
      have hdistinct :=
        distinct_of_fields? (ih depth depth.lt_succ_self) Entries.distinct_nil hentries
      exact (Draft.distinct_table.2 hdistinct).ordered_finish
    | case5 | case6 =>
      intro h
      obtain ⟨⟨body, behind⟩, _, heq⟩ := Option.map_eq_some_iff.1 h
      cases heq
      constructor
    | case7 => exact orderly_scalarValue?

theorem distinct_of_line? {state after : Draft.State} (hstate : state.entries.Distinct)
    (h : line? state text = some (after, rest)) : after.entries.Distinct := by
  rw [line?] at h
  split at h
  · obtain ⟨_, _, h⟩ := Option.bind_eq_some_iff.1 h
    split at h
    · obtain ⟨grown, hgrown, heq⟩ := Option.bind_eq_some_iff.1 h
      cases heq
      exact hstate.openItem hgrown
    · cases h
  · obtain ⟨_, _, h⟩ := Option.bind_eq_some_iff.1 h
    split at h
    · obtain ⟨grown, hgrown, heq⟩ := Option.bind_eq_some_iff.1 h
      cases heq
      exact hstate.open hgrown
    · cases h
  · cases h
    exact hstate
  · split at h
    · cases h
      exact hstate
    · obtain ⟨_, _, h⟩ := Option.bind_eq_some_iff.1 h
      split at h
      · obtain ⟨⟨v, behind⟩, hv, h⟩ := Option.bind_eq_some_iff.1 h
        obtain ⟨grown, hgrown, heq⟩ := Option.bind_eq_some_iff.1 h
        cases heq
        refine hstate.within (fun _ _ _ hinner hassign => ?_) hgrown
        exact hinner.assign (orderly_value? nestingLimit hv) hassign
      · cases h

theorem distinct_of_entriesFrom {state : Draft.State} (hstate : state.entries.Distinct)
    (h : entriesFrom fuel state text = some entries) : entries.Distinct := by
  fun_induction entriesFrom fuel state text with
  | case1 => cases h; exact hstate
  | case2 => cases h
  | case3 fuel state text hne ih =>
    obtain ⟨⟨after, behind⟩, hline, h⟩ := Option.bind_eq_some_iff.1 h
    obtain ⟨next, _, h⟩ := Option.bind_eq_some_iff.1 h
    exact ih after next (distinct_of_line? hstate hline) h

theorem ordered_of_document? {v : Value} (h : document? text = some v) : v.Ordered := by
  obtain ⟨entries, hentries, heq⟩ := Option.bind_eq_some_iff.1 h
  cases heq
  exact (Draft.distinct_table.2 (distinct_of_entriesFrom Entries.distinct_nil hentries)).ordered_finish

end Readers

end IfCollapse.Toml
