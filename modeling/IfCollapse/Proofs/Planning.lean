import IfCollapse.Proofs.Keys
import IfCollapse.Settings.Plan
import Mathlib.Data.List.Forall2

/-! Plans hold each rule once. Settings that have been read name no rule twice under the same heading, so
a plan lists the built-in rules, then the others with properties, then those with nothing but a mode, and
what it says about a rule is what the settings say. -/

namespace IfCollapse

theorem Mode.isEnabled_iff {m : Mode} : m.isEnabled = true ↔ m ≠ .disabled :=
  decide_eq_true_iff

theorem Mode.fixes_iff {m : Mode} : m.fixes = true ↔ m = .fix :=
  decide_eq_true_iff

namespace Settings

open Toml

/-- No name is there twice under the same heading. Those with properties are ascending. -/
structure WellKeyed (s : Settings) : Prop where
  rules : (s.rules.map (·.1)).Pairwise (· < ·)
  modes : (s.modes.map (·.1)).Nodup

theorem nodup_of_ascending {names : List String} (h : names.Pairwise (· < ·)) : names.Nodup :=
  h.imp String.ne_of_lt

theorem keys_of_mapM {α β ε : Type} {f : String × α → Except ε (String × β)}
    {entries : List (String × α)} {read : List (String × β)}
    (hkey : ∀ entry result, f entry = .ok result → result.1 = entry.1)
    (h : entries.mapM f = .ok read) : read.map (·.1) = entries.map (·.1) := by
  rw [mapM_eq_ok] at h
  induction entries generalizing read with
  | nil =>
    cases read with
    | nil => rfl
    | cons result read => simp at h
  | cons entry entries ih =>
    cases read with
    | nil => simp at h
    | cons result read =>
      rw [List.map_cons, List.map_cons, List.cons.injEq] at h
      rw [List.map_cons, List.map_cons, hkey entry result h.1, ih h.2]

theorem ascending_of_entriesOf {v : Value} {entries : List (String × Value)} (hv : v.Ordered)
    (h : entriesOf v = .ok entries) :
    (entries.map (·.1)).Pairwise (· < ·) ∧ ∀ entry ∈ entries, entry.2.Ordered := by
  cases hv with
  | table hkeys hvalues =>
    cases h
    exact ⟨hkeys, hvalues⟩
  | dateTime d =>
    cases h
    simpa using Value.Ordered.string d.render
  | _ => cases h

theorem nodup_of_modesOf {v : Value} {modes : List (String × Mode)} (hv : v.Ordered)
    (h : modesOf v = .ok modes) : (modes.map (·.1)).Nodup := by
  obtain ⟨entries, hentries, hmodes⟩ := bind_eq_ok.1 h
  rw [keys_of_mapM (fun entry result hresult => ?_) hmodes]
  · exact nodup_of_ascending (ascending_of_entriesOf hv hentries).1
  · obtain ⟨mode, _, heq⟩ := bind_eq_ok.1 hresult
    cases heq
    rfl

theorem ascending_of_rulesOf {v : Value} {rules : List (String × List (String × String))}
    (hv : v.Ordered) (h : rulesOf v = .ok rules) : (rules.map (·.1)).Pairwise (· < ·) := by
  obtain ⟨entries, hentries, hrules⟩ := bind_eq_ok.1 h
  rw [keys_of_mapM (fun entry result hresult => ?_) hrules]
  · exact (ascending_of_entriesOf hv hentries).1
  · obtain ⟨properties, _, heq⟩ := bind_eq_ok.1 hresult
    cases heq
    rfl

theorem wellKeyed_of_foldlM {f : Settings → String × Value → Except SettingsError Settings}
    {entries : List (String × Value)} {s after : Settings}
    (hstep : ∀ entry ∈ entries, ∀ {s after : Settings}, s.WellKeyed → f s entry = .ok after →
      after.WellKeyed)
    (hs : s.WellKeyed) (h : entries.foldlM f s = .ok after) : after.WellKeyed := by
  induction entries generalizing s with
  | nil =>
    cases h
    exact hs
  | cons entry entries ih =>
    rw [List.foldlM_cons] at h
    obtain ⟨next, hnext, hrest⟩ := bind_eq_ok.1 h
    exact ih (fun other hother => hstep other (List.mem_cons_of_mem _ hother))
      (hstep entry List.mem_cons_self hs hnext) hrest

theorem WellKeyed.readFix {v : Value} {s after : Settings} (hs : s.WellKeyed) (hv : v.Ordered)
    (h : s.readFix v = .ok after) : after.WellKeyed := by
  rw [Settings.readFix.eq_def] at h
  split at h
  · cases h
    exact hs
  · obtain ⟨flag, _, heq⟩ := bind_eq_ok.1 h
    cases heq
    exact ⟨hs.rules, hs.modes⟩
  · obtain ⟨flag, _, h⟩ := bind_eq_ok.1 h
    obtain ⟨modes, hmodes, heq⟩ := bind_eq_ok.1 h
    cases heq
    cases hv with
    | array hitems => exact ⟨hs.rules, nodup_of_modesOf (hitems _ (by simp)) hmodes⟩
  · obtain ⟨entries, hentries, h⟩ := bind_eq_ok.1 h
    have hordered := (ascending_of_entriesOf hv hentries).2
    refine wellKeyed_of_foldlM (fun entry hentry s after hs hstep => ?_) hs h
    dsimp only at hstep
    split at hstep
    · obtain ⟨modes, hmodes, heq⟩ := bind_eq_ok.1 hstep
      cases heq
      exact ⟨hs.rules, nodup_of_modesOf (hordered entry hentry) hmodes⟩
    · split at hstep
      · obtain ⟨flag, _, heq⟩ := bind_eq_ok.1 hstep
        cases heq
        exact ⟨hs.rules, hs.modes⟩
      · obtain ⟨_, _, heq⟩ := bind_eq_ok.1 hstep
        cases heq
        exact hs

theorem wellKeyed_of_read {text : List Char} {s : Settings} (h : read text = .ok s) :
    s.WellKeyed := by
  rw [read] at h
  split at h
  · rename_i v hdocument
    obtain ⟨entries, hentries, h⟩ := bind_eq_ok.1 h
    have hordered := (ascending_of_entriesOf (ordered_of_document? hdocument) hentries).2
    refine wellKeyed_of_foldlM (fun entry hentry s after hs hstep => ?_) ⟨by simp, by simp⟩ h
    dsimp only at hstep
    split at hstep
    · exact hs.readFix (hordered entry hentry) hstep
    · split at hstep
      · obtain ⟨rules, hrules, heq⟩ := bind_eq_ok.1 hstep
        cases heq
        exact ⟨ascending_of_rulesOf (hordered entry hentry) hrules, hs.modes⟩
      · obtain ⟨_, _, heq⟩ := bind_eq_ok.1 hstep
        cases heq
        exact hs
  · cases h

theorem WellKeyed.of_perm {s : Settings} {modes : List (String × Mode)} (h : s.WellKeyed)
    (hmodes : modes.Perm s.modes) : WellKeyed { s with modes := modes } where
  rules := h.rules
  modes := (hmodes.map _).nodup_iff.2 h.modes

end Settings

namespace Plan

variable {builtin names new : List String} {name : String} {s parsed : Settings}
  {source : Option String} {p : Plan}

section Names

theorem addNames_cons : addNames names (name :: new) =
    if name ∈ names then addNames names new else addNames (names ++ [name]) new := by
  by_cases h : name ∈ names <;> simp [addNames, h]

theorem addNames_append (more : List String) :
    addNames names (new ++ more) = addNames (addNames names new) more :=
  List.foldl_append

theorem addNames_eq_append (h : new.Nodup) :
    addNames names new = names ++ new.filter (· ∉ names) := by
  -- the list of names grows along the way, but by names that do not come again
  induction new generalizing names with
  | nil => simp [addNames]
  | cons name new ih =>
    obtain ⟨hname, hnew⟩ := List.nodup_cons.1 h
    rw [addNames_cons]
    by_cases hknown : name ∈ names
    · rw [if_pos hknown, ih hnew, List.filter_cons_of_neg (by simpa using hknown)]
    · have hfilter : new.filter (· ∉ names ++ [name]) = new.filter (· ∉ names) := by
        refine List.filter_congr fun other hother => ?_
        have hne : other ≠ name := fun heq => hname (heq ▸ hother)
        simp [hne]
      rw [if_neg hknown, ih hnew, hfilter, List.filter_cons_of_pos (by simpa using hknown),
        List.append_assoc, List.singleton_append]

theorem nodup_append_filter (hnames : names.Nodup) (hnew : new.Nodup) :
    (names ++ new.filter (· ∉ names)).Nodup := by
  refine List.nodup_append.2 ⟨hnames, hnew.filter _, fun a ha b hb heq => ?_⟩
  have hfresh : b ∉ names := by simpa using (List.mem_filter.1 hb).2
  exact hfresh (heq ▸ ha)

theorem names_make :
    (make builtin s source).rules.map (·.name) = addNames builtin s.mentioned := by
  rw [make, List.map_map]
  exact List.map_id _

end Names

theorem get?_make : (make builtin s source).get? name =
    if name ∈ addNames builtin s.mentioned then some ⟨name, s.properties name, s.mode name⟩
    else none := by
  rw [get?, make, List.find?_map]
  have hfind : ((addNames builtin s.mentioned).find? fun other => decide (other = name)) =
      if name ∈ addNames builtin s.mentioned then some name else none := by
    split
    · rename_i hmem
      have hsome := List.find?_isSome (p := fun other => decide (other = name)).2
        ⟨name, hmem, decide_eq_true rfl⟩
      obtain ⟨other, hother⟩ := Option.isSome_iff_exists.1 hsome
      have heq : other = name := by simpa using List.find?_some hother
      rw [hother, heq]
    · rename_i hmem
      refine List.find?_eq_none.2 fun other hother heq => hmem ?_
      rwa [← of_decide_eq_true heq]
  change Option.map _ (List.find? (fun other => decide (other = name)) _) = _
  rw [hfind]
  split <;> rfl

def IsMadeFrom (registry : Lint.Registry) (entry : PlannedRule) (rule : Lint.Rule) : Prop :=
  ∃ maker, registry.makers.lookup entry.name = some maker ∧ rule = maker entry.properties

def runnable (registry : Lint.Registry) (p : Plan) : List PlannedRule :=
  p.rules.filter fun entry => entry.mode ≠ .disabled ∧ entry.name ∈ registry.makers.map (·.1)

structure Merges (builtin : List String) (s : Settings) (p : Plan) : Prop where
  /-- No rule is there twice. -/
  nodup : (p.rules.map (·.name)).Nodup
  /-- Behind the built-in rules stand the others with properties, in ascending order, and then those
  that have nothing but a mode. -/
  order : ∃ others rest, p.rules.map (·.name) = builtin ++ others ++ rest ∧
    others.Pairwise (· < ·) ∧
    (∀ name, name ∈ others ↔ name ∈ s.rules.map (·.1) ∧ name ∉ builtin) ∧
    ∀ name, name ∈ rest ↔
      name ∈ s.modes.map (·.1) ∧ name ∉ s.rules.map (·.1) ∧ name ∉ builtin
  found : ∀ name, (p.get? name).isSome ↔
    name ∈ builtin ∨ name ∈ s.rules.map (·.1) ∨ name ∈ s.modes.map (·.1)
  /-- What is found for a name is what the settings say about it. -/
  agrees : ∀ name entry, p.get? name = some entry → entry.name = name ∧
    entry.mode = s.mode name ∧ entry.properties = s.properties name ∧
    entry.mode.isEnabled = s.isEnabled name ∧ entry.mode.fixes = s.fixes name ∧
    (s.isEnabled name ↔ entry.mode ≠ .disabled) ∧ (s.fixes name ↔ entry.mode = .fix)
  enabled : ∀ name, p.isEnabled name ↔ (p.get? name).isSome ∧ s.isEnabled name
  /-- One rule to run for each entry that can be run, in the same order. -/
  created : ∀ registry : Lint.Registry,
    List.Forall₂ (IsMadeFrom registry) (p.runnable registry) (p.rulesFrom registry)

theorem forall₂_rulesFrom (registry : Lint.Registry) (p : Plan) :
    List.Forall₂ (IsMadeFrom registry) (p.runnable registry) (p.rulesFrom registry) := by
  rw [runnable, rulesFrom, enabled]
  induction p.rules with
  | nil => exact .nil
  | cons entry entries ih =>
    by_cases henabled : entry.mode.isEnabled
    · have hmode := Mode.isEnabled_iff.1 henabled
      rw [List.filter_cons_of_pos (p := fun entry : PlannedRule => entry.mode.isEnabled) henabled,
        List.filterMap_cons]
      cases hmaker : registry.makers.lookup entry.name with
      | none =>
        have hkey := lookup_eq_none_iff_keys.1 hmaker
        rw [List.filter_cons_of_neg (by simp [hkey])]
        simpa [Lint.Registry.create?, hmaker] using ih
      | some maker =>
        have hkey := isSome_lookup_iff_keys.1 (Option.isSome_of_eq_some hmaker)
        rw [List.filter_cons_of_pos (by simpa [hmode] using hkey)]
        have hcreate : registry.create? entry.name entry.properties =
            some (maker entry.properties) := by
          rw [Lint.Registry.create?, hmaker, Option.map_some]
        rw [hcreate]
        exact .cons ⟨maker, hmaker, rfl⟩ ih
    · have hmode : entry.mode = .disabled := by simpa [Mode.isEnabled] using henabled
      rw [List.filter_cons_of_neg (p := fun entry : PlannedRule => entry.mode.isEnabled) henabled,
        List.filter_cons_of_neg (by simp [hmode])]
      exact ih

theorem merges_of_wellKeyed (hbuiltin : builtin.Nodup) (hs : s.WellKeyed) :
    (make builtin s source).Merges builtin s := by
  have hdistinct := Settings.nodup_of_ascending hs.rules
  have hnames : addNames builtin s.mentioned =
      (builtin ++ (s.rules.map (·.1)).filter (· ∉ builtin)) ++
        (s.modes.map (·.1)).filter (· ∉ builtin ++ (s.rules.map (·.1)).filter (· ∉ builtin)) := by
    rw [Settings.mentioned, addNames_append, addNames_eq_append hdistinct, addNames_eq_append hs.modes]
  have hmem (name : String) : name ∈ addNames builtin s.mentioned ↔
      name ∈ builtin ∨ name ∈ s.rules.map (·.1) ∨ name ∈ s.modes.map (·.1) := by
    rw [hnames]
    grind
  refine ⟨?_, ⟨_, _, names_make.trans hnames, hs.rules.filter _, ?_, ?_⟩, ?_, ?_, ?_,
    fun registry => forall₂_rulesFrom registry _⟩
  · rw [names_make, hnames]
    exact nodup_append_filter (nodup_append_filter hbuiltin hdistinct) hs.modes
  · simp
  · intro name
    grind
  · intro name
    rw [get?_make, ← hmem]
    split <;> simp_all
  · intro name entry hentry
    rw [get?_make] at hentry
    split at hentry
    · cases hentry
      exact ⟨rfl, rfl, rfl, rfl, rfl, Mode.isEnabled_iff, Mode.fixes_iff⟩
    · cases hentry
  · intro name
    rw [isEnabled, get?_make]
    split <;> simp [Settings.isEnabled]

theorem Merges.of_perm {modes : List (String × Mode)}
    (h : p.Merges builtin { parsed with modes := modes })
    (hkeys : (parsed.modes.map (·.1)).Nodup) (hmodes : modes.Perm parsed.modes) :
    p.Merges builtin parsed := by
  have hmode : Settings.mode { parsed with modes := modes } = parsed.mode := by
    funext name
    rw [Settings.mode, lookup_eq_of_perm hkeys hmodes, Settings.mode]
  have hmem (name : String) : name ∈ modes.map (·.1) ↔ name ∈ parsed.modes.map (·.1) :=
    (hmodes.map _).mem_iff
  refine ⟨h.nodup, ?_, ?_, ?_, ?_, h.created⟩
  · simpa only [hmem] using h.order
  · simpa only [hmem] using h.found
  · simpa only [Settings.isEnabled, Settings.fixes, Settings.properties, hmode] using h.agrees
  · simpa only [Settings.isEnabled, hmode] using h.enabled

/-- Each rule is planned once, as the settings say, if no name is under a heading twice. That is so in
all settings that have been read. The modes may come in any order. -/
theorem make_keeps_each_rule {modes : List (String × Mode)} (hbuiltin : builtin.Nodup)
    (hmodes : modes.Perm parsed.modes) (source : Option String) :
    (parsed.WellKeyed →
      (make builtin { parsed with modes := modes } source).Merges builtin parsed) ∧
    ∀ text, Settings.read text = .ok parsed →
      (make builtin { parsed with modes := modes } source).Merges builtin parsed := by
  have hkeyed : parsed.WellKeyed →
      (make builtin { parsed with modes := modes } source).Merges builtin parsed := by
    intro h
    -- modes in another order name the same rules and say the same about each
    have hmade : (make builtin { parsed with modes := modes } source).Merges builtin
        { parsed with modes := modes } := merges_of_wellKeyed hbuiltin (h.of_perm hmodes)
    exact hmade.of_perm h.modes hmodes
  exact ⟨hkeyed, fun text hread => hkeyed (Settings.wellKeyed_of_read hread)⟩

/-- The rule `z` is under both headings, `t` is built in as well, and `o` has nothing but a mode. -/
def mixedText : String :=
  "[rules]\nz.n=\"3\"\nt=\x7b\x7d\na=\x7b\x7d\n[fix.rules]\nz=\"off\"\no=\"check\"\n"

def mixedSettings : Settings where
  modes := [("o", .check), ("z", .disabled)]
  rules := [("a", []), ("t", []), ("z", [("n", "3")])]

theorem mixed_rules_once :
    Settings.read mixedText.toList = .ok mixedSettings ∧
      (make ["u", "t"] { mixedSettings with modes := mixedSettings.modes.reverse } none).rules =
        [⟨"u", [], .fix⟩, ⟨"t", [], .fix⟩, ⟨"a", [], .fix⟩, ⟨"z", [("n", "3")], .disabled⟩,
          ⟨"o", [], .check⟩] ∧
      (make ["u", "t"] { mixedSettings with modes := mixedSettings.modes.reverse } none).Merges
        ["u", "t"] mixedSettings := by
  have hread : Settings.read mixedText.toList = .ok mixedSettings := by
    decide +kernel
  exact ⟨hread, by decide,
    (make_keeps_each_rule (by decide) (List.reverse_perm _) none).2 mixedText.toList hread⟩

end Plan

end IfCollapse
