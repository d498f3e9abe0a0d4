import IfCollapse.Settings.Loader
import Mathlib.Data.List.Induction

/-! The choice of the file with the settings. In whatever order paths are asked for and directories are
searched, the last path that was asked for wins, and without one the first directory that holds a
candidate. -/

namespace IfCollapse.Loader

inductive Step where
  | choose (path : String)
  | findIn (root : String)
  deriving DecidableEq, Repr

def Step.path? : Step → Option String
  | .choose path => some path
  | .findIn _ => none

def Step.root? : Step → Option String
  | .choose _ => none
  | .findIn root => some root

def take (files : Files) (loader : Loader) : Step → Loader
  | .choose path => loader.choose path
  | .findIn root => loader.findIn files root

def after (files : Files) (steps : List Step) : Loader :=
  steps.foldl (take files) {}

def found? (files : Files) (root : String) : Option String :=
  (["ternlint.toml", ".ternlint.toml", "config/ternlint.toml"].map (Files.join root)).find? files.has

def lastChosen? (steps : List Step) : Option String :=
  (steps.filterMap Step.path?).getLast?

def firstFound? (files : Files) (steps : List Step) : Option String :=
  (steps.filterMap Step.root?).findSome? (found? files)

def planAt (files : Files) (builtin : List String) (path : String) : Except LoadError Plan := do
  let text ← (files.read path).mapError .unreadable
  let settings ← (Settings.read text).mapError .settings
  return Plan.make builtin settings (some path)

/-- What the steps come to. A path that was asked for has to exist; without any path the settings are
the default. -/
def planBy (files : Files) (builtin : List String) (steps : List Step) : Except LoadError Plan :=
  match lastChosen? steps with
  | some path =>
    if files.has path then planAt files builtin path else .error (.missing path)
  | none =>
    match firstFound? files steps with
    | some path => planAt files builtin path
    | none => .ok (Plan.make builtin {} none)

section Steps

variable {files : Files} {steps : List Step} {loader : Loader} {path root : String}

theorem lastChosen?_choose : lastChosen? (steps ++ [.choose path]) = some path := by
  simp [lastChosen?, Step.path?]

theorem lastChosen?_findIn : lastChosen? (steps ++ [.findIn root]) = lastChosen? steps := by
  simp [lastChosen?, Step.path?]

theorem firstFound?_findIn : firstFound? files (steps ++ [.findIn root]) =
    (firstFound? files steps).or (found? files root) := by
  simp [firstFound?, Step.root?, List.findSome?_append]

theorem has_of_firstFound? (h : firstFound? files steps = some path) : files.has path = true := by
  obtain ⟨root, _, hroot⟩ := List.exists_of_findSome?_eq_some h
  exact List.find?_some hroot

theorem path_findIn : (loader.findIn files root).path = loader.path.or (found? files root) := by
  cases hpath : loader.path with
  | none => simp [findIn, hpath, found?, candidates]
  | some path => simp [findIn, hpath]

theorem explicit_findIn : (loader.findIn files root).explicit = loader.explicit := by
  cases hpath : loader.path with
  | none => simp [findIn, hpath]
  | some path => simp [findIn, hpath]

structure Follows (files : Files) (steps : List Step) (loader : Loader) : Prop where
  path_eq : loader.path = (lastChosen? steps).or (firstFound? files steps)
  explicit_eq : loader.explicit = (lastChosen? steps).isSome

theorem Follows.take (h : Follows files steps loader) (step : Step) :
    Follows files (steps ++ [step]) (loader.take files step) := by
  cases step with
  | choose path => exact ⟨by rw [lastChosen?_choose]; rfl, by rw [lastChosen?_choose]; rfl⟩
  | findIn root =>
    constructor
    · rw [Loader.take, path_findIn, h.path_eq, lastChosen?_findIn, firstFound?_findIn,
        Option.or_assoc]
    · rw [Loader.take, explicit_findIn, h.explicit_eq, lastChosen?_findIn]

theorem follows_after (files : Files) (steps : List Step) :
    Follows files steps (after files steps) := by
  induction steps using List.reverseRecOn with
  | nil => exact ⟨rfl, rfl⟩
  | append_singleton steps step ih =>
    rw [after, List.foldl_append]
    exact ih.take step

end Steps

section Load

variable {files : Files} {builtin : List String} {steps : List Step} {loader : Loader}
  {path : String} {plan : Plan}

theorem load_of_has (h : loader.path = some path) (hhas : files.has path = true) :
    loader.load files builtin = planAt files builtin path := by
  simp only [load, h, hhas, if_true, planAt]
  cases files.read path with
  | error why => rfl
  | ok text =>
    cases hsettings : Settings.read text with
    | error why => simp [hsettings, Except.mapError, bind, Except.bind]
    | ok settings => simp [hsettings, Except.mapError, bind, Except.bind, pure, Except.pure]

theorem load_after (files : Files) (builtin : List String) (steps : List Step) :
    (after files steps).load files builtin = planBy files builtin steps := by
  have hfollows := follows_after files steps
  have hpath := hfollows.path_eq
  have hexplicit := hfollows.explicit_eq
  unfold planBy
  cases hchosen : lastChosen? steps with
  | some path =>
    rw [hchosen] at hpath hexplicit
    by_cases hhas : files.has path = true
    · simpa [hhas] using load_of_has hpath hhas
    · simp [load, hpath, hexplicit, hhas]
  | none =>
    rw [hchosen] at hpath
    cases hfound : firstFound? files steps with
    | some path =>
      rw [hfound] at hpath
      exact load_of_has hpath (has_of_firstFound? hfound)
    | none =>
      rw [hfound] at hpath
      simp [load, hpath]

theorem planAt_ne_missing (files : Files) (builtin : List String) (path other : String) :
    planAt files builtin path ≠ .error (.missing other) := by
  unfold planAt
  cases files.read path with
  | error why => simp [Except.mapError, bind, Except.bind]
  | ok text =>
    cases hsettings : Settings.read text with
    | error why => simp [hsettings, Except.mapError, bind, Except.bind]
    | ok settings => simp [hsettings, Except.mapError, bind, Except.bind, pure, Except.pure]

theorem source_of_planAt (h : planAt files builtin path = .ok plan) : plan.source = some path := by
  obtain ⟨text, _, h⟩ := bind_eq_ok.1 h
  obtain ⟨settings, _, h⟩ := bind_eq_ok.1 h
  rw [← Except.ok.inj h]
  rfl

theorem planBy_eq_missing : planBy files builtin steps = .error (.missing path) ↔
    lastChosen? steps = some path ∧ files.has path = false := by
  unfold planBy
  cases lastChosen? steps with
  | some chosen =>
    cases hhas : files.has chosen with
    | true =>
      simp only [hhas, if_true, planAt_ne_missing, Option.some.injEq, false_iff, not_and]
      intro heq
      simp [← heq, hhas]
    | false =>
      simp only [hhas, Bool.false_eq_true, if_false, Except.error.injEq, LoadError.missing.injEq,
        Option.some.injEq]
      constructor
      · intro heq
        exact ⟨heq, by rw [← heq, hhas]⟩
      · exact And.left
  | none =>
    cases firstFound? files steps with
    | some found => simp [planAt_ne_missing]
    | none => simp

theorem source_of_planBy (h : planBy files builtin steps = .ok plan) :
    plan.source = (lastChosen? steps).or (firstFound? files steps) := by
  unfold planBy at h
  cases hchosen : lastChosen? steps with
  | some path =>
    simp only [hchosen] at h
    split at h
    · exact source_of_planAt h
    · cases h
  | none =>
    cases hfound : firstFound? files steps with
    | some path =>
      simp only [hchosen, hfound] at h
      exact source_of_planAt h
    | none =>
      simp only [hchosen, hfound] at h
      rw [← Except.ok.inj h]
      rfl

end Load

/-- After any steps the settings come from the path that was asked for last, or else from the first
candidate in the first directory that has one, or else they are the default. Only a path that was asked
for can be missing, and a plan knows the file that it comes from. -/
theorem load_by_precedence (files : Files) (builtin : List String) (steps : List Step) :
    (after files steps).load files builtin = planBy files builtin steps ∧
    (∀ path, (after files steps).load files builtin = .error (.missing path) ↔
      lastChosen? steps = some path ∧ files.has path = false) ∧
    ∀ plan, (after files steps).load files builtin = .ok plan →
      plan.source = (lastChosen? steps).or (firstFound? files steps) := by
  have hload := load_after files builtin steps
  refine ⟨hload, fun path => ?_, fun plan hplan => ?_⟩
  · rw [hload, planBy_eq_missing]
  · rw [hload] at hplan
    exact source_of_planBy hplan

def crowdedFiles : Files where
  root := ""
  home := []
  top := .directory [("config", .directory [("ternlint.toml", .file (some []))]),
    ("own.toml", .file (some [])), ("ternlint.toml", .directory [])]

theorem chosen_path_wins :
    ∃ plan, (after crowdedFiles [.findIn ".", .choose "gone.toml", .findIn "config",
        .choose "own.toml", .findIn "."]).load crowdedFiles ["IfToTernary"] = .ok plan ∧
      plan.source = some "own.toml" := by
  obtain ⟨hload, _, hsource⟩ := load_by_precedence crowdedFiles ["IfToTernary"]
    [.findIn ".", .choose "gone.toml", .findIn "config", .choose "own.toml", .findIn "."]
  have hplan : planBy crowdedFiles ["IfToTernary"]
      [.findIn ".", .choose "gone.toml", .findIn "config", .choose "own.toml", .findIn "."] =
        .ok (Plan.make ["IfToTernary"] {} (some "own.toml")) := by
    decide +kernel
  exact ⟨_, hload.trans hplan, hsource _ (hload.trans hplan)⟩

end IfCollapse.Loader
