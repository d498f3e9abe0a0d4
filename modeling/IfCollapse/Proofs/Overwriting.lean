import IfCollapse.Files

/-! Changing the text of files that are there. A write changes what is read at the place that its path
stands for, through whatever path it is read, and nothing else; all paths keep their meaning. -/

namespace IfCollapse

namespace Node

def hollow : Node → Node
  | .file text => .file text
  | .directory _ => .directory []

theorem isDirectory_hollow (node : Node) : node.hollow.isDirectory = node.isDirectory := by
  cases node <;> rfl

theorem lookup_insert (name other : String) (node : Node) (entries : List (String × Node)) :
    (insert name node entries).lookup other =
      if other = name then some node else entries.lookup other := by
  induction entries with
  | nil =>
    rw [insert, List.lookup_cons]
    by_cases hother : other = name
    · rw [if_pos hother, beq_iff_eq.2 hother]
    · rw [if_neg hother, beq_false_of_ne hother]
  | cons entry entries ih =>
    obtain ⟨first, inner⟩ := entry
    rw [insert]
    by_cases hname : name = first
    · rw [if_pos hname, List.lookup_cons, List.lookup_cons, hname]
      by_cases hother : other = first
      · rw [if_pos hother, beq_iff_eq.2 hother]
      · rw [if_neg hother, beq_false_of_ne hother]
    · rw [if_neg hname]
      by_cases hother : other = name
      · have hne : other ≠ first := fun heq => hname (hother.symm.trans heq)
        by_cases hless : name < first
        · rw [if_pos hless, List.lookup_cons, if_pos hother, beq_iff_eq.2 hother]
        · rw [if_neg hless, List.lookup_cons, beq_false_of_ne hne, ih, if_pos hother, if_pos hother]
      · by_cases hless : name < first
        · rw [if_pos hless, List.lookup_cons, if_neg hother, beq_false_of_ne hother]
        · rw [if_neg hless, List.lookup_cons, List.lookup_cons, ih, if_neg hother, if_neg hother]

theorem get?_append (names more : List String) (node : Node) :
    node.get? (names ++ more) = (node.get? names).bind (get? more) := by
  induction names generalizing node with
  | nil => rfl
  | cons name names ih =>
    rw [List.cons_append, get?, get?]
    cases node.entries.lookup name with
    | none => rfl
    | some inner => exact ih inner

theorem hollow_get?_put {names : List String} {node : Node} {old : Option (List Char)}
    (text : Option (List Char)) (h : node.get? names = some (.file old)) (other : List String) :
    ((put (.file text) names node).get? other).map hollow =
      if other = names then some (.file text) else (node.get? other).map hollow := by
  induction names generalizing node other with
  | nil =>
    have hnode : node = .file old := Option.some.inj h
    rw [hnode]
    cases other with
    | nil => rfl
    | cons part others => simp [put, isDirectory, get?, entries]
  | cons name names ih =>
    rw [get?] at h
    obtain ⟨inner, hinner, hfile⟩ := Option.bind_eq_some_iff.1 h
    cases node with
    | file _ => simp [entries] at hinner
    | directory members =>
      change members.lookup name = some inner at hinner
      have hput : put (.file text) (name :: names) (.directory members) =
          .directory (insert name (put (.file text) names inner) members) := by
        simp [put, entries, hinner]
      rw [hput]
      cases other with
      | nil => rfl
      | cons part others =>
        simp only [get?, entries, lookup_insert, List.cons.injEq]
        by_cases hpart : part = name
        · simp only [hpart, if_true, Option.bind_some, hinner, true_and]
          exact ih hfile others
        · simp [hpart]

end Node

namespace Files

variable {files a b : Files} {path : String} {old text : List Char} {names : List String}

/-- The same files and directories at the same places, whatever the files hold. -/
structure SameLayout (a b : Files) : Prop where
  root : a.root = b.root
  home : a.home = b.home
  kinds : ∀ names, (a.top.get? names).map Node.isDirectory = (b.top.get? names).map Node.isDirectory

theorem SameLayout.isSome (h : SameLayout a b) (names : List String) :
    (a.top.get? names).isSome = (b.top.get? names).isSome := by
  have hkinds := congrArg Option.isSome (h.kinds names)
  rwa [Option.isSome_map, Option.isSome_map] at hkinds

theorem step?_eq (files : Files) (names : List String) (part : String) :
    files.step? names part =
      if (files.top.get? names).map Node.isDirectory = some true then
        if part = "" || part = "." then some names
        else if part = ".." then
          if names.isEmpty && files.root ≠ "" then none else some names.dropLast
        else if (files.top.get? (names ++ [part])).isSome then some (names ++ [part])
        else none
      else none := by
  unfold step?
  cases hnode : files.top.get? names with
  | none => rfl
  | some node =>
    cases node with
    | file _ => rfl
    | directory entries =>
      have hnext : files.top.get? (names ++ [part]) = entries.lookup part := by
        rw [Node.get?_append, hnode]
        simp [Node.get?, Node.entries, Option.bind_some]
      rw [hnext]
      rfl

theorem SameLayout.step? (h : SameLayout a b) (names : List String) (part : String) :
    a.step? names part = b.step? names part := by
  rw [step?_eq, step?_eq, h.kinds, h.root, h.isSome]

theorem SameLayout.resolve? (h : SameLayout a b) (path : String) :
    a.resolve? path = b.resolve? path := by
  have hstep : a.step? = b.step? := funext fun names => funext fun part => h.step? names part
  have hstart : a.start? path.toList = b.start? path.toList := by
    simp only [start?, h.root, h.home]
  simp only [Files.resolve?, hstart, hstep]

theorem exists_resolve? (h : files.read path = .ok text) :
    ∃ names, files.resolve? path = some names ∧
      files.top.get? names = some (.file (some text)) := by
  unfold read get? at h
  cases hnames : files.resolve? path with
  | none => simp [hnames] at h
  | some names =>
    refine ⟨names, rfl, ?_⟩
    rw [hnames, Option.bind_some] at h
    cases hnode : files.top.get? names with
    | none => simp [hnode] at h
    | some node =>
      cases node with
      | directory _ => simp [hnode] at h
      | file content =>
        cases content with
        | none => simp [hnode] at h
        | some content =>
          have heq : content = text := by simpa [hnode] using h
          rw [heq]

theorem read_of_resolve? (h : files.resolve? path = some names)
    (hfile : files.top.get? names = some (.file (some text))) : files.read path = .ok text := by
  simp [read, get?, h, hfile]

theorem read_congr {other : String} (h : files.resolve? path = files.resolve? other) :
    files.read path = files.read other := by
  rw [read, read, get?, get?, h]

theorem read_eq_of_hollow (h : (a.get? path).map Node.hollow = (b.get? path).map Node.hollow) :
    a.read path = b.read path := by
  unfold read
  cases ha : a.get? path with
  | none =>
    cases hb : b.get? path with
    | none => rfl
    | some node => simp [ha, hb] at h
  | some node =>
    cases hb : b.get? path with
    | none => simp [ha, hb] at h
    | some other =>
      rw [ha, hb, Option.map_some, Option.map_some, Option.some.injEq] at h
      cases node with
      | file content =>
        cases other with
        | file content' =>
          have heq : content = content' := by simpa [Node.hollow] using h
          rw [heq]
        | directory _ => simp [Node.hollow] at h
      | directory _ =>
        cases other with
        | file _ => simp [Node.hollow] at h
        | directory _ => rfl

section Write

theorem write_eq (h : files.resolve? path = some names) :
    files.write path text = { files with top := (Node.file (some text)).put names files.top } := by
  simp [write, h]

theorem sameLayout_write (text : List Char) (h : files.read path = .ok old) :
    SameLayout (files.write path text) files := by
  obtain ⟨names, hnames, hfile⟩ := exists_resolve? h
  rw [write_eq hnames]
  refine ⟨rfl, rfl, fun other => ?_⟩
  have hput := congrArg (Option.map Node.isDirectory)
    (Node.hollow_get?_put (some text) hfile other)
  rw [Option.map_map] at hput
  have hkind : Node.isDirectory ∘ Node.hollow = Node.isDirectory :=
    funext Node.isDirectory_hollow
  rw [hkind] at hput
  refine hput.trans ?_
  by_cases hother : other = names
  · rw [if_pos hother, hother, hfile]
    rfl
  · rw [if_neg hother, Option.map_map, hkind]

theorem read_write (h : files.read path = .ok old) (other : String) :
    (files.write path text).read other =
      if files.resolve? other = files.resolve? path then .ok text else files.read other := by
  obtain ⟨names, hnames, hfile⟩ := exists_resolve? h
  have hresolve := (sameLayout_write text h).resolve? other
  have hput := Node.hollow_get?_put (some text) hfile
  by_cases hother : files.resolve? other = files.resolve? path
  · rw [if_pos hother]
    have hnode := hput names
    rw [if_pos rfl] at hnode
    obtain ⟨node, hget, hhollow⟩ := Option.map_eq_some_iff.1 hnode
    have hnode : node = .file (some text) := by
      cases node with
      | file content => exact hhollow
      | directory _ => simp [Node.hollow] at hhollow
    refine read_of_resolve? ((hresolve.trans hother).trans hnames) ?_
    rw [hnode] at hget
    rw [write_eq hnames]
    exact hget
  · rw [if_neg hother]
    apply read_eq_of_hollow
    unfold get?
    rw [hresolve]
    cases hplace : files.resolve? other with
    | none => rfl
    | some place =>
      have hne : place ≠ names := by
        intro heq
        rw [heq] at hplace
        exact hother (hplace.trans hnames.symm)
      have hsame := hput place
      rw [if_neg hne] at hsame
      rw [write_eq hnames]
      exact hsame

/-- After several writes a path shows one of those to its place, or what it showed before if there are
none. -/
theorem read_writes {writes : List (String × List Char)}
    (h : ∀ w ∈ writes, ∃ old, files.read w.1 = .ok old) (other : String) :
    (∃ w ∈ writes, files.resolve? other = files.resolve? w.1 ∧
      (writes.foldl (fun files w => files.write w.1 w.2) files).read other = .ok w.2) ∨
    (∀ w ∈ writes, files.resolve? other ≠ files.resolve? w.1) ∧
      (writes.foldl (fun files w => files.write w.1 w.2) files).read other = files.read other := by
  induction writes generalizing files with
  | nil => exact Or.inr ⟨by simp, rfl⟩
  | cons w writes ih =>
    obtain ⟨old, hold⟩ := h w List.mem_cons_self
    have hlayout : SameLayout (files.write w.1 w.2) files := sameLayout_write w.2 hold
    have hreadable : ∀ v ∈ writes, ∃ old, (files.write w.1 w.2).read v.1 = .ok old := by
      intro v hv
      rw [read_write hold]
      split
      · exact ⟨w.2, rfl⟩
      · exact h v (List.mem_cons_of_mem w hv)
    rw [List.foldl_cons]
    cases ih hreadable with
    | inl hlater =>
      obtain ⟨v, hv, hplace, hread⟩ := hlater
      rw [hlayout.resolve?, hlayout.resolve?] at hplace
      exact Or.inl ⟨v, List.mem_cons_of_mem w hv, hplace, hread⟩
    | inr hnone =>
      obtain ⟨hplaces, hread⟩ := hnone
      rw [read_write hold] at hread
      by_cases hother : files.resolve? other = files.resolve? w.1
      · rw [if_pos hother] at hread
        exact Or.inl ⟨w, List.mem_cons_self, hother, hread⟩
      · rw [if_neg hother] at hread
        refine Or.inr ⟨fun v hv => ?_, hread⟩
        cases List.mem_cons.1 hv with
        | inl heq => rwa [heq]
        | inr hmem =>
          have hne := hplaces v hmem
          rwa [hlayout.resolve?, hlayout.resolve?] at hne

end Write

end Files

end IfCollapse
