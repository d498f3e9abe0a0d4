import IfCollapse.Proofs.Indentation
import IfCollapse.Proofs.Lookup
import IfCollapse.Proofs.Overwriting

/-! Gathering the sources that paths stand for. A walk is a list of places, each given by the names
that lead to it, and the path of a place leads back there. So a path stands for all that is named like
a source at it or below it, each once. -/

namespace IfCollapse

section Pieces

variable {separator : Char} {text : List Char}

theorem pieces_of_not_mem (h : separator ∉ text) : pieces separator text = [text] := by
  have hnil : pieces separator [] = [[]] := rfl
  simpa using Branch.pieces_append h hnil

theorem pieces_append_separator (separator : Char) (text more : List Char) :
    pieces separator (text ++ separator :: more) =
      pieces separator text ++ pieces separator more := by
  induction text with
  | nil => simp [pieces]
  | cons c text ih =>
    rw [List.cons_append, pieces, pieces, ih]
    split
    · rfl
    · cases hpieces : pieces separator text with
      | nil => exact absurd hpieces (pieces_ne_nil separator text)
      | cons piece rest => rfl

end Pieces

namespace Node

structure IsName (name : String) : Prop where
  ne_empty : name ≠ ""
  ne_here : name ≠ "."
  ne_above : name ≠ ".."
  slash : '/' ∉ name.toList

instance (name : String) : Decidable (IsName name) :=
  decidable_of_iff (name ≠ "" ∧ name ≠ "." ∧ name ≠ ".." ∧ '/' ∉ name.toList)
    ⟨fun h => ⟨h.1, h.2.1, h.2.2.1, h.2.2.2⟩, fun h => ⟨h.ne_empty, h.ne_here, h.ne_above, h.slash⟩⟩

inductive Proper : Node → Prop
  | file (text : Option (List Char)) : Proper (.file text)
  | directory {entries : List (String × Node)} (hkeys : (entries.map Prod.fst).Nodup)
      (hnames : ∀ entry ∈ entries, IsName entry.1) (hinner : ∀ entry ∈ entries, Proper entry.2) :
      Proper (.directory entries)

variable {node inner : Node} {name : String} {names : List String}

theorem Proper.entry (h : node.Proper) (hentry : node.entries.lookup name = some inner) :
    IsName name ∧ inner.Proper := by
  cases h with
  | file => simp [entries] at hentry
  | directory hkeys hnames hinner =>
    have hmem := mem_of_lookup_eq_some hentry
    exact ⟨hnames _ hmem, hinner _ hmem⟩

theorem Proper.of_get? (h : node.Proper) (hnode : node.get? names = some inner) :
    (∀ name ∈ names, IsName name) ∧ inner.Proper := by
  induction names generalizing node with
  | nil =>
    rw [← Option.some.inj hnode]
    exact ⟨by simp, h⟩
  | cons name names ih =>
    obtain ⟨child, hchild, hrest⟩ := Option.bind_eq_some_iff.1 hnode
    have hentry := h.entry hchild
    have hbelow := ih hentry.2 hrest
    exact ⟨List.forall_mem_cons.2 ⟨hentry.1, hbelow.1⟩, hbelow.2⟩

theorem isDirectory_of_get?_concat (h : (node.get? (names ++ [name])).isSome) :
    (node.get? names).map isDirectory = some true := by
  rw [get?_append] at h
  cases hnode : node.get? names with
  | none => simp [hnode] at h
  | some inner =>
    cases inner with
    | file text => simp [hnode, get?, entries] at h
    | directory members => rfl

mutual

def places : Node → List (List String)
  | .file _ => [[]]
  | .directory entries => [] :: placesIn entries

def placesIn : List (String × Node) → List (List String)
  | [] => []
  | entry :: entries => placesOf entry ++ placesIn entries

def placesOf : String × Node → List (List String)
  | (name, node) => (places node).map (name :: ·)

end

theorem placesIn_eq (entries : List (String × Node)) :
    placesIn entries = entries.flatMap fun entry => (places entry.2).map (entry.1 :: ·) := by
  induction entries with
  | nil => rfl
  | cons entry entries ih => rw [placesIn, placesOf, ih, List.flatMap_cons]

theorem mem_places_iff (h : node.Proper) : names ∈ node.places ↔ (node.get? names).isSome := by
  induction h generalizing names with
  | file text => cases names <;> simp [places, get?, entries]
  | @directory members hkeys hnames hinner ih =>
    cases names with
    | nil => simp [places, get?]
    | cons name names =>
      rw [places, placesIn_eq, get?, List.mem_cons, List.mem_flatMap]
      constructor
      · rintro (hnil | ⟨entry, hentry, hplace⟩)
        · cases hnil
        obtain ⟨rest, hrest, heq⟩ := List.mem_map.1 hplace
        obtain ⟨rfl, rfl⟩ := List.cons.inj heq
        have hlookup : members.lookup entry.1 = some entry.2 :=
          (lookup_eq_some_iff_mem hkeys).2 hentry
        simpa [entries, hlookup] using (ih entry hentry).1 hrest
      · intro hsome
        obtain ⟨found, hfound⟩ := Option.isSome_iff_exists.1 hsome
        obtain ⟨inner, hlookup, hinside⟩ := Option.bind_eq_some_iff.1 hfound
        have hentry : (name, inner) ∈ members := mem_of_lookup_eq_some hlookup
        have hrest := (ih _ hentry).2 (Option.isSome_of_mem hinside)
        exact Or.inr ⟨_, hentry, List.mem_map_of_mem hrest⟩

theorem nodup_places (h : node.Proper) : node.places.Nodup := by
  induction h with
  | file text => exact List.nodup_singleton []
  | directory hkeys hnames hinner ih =>
    rw [places, placesIn_eq, List.nodup_cons, List.nodup_flatMap]
    refine ⟨by simp, fun entry hentry => ?_, ?_⟩
    · exact (ih entry hentry).map fun _ _ heq => (List.cons.inj heq).2
    · refine (List.pairwise_map.1 hkeys).imp fun hne => ?_
      intro names hfirst hsecond
      obtain ⟨_, _, rfl⟩ := List.mem_map.1 hfirst
      obtain ⟨_, _, heq⟩ := List.mem_map.1 hsecond
      exact hne (List.cons.inj heq).1.symm

end Node

namespace Files

def glue (path name : List Char) : List Char :=
  if path.getLast?.all (· = '/') then path ++ name else path ++ '/' :: name

theorem toList_join (path name : String) :
    (join path name).toList = glue path.toList name.toList := by
  unfold join glue
  split
  · exact String.toList_append
  · simp [String.toList_append]

/-- An empty piece at the end gives way to the name; otherwise the name is one more piece. -/
theorem pieces_glue {name : List Char} (hname : '/' ∉ name) (path : List Char) :
    (∃ before, pieces '/' path = before ++ [[]] ∧ pieces '/' (glue path name) = before ++ [name]) ∨
      pieces '/' (glue path name) = pieces '/' path ++ [name] := by
  unfold glue
  split
  · rename_i hlast
    refine Or.inl ?_
    cases path using List.reverseRecOn with
    | nil => exact ⟨[], rfl, pieces_of_not_mem hname⟩
    | append_singleton path c _ =>
      have hc : c = '/' := by simpa using hlast
      refine ⟨pieces '/' path, ?_, ?_⟩
      · rw [hc, pieces_append_separator]
        rfl
      · rw [hc, List.append_assoc, List.singleton_append, pieces_append_separator,
          pieces_of_not_mem hname]
  · rw [pieces_append_separator, pieces_of_not_mem hname]
    exact Or.inr rfl

/-- The top directory is written in a way that paths can be told apart by their beginning, and the
tree is one of directories with names. -/
structure Proper (files : Files) : Prop where
  top : files.top.Proper
  root_end : files.root.toList.getLast? ≠ some '/'
  root_begin : files.root.toList.head? = some '/' ∨ '/' ∉ files.root.toList

section Resolution

variable {files : Files} {path q : String} {base names : List String} {start rest name : List Char}

theorem glue_ne_nil (hname : name ≠ []) (start : List Char) : glue start name ≠ [] := by
  unfold glue
  split <;> simp [hname]

theorem head?_glue (hstart : start ≠ []) (name : List Char) :
    (glue start name).head? = start.head? := by
  unfold glue
  split <;> rw [List.head?_append_of_ne_nil _ hstart]

theorem slash_mem_glue (hstart : start ≠ []) (name : List Char) : '/' ∈ glue start name := by
  unfold glue
  split
  · rename_i hlast
    rw [List.getLast?_eq_some_getLast hstart] at hlast
    have hslash : start.getLast hstart = '/' := by simpa using hlast
    exact List.mem_append_left name (hslash ▸ List.getLast_mem hstart)
  · simp

theorem glue_slash_append (front more name : List Char) :
    glue (front ++ '/' :: more) name = front ++ '/' :: glue more name := by
  cases more with
  | nil => simp [glue]
  | cons c more =>
    have hlast : (front ++ '/' :: c :: more).getLast? = (c :: more).getLast? := by
      rw [List.append_cons, List.getLast?_append_of_ne_nil _ (List.cons_ne_nil c more)]
    rw [glue, glue, hlast]
    split <;> simp

theorem glue_of_last (hstart : start ≠ []) (hlast : start.getLast? ≠ some '/') (name : List Char) :
    glue start name = start ++ '/' :: name := by
  obtain ⟨c, hc⟩ := Option.isSome_iff_exists.1 (List.getLast?_isSome.2 hstart)
  have hslash : c ≠ '/' := fun heq => hlast (heq ▸ hc)
  simp [glue, hc, hslash]

theorem prefix_of_prefix_append_name {root front : List Char} (hname : '/' ∉ name)
    (h : root ++ ['/'] <+: front ++ name) : root ++ ['/'] <+: front := by
  obtain ⟨tail, htail⟩ := h
  cases List.append_eq_append_iff.1 htail with
  | inl hlong =>
    obtain ⟨more, hfront, _⟩ := hlong
    exact ⟨more, hfront.symm⟩
  | inr hshort =>
    obtain ⟨more, hroot, hmore⟩ := hshort
    cases more using List.reverseRecOn with
    | nil => exact ⟨[], by simpa using hroot⟩
    | append_singleton more c =>
      rw [← List.append_assoc] at hroot
      have hc : '/' = c := by simpa using (List.append_inj' hroot rfl).2
      exact absurd (by simp [hmore, ← hc]) hname

theorem root_of_prefix_glue {root : List Char} (hname : '/' ∉ name)
    (h : root ++ ['/'] <+: glue start name) : root ++ ['/'] <+: start ∨ start = root := by
  unfold glue at h
  split at h
  · exact Or.inl (prefix_of_prefix_append_name hname h)
  · rw [List.append_cons start] at h
    cases List.prefix_concat_iff.1 (prefix_of_prefix_append_name hname h) with
    | inl heq => exact Or.inr (List.append_inj_left' heq rfl).symm
    | inr hprefix => exact Or.inl hprefix

/-- Where a path begins: at the top, if it is the path of the top or begins with it, and otherwise in
the working directory. -/
theorem start?_eq_some_iff : files.start? start = some (base, rest) ↔ start ≠ [] ∧
    (start = files.root.toList ++ '/' :: rest ∧ base = [] ∨
    ¬ files.root.toList ++ ['/'] <+: start ∧ start = files.root.toList ∧ base = [] ∧ rest = [] ∨
    ¬ files.root.toList ++ ['/'] <+: start ∧ start ≠ files.root.toList ∧ start.head? ≠ some '/' ∧
      base = files.home ∧ rest = start) := by
  by_cases hnil : start = []
  · simp [start?, hnil]
  simp only [start?, List.isEmpty_iff, List.isPrefixOf_iff_prefix, hnil, if_false, ne_eq,
    not_false_eq_true, true_and]
  by_cases hprefix : files.root.toList ++ ['/'] <+: start
  · obtain ⟨tail, rfl⟩ := hprefix
    rw [if_pos (List.prefix_append _ tail), List.drop_left]
    simp [eq_comm, and_comm]
  have hlong : start ≠ files.root.toList ++ '/' :: rest := fun heq => hprefix ⟨rest, by simp [heq]⟩
  rw [if_neg hprefix]
  by_cases hroot : start = files.root.toList
  · rw [hroot] at hprefix
    simp [hroot, hprefix, eq_comm]
  by_cases hhead : start.head? = some '/'
  · simp [hroot, hhead, hlong]
  · simp [hroot, hhead, hlong, hprefix, eq_comm]

theorem start?_glue (hfiles : files.Proper) (hnil : name ≠ []) (hname : '/' ∉ name)
    (h : files.start? start = some (base, rest)) :
    files.start? (glue start name) = some (base, glue rest name) := by
  rw [start?_eq_some_iff] at h ⊢
  obtain ⟨hstart, hcase⟩ := h
  refine ⟨glue_ne_nil hnil start, ?_⟩
  obtain ⟨heq, hbase⟩ | ⟨_, heq, hbase, hrest⟩ | ⟨hlong, hroot, hhead, hbase, hrest⟩ := hcase
  · rw [heq]
    exact Or.inl ⟨glue_slash_append files.root.toList rest name, hbase⟩
  · have hlast : start.getLast? ≠ some '/' := heq ▸ hfiles.root_end
    refine Or.inl ⟨?_, hbase⟩
    rw [glue_of_last hstart hlast, heq, hrest]
    simp [glue]
  · refine Or.inr (Or.inr ⟨fun hprefix => ?_, fun heq => ?_, ?_, hbase, hrest ▸ rfl⟩)
    · exact (root_of_prefix_glue hname hprefix).elim hlong hroot
    · -- A path from the working directory has a slash in it, but not in front.
      cases hfiles.root_begin with
      | inl hslash => exact hhead (by rw [← head?_glue hstart name, heq, hslash])
      | inr hslash => exact hslash (heq ▸ slash_mem_glue hstart name)
    · rwa [head?_glue hstart]

theorem eq_of_step?_empty (h : files.step? names "" = some base) : names = base := by
  rw [step?_eq] at h
  split at h
  · simpa using h
  · cases h

theorem step?_name {entry : String} (hentry : Node.IsName entry)
    (hhas : (files.top.get? (base ++ [entry])).isSome) :
    files.step? base entry = some (base ++ [entry]) := by
  have hplain : (entry = "" || entry = ".") = false := by
    simp [hentry.ne_empty, hentry.ne_here]
  rw [step?_eq, if_pos (Node.isDirectory_of_get?_concat hhas), hplain, if_neg Bool.false_ne_true,
    if_neg hentry.ne_above, if_pos hhas]

theorem resolve?_join {entry : String} (hfiles : files.Proper) (hentry : Node.IsName entry)
    (hpath : files.resolve? path = some base) (hhas : (files.top.get? (base ++ [entry])).isSome) :
    files.resolve? (join path entry) = some (base ++ [entry]) := by
  obtain ⟨⟨origin, rest⟩, hstart, hsteps⟩ := Option.bind_eq_some_iff.1 hpath
  have hnil : entry.toList ≠ [] := by simpa using hentry.ne_empty
  have hstep := step?_name hentry hhas
  rw [resolve?, toList_join, start?_glue hfiles hnil hentry.slash hstart]
  change (parts (glue rest entry.toList)).foldlM files.step? origin = _
  change (parts rest).foldlM files.step? origin = _ at hsteps
  unfold parts at hsteps ⊢
  cases pieces_glue hentry.slash rest with
  | inl hempty =>
    obtain ⟨before, hrest, hglue⟩ := hempty
    rw [hrest, List.map_append, List.foldlM_append] at hsteps
    rw [hglue, List.map_append, List.foldlM_append]
    obtain ⟨place, hplace, hlast⟩ := Option.bind_eq_some_iff.1 hsteps
    have hstays : files.step? place "" = some base := by simpa using hlast
    rw [hplace, eq_of_step?_empty hstays]
    simpa using hstep
  | inr hmore =>
    rw [hmore, List.map_append, List.foldlM_append, hsteps]
    simpa using hstep

theorem resolve?_foldl_join (hfiles : files.Proper) (hpath : files.resolve? path = some base)
    (hhas : (files.top.get? (base ++ names)).isSome) :
    files.resolve? (names.foldl join path) = some (base ++ names) := by
  induction names generalizing path base with
  | nil => simpa using hpath
  | cons entry names ih =>
    rw [List.append_cons] at hhas ⊢
    obtain ⟨node, hnode⟩ := Option.isSome_iff_exists.1 hhas
    have hentry : Node.IsName entry := (hfiles.top.of_get? hnode).1 entry (by simp)
    rw [Node.get?_append] at hnode
    obtain ⟨inner, hinner, _⟩ := Option.bind_eq_some_iff.1 hnode
    exact ih (resolve?_join hfiles hentry hpath (Option.isSome_of_mem hinner)) hhas

end Resolution

section Walk

variable {files : Files} {path q : String} {node : Node} {names : List String}

theorem walkEntries_eq (path : String) (entries : List (String × Node)) :
    walkEntries path entries = entries.flatMap fun entry => walk (join path entry.1) entry.2 := by
  induction entries with
  | nil => rfl
  | cons entry entries ih => rw [walkEntries, walkEntry, ih, List.flatMap_cons]

theorem walk_eq_places (h : node.Proper) (path : String) :
    walk path node = node.places.map fun names => names.foldl join path := by
  induction h generalizing path with
  | file text => rfl
  | directory hkeys hnames hinner ih =>
    rw [walk, walkEntries_eq, Node.places, Node.placesIn_eq, List.map_cons, List.map_flatMap]
    refine congrArg (path :: ·) (List.flatMap_congr fun entry hentry => ?_)
    rw [ih entry hentry, List.map_map]
    rfl

theorem Proper.get? (hfiles : files.Proper) (h : files.get? path = some node) : node.Proper := by
  obtain ⟨base, _, hget⟩ := Option.bind_eq_some_iff.1 h
  exact (hfiles.top.of_get? hget).2

theorem sourcesAt_eq_places (hfiles : files.Proper) (h : files.get? path = some node) :
    files.sourcesAt path = (node.places.map fun names => names.foldl join path).filter isJava := by
  rw [← walk_eq_places (hfiles.get? h)]
  cases node <;> simp only [sourcesAt, h]

/-- What is at a path or below it, and the path that leads there: the names on the way are joined to
the path one by one. -/
def Reaches (files : Files) (path q : String) (node : Node) : Prop :=
  ∃ top names, files.get? path = some top ∧ top.get? names = some node ∧ q = names.foldl join path

theorem exists_resolve?_below {top : Node} (hfiles : files.Proper)
    (htop : files.get? path = some top) : ∃ base, ∀ names, (top.get? names).isSome →
      files.resolve? (names.foldl join path) = some (base ++ names) ∧
      files.top.get? (base ++ names) = top.get? names := by
  obtain ⟨base, hbase, hget⟩ := Option.bind_eq_some_iff.1 htop
  refine ⟨base, fun names hnode => ?_⟩
  have hbelow : files.top.get? (base ++ names) = top.get? names := by
    rw [Node.get?_append, hget, Option.bind_some]
  exact ⟨resolve?_foldl_join hfiles hbase (hbelow ▸ hnode), hbelow⟩

theorem Reaches.get? (hfiles : files.Proper) (h : files.Reaches path q node) :
    files.get? q = some node := by
  obtain ⟨top, names, htop, hnode, rfl⟩ := h
  obtain ⟨base, hbelow⟩ := exists_resolve?_below hfiles htop
  have hplace := hbelow names (Option.isSome_of_mem hnode)
  rw [Files.get?, hplace.1, Option.bind_some, hplace.2, hnode]

theorem mem_sourcesAt_iff (hfiles : files.Proper) :
    q ∈ files.sourcesAt path ↔ isJava q = true ∧ ∃ node, files.Reaches path q node := by
  cases htop : files.get? path with
  | none => simp [sourcesAt, Reaches, htop]
  | some top =>
    rw [sourcesAt_eq_places hfiles htop, List.mem_filter, and_comm, List.mem_map]
    refine and_congr_right fun _ => ?_
    constructor
    · rintro ⟨names, hnames, rfl⟩
      obtain ⟨node, hnode⟩ :=
        Option.isSome_iff_exists.1 ((Node.mem_places_iff (hfiles.get? htop)).1 hnames)
      exact ⟨node, top, names, htop, hnode, rfl⟩
    · rintro ⟨node, _, names, hother, hnode, rfl⟩
      rw [htop, Option.some.injEq] at hother
      rw [← hother] at hnode
      exact ⟨names, (Node.mem_places_iff (hfiles.get? htop)).2 (Option.isSome_of_mem hnode), rfl⟩

theorem nodup_sourcesAt (hfiles : files.Proper) (path : String) : (files.sourcesAt path).Nodup := by
  cases htop : files.get? path with
  | none => simp [sourcesAt, htop]
  | some top =>
    obtain ⟨base, hbelow⟩ := exists_resolve?_below hfiles htop
    have hproper : top.Proper := hfiles.get? htop
    rw [sourcesAt_eq_places hfiles htop]
    refine ((Node.nodup_places hproper).map_on fun names hnames more hmore heq => ?_).filter _
    -- Paths that are equal lead to the same place, by names from the top.
    have hfirst := (hbelow names ((Node.mem_places_iff hproper).1 hnames)).1
    have hsecond := (hbelow more ((Node.mem_places_iff hproper).1 hmore)).1
    rw [heq, hsecond, Option.some.injEq] at hfirst
    exact (List.append_cancel_left hfirst).symm

def HoldsNamedDirectory (files : Files) (path : String) : Prop :=
  ∃ q entries, isJava q = true ∧ files.Reaches path q (.directory entries)

def IsFile (files : Files) (path : String) : Prop :=
  ∃ text, files.get? path = some (.file text)

theorem read_eq_ok_iff {text : List Char} :
    files.read path = .ok text ↔ files.get? path = some (.file (some text)) := by
  rw [read]
  split <;> simp_all

theorem exists_read (hfile : files.IsFile path) (htext : files.get? path ≠ some (.file none)) :
    ∃ text, files.read path = .ok text := by
  obtain ⟨found, hfound⟩ := hfile
  cases found with
  | none => exact absurd hfound htext
  | some text => exact ⟨text, read_eq_ok_iff.2 hfound⟩

theorem mem_sources_of_reaches {paths : List String} (hfiles : files.Proper) (hpath : path ∈ paths)
    (hjava : isJava q = true) (h : files.Reaches path q node) : q ∈ files.sources paths :=
  List.mem_flatMap.2 ⟨path, hpath, (mem_sourcesAt_iff hfiles).2 ⟨hjava, node, h⟩⟩

theorem sources_isFile_iff (hfiles : files.Proper) (paths : List String) :
    (∀ q ∈ files.sources paths, files.IsFile q) ↔
      ∀ path ∈ paths, ¬ files.HoldsNamedDirectory path := by
  constructor
  · rintro hall path hpath ⟨q, entries, hjava, hreaches⟩
    obtain ⟨text, htext⟩ := hall q (mem_sources_of_reaches hfiles hpath hjava hreaches)
    rw [hreaches.get? hfiles] at htext
    cases htext
  · intro hnone q hq
    obtain ⟨path, hpath, hq⟩ := List.mem_flatMap.1 hq
    obtain ⟨hjava, node, hreaches⟩ := (mem_sourcesAt_iff hfiles).1 hq
    cases node with
    | file text => exact ⟨text, hreaches.get? hfiles⟩
    | directory entries => exact absurd ⟨q, entries, hjava, hreaches⟩ (hnone path hpath)

end Walk

end Files

end IfCollapse
