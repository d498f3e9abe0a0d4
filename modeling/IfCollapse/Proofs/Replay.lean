import IfCollapse.Proofs.Lookup
import IfCollapse.Proofs.Scanning
import Mathlib.Algebra.Group.Nat.Defs
import Mathlib.Data.Finset.Basic
import Mathlib.Data.List.Forall2
import Mathlib.Data.List.Induction

/-! Silencing comments as a replay. Read from left to right, the comments of a source open and close
keys, and a rule is silent at a position exactly if its own key or the key of every rule is open after
the comments up to there. The order of the filters has no say in it, nor has the order in which open
regions are ended at the end of the source. -/

namespace IfCollapse.Suppression

/-- The open keys after one more comment, which opens a key before it closes one. -/
def Filter.heed (filter : Filter) (keys : Finset String) (comment : Comment) : Finset String :=
  let keys :=
    match filter.off comment.text with
    | some key => insert key keys
    | none => keys
  match filter.on comment.text with
  | some key => keys.erase key
  | none => keys

def Filter.openKeys (filter : Filter) (comments : List Comment) : Finset String :=
  comments.foldl filter.heed ∅

def IsSilent (regions : List Region) (key : String) (position : Nat) : Prop :=
  ∃ r ∈ regions, r.rule = key ∧ r.start ≤ position ∧ position < r.stop

/-- The regions that comments make under a filter if the rules that are still open are ended in any
order. -/
def EndsInSomeOrder (comments : List Comment) (length : Nat) (filter : Filter)
    (regions : List Region) : Prop :=
  let p := comments.foldl (Progress.read filter) Progress.start
  ∃ opened, opened.Perm p.opened ∧ regions = Progress.finish ⟨opened, p.regions⟩ length

section Scan

variable {source : List Char} {fuel position n skip : Nat} {b : UInt8} {rest bytes : List UInt8}
  {found : List Comment}

theorem length_pos_of_comment (h : pieceAt b rest = .comment n skip) : 0 < n := by
  unfold pieceAt at h
  split at h
  · simp at h
  · split at h
    · cases rest with
      | nil => simp at h
      | cons c rest =>
        simp only at h
        split at h
        · simp only [Piece.comment.injEq] at h
          omega
        · split at h
          · cases hblock : blockLength? rest with
            | none => simp [hblock] at h
            | some k =>
              simp only [hblock, Piece.comment.injEq] at h
              omega
          · simp at h
    · simp at h

theorem starts_of_commentsFrom (h : commentsFrom source fuel position bytes = .ok found) :
    found.Pairwise (fun a b => a.start < b.start) ∧
      ∀ c ∈ found, position ≤ c.start ∧ c.start < position + bytes.length := by
  induction fuel generalizing position bytes found with
  | zero =>
    have hnone : found = [] := by cases bytes <;> simpa [commentsFrom] using h.symm
    simp [hnone]
  | succ fuel ih =>
    cases bytes with
    | nil =>
      have hnone : found = [] := by simpa [commentsFrom] using h.symm
      simp [hnone]
    | cons b rest =>
      rw [commentsFrom] at h
      cases hpiece : pieceAt b rest with
      | unclosed =>
        have hnone : found = [] := by simpa [hpiece] using h.symm
        simp [hnone]
      | code n =>
        simp only [hpiece] at h
        have hlater := ih h
        refine ⟨hlater.1, fun c hc => ?_⟩
        have hstart := hlater.2 c hc
        rw [List.length_drop] at hstart
        omega
      | comment n skip =>
        simp only [hpiece, bind_eq_ok] at h
        obtain ⟨span, _, text, _, later, hfrom, hfound⟩ := h
        have hpos := length_pos_of_comment hpiece
        have hlater := ih hfrom
        have hnext : ∀ c ∈ later, position < c.start ∧
            c.start < position + (b :: rest).length := by
          intro c hc
          have hstart := hlater.2 c hc
          rw [List.length_drop] at hstart
          omega
        have hcons : found = ⟨position, text⟩ :: later := (Except.ok.inj hfound).symm
        rw [hcons]
        refine ⟨List.pairwise_cons.2 ⟨fun c hc => (hnext c hc).1, hlater.1⟩, fun c hc => ?_⟩
        cases List.mem_cons.1 hc with
        | inl heq => simp [heq]
        | inr hmem =>
          have hstart := hnext c hmem
          omega

theorem starts_of_comments (h : comments source = .ok found) :
    found.Pairwise (fun a b => a.start < b.start) ∧ ∀ c ∈ found, c.start < byteLength source := by
  have hstarts := starts_of_commentsFrom h
  refine ⟨hstarts.1, fun c hc => ?_⟩
  have hlt := (hstarts.2 c hc).2
  rwa [Nat.zero_add, length_bytesOf] at hlt

end Scan

namespace Progress

variable {p : Progress} {filter : Filter} {comment : Comment} {rule key : String}
  {position offset limit start : Nat}

/-- The key is silenced at the position, if what is open stays open. -/
def Silences (p : Progress) (key : String) (position : Nat) : Prop :=
  (∃ start, (key, start) ∈ p.opened ∧ start ≤ position) ∨ IsSilent p.regions key position

def keys (p : Progress) : List String :=
  p.opened.map (·.1)

structure UpTo (p : Progress) (limit : Nat) : Prop where
  distinct : p.keys.Nodup
  begun : ∀ entry ∈ p.opened, entry.2 ≤ limit
  ended : ∀ r ∈ p.regions, r.stop ≤ limit

theorem mem_keys_iff : key ∈ p.keys ↔ ∃ start, (key, start) ∈ p.opened := by
  simp [keys]

theorem exists_lookup (h : rule ∈ p.keys) : ∃ start, p.opened.lookup rule = some start :=
  Option.isSome_iff_exists.1 (isSome_lookup_iff_keys.2 h)

theorem start_eq_of_lookup (hdistinct : p.keys.Nodup) (h : p.opened.lookup key = some start)
    {other : Nat} (hmem : (key, other) ∈ p.opened) : other = start := by
  rw [(lookup_eq_some_iff_mem hdistinct).2 hmem] at h
  exact Option.some.inj h

theorem UpTo.mono (h : p.UpTo limit) (hle : limit ≤ position) : p.UpTo position :=
  ⟨h.distinct, fun entry hentry => Nat.le_trans (h.begun entry hentry) hle,
    fun r hr => Nat.le_trans (h.ended r hr) hle⟩

section Open

theorem openRule_of_mem (h : rule ∈ p.keys) : p.openRule rule position = p := by
  obtain ⟨start, hstart⟩ := exists_lookup h
  simp [openRule, hstart]

theorem openRule_of_not_mem (h : rule ∉ p.keys) :
    p.openRule rule position = ⟨(rule, position) :: p.opened, p.regions⟩ := by
  simp [openRule, lookup_eq_none_iff_keys.2 h]

theorem keys_openRule : key ∈ (p.openRule rule position).keys ↔ key = rule ∨ key ∈ p.keys := by
  by_cases h : rule ∈ p.keys
  · rw [openRule_of_mem h]
    constructor
    · exact Or.inr
    · intro hkey
      cases hkey with
      | inl heq => rwa [heq]
      | inr hmem => exact hmem
  · rw [openRule_of_not_mem h]
    simp [keys]

theorem UpTo.openRule (h : p.UpTo limit) (hle : limit ≤ position) :
    (p.openRule rule position).UpTo position := by
  have hold := h.mono hle
  by_cases hmem : rule ∈ p.keys
  · rwa [openRule_of_mem hmem]
  · rw [openRule_of_not_mem hmem]
    refine ⟨List.nodup_cons.2 ⟨hmem, h.distinct⟩, fun entry hentry => ?_, hold.ended⟩
    cases List.mem_cons.1 hentry with
    | inl heq => simp [heq]
    | inr hrest => exact hold.begun entry hrest

theorem silences_openRule (hlt : position < offset) :
    (p.openRule rule offset).Silences key position ↔ p.Silences key position := by
  by_cases hmem : rule ∈ p.keys
  · rw [openRule_of_mem hmem]
  · rw [openRule_of_not_mem hmem]
    refine or_congr ⟨?_, ?_⟩ Iff.rfl
    · rintro ⟨start, hopen, hle⟩
      cases List.mem_cons.1 hopen with
      | inl heq =>
        have hstart : start = offset := congrArg Prod.snd heq
        omega
      | inr hold => exact ⟨start, hold, hle⟩
    · rintro ⟨start, hopen, hle⟩
      exact ⟨start, List.mem_cons_of_mem _ hopen, hle⟩

end Open

section Close

theorem closeRule_of_not_mem (h : rule ∉ p.keys) : p.closeRule rule position = p := by
  simp [closeRule, lookup_eq_none_iff_keys.2 h]

theorem closeRule_of_lookup (h : p.opened.lookup rule = some start) :
    p.closeRule rule position =
      ⟨p.opened.filter fun entry => entry.1 ≠ rule, ⟨rule, start, position⟩ :: p.regions⟩ := by
  simp [closeRule, h]

theorem keys_closeRule : key ∈ (p.closeRule rule position).keys ↔ key ≠ rule ∧ key ∈ p.keys := by
  by_cases h : rule ∈ p.keys
  · obtain ⟨start, hstart⟩ := exists_lookup h
    rw [closeRule_of_lookup hstart]
    simp [keys, and_comm]
  · rw [closeRule_of_not_mem h]
    constructor
    · intro hkey
      exact ⟨fun heq => h (heq ▸ hkey), hkey⟩
    · exact And.right

theorem UpTo.closeRule (h : p.UpTo limit) (hle : limit ≤ position) :
    (p.closeRule rule position).UpTo position := by
  have hold := h.mono hle
  by_cases hmem : rule ∈ p.keys
  · obtain ⟨start, hstart⟩ := exists_lookup hmem
    rw [closeRule_of_lookup hstart]
    refine ⟨h.distinct.sublist (List.filter_sublist.map _), ?_, ?_⟩
    · exact fun entry hentry => hold.begun entry (List.mem_filter.1 hentry).1
    · intro r hr
      cases List.mem_cons.1 hr with
      | inl heq => simp [heq]
      | inr hrest => exact hold.ended r hrest
  · rwa [closeRule_of_not_mem hmem]

theorem silences_closeRule (hdistinct : p.keys.Nodup) (hlt : position < offset) :
    (p.closeRule rule offset).Silences key position ↔ p.Silences key position := by
  by_cases hmem : rule ∈ p.keys
  · obtain ⟨start, hstart⟩ := exists_lookup hmem
    rw [closeRule_of_lookup hstart]
    constructor
    · rintro (⟨begin, hopen, hle⟩ | ⟨r, hr, hrule, hbounds⟩)
      · exact Or.inl ⟨begin, (List.mem_filter.1 hopen).1, hle⟩
      · cases List.mem_cons.1 hr with
        | inl heq =>
          rw [heq] at hrule hbounds
          refine Or.inl ⟨start, ?_, hbounds.1⟩
          rw [← hrule]
          exact mem_of_lookup_eq_some hstart
        | inr hold => exact Or.inr ⟨r, hold, hrule, hbounds⟩
    · rintro (⟨begin, hopen, hle⟩ | ⟨r, hr, hrule, hbounds⟩)
      · by_cases hkey : key = rule
        · subst hkey
          rw [start_eq_of_lookup hdistinct hstart hopen] at hle
          exact Or.inr ⟨_, List.mem_cons_self, rfl, hle, hlt⟩
        · exact Or.inl ⟨begin, List.mem_filter.2 ⟨hopen, by simpa using hkey⟩, hle⟩
      · exact Or.inr ⟨r, List.mem_cons_of_mem _ hr, hrule, hbounds⟩
  · rw [closeRule_of_not_mem hmem]

end Close

section Read

theorem UpTo.read (h : p.UpTo limit) (hle : limit ≤ comment.start)
    (hsize : comment.start ≤ Size.max) : (p.read filter comment).UpTo comment.start := by
  unfold Progress.read
  rw [Size.clamp_of_le hsize]
  cases filter.off comment.text with
  | none =>
    cases filter.on comment.text with
    | none => exact h.mono hle
    | some closed => exact h.closeRule hle
  | some opened =>
    cases filter.on comment.text with
    | none => exact h.openRule hle
    | some closed => exact (h.openRule hle).closeRule (Nat.le_refl _)

theorem keys_read {known : Finset String} (h : ∀ key, key ∈ p.keys ↔ key ∈ known) :
    key ∈ (p.read filter comment).keys ↔ key ∈ filter.heed known comment := by
  unfold Progress.read Filter.heed
  cases filter.off comment.text with
  | none =>
    cases filter.on comment.text with
    | none => exact h key
    | some closed => simp [keys_closeRule, h]
  | some opened =>
    cases filter.on comment.text with
    | none => simp [keys_openRule, h]
    | some closed => simp [keys_closeRule, keys_openRule, h]

theorem silences_read (h : p.UpTo limit) (hle : limit ≤ comment.start)
    (hsize : comment.start ≤ Size.max) (hlt : position < comment.start) :
    (p.read filter comment).Silences key position ↔ p.Silences key position := by
  unfold Progress.read
  rw [Size.clamp_of_le hsize]
  cases filter.off comment.text with
  | none =>
    cases filter.on comment.text with
    | none => rfl
    | some closed => exact silences_closeRule h.distinct hlt
  | some opened =>
    cases filter.on comment.text with
    | none => exact silences_openRule hlt
    | some closed =>
      exact (silences_closeRule (h.openRule hle).distinct hlt).trans (silences_openRule hlt)

theorem UpTo.silences_iff (h : p.UpTo limit) (hle : limit ≤ position) :
    p.Silences key position ↔ key ∈ p.keys := by
  rw [mem_keys_iff]
  constructor
  · rintro (⟨start, hopen, _⟩ | ⟨r, hr, _, _, hstop⟩)
    · exact ⟨start, hopen⟩
    · have hended := h.ended r hr
      omega
  · rintro ⟨start, hopen⟩
    exact Or.inl ⟨start, hopen, Nat.le_trans (h.begun _ hopen) hle⟩

end Read

section Run

variable {comments : List Comment}

abbrev after (filter : Filter) (comments : List Comment) : Progress :=
  comments.foldl (Progress.read filter) Progress.start

theorem upTo_after (hsorted : comments.Pairwise fun a b => a.start < b.start)
    (hsize : ∀ c ∈ comments, c.start ≤ Size.max) (hlimit : ∀ c ∈ comments, c.start ≤ limit) :
    (after filter comments).UpTo limit := by
  induction comments using List.reverseRecOn generalizing limit with
  | nil => exact ⟨by simp [keys, Progress.start], by simp [Progress.start], by simp [Progress.start]⟩
  | append_singleton earlier c ih =>
    rw [List.pairwise_append] at hsorted
    have hbefore : (after filter earlier).UpTo c.start :=
      ih hsorted.1 (fun d hd => hsize d (List.mem_append_left _ hd))
        fun d hd => Nat.le_of_lt (hsorted.2.2 d hd c List.mem_cons_self)
    have hc : c ∈ earlier ++ [c] := List.mem_append_right _ List.mem_cons_self
    rw [after, List.foldl_append]
    exact (hbefore.read (Nat.le_refl _) (hsize c hc)).mono (hlimit c hc)

theorem keys_after : key ∈ (after filter comments).keys ↔ key ∈ filter.openKeys comments := by
  induction comments using List.reverseRecOn generalizing key with
  | nil => simp [after, keys, Progress.start, Filter.openKeys]
  | append_singleton earlier c ih =>
    rw [after, List.foldl_append, Filter.openKeys, List.foldl_append]
    exact keys_read fun _ => ih

theorem silences_after (hsorted : comments.Pairwise fun a b => a.start < b.start)
    (hsize : ∀ c ∈ comments, c.start ≤ Size.max) :
    (after filter comments).Silences key position ↔
      key ∈ filter.openKeys (comments.filter fun c => c.start ≤ position) := by
  induction comments using List.reverseRecOn with
  | nil => simp [after, Silences, IsSilent, Progress.start, Filter.openKeys]
  | append_singleton earlier c ih =>
    have hall := hsorted
    rw [List.pairwise_append] at hsorted
    have hbelow : ∀ d ∈ earlier, d.start < c.start :=
      fun d hd => hsorted.2.2 d hd c List.mem_cons_self
    have hc : c ∈ earlier ++ [c] := List.mem_append_right _ List.mem_cons_self
    by_cases hlt : position < c.start
    · -- the last comment is out of sight, and changes nothing before it
      have hskip : (earlier ++ [c]).filter (fun d => d.start ≤ position) =
          earlier.filter fun d => d.start ≤ position := by
        simp [List.filter_append, hlt]
      have hearlier : ∀ d ∈ earlier, d.start ≤ Size.max :=
        fun d hd => hsize d (List.mem_append_left _ hd)
      have hbefore : (after filter earlier).UpTo c.start :=
        upTo_after hsorted.1 hearlier fun d hd => Nat.le_of_lt (hbelow d hd)
      rw [hskip, ← ih hsorted.1 hearlier, after, List.foldl_append]
      exact silences_read hbefore (Nat.le_refl _) (hsize c hc) hlt
    · -- every comment is in sight, and all that was closed ends before the position
      have hin : ∀ d ∈ earlier ++ [c], d.start ≤ position := by
        intro d hd
        cases List.mem_append.1 hd with
        | inl hold =>
          have hd := hbelow d hold
          omega
        | inr hlast =>
          rw [List.mem_singleton.1 hlast]
          omega
      have hkeep : (earlier ++ [c]).filter (fun d => d.start ≤ position) = earlier ++ [c] :=
        List.filter_eq_self.2 fun d hd => by simpa using hin d hd
      rw [hkeep, ← keys_after]
      exact (upTo_after hall hsize hin).silences_iff (Nat.le_refl _)

end Run

section Finish

variable {opened : List (String × Nat)} {length : Nat}

theorem UpTo.isSilent_finish (h : p.UpTo length) (hperm : opened.Perm p.opened) :
    IsSilent (Progress.finish ⟨opened, p.regions⟩ length) key position ↔
      position < length ∧ p.Silences key position := by
  constructor
  · rintro ⟨r, hr, hrule, hstart, hstop⟩
    cases List.mem_append.1 hr with
    | inl hopen =>
      obtain ⟨entry, hentry, heq⟩ := List.mem_map.1 hopen
      rw [← heq] at hrule hstart hstop
      refine ⟨hstop, Or.inl ⟨entry.2, ?_, hstart⟩⟩
      rw [← hrule]
      exact hperm.mem_iff.1 hentry
    | inr hold =>
      exact ⟨Nat.lt_of_lt_of_le hstop (h.ended r hold), Or.inr ⟨r, hold, hrule, hstart, hstop⟩⟩
  · rintro ⟨hlt, ⟨start, hopen, hle⟩ | ⟨r, hr, hbounds⟩⟩
    · exact ⟨⟨key, start, length⟩, List.mem_append_left _
        (List.mem_map.2 ⟨(key, start), hperm.mem_iff.2 hopen, rfl⟩), rfl, hle, hlt⟩
    · exact ⟨r, List.mem_append_right _ hr, hbounds⟩

end Finish

end Progress

theorem isSuppressed_iff {regions : List Region} {rule : String} {position : Nat} :
    isSuppressed regions rule position = true ↔
      ∃ key, (key = rule ∨ key = everyRule) ∧ IsSilent regions key position := by
  simp only [isSuppressed, List.any_eq_true, Region.covers, Bool.and_eq_true, Bool.or_eq_true,
    beq_iff_eq, decide_eq_true_eq]
  constructor
  · rintro ⟨r, hr, ⟨hrule, hstart⟩, hstop⟩
    exact ⟨r.rule, hrule, r, hr, rfl, hstart, hstop⟩
  · rintro ⟨key, hkey, r, hr, hrule, hstart, hstop⟩
    exact ⟨r, hr, ⟨by rwa [hrule], hstart⟩, hstop⟩

section Sources

variable {source : List Char} {filter : Filter} {filters : List Filter} {found : List Comment}
  {part : List Region} {parts : List (List Region)} {rule key : String} {position : Nat}

theorem EndsInSomeOrder.isSilent_iff (hsize : byteLength source ≤ Size.max)
    (hfound : comments source = .ok found)
    (h : EndsInSomeOrder found (Size.ofText source) filter part) :
    IsSilent part key position ↔ position < byteLength source ∧
      key ∈ filter.openKeys (found.filter fun c => c.start ≤ position) := by
  obtain ⟨hsorted, hin⟩ := starts_of_comments hfound
  have hle : ∀ c ∈ found, c.start ≤ byteLength source := fun c hc => Nat.le_of_lt (hin c hc)
  have hmax : ∀ c ∈ found, c.start ≤ Size.max := fun c hc => Nat.le_trans (hle c hc) hsize
  obtain ⟨opened, hperm, rfl⟩ := h
  rw [Size.ofText, Size.clamp_of_le hsize,
    (Progress.upTo_after hsorted hmax hle).isSilent_finish hperm,
    Progress.silences_after hsorted hmax]

theorem isSilent_flatten_iff (hsize : byteLength source ≤ Size.max)
    (hfound : comments source = .ok found)
    (h : List.Forall₂ (EndsInSomeOrder found (Size.ofText source)) filters parts) :
    IsSilent parts.flatten key position ↔ position < byteLength source ∧
      ∃ filter ∈ filters, key ∈ filter.openKeys (found.filter fun c => c.start ≤ position) := by
  induction h with
  | nil => simp [IsSilent]
  | cons hpart hparts ih =>
    have hsplit : ∀ first rest : List Region,
        IsSilent (first ++ rest) key position ↔
          IsSilent first key position ∨ IsSilent rest key position := by
      intro first rest
      simp only [IsSilent, List.mem_append, or_and_right, exists_or]
    rw [List.flatten_cons, hsplit, hpart.isSilent_iff hsize hfound, ih, ← and_or_left]
    simp only [List.mem_cons, exists_eq_or_imp]

theorem isSuppressed_flatten_iff (hsize : byteLength source ≤ Size.max)
    (hfound : comments source = .ok found)
    (h : List.Forall₂ (EndsInSomeOrder found (Size.ofText source)) filters parts) :
    isSuppressed parts.flatten rule position = true ↔
      position < byteLength source ∧ ∃ filter ∈ filters, ∃ key, (key = rule ∨ key = everyRule) ∧
        key ∈ filter.openKeys (found.filter fun c => c.start ≤ position) := by
  simp only [isSuppressed_iff, isSilent_flatten_iff hsize hfound h]
  constructor
  · rintro ⟨key, hkey, hlt, filter, hfilter, hopen⟩
    exact ⟨hlt, filter, hfilter, key, hkey, hopen⟩
  · rintro ⟨hlt, filter, hfilter, key, hkey, hopen⟩
    exact ⟨key, hkey, hlt, filter, hfilter, hopen⟩

theorem exists_parts_of_commentRegions {regions : List Region} (hfound : comments source = .ok found)
    (h : commentRegions source filters = .ok regions) :
    ∃ parts, List.Forall₂ (EndsInSomeOrder found (Size.ofText source)) filters parts ∧
      parts.flatten = regions := by
  refine ⟨filters.map fun filter => regionsOf filter found (Size.ofText source), ?_, ?_⟩
  · rw [List.forall₂_map_right_iff, List.forall₂_same]
    exact fun filter _ => ⟨_, List.Perm.refl _, rfl⟩
  · rw [commentRegions, hfound] at h
    exact Except.ok.inj h

/-- A rule is silent in the source, before its end, where the comments up to there leave its key or
the key of every rule open under some filter. Neither the order of the filters nor the order in which
open regions are ended matters. -/
theorem isSuppressed_iff_openKeys (hsize : byteLength source < 2 ^ 32) (filters : List Filter) :
    ∃ found regions, comments source = .ok found ∧ commentRegions source filters = .ok regions ∧
      (∀ rule position, isSuppressed regions rule position = true ↔
        position < byteLength source ∧ ∃ filter ∈ filters, ∃ key, (key = rule ∨ key = everyRule) ∧
          key ∈ filter.openKeys (found.filter fun c => c.start ≤ position)) ∧
      ∀ ordered parts, ordered.Perm filters →
        List.Forall₂ (EndsInSomeOrder found (Size.ofText source)) ordered parts →
        ∀ rule position,
          isSuppressed parts.flatten rule position = isSuppressed regions rule position := by
  have hmax : byteLength source ≤ Size.max := Nat.le_pred_of_lt hsize
  obtain ⟨regions, hregions⟩ := exists_commentRegions source filters
  obtain ⟨found, hfound, _⟩ := bind_eq_ok.1 hregions
  obtain ⟨own, hown, rfl⟩ := exists_parts_of_commentRegions hfound hregions
  refine ⟨found, own.flatten, hfound, hregions,
    fun rule position => isSuppressed_flatten_iff hmax hfound hown, ?_⟩
  intro ordered parts hperm hparts rule position
  rw [Bool.eq_iff_iff, isSuppressed_flatten_iff hmax hfound hparts,
    isSuppressed_flatten_iff hmax hfound hown]
  simp only [hperm.mem_iff]

end Sources

/-- A line comment names a rule behind a minus or a plus. -/
def signFilter : Filter where
  off := named '-'
  on := named '+'
where
  named (sign : Char) : List Char → Option String
    | '/' :: '/' :: c :: name => if c = sign then some (String.ofList name) else none
    | _ => none

def toggledText : List Char :=
  "//-A\nx\n//-A\n//+A\ny\n//-*\n\"//+*\"".toList

theorem toggled_text_is_silent : byteLength toggledText < 2 ^ 32 ∧
    ∃ regions, commentRegions toggledText [signFilter] = .ok regions ∧
      isSuppressed regions "A" 11 = true ∧ isSuppressed regions "A" 12 = false ∧
      isSuppressed regions "A" 29 = true := by
  have hsize : byteLength toggledText < 2 ^ 32 := by decide
  have hfound : comments toggledText = .ok [⟨0, "//-A".toList⟩, ⟨7, "//-A".toList⟩,
      ⟨12, "//+A".toList⟩, ⟨19, "//-*".toList⟩] := by rfl
  obtain ⟨found, regions, hcomments, hregions, hiff, _⟩ :=
    isSuppressed_iff_openKeys hsize [signFilter]
  rw [hfound] at hcomments
  obtain rfl := Except.ok.inj hcomments
  refine ⟨hsize, regions, hregions, ?_, ?_, ?_⟩
  · exact (hiff "A" 11).2 ⟨by decide, signFilter, by simp, "A", Or.inl rfl, by decide⟩
  · rw [Bool.eq_false_iff, ne_eq, hiff]
    rintro ⟨_, filter, hfilter, key, hkey, hopen⟩
    rw [List.mem_singleton.1 hfilter] at hopen
    cases hkey with
    | inl heq => exact absurd hopen (by rw [heq]; decide)
    | inr heq => exact absurd hopen (by rw [heq]; decide)
  · exact (hiff "A" 29).2 ⟨by decide, signFilter, by simp, "*", Or.inr rfl, by decide⟩

end IfCollapse.Suppression
