import IfCollapse.Proofs.Quotation
import Mathlib.Data.List.Infix

/-! The lexical structure of a Java source: comments, literals and other text. The search for
comments knows strings only, so a text block or the character literal of a quote can mislead it. It
finds exactly the comments if and only if it takes the start of every comment for code and sees no
comment anywhere else. -/

namespace IfCollapse.Suppression

inductive Segment where
  | lineComment (body : List Char)
  | blockComment (body : List Char)
  | string (body : List Char)
  | textBlock (body : List Char)
  | character (body : List Char)
  | other (c : Char)
  deriving DecidableEq, Repr

def isLineEnd (c : Char) : Bool :=
  c = '\n' || c = '\r'

/-- The inside of a string: a backslash takes the next character with it, and no line ends. -/
def isStringBody : List Char → Bool
  | [] => true
  | ['\\'] => false
  | '\\' :: c :: body => !isLineEnd c && isStringBody body
  | c :: body => c ≠ '"' && !isLineEnd c && isStringBody body

/-- The inside of a character literal: one character, an escaped one, or an octal number. -/
def isCharacterBody : List Char → Bool
  | [c] => c ≠ '\'' && c ≠ '\\' && !isLineEnd c
  | ['\\', c] => !isLineEnd c
  | '\\' :: digits => digits.length ≤ 3 && digits.all fun c => '0' ≤ c && c ≤ '7'
  | _ => false

/-- Behind the opening quotes of a text block only blanks stand in the line. -/
def opensBlock : List Char → Bool
  | [] => false
  | c :: body => isLineEnd c || ((c = ' ' || c = '\t' || c = '\x0c') && opensBlock body)

/-- The inside of a text block: the quotes behind it are the first three that are not escaped. -/
def isBlockBody : List Char → Bool
  | [] => true
  | ['\\'] => false
  | '\\' :: _ :: body => isBlockBody body
  | c :: body => !(c = '"' && ['"', '"'].isPrefixOf (body ++ ['"', '"'])) && isBlockBody body

/-- A line comment goes up to the newline, or up to the end of the source. A carriage return that
comes without a newline ends it as well. -/
def endsLine (body : List Char) : List Char → Bool
  | [] => !body.contains '\r'
  | '\n' :: _ => !body.dropLast.contains '\r'
  | '\r' :: rest => !body.contains '\r' && rest.head? ≠ some '\n'
  | _ => false

namespace Segment

def text : Segment → List Char
  | .lineComment body => '/' :: '/' :: body
  | .blockComment body => '/' :: '*' :: body ++ ['*', '/']
  | .string body => '"' :: body ++ ['"']
  | .textBlock body => '"' :: '"' :: '"' :: body ++ ['"', '"', '"']
  | .character body => '\'' :: body ++ ['\'']
  | .other c => [c]

def isComment : Segment → Bool
  | .lineComment _ => true
  | .blockComment _ => true
  | _ => false

def fits : Segment → (rest : List Char) → Bool
  | .lineComment body, rest => !body.contains '\n' && endsLine body rest
  | .blockComment body, _ => ¬['*', '/'] <:+: body ++ ['*']
  | .string body, rest => isStringBody body && (!body.isEmpty || rest.head? ≠ some '"')
  | .textBlock body, _ => opensBlock body && isBlockBody body
  | .character body, _ => isCharacterBody body
  | .other c, rest =>
    c ≠ '"' && c ≠ '\'' && !(c = '/' && (rest.head? = some '/' || rest.head? = some '*'))

/-- A carriage return does not end a line comment for the search. -/
def runsOn : Segment → (rest : List Char) → Bool
  | .lineComment _, '\r' :: _ => true
  | _, _ => false

/-- Text blocks and character literals of a quote are what can mislead the search. -/
def isHarmless : Segment → Bool
  | .textBlock _ => false
  | .character body => !body.contains '"'
  | _ => true

end Segment

def textOf (segments : List Segment) : List Char :=
  segments.flatMap Segment.text

def pairsReturns : List Char → Bool
  | [] => true
  | c :: text => (c ≠ '\r' || text.head? = some '\n') && pairsReturns text

def isLexed : List Segment → Bool
  | [] => true
  | s :: segments => s.fits (textOf segments) && isLexed segments

def commentsOf (position : Nat) : List Segment → List Comment
  | [] => []
  | s :: segments =>
    let later := commentsOf (position + byteLength s.text) segments
    if s.isComment then ⟨position, s.text⟩ :: later else later

/-- The mode behind a text in front of `after`; there is none if a comment is seen in it. -/
def skim : Mode → (text after : List Char) → Option Mode
  | mode, [], _ => some mode
  | mode, c :: text, after =>
    match commentAt? mode (c :: (text ++ after)) with
    | some _ => none
    | none => skim (mode.step c (text ++ after)) text after

/-- Every comment begins in what is taken for code and none runs on, and no comment is seen in other
segments. -/
def isUndisturbed : Mode → List Segment → Bool
  | _, [] => true
  | mode, s :: segments =>
    if s.isComment then
      mode = .plain && !s.runsOn (textOf segments) && isUndisturbed .plain segments
    else (skim mode s.text (textOf segments)).any fun next => isUndisturbed next segments

theorem textOf_cons (s : Segment) (segments : List Segment) :
    textOf (s :: segments) = s.text ++ textOf segments := rfl

section Walk

variable {mode next : Mode} {text after : List Char} {position skip : Nat} {found : Comment}
  {segments : List Segment}

theorem position_le_of_mem_walk (h : found ∈ walk mode skip position text) :
    position ≤ found.start := by
  induction text generalizing mode skip position with
  | nil => simp [walk] at h
  | cons c text ih =>
    cases skip with
    | succ skip =>
      have hle := ih h
      omega
    | zero =>
      rw [walk] at h
      split at h
      · cases List.mem_cons.1 h with
        | inl heq => rw [heq]
        | inr hlater =>
          have hle := ih hlater
          omega
      · have hle := ih h
        omega

theorem position_le_of_mem_commentsOf (h : found ∈ commentsOf position segments) :
    position ≤ found.start := by
  induction segments generalizing position with
  | nil => simp [commentsOf] at h
  | cons s segments ih =>
    rw [commentsOf] at h
    split at h
    · cases List.mem_cons.1 h with
      | inl heq => rw [heq]
      | inr hlater =>
        have hle := ih hlater
        omega
    · have hle := ih h
      omega

theorem walk_eq_cons_iff {comment rest : List Char} {later : List Comment} :
    walk mode 0 position (comment ++ rest) = ⟨position, comment⟩ :: later ↔
      commentAt? mode (comment ++ rest) = some comment ∧
        walk .plain 0 (position + byteLength comment) rest = later := by
  constructor
  · intro h
    have hseen : commentAt? mode (comment ++ rest) = some comment := by
      cases htext : comment ++ rest with
      | nil => simp [htext, walk] at h
      | cons c text =>
        cases hcomment : commentAt? mode (c :: text) with
        | some seen =>
          rw [htext, walk, hcomment] at h
          have hhead := (List.cons.inj h).1
          rw [Comment.mk.injEq] at hhead
          rw [hhead.2]
        | none =>
          rw [htext, walk_step hcomment] at h
          have hle := position_le_of_mem_walk (h ▸ List.mem_cons_self)
          have hpos := c.utf8Size_pos
          simp only at hle
          omega
    obtain rfl := (commentAt?_cases hseen).1
    rw [walk_comment hseen] at h
    exact ⟨hseen, (List.cons.inj h).2⟩
  · rintro ⟨hseen, hlater⟩
    obtain rfl := (commentAt?_cases hseen).1
    rw [walk_comment hseen, hlater]

theorem walk_of_skim (h : skim mode text after = some next) (position : Nat) :
    walk mode 0 position (text ++ after) = walk next 0 (position + byteLength text) after := by
  induction text generalizing mode position with
  | nil =>
    rw [← Option.some.inj h]
    rfl
  | cons c text ih =>
    rw [skim] at h
    split at h
    · simp at h
    · rename_i hnone
      rw [List.cons_append, walk_step hnone, ih h, byteLength_cons, Nat.add_assoc]

theorem exists_walk_of_skim (h : skim mode text after = none) (position : Nat) :
    ∃ found ∈ walk mode 0 position (text ++ after), found.start < position + byteLength text := by
  induction text generalizing mode position with
  | nil => simp [skim] at h
  | cons c text ih =>
    have hpos := c.utf8Size_pos
    rw [skim] at h
    rw [byteLength_cons, List.cons_append]
    split at h
    · rename_i comment hcomment
      rw [walk, hcomment]
      exact ⟨_, List.mem_cons_self, by simp only; omega⟩
    · rename_i hnone
      obtain ⟨found, hfound, hlt⟩ := ih h (position + c.utf8Size)
      exact ⟨found, by rwa [walk_step hnone], by omega⟩

theorem walk_append_eq_iff {later : List Comment}
    (hlater : ∀ found ∈ later, position + byteLength text ≤ found.start) :
    walk mode 0 position (text ++ after) = later ↔
      ∃ next, skim mode text after = some next ∧
        walk next 0 (position + byteLength text) after = later := by
  constructor
  · intro h
    cases hskim : skim mode text after with
    | some next => exact ⟨next, rfl, by rw [← walk_of_skim hskim, h]⟩
    | none =>
      obtain ⟨found, hfound, hlt⟩ := exists_walk_of_skim hskim position
      have hle := hlater found (h ▸ hfound)
      omega
  · rintro ⟨next, hskim, hnext⟩
    rw [walk_of_skim hskim, hnext]

end Walk

section Comments

variable {mode : Mode} {body rest : List Char} {s : Segment} {segments : List Segment}

theorem takeWhile_of_endsLine (h : endsLine body rest = true) (hreturn : rest.head? ≠ some '\r') :
    rest.takeWhile (· ≠ '\n') = [] := by
  unfold endsLine at h
  split at h
  · rfl
  · simp
  · simp at hreturn
  · simp at h

theorem blockEnd?_of_not_infix (h : ¬['*', '/'] <:+: body ++ ['*']) (rest : List Char) :
    blockEnd? (body ++ ['*', '/'] ++ rest) = some (body ++ ['*', '/']) := by
  induction body with
  | nil => simp [blockEnd?]
  | cons c body ih =>
    have hlater : ¬['*', '/'] <:+: body ++ ['*'] := fun hinfix => h (List.infix_cons hinfix)
    have hnot : ¬(c = '*' ∧ (body ++ ['*', '/'] ++ rest).head? = some '/') := by
      rintro ⟨rfl, hhead⟩
      cases body with
      | nil => simp at hhead
      | cons d body =>
        have hd : d = '/' := by simpa using hhead
        rw [hd] at h
        exact h (List.prefix_append ['*', '/'] (body ++ ['*'])).isInfix
    rw [List.cons_append, List.cons_append, blockEnd?, if_neg hnot, ih hlater]
    rfl

theorem commentAt?_eq_iff (hfits : s.fits rest = true) (hcomment : s.isComment = true) :
    commentAt? mode (s.text ++ rest) = some s.text ↔
      mode = .plain ∧ s.runsOn rest = false := by
  by_cases hmode : mode = .plain
  · subst hmode
    cases s with
    | lineComment body =>
      simp only [Segment.fits, Bool.and_eq_true, Bool.not_eq_true', List.contains_eq_mem,
        decide_eq_false_iff_not] at hfits
      have hline : (body ++ rest).takeWhile (· ≠ '\n') = body ++ rest.takeWhile (· ≠ '\n') :=
        List.takeWhile_append_of_pos fun c hc => by
          simpa using fun heq : c = '\n' => hfits.1 (heq ▸ hc)
      have hseen : commentAt? .plain ((Segment.lineComment body).text ++ rest) =
          some ('/' :: '/' :: (body ++ rest.takeWhile (· ≠ '\n'))) := by
        rw [← hline]
        rfl
      rw [hseen]
      by_cases hreturn : rest.head? = some '\r'
      · obtain ⟨more, rfl⟩ := List.head?_eq_some_iff.1 hreturn
        simp [Segment.text, Segment.runsOn]
      · have hends : (Segment.lineComment body).runsOn rest = false := by
          unfold Segment.runsOn
          split
          · simp at hreturn
          · rfl
        rw [takeWhile_of_endsLine hfits.2 hreturn, List.append_nil]
        simp [Segment.text, hends]
    | blockComment body =>
      have hseen := blockEnd?_of_not_infix (by simpa [Segment.fits] using hfits) rest
      have htext : (Segment.blockComment body).text ++ rest =
          '/' :: '*' :: (body ++ ['*', '/'] ++ rest) := rfl
      rw [htext, commentAt?, hseen]
      simp [Segment.text, Segment.runsOn]
    | _ => simp [Segment.isComment] at hcomment
  · simp [commentAt?_of_ne_plain hmode, hmode]

theorem walk_eq_commentsOf_iff (h : isLexed segments = true) (position : Nat) :
    walk mode 0 position (textOf segments) = commentsOf position segments ↔
      isUndisturbed mode segments = true := by
  induction segments generalizing mode position with
  | nil => simp [textOf, walk, commentsOf, isUndisturbed]
  | cons s segments ih =>
    rw [isLexed, Bool.and_eq_true] at h
    rw [textOf_cons, commentsOf, isUndisturbed]
    cases hcomment : s.isComment with
    | true =>
      rw [if_pos rfl, if_pos rfl, walk_eq_cons_iff, commentAt?_eq_iff h.1 hcomment, ih h.2]
      simp
    | false =>
      have hlater : ∀ found ∈ commentsOf (position + byteLength s.text) segments,
          position + byteLength s.text ≤ found.start := fun found => position_le_of_mem_commentsOf
      simp only [Bool.false_eq_true, if_false, walk_append_eq_iff hlater, ih h.2,
        Option.any_eq_true]

end Comments

section Harmless

variable {mode : Mode} {c : Char} {body text after : List Char} {s : Segment}
  {segments : List Segment}

theorem skim_cons (h : commentAt? mode (c :: (text ++ after)) = none) :
    skim mode (c :: text) after = skim (mode.step c (text ++ after)) text after := by
  rw [skim, h]

theorem skim_code (hquote : c ≠ '"') (hslash : c = '/' → (text ++ after).head? ≠ some '/' ∧
    (text ++ after).head? ≠ some '*') :
    skim .plain (c :: text) after = skim .plain text after := by
  by_cases hc : c = '/'
  · have hhead := hslash hc
    rw [hc, skim_cons (commentAt?_slash hhead.1 hhead.2 _), Mode.step, if_neg (by simp),
      if_neg fun hstart => hhead.2 hstart.2]
  · rw [skim_cons (commentAt?_of_ne_slash hc _ _), Mode.step, if_neg hquote,
      if_neg fun hstart => hc hstart.1]

theorem skim_digits {digits : List Char} (h : ∀ c ∈ digits, '0' ≤ c) :
    skim .plain (digits ++ text) after = skim .plain text after := by
  induction digits with
  | nil => rfl
  | cons c digits ih =>
    have hc : '0' ≤ c := h c List.mem_cons_self
    have hquote : c ≠ '"' := fun heq => absurd hc (by rw [heq]; decide)
    have hslash : c ≠ '/' := fun heq => absurd hc (by rw [heq]; decide)
    rw [List.cons_append, skim_code hquote fun heq => absurd heq hslash]
    exact ih fun d hd => h d (List.mem_cons_of_mem c hd)

theorem skim_character (h : isCharacterBody body = true) (hquote : '"' ∉ body) :
    skim .plain (Segment.character body).text after = some .plain := by
  have hend : skim .plain ['\''] after = some .plain := by
    rw [skim_code (by decide) (by simp)]
    rfl
  -- A quote stands behind the last character, so a slash there begins no comment.
  have hlast : ∀ c, c ≠ '"' → skim .plain [c, '\''] after = some .plain := by
    intro c hc
    rw [skim_code hc fun _ => by simp, hend]
  rw [Segment.text, List.cons_append, skim_code (by decide) (by simp)]
  unfold isCharacterBody at h
  split at h
  · rename_i c
    exact hlast c fun heq => hquote (by simp [heq])
  · rename_i c
    rw [List.cons_append, skim_code (by decide) (by simp)]
    exact hlast c fun heq => hquote (by simp [heq])
  · rename_i digits _
    rw [Bool.and_eq_true, List.all_eq_true] at h
    rw [List.cons_append, skim_code (by decide) (by simp), skim_digits, hend]
    intro c hc
    have hdigit := h.2 c hc
    rw [Bool.and_eq_true] at hdigit
    simpa using hdigit.1
  · simp at h

theorem skim_quoted (h : isStringBody body = true) :
    skim .quoted (body ++ ['"']) after = some .plain := by
  have hcode : ∀ text, commentAt? .quoted text = none := commentAt?_of_ne_plain (by simp)
  induction body using isStringBody.induct with
  | case1 => rfl
  | case2 => simp [isStringBody] at h
  | case3 c body ih =>
    rw [isStringBody, Bool.and_eq_true] at h
    rw [List.cons_append, skim_cons (hcode _)]
    change skim .escaped (c :: (body ++ ['"'])) after = _
    rw [skim_cons (commentAt?_of_ne_plain (by simp) _)]
    exact ih h.2
  | case4 c body hlone hpair ih =>
    have hc : c ≠ '\\' := by
      intro heq
      cases body with
      | nil => exact hlone heq rfl
      | cons d body => exact hpair d body heq rfl
    simp only [isStringBody, isLineEnd, Bool.and_eq_true, Bool.not_eq_true', decide_eq_true_eq,
      Bool.or_eq_false_iff, decide_eq_false_iff_not] at h
    have hend : ¬(c = '"' ∨ c = '\n') := not_or.2 ⟨h.1.1, h.1.2.1⟩
    rw [List.cons_append, skim_cons (hcode _), Mode.step, if_neg hc, if_neg hend]
    exact ih h.2

theorem skim_string (h : isStringBody body = true) :
    skim .plain (Segment.string body).text after = some .plain := by
  rw [Segment.text, List.cons_append, skim_cons (commentAt?_of_ne_slash (by decide) _ _)]
  exact skim_quoted h

theorem pairsReturns_of_append {left right : List Char}
    (h : pairsReturns (left ++ right) = true) : pairsReturns right = true := by
  induction left with
  | nil => exact h
  | cons c left ih =>
    rw [List.cons_append, pairsReturns, Bool.and_eq_true] at h
    exact ih h.2

theorem isUndisturbed_of_harmless (h : isLexed segments = true)
    (hsegments : ∀ s ∈ segments, s.isHarmless = true)
    (hreturns : pairsReturns (textOf segments) = true) :
    isUndisturbed .plain segments = true := by
  induction segments with
  | nil => rfl
  | cons s segments ih =>
    rw [isLexed, Bool.and_eq_true] at h
    have hs : s.isHarmless = true := hsegments s List.mem_cons_self
    have hrest : pairsReturns (textOf segments) = true := pairsReturns_of_append hreturns
    have hlater : isUndisturbed .plain segments = true :=
      ih h.2 (fun t ht => hsegments t (List.mem_cons_of_mem s ht)) hrest
    rw [isUndisturbed]
    cases s with
    | lineComment body =>
      have hends : (Segment.lineComment body).runsOn (textOf segments) = false := by
        cases htext : textOf segments with
        | nil => rfl
        | cons c rest =>
          by_cases hc : c = '\r'
          · have hnewline : rest.head? = some '\n' := by
              simp only [htext, pairsReturns, hc, Bool.and_eq_true] at hrest
              simpa using hrest.1
            simp [Segment.fits, htext, hc, endsLine, hnewline] at h
          · simp [Segment.runsOn, hc]
      simp [Segment.isComment, hends, hlater]
    | blockComment body => simp [Segment.isComment, Segment.runsOn, hlater]
    | string body =>
      have hbody : isStringBody body = true := (Bool.and_eq_true _ _ ▸ h.1).1
      simp [Segment.isComment, skim_string hbody, hlater]
    | textBlock body => simp [Segment.isHarmless] at hs
    | character body =>
      have hquote : '"' ∉ body := by simpa [Segment.isHarmless] using hs
      simp [Segment.isComment, skim_character h.1 hquote, hlater]
    | other c =>
      have hcode : skim .plain [c] (textOf segments) = some .plain := by
        simp only [Segment.fits, Bool.and_eq_true, decide_eq_true_eq, Bool.not_eq_true',
          Bool.and_eq_false_iff, Bool.or_eq_false_iff, decide_eq_false_iff_not] at h
        rw [skim_code h.1.1.1 fun hc => h.1.2.resolve_left (not_not_intro hc)]
        rfl
      simp [Segment.isComment, Segment.text, hcode, hlater]

end Harmless

/-- The search finds exactly the comments of a source if and only if nothing disturbs it on the way.
Nothing does in a source without text blocks and without quotes as characters in which every
carriage return stands in front of a newline. -/
theorem finds_comments_iff {segments : List Segment} (h : isLexed segments = true) :
    (comments (textOf segments) = .ok (commentsOf 0 segments) ↔
      isUndisturbed .plain segments = true) ∧
    ((∀ s ∈ segments, s.isHarmless = true) → pairsReturns (textOf segments) = true →
      comments (textOf segments) = .ok (commentsOf 0 segments)) := by
  have hiff : comments (textOf segments) = .ok (commentsOf 0 segments) ↔
      isUndisturbed .plain segments = true := by
    rw [comments_eq_walk, Except.ok.injEq]
    exact walk_eq_commentsOf_iff h 0
  refine ⟨hiff, fun hsegments hreturns => ?_⟩
  exact hiff.2 (isUndisturbed_of_harmless h hsegments hreturns)

/-- A block comment of one quote, a slash as a character and an escaped quote in a string disturb
nothing. Neither does a text block without slashes, if its last line ends before the next comment. -/
theorem comments_between_literals_are_found :
    let ended := [.blockComment ['"'], .character ['/'], .string ['/', '/', '\\', '"'],
      .lineComment ['a', '\r'], .other '\n', .lineComment []]
    let block := [.textBlock ['\n', 'a', '"', '\n'], .other ';', .other '\n', .lineComment ['b']]
    (isLexed ended = true ∧ (∀ s ∈ ended, s.isHarmless = true) ∧
      pairsReturns (textOf ended) = true ∧
      comments (textOf ended) = .ok (commentsOf 0 ended)) ∧
    isLexed block = true ∧ isUndisturbed .plain block = true ∧
      comments (textOf block) = .ok (commentsOf 0 block) :=
  ⟨⟨by decide, by decide, by decide, (finds_comments_iff (by decide)).2 (by decide) (by decide)⟩,
    by decide, by decide, (finds_comments_iff (by decide)).1.2 (by decide)⟩

/-- The literal of a quote hides the comment behind it, and so do the closing quotes of a text
block. The start of a comment in a text block is taken for one, and a carriage return does not end
one. -/
theorem literals_mislead_search :
    let quote := [.character ['"'], .lineComment ['a']]
    let closing := [.textBlock ['\n'], .lineComment ['a']]
    let inside := [.textBlock ['\n', '/', '/', 'a', '\n']]
    let returned := [.lineComment ['a'], .other '\r', .other 'b']
    isLexed quote = true ∧ comments (textOf quote) = .ok [] ∧
      commentsOf 0 quote = [⟨3, ['/', '/', 'a']⟩] ∧
    isLexed closing = true ∧ comments (textOf closing) = .ok [] ∧
      commentsOf 0 closing = [⟨7, ['/', '/', 'a']⟩] ∧
    isLexed inside = true ∧ comments (textOf inside) = .ok [⟨4, ['/', '/', 'a']⟩] ∧
      commentsOf 0 inside = [] ∧
    isLexed returned = true ∧ comments (textOf returned) = .ok [⟨0, ['/', '/', 'a', '\r', 'b']⟩] ∧
      commentsOf 0 returned = [⟨0, ['/', '/', 'a']⟩] := by
  decide +kernel

end IfCollapse.Suppression
