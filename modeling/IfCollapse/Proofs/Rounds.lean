import IfCollapse.Proofs.Replay

/-! The rounds of the search for comments. A round begins at any byte, also inside a character, and
ends further back, so the search ends after at most one round for each byte. What a round cuts out
of the source begins and ends between characters wherever the round begins. -/

namespace IfCollapse.Suppression

structure Round where
  next : Nat
  cut : Option Span
  deriving DecidableEq, Repr

/-- The round that begins at a byte. There is none behind the last byte, and none where a block
comment without an end begins. -/
def round? (bytes : List UInt8) (position : Nat) : Option Round :=
  match bytes.drop position with
  | [] => none
  | b :: rest =>
    match pieceAt b rest with
    | .code length => some ⟨position + length, none⟩
    | .comment length skip =>
      some ⟨position + length + skip, some ⟨position, position + length, Nat.le_add_right _ _⟩⟩
    | .unclosed => none

inductive Rounds (bytes : List UInt8) : (position : Nat) → List Round → Prop
  | ended {position : Nat} : round? bytes position = none → Rounds bytes position []
  | more {position : Nat} {round : Round} {rounds : List Round} :
    round? bytes position = some round → Rounds bytes round.next rounds →
      Rounds bytes position (round :: rounds)

section Step

variable {source : List Char} {bytes rest : List UInt8} {position n : Nat} {b : UInt8}
  {round : Round}

theorem length_pos_of_code (h : pieceAt b rest = .code n) : 0 < n := by
  unfold pieceAt at h
  split at h
  · simp only [Piece.code.injEq] at h
    omega
  · split at h
    · cases rest with
      | nil => simp only [Piece.code.injEq] at h; omega
      | cons c rest =>
        simp only at h
        split at h
        · simp at h
        · split at h
          · cases hblock : blockLength? rest <;> simp [hblock] at h
          · simp only [Piece.code.injEq] at h
            omega
    · simp only [Piece.code.injEq] at h
      omega

theorem round?_cases (h : round? bytes position = some round) : ∃ b rest,
    bytes.drop position = b :: rest ∧
      ((∃ n, pieceAt b rest = .code n ∧ round = ⟨position + n, none⟩) ∨
        ∃ n skip, pieceAt b rest = .comment n skip ∧ round = ⟨position + n + skip,
          some ⟨position, position + n, Nat.le_add_right _ _⟩⟩) := by
  unfold round? at h
  cases hbytes : bytes.drop position with
  | nil => simp [hbytes] at h
  | cons b rest =>
    refine ⟨b, rest, rfl, ?_⟩
    rw [hbytes] at h
    cases hpiece : pieceAt b rest with
    | code n => exact Or.inl ⟨n, rfl, by simpa [hpiece] using h.symm⟩
    | comment n skip => exact Or.inr ⟨n, skip, rfl, by simpa [hpiece] using h.symm⟩
    | unclosed => simp [hpiece] at h

theorem lt_next_of_round? (h : round? bytes position = some round) :
    position < round.next ∧ position < bytes.length := by
  obtain ⟨b, rest, hbytes, hround⟩ := round?_cases h
  have hlength := congrArg List.length hbytes
  rw [List.length_drop, List.length_cons] at hlength
  refine ⟨?_, by omega⟩
  rcases hround with ⟨n, hpiece, rfl⟩ | ⟨n, skip, hpiece, rfl⟩
  · have hpos := length_pos_of_code hpiece
    simp only
    omega
  · have hpos := length_pos_of_comment hpiece
    simp only
    omega

theorem exists_slice_of_round? {span : Span} (h : round? (bytesOf source) position = some round)
    (hcut : round.cut = some span) : ∃ text, slice source span = .ok text := by
  obtain ⟨b, rest, hbytes, hround⟩ := round?_cases h
  rcases hround with ⟨n, hpiece, rfl⟩ | ⟨n, skip, hpiece, rfl⟩
  · simp at hcut
  · obtain ⟨made, text, hmade, htext⟩ := exists_commentSlice hbytes hpiece
    rw [Span.make_of_le (Nat.le_add_right _ _), Except.ok.injEq] at hmade
    simp only [Option.some.injEq] at hcut
    rw [← hcut, hmade]
    exact ⟨text, htext⟩

end Step

theorem exists_rounds (bytes : List UInt8) (position : Nat) :
    ∃ rounds, Rounds bytes position rounds ∧ rounds.length ≤ bytes.length - position := by
  -- the bytes that are left become fewer with each round
  induction hleft : bytes.length - position using Nat.strong_induction_on generalizing position with
  | _ left ih =>
    cases hround : round? bytes position with
    | none => exact ⟨[], .ended hround, Nat.zero_le left⟩
    | some round =>
      have hlt := lt_next_of_round? hround
      obtain ⟨rounds, hrounds, hlength⟩ :=
        ih (bytes.length - round.next) (by omega) round.next rfl
      refine ⟨round :: rounds, .more hround hrounds, ?_⟩
      rw [List.length_cons]
      omega

def Takes (source : List Char) (span : Span) (comment : Comment) : Prop :=
  comment.start = span.start ∧ slice source span = .ok comment.text

section Run

variable {source : List Char} {position : Nat} {round : Round} {rounds : List Round}

theorem commentsFrom_of_ended (h : round? (bytesOf source) position = none) (fuel : Nat) :
    commentsFrom source fuel position ((bytesOf source).drop position) = .ok [] := by
  unfold round? at h
  cases hbytes : (bytesOf source).drop position with
  | nil => rw [commentsFrom]
  | cons b rest =>
    cases fuel with
    | zero => rfl
    | succ fuel =>
      rw [hbytes] at h
      rw [commentsFrom]
      cases hpiece : pieceAt b rest <;> simp [hpiece] at h ⊢

theorem commentsFrom_of_round (h : round? (bytesOf source) position = some round) :
    ∃ more, List.Forall₂ (Takes source) round.cut.toList more ∧ ∀ fuel found,
      commentsFrom source fuel round.next ((bytesOf source).drop round.next) = .ok found →
        commentsFrom source (fuel + 1) position ((bytesOf source).drop position) =
          .ok (more ++ found) := by
  obtain ⟨b, rest, hbytes, hround⟩ := round?_cases h
  have hdrop : ∀ n, (b :: rest).drop n = (bytesOf source).drop (position + n) := by
    intro n
    rw [← hbytes, List.drop_drop]
  rcases hround with ⟨n, hpiece, rfl⟩ | ⟨n, skip, hpiece, rfl⟩
  · refine ⟨[], .nil, fun fuel found hlater => ?_⟩
    rw [hbytes, commentsFrom]
    simp only [hpiece, hdrop]
    exact hlater
  · obtain ⟨span, text, hspan, htext⟩ := exists_commentSlice hbytes hpiece
    have hmade := Span.make_of_le (Nat.le_add_right position n)
    rw [hspan, Except.ok.injEq] at hmade
    refine ⟨[⟨position, text⟩], .cons ⟨rfl, hmade ▸ htext⟩ .nil, fun fuel found hlater => ?_⟩
    simp only [Nat.add_assoc] at hlater
    rw [hbytes, commentsFrom]
    simp only [hpiece, hspan, htext, hdrop, Nat.add_assoc, hlater, bind, Except.bind, pure,
      Except.pure, List.singleton_append]

theorem commentsFrom_of_rounds (h : Rounds (bytesOf source) position rounds) :
    ∃ found, List.Forall₂ (Takes source) (rounds.filterMap (·.cut)) found ∧
      ∀ fuel, (bytesOf source).length - position ≤ fuel →
        commentsFrom source fuel position ((bytesOf source).drop position) = .ok found := by
  induction h with
  | ended hnone => exact ⟨[], .nil, fun fuel _ => commentsFrom_of_ended hnone fuel⟩
  | @more position round rounds hround _ ih =>
    obtain ⟨found, htakes, hfound⟩ := ih
    obtain ⟨more, hmore, hstep⟩ := commentsFrom_of_round hround
    have hlt := lt_next_of_round? hround
    have hcuts : (round :: rounds).filterMap (·.cut) =
        round.cut.toList ++ rounds.filterMap (·.cut) := by
      rw [List.filterMap_cons]
      cases round.cut <;> rfl
    refine ⟨more ++ found, hcuts ▸ List.rel_append hmore htakes, fun fuel hfuel => ?_⟩
    cases fuel with
    | zero => omega
    | succ fuel => exact hstep fuel found (hfound fuel (by omega))

end Run

/-- Each round of the search ends behind where it begins, and what it cuts out lies in the source
between characters, at whatever byte it begins. So the search has only so many rounds, whatever the
fuel, and gives every filter the comments that they cut out. -/
theorem search_advances_and_ends (source : List Char) :
    (∀ position round, round? (bytesOf source) position = some round →
      position < round.next ∧ ∀ span, round.cut = some span →
        span.stop ≤ byteLength source ∧ isBoundary source span.start = true ∧
          isBoundary source span.stop = true) ∧
    ∃ rounds found, Rounds (bytesOf source) 0 rounds ∧ rounds.length ≤ byteLength source ∧
      List.Forall₂ (Takes source) (rounds.filterMap (·.cut)) found ∧
      (∀ spare, commentsFrom source (byteLength source + spare) 0 (bytesOf source) = .ok found) ∧
      ∀ filters, commentRegions source filters =
        .ok (filters.flatMap fun filter => regionsOf filter found (Size.ofText source)) := by
  constructor
  · intro position round hround
    refine ⟨(lt_next_of_round? hround).1, fun span hcut => ?_⟩
    obtain ⟨text, htext⟩ := exists_slice_of_round? hround hcut
    obtain ⟨left, right, hsource, _, hstop⟩ := slice_eq_ok.1 htext
    refine ⟨?_, boundaries_of_slice htext⟩
    rw [hsource, hstop, byteLength_append (left ++ text)]
    exact Nat.le_add_right _ _
  · obtain ⟨rounds, hrounds, hlength⟩ := exists_rounds (bytesOf source) 0
    obtain ⟨found, htakes, hfound⟩ := commentsFrom_of_rounds hrounds
    rw [Nat.sub_zero, length_bytesOf] at hlength
    rw [Nat.sub_zero, length_bytesOf, List.drop_zero] at hfound
    refine ⟨rounds, found, hrounds, hlength, htakes, fun spare => hfound _ (by omega), ?_⟩
    intro filters
    have hcomments : comments source = .ok found := by
      rw [comments, length_bytesOf]
      exact hfound _ (Nat.le_refl _)
    simp [commentRegions, hcomments, bind, Except.bind, pure, Except.pure]

/-- A backslash before a character of two bytes, a comment, and a backslash at the end. -/
def escapedText : List Char :=
  "\"\\é\" // ü\n\"\\".toList

/-- The comment ends between characters although it ends in one of two bytes, a round can begin in
the middle of that, and the last string leads to the end although it is not closed. -/
theorem escaped_text_is_searched : ∃ comment inside last span,
    round? (bytesOf escapedText) 6 = some comment ∧ comment.cut = some span ∧
    isBoundary escapedText span.start = true ∧ isBoundary escapedText span.stop = true ∧
    isBoundary escapedText 10 = false ∧ round? (bytesOf escapedText) 10 = some inside ∧
    10 < inside.next ∧ round? (bytesOf escapedText) 12 = some last ∧ 12 < last.next ∧
    last.next = byteLength escapedText := by
  have hcomment : round? (bytesOf escapedText) 6 = some ⟨12, some ⟨6, 11, by decide⟩⟩ := by decide
  have hinside : round? (bytesOf escapedText) 10 = some ⟨11, none⟩ := by decide
  have hlast : round? (bytesOf escapedText) 12 = some ⟨14, none⟩ := by decide
  obtain ⟨hrounds, _⟩ := search_advances_and_ends escapedText
  have hcut := (hrounds 6 _ hcomment).2 _ rfl
  exact ⟨_, _, _, _, hcomment, rfl, hcut.2.1, hcut.2.2, by decide, hinside,
    (hrounds 10 _ hinside).1, hlast, (hrounds 12 _ hlast).1, by decide⟩

end IfCollapse.Suppression
