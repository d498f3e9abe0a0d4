import IfCollapse.Suppression.Region
import IfCollapse.Proofs.Boundaries

/-! Finding comments byte by byte. The search looks only for ASCII bytes, and such a byte is a
character of its own wherever it stands in a text, so every comment that is found starts and ends
between characters. -/

namespace IfCollapse.Suppression

section Bytes

variable {text : List Char} {b : UInt8} {n : Nat}

@[simp] theorem bytesOf_cons (c : Char) (text : List Char) :
    bytesOf (c :: text) = String.utf8EncodeChar c ++ bytesOf text := rfl

theorem length_bytesOf (text : List Char) : (bytesOf text).length = byteLength text := by
  induction text with
  | nil => rfl
  | cons c text ih => simp [ih]

theorem utf8Size_of_ascii {c : Char} (hmem : b ∈ String.utf8EncodeChar c) (hb : b.toNat < 128) :
    c.utf8Size = 1 := by
  -- in a longer character each byte has its highest bit set
  have hhigh : ∀ m, 128 ≤ m → m < 256 → b ≠ UInt8.ofNat m := by
    intro m hm hlt hbm
    rw [hbm, UInt8.toNat_ofNat_of_lt' hlt] at hb
    omega
  have hsmall : c.val.toNat ≤ 127 := by
    by_contra hlarge
    simp only [String.utf8EncodeChar, if_neg hlarge] at hmem
    split at hmem
    · simp only [List.mem_cons, List.not_mem_nil, or_false] at hmem
      rcases hmem with h | h <;> exact hhigh _ (by omega) (by omega) h
    · split at hmem
      · simp only [List.mem_cons, List.not_mem_nil, or_false] at hmem
        rcases hmem with h | h | h <;> exact hhigh _ (by omega) (by omega) h
      · simp only [List.mem_cons, List.not_mem_nil, or_false] at hmem
        rcases hmem with h | h | h | h <;> exact hhigh _ (by omega) (by omega) h
  exact Char.utf8Size_eq_one_iff.2 hsmall

theorem isBoundary_cons {c : Char} (h : isBoundary text n = true) :
    isBoundary (c :: text) (c.utf8Size + n) = true := by
  obtain ⟨left, right, rfl, rfl⟩ := isBoundary_iff.1 h
  exact isBoundary_iff.2 ⟨c :: left, right, rfl, rfl⟩

theorem boundaries_of_ascii (h : (bytesOf text)[n]? = some b) (hb : b.toNat < 128) :
    isBoundary text n = true ∧ isBoundary text (n + 1) = true := by
  induction text generalizing n with
  | nil => simp [bytesOf] at h
  | cons c text ih =>
    rw [bytesOf_cons] at h
    by_cases hn : n < (String.utf8EncodeChar c).length
    · rw [List.getElem?_append_left hn] at h
      have hsize := utf8Size_of_ascii (List.mem_of_getElem? h) hb
      rw [String.length_utf8EncodeChar, hsize] at hn
      have hzero : n = 0 := by omega
      subst hzero
      have hnext := isBoundary_cons (c := c) (isBoundary_append [] text)
      rw [hsize] at hnext
      exact ⟨isBoundary_append [] (c :: text), hnext⟩
    · rw [List.getElem?_append_right (by omega), String.length_utf8EncodeChar] at h
      rw [String.length_utf8EncodeChar] at hn
      obtain ⟨hfirst, hsecond⟩ := ih h
      have hfirst := isBoundary_cons (c := c) hfirst
      have hsecond := isBoundary_cons (c := c) hsecond
      rw [show c.utf8Size + (n - c.utf8Size) = n by omega] at hfirst
      rw [show c.utf8Size + (n - c.utf8Size + 1) = n + 1 by omega] at hsecond
      exact ⟨hfirst, hsecond⟩

end Bytes

section Pieces

variable {bytes rest : List UInt8} {b : UInt8} {n skip : Nat}

theorem lineLength_cases (bytes : List UInt8) :
    lineLength bytes = bytes.length ∨ bytes[lineLength bytes]? = some newlineByte := by
  induction bytes with
  | nil => exact Or.inl rfl
  | cons b bytes ih =>
    by_cases hb : b = newlineByte
    · exact Or.inr (by simp [lineLength, hb])
    · have hlength : lineLength (b :: bytes) = lineLength bytes + 1 := by
        simp [lineLength, hb]
      rw [hlength]
      simpa using ih

theorem last_of_blockLength (h : blockLength? bytes = some n) :
    ∃ m, n = m + 1 ∧ bytes[m]? = some slashByte := by
  fun_induction blockLength? bytes generalizing n with
  | case1 => simp at h
  | case2 => simp at h
  | case3 b c rest hend =>
    refine ⟨1, by simpa using h.symm, ?_⟩
    simp [hend.2]
  | case4 b c rest hend ih =>
    obtain ⟨k, hk, rfl⟩ := Option.map_eq_some_iff.1 h
    obtain ⟨m, rfl, hm⟩ := ih hk
    exact ⟨m + 1, rfl, by simpa using hm⟩

theorem ends_of_comment (h : pieceAt b rest = .comment n skip) :
    b = slashByte ∧ (n = (b :: rest).length ∨ (b :: rest)[n]? = some newlineByte ∨
      ∃ m, n = m + 1 ∧ (b :: rest)[m]? = some slashByte) := by
  unfold pieceAt at h
  split at h
  · simp at h
  · split at h
    · rename_i hb
      refine ⟨hb, ?_⟩
      cases rest with
      | nil => simp at h
      | cons c rest =>
        simp only at h
        split at h
        · simp only [Piece.comment.injEq] at h
          rw [← h.1]
          cases lineLength_cases rest with
          | inl hend =>
            left
            simp only [List.length_cons]
            omega
          | inr hline =>
            right
            left
            rw [Nat.add_comm]
            simpa using hline
        · split at h
          · cases hblock : blockLength? rest with
            | none => simp [hblock] at h
            | some k =>
              simp only [hblock, Piece.comment.injEq] at h
              obtain ⟨m, rfl, hm⟩ := last_of_blockLength hblock
              exact Or.inr (Or.inr ⟨m + 2, by omega, by simpa using hm⟩)
          · simp at h
    · simp at h

end Pieces

theorem exists_commentSlice {source : List Char} {position n skip : Nat} {b : UInt8}
    {rest : List UInt8} (hbytes : (bytesOf source).drop position = b :: rest)
    (h : pieceAt b rest = .comment n skip) :
    ∃ span text, Span.make position (position + n) = .ok span ∧ slice source span = .ok text := by
  obtain ⟨rfl, hend⟩ := ends_of_comment h
  have hbyte : ∀ i, (bytesOf source)[position + i]? = (slashByte :: rest)[i]? := by
    intro i
    rw [← hbytes, List.getElem?_drop]
  have hstart : isBoundary source position = true :=
    (boundaries_of_ascii (hbyte 0) (by decide)).1
  have hstop : isBoundary source (position + n) = true := by
    rcases hend with hlast | hline | ⟨m, rfl, hslash⟩
    · have hlength : (bytesOf source).length = position + n := by
        have hdrop := congrArg List.length hbytes
        rw [List.length_drop, ← hlast] at hdrop
        have hpos : 0 < n := by simp [hlast]
        omega
      rw [← hlength, length_bytesOf]
      exact isBoundary_length source
    · exact (boundaries_of_ascii ((hbyte n).trans hline) (by decide)).1
    · exact (boundaries_of_ascii ((hbyte m).trans hslash) (by decide)).2
  have hle : position ≤ position + n := Nat.le_add_right position n
  have hslice : ∃ text, slice source ⟨position, position + n, hle⟩ = .ok text :=
    exists_slice hstart hstop
  obtain ⟨text, htext⟩ := hslice
  exact ⟨_, text, Span.make_of_le hle, htext⟩

theorem exists_commentsFrom (source : List Char) (fuel position : Nat) :
    ∃ found, commentsFrom source fuel position ((bytesOf source).drop position) = .ok found := by
  induction fuel generalizing position with
  | zero => cases (bytesOf source).drop position <;> exact ⟨[], rfl⟩
  | succ fuel ih =>
    cases hbytes : (bytesOf source).drop position with
    | nil => exact ⟨[], rfl⟩
    | cons b rest =>
      have hdrop : ∀ n, (b :: rest).drop n = (bytesOf source).drop (position + n) := by
        intro n
        rw [← hbytes, List.drop_drop]
      rw [commentsFrom]
      cases hpiece : pieceAt b rest with
      | unclosed => exact ⟨[], rfl⟩
      | code n =>
        simp only [hdrop]
        exact ih (position + n)
      | comment n skip =>
        obtain ⟨span, text, hspan, htext⟩ := exists_commentSlice hbytes hpiece
        obtain ⟨later, hlater⟩ := ih (position + n + skip)
        refine ⟨⟨position, text⟩ :: later, ?_⟩
        rw [Nat.add_assoc] at hlater
        simp only [hspan, htext, hdrop, Nat.add_assoc, hlater, bind, Except.bind, pure, Except.pure]

theorem exists_commentRegions (source : List Char) (filters : List Filter) :
    ∃ regions, commentRegions source filters = .ok regions := by
  obtain ⟨found, hfound⟩ := exists_commentsFrom source (bytesOf source).length 0
  rw [List.drop_zero] at hfound
  refine ⟨filters.flatMap fun filter => regionsOf filter found (Size.ofText source), ?_⟩
  simp [commentRegions, comments, hfound, bind, Except.bind, pure, Except.pure]

end IfCollapse.Suppression
