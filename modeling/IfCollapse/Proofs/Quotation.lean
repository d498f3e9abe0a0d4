import IfCollapse.Proofs.Scanning

/-! Finding comments character by character. What a character can start depends only on whether it
stands in code, in a string or behind a backslash, so the search over bytes is the same as a walk
over the characters that carries this mode along. -/

namespace IfCollapse.Suppression

inductive Mode where
  /-- Code: a comment or a string can begin here. -/
  | plain
  | quoted
  /-- Behind a backslash in a string. -/
  | escaped
  /-- Behind the start of a block comment that has no end. -/
  | stopped
  deriving DecidableEq, Repr

def blockEnd? : List Char → Option (List Char)
  | [] => none
  | c :: text =>
    if c = '*' ∧ text.head? = some '/' then some ['*', '/'] else (blockEnd? text).map (c :: ·)

def commentAt? : Mode → List Char → Option (List Char)
  | .plain, '/' :: '/' :: text => some ('/' :: '/' :: text.takeWhile (· ≠ '\n'))
  | .plain, '/' :: '*' :: text => (blockEnd? text).map ('/' :: '*' :: ·)
  | _, _ => none

def Mode.step : Mode → Char → (rest : List Char) → Mode
  | .plain, c, rest =>
    if c = '"' then .quoted else if c = '/' ∧ rest.head? = some '*' then .stopped else .plain
  | .quoted, c, _ =>
    if c = '\\' then .escaped else if c = '"' ∨ c = '\n' then .plain else .quoted
  | .escaped, _, _ => .quoted
  | .stopped, _, _ => .stopped

/-- The comments of a text that begins at `position`, in which the first `skip` characters belong to
a comment. -/
def walk : (mode : Mode) → (skip position : Nat) → List Char → List Comment
  | _, _, _, [] => []
  | mode, skip + 1, position, c :: text => walk mode skip (position + c.utf8Size) text
  | mode, 0, position, c :: text =>
    match commentAt? mode (c :: text) with
    | some comment =>
      ⟨position, comment⟩ :: walk .plain (comment.length - 1) (position + c.utf8Size) text
    | none => walk (mode.step c text) 0 (position + c.utf8Size) text

section Walk

variable {mode : Mode} {text rest comment : List Char} {position : Nat} {c : Char}

theorem walk_skip (mode : Mode) (position : Nat) (part rest : List Char) :
    walk mode part.length position (part ++ rest) =
      walk mode 0 (position + byteLength part) rest := by
  induction part generalizing position with
  | nil => rfl
  | cons c part ih =>
    rw [List.cons_append, List.length_cons, walk, ih, byteLength_cons, Nat.add_assoc]

theorem exists_of_blockEnd? (h : blockEnd? text = some comment) :
    ∃ rest, text = comment ++ rest := by
  induction text generalizing comment with
  | nil => simp [blockEnd?] at h
  | cons c text ih =>
    rw [blockEnd?] at h
    split at h
    · rename_i hend
      obtain ⟨rest, hrest⟩ := List.head?_eq_some_iff.1 hend.2
      refine ⟨rest, ?_⟩
      rw [← Option.some.inj h, hend.1, hrest]
      rfl
    · obtain ⟨body, hbody, rfl⟩ := Option.map_eq_some_iff.1 h
      obtain ⟨rest, rfl⟩ := ih hbody
      exact ⟨rest, rfl⟩

theorem commentAt?_cases (h : commentAt? mode text = some comment) :
    mode = .plain ∧ ∃ c d inner rest, comment = c :: d :: inner ∧ text = comment ++ rest := by
  unfold commentAt? at h
  split at h
  · rename_i text
    refine ⟨rfl, '/', '/', text.takeWhile (· ≠ '\n'), text.dropWhile (· ≠ '\n'),
      (Option.some.inj h).symm, ?_⟩
    rw [← Option.some.inj h, List.cons_append, List.cons_append, List.takeWhile_append_dropWhile]
  · obtain ⟨body, hbody, rfl⟩ := Option.map_eq_some_iff.1 h
    obtain ⟨rest, rfl⟩ := exists_of_blockEnd? hbody
    exact ⟨rfl, '/', '*', body, rest, rfl, rfl⟩
  · simp at h

theorem commentAt?_of_ne_plain (h : mode ≠ .plain) (text : List Char) :
    commentAt? mode text = none := by
  cases hcomment : commentAt? mode text with
  | none => rfl
  | some comment => exact absurd (commentAt?_cases hcomment).1 h

theorem commentAt?_of_ne_slash (h : c ≠ '/') (mode : Mode) (text : List Char) :
    commentAt? mode (c :: text) = none := by
  cases mode <;> simp [commentAt?, h]

theorem commentAt?_slash (hline : text.head? ≠ some '/') (hblock : text.head? ≠ some '*')
    (mode : Mode) : commentAt? mode ('/' :: text) = none := by
  cases mode with
  | plain =>
    cases text with
    | nil => rfl
    | cons d text => simp_all [commentAt?]
  | quoted => rfl
  | escaped => rfl
  | stopped => rfl

theorem walk_comment (h : commentAt? .plain (comment ++ rest) = some comment) (position : Nat) :
    walk .plain 0 position (comment ++ rest) =
      ⟨position, comment⟩ :: walk .plain 0 (position + byteLength comment) rest := by
  obtain ⟨_, c, d, inner, _, rfl, _⟩ := commentAt?_cases h
  rw [List.cons_append, walk, ← List.cons_append, h]
  change _ :: walk .plain (d :: inner).length _ ((d :: inner) ++ rest) = _
  rw [walk_skip, byteLength_cons c, Nat.add_assoc]

theorem walk_step (h : commentAt? mode (c :: text) = none) (position : Nat) :
    walk mode 0 position (c :: text) =
      walk (mode.step c text) 0 (position + c.utf8Size) text := by
  rw [walk, h]

theorem walk_stopped (position : Nat) (text : List Char) : walk .stopped 0 position text = [] := by
  induction text generalizing position with
  | nil => rfl
  | cons c text ih =>
    rw [walk_step (commentAt?_of_ne_plain (by simp) _)]
    exact ih _

end Walk

section Bytes

variable {text inside rest : List Char} {bytes : List UInt8} {b : UInt8} {c : Char}

theorem toNat_of_ascii (hmem : b ∈ String.utf8EncodeChar c) (hb : b.toNat < 128) :
    c.val.toNat = b.toNat := by
  have hsize := utf8Size_of_ascii hmem hb
  have hsmall : c.val.toNat ≤ 127 := Char.utf8Size_eq_one_iff.1 hsize
  rw [String.utf8EncodeChar_eq_singleton hsize, List.mem_singleton] at hmem
  rw [hmem, UInt32.toNat_toUInt8, Nat.mod_eq_of_lt (by omega)]

theorem eq_of_mem_utf8EncodeChar {d : Char} (hd : String.utf8EncodeChar d = [b])
    (hb : b.toNat < 128) (hmem : b ∈ String.utf8EncodeChar c) : c = d := by
  have hdmem : b ∈ String.utf8EncodeChar d := by simp [hd]
  exact Char.ext (UInt32.toNat_inj.1
    ((toNat_of_ascii hmem hb).trans (toNat_of_ascii hdmem hb).symm))

theorem ascii_not_mem_tail {first : UInt8} (h : String.utf8EncodeChar c = first :: bytes)
    (hmem : b ∈ bytes) : 128 ≤ b.toNat := by
  by_contra hb
  have hsize := utf8Size_of_ascii (c := c) (by rw [h]; exact List.mem_cons_of_mem _ hmem) (by omega)
  have hlength := congrArg List.length h
  rw [String.length_utf8EncodeChar, hsize, List.length_cons] at hlength
  rw [List.length_eq_zero_iff.1 (by omega : bytes.length = 0)] at hmem
  simp at hmem

theorem stringLength_append (h : ∀ b ∈ bytes, b ≠ backslashByte ∧ b ≠ quoteByte ∧ b ≠ newlineByte)
    (more : List UInt8) : stringLength (bytes ++ more) = bytes.length + stringLength more := by
  induction bytes with
  | nil => simp
  | cons b bytes ih =>
    obtain ⟨hback, hquote, hline⟩ := h b List.mem_cons_self
    have hrest := ih fun d hd => h d (List.mem_cons_of_mem b hd)
    have hstep : ∀ rest, stringLength (b :: rest) = 1 + stringLength rest := by
      intro rest
      cases rest <;> simp [stringLength, hback, hquote, hline]
    rw [List.cons_append, hstep, hrest, List.length_cons]
    omega

theorem lineLength_append (h : ∀ b ∈ bytes, b ≠ newlineByte) (more : List UInt8) :
    lineLength (bytes ++ more) = bytes.length + lineLength more := by
  have hall : ∀ b ∈ bytes, decide (b ≠ newlineByte) = true := by simpa using h
  rw [lineLength, lineLength, List.takeWhile_append_of_pos hall, List.length_append]

theorem blockLength?_append (h : ∀ b ∈ bytes, b ≠ starByte) (more : List UInt8) :
    blockLength? (bytes ++ more) = (blockLength? more).map (bytes.length + ·) := by
  induction bytes with
  | nil => simp
  | cons b bytes ih =>
    have hb := h b List.mem_cons_self
    have hrest := ih fun d hd => h d (List.mem_cons_of_mem b hd)
    have hstep : ∀ rest, blockLength? (b :: rest) = (blockLength? rest).map (· + 1) := by
      intro rest
      cases rest <;> simp [blockLength?, hb]
    rw [List.cons_append, hstep, hrest, Option.map_map, List.length_cons]
    congr 1
    funext n
    simp only [Function.comp_apply]
    omega

theorem bytesOf_lineLength (text : List Char) :
    lineLength (bytesOf text) = byteLength (text.takeWhile (· ≠ '\n')) := by
  induction text with
  | nil => rfl
  | cons c text ih =>
    by_cases hc : c = '\n'
    · subst hc
      have hencode : String.utf8EncodeChar '\n' = [newlineByte] := rfl
      simp [hencode, lineLength]
    · have hbytes : ∀ b ∈ String.utf8EncodeChar c, b ≠ newlineByte := by
        rintro b hb rfl
        exact hc (eq_of_mem_utf8EncodeChar rfl (by decide) hb)
      rw [bytesOf_cons, lineLength_append hbytes, ih, String.length_utf8EncodeChar]
      simp [hc]

theorem head?_bytesOf {d : Char} (hd : String.utf8EncodeChar d = [b]) (hb : b.toNat < 128) :
    (bytesOf text).head? = some b ↔ text.head? = some d := by
  cases text with
  | nil => simp [bytesOf]
  | cons c text =>
    rw [bytesOf_cons, List.head?_cons, Option.some.injEq]
    constructor
    · intro h
      apply eq_of_mem_utf8EncodeChar hd hb
      cases hencode : String.utf8EncodeChar c with
      | nil => exact absurd hencode String.utf8EncodeChar_ne_nil
      | cons first bytes =>
        rw [hencode, List.cons_append, List.head?_cons, Option.some.injEq] at h
        simp [h]
    · rintro rfl
      simp [hd]

theorem blockLength?_bytesOf (text : List Char) :
    blockLength? (bytesOf text) = (blockEnd? text).map byteLength := by
  induction text with
  | nil => rfl
  | cons c text ih =>
    rw [bytesOf_cons, blockEnd?]
    by_cases hstar : c = '*'
    · subst hstar
      have hencode : String.utf8EncodeChar '*' = [starByte] := rfl
      have hslash : (bytesOf text).head? = some slashByte ↔ text.head? = some '/' :=
        head?_bytesOf rfl (by decide)
      have hstep : blockLength? (starByte :: bytesOf text) =
          if (bytesOf text).head? = some slashByte then some 2
          else (blockLength? (bytesOf text)).map (· + 1) := by
        cases bytesOf text <;> simp [blockLength?]
      rw [hencode, List.singleton_append, hstep]
      by_cases hend : text.head? = some '/'
      · rw [if_pos (hslash.2 hend), if_pos ⟨rfl, hend⟩]
        rfl
      · rw [if_neg (mt hslash.1 hend), if_neg (by simp [hend]), ih, Option.map_map, Option.map_map]
        have hsize : '*'.utf8Size = 1 := rfl
        simp [Function.comp_def, hsize, Nat.add_comm]
    · have hne : ∀ b ∈ String.utf8EncodeChar c, b ≠ starByte := by
        rintro b hb rfl
        exact hstar (eq_of_mem_utf8EncodeChar rfl (by decide) hb)
      rw [if_neg (by simp [hstar]), blockLength?_append hne, ih, Option.map_map, Option.map_map]
      simp [Function.comp_def]

/-- From behind a quote the search leaves the string where the walk does. -/
structure Leaves (text inside rest : List Char) : Prop where
  text_eq : text = inside ++ rest
  bytes : (bytesOf text).drop (stringLength (bytesOf text)) = bytesOf rest
  length : stringLength (bytesOf text) = byteLength inside
  walked : ∀ position, walk .quoted 0 position text =
    walk .plain 0 (position + byteLength inside) rest

theorem leaves_end (hc : c = '"' ∨ c = '\n') (text : List Char) : Leaves (c :: text) [c] text := by
  have hlength : ∃ b, String.utf8EncodeChar c = [b] ∧ stringLength (b :: bytesOf text) = 1 := by
    rcases hc with rfl | rfl
    · exact ⟨quoteByte, rfl, by cases bytesOf text <;> rfl⟩
    · exact ⟨newlineByte, rfl, by cases bytesOf text <;> rfl⟩
  obtain ⟨b, hb, hlength⟩ := hlength
  have hsize : c.utf8Size = 1 := by rcases hc with rfl | rfl <;> rfl
  have hback : c ≠ '\\' := by rcases hc with rfl | rfl <;> decide
  refine ⟨rfl, ?_, ?_, ?_⟩
  · rw [bytesOf_cons, hb, List.singleton_append, hlength, List.drop_one, List.tail_cons]
  · rw [bytesOf_cons, hb, List.singleton_append, hlength]
    simp [hsize]
  · intro position
    rw [walk_step (commentAt?_of_ne_plain (by simp) _)]
    simp [Mode.step, hback, hc]

theorem Leaves.cons (h : Leaves text inside rest) (hback : c ≠ '\\') (hquote : c ≠ '"')
    (hline : c ≠ '\n') : Leaves (c :: text) (c :: inside) rest := by
  have hbytes : ∀ b ∈ String.utf8EncodeChar c,
      b ≠ backslashByte ∧ b ≠ quoteByte ∧ b ≠ newlineByte := by
    intro b hb
    refine ⟨?_, ?_, ?_⟩ <;> rintro rfl
    · exact hback (eq_of_mem_utf8EncodeChar rfl (by decide) hb)
    · exact hquote (eq_of_mem_utf8EncodeChar rfl (by decide) hb)
    · exact hline (eq_of_mem_utf8EncodeChar rfl (by decide) hb)
  refine ⟨by rw [h.text_eq]; rfl, ?_, ?_, ?_⟩
  · rw [bytesOf_cons, stringLength_append hbytes, List.drop_length_add_append, h.bytes]
  · rw [bytesOf_cons, stringLength_append hbytes, h.length, String.length_utf8EncodeChar,
      byteLength_cons]
  · intro position
    rw [walk_step (commentAt?_of_ne_plain (by simp) _)]
    simp [Mode.step, hback, hquote, hline, h.walked, Nat.add_assoc]

theorem Leaves.escape (h : Leaves text inside rest) (d : Char) :
    Leaves ('\\' :: d :: text) ('\\' :: d :: inside) rest := by
  obtain ⟨first, bytes, hd⟩ := List.exists_cons_of_ne_nil (String.utf8EncodeChar_ne_nil (c := d))
  have hbytes : ∀ b ∈ bytes, b ≠ backslashByte ∧ b ≠ quoteByte ∧ b ≠ newlineByte := by
    intro b hb
    have hlarge := ascii_not_mem_tail hd hb
    refine ⟨?_, ?_, ?_⟩ <;> rintro rfl <;> exact absurd hlarge (by decide)
  have hsize : d.utf8Size = bytes.length + 1 := by
    rw [← String.length_utf8EncodeChar, hd, List.length_cons]
  have hencode : bytesOf ('\\' :: d :: text) = backslashByte :: first :: (bytes ++ bytesOf text) := by
    rw [bytesOf_cons, bytesOf_cons, hd]
    rfl
  have hlength : stringLength (backslashByte :: first :: (bytes ++ bytesOf text)) =
      bytes.length + stringLength (bytesOf text) + 2 := by
    rw [stringLength, if_pos rfl, stringLength_append hbytes]
    omega
  refine ⟨by rw [h.text_eq]; rfl, ?_, ?_, ?_⟩
  · rw [hencode, hlength, List.drop_succ_cons, List.drop_succ_cons, List.drop_length_add_append,
      h.bytes]
  · have hback : '\\'.utf8Size = 1 := rfl
    rw [hencode, hlength, h.length, byteLength_cons, byteLength_cons, hback, hsize]
    omega
  · intro position
    rw [walk_step (commentAt?_of_ne_plain (by simp) _),
      walk_step (commentAt?_of_ne_plain (by simp [Mode.step]) _)]
    simp [Mode.step, h.walked, Nat.add_assoc]

theorem leaves_nil : Leaves [] [] [] :=
  ⟨rfl, rfl, rfl, fun _ => rfl⟩

theorem exists_leaves : ∀ text : List Char, ∃ inside rest, Leaves text inside rest
  | [] => ⟨[], [], leaves_nil⟩
  | [c] => by
    by_cases hend : c = '"' ∨ c = '\n'
    · exact ⟨[c], [], leaves_end hend []⟩
    · by_cases hback : c = '\\'
      · exact ⟨[c], [], rfl, hback ▸ rfl, hback ▸ rfl, fun _ => hback ▸ rfl⟩
      · rw [not_or] at hend
        exact ⟨[c], [], leaves_nil.cons hback hend.1 hend.2⟩
  | c :: d :: text => by
    by_cases hend : c = '"' ∨ c = '\n'
    · exact ⟨[c], d :: text, leaves_end hend (d :: text)⟩
    · by_cases hback : c = '\\'
      · obtain ⟨inside, rest, h⟩ := exists_leaves text
        exact ⟨_, rest, hback ▸ h.escape d⟩
      · obtain ⟨inside, rest, h⟩ := exists_leaves (d :: text)
        rw [not_or] at hend
        exact ⟨c :: inside, rest, h.cons hback hend.1 hend.2⟩

end Bytes

section Search

variable {source left text : List Char} {fuel position : Nat}

theorem commentsFrom_skip {bytes : List UInt8} (h : ∀ b ∈ bytes, 128 ≤ b.toNat)
    (source : List Char) (fuel position : Nat) (more : List UInt8) :
    commentsFrom source (bytes.length + fuel) position (bytes ++ more) =
      commentsFrom source fuel (position + bytes.length) more := by
  induction bytes generalizing position with
  | nil => simp
  | cons b bytes ih =>
    have hb := h b List.mem_cons_self
    have hquote : b ≠ quoteByte := by rintro rfl; exact absurd hb (by decide)
    have hslash : b ≠ slashByte := by rintro rfl; exact absurd hb (by decide)
    have hpiece : pieceAt b (bytes ++ more) = .code 1 := by simp [pieceAt, hquote, hslash]
    rw [List.cons_append, List.length_cons, Nat.add_right_comm, commentsFrom, hpiece]
    simp only [List.drop_one, List.tail_cons]
    rw [ih (fun d hd => h d (List.mem_cons_of_mem b hd)), Nat.add_right_comm, Nat.add_assoc]

theorem pieceAt_slash {bytes : List UInt8} (hline : bytes.head? ≠ some slashByte)
    (hblock : bytes.head? ≠ some starByte) : pieceAt slashByte bytes = .code 1 := by
  have hquote : slashByte ≠ quoteByte := by decide
  cases bytes with
  | nil => simp [pieceAt, hquote]
  | cons b bytes => simp_all [pieceAt]

theorem pieceAt_block (bytes : List UInt8) : pieceAt slashByte (starByte :: bytes) =
    (blockLength? bytes).elim .unclosed fun n => .comment (2 + n) 0 := by
  have hquote : slashByte ≠ quoteByte := by decide
  have hslash : starByte ≠ slashByte := by decide
  cases hlength : blockLength? bytes <;> simp [pieceAt, hquote, hslash, hlength]

theorem slice_comment {comment rest : List Char} (h : source = left ++ comment ++ rest) :
    ∃ span, Span.make (byteLength left) (byteLength left + byteLength comment) = .ok span ∧
      slice source span = .ok comment := by
  refine ⟨_, Span.make_of_le (Nat.le_add_right _ _), slice_eq_ok.2 ⟨left, rest, h, rfl, ?_⟩⟩
  rw [byteLength_append]

/-- With `fuel` steps left, the search and the walk find the same comments in any rest of the source
that takes no more steps. -/
def Agrees (source : List Char) (fuel : Nat) : Prop :=
  ∀ left text, source = left ++ text → byteLength text ≤ fuel →
    commentsFrom source fuel (byteLength left) (bytesOf text) =
      .ok (walk .plain 0 (byteLength left) text)

theorem Agrees.string (h : Agrees source fuel) (hsource : source = left ++ '"' :: text)
    (hfuel : byteLength text ≤ fuel) :
    commentsFrom source (fuel + 1) (byteLength left) (bytesOf ('"' :: text)) =
      .ok (walk .plain 0 (byteLength left) ('"' :: text)) := by
  obtain ⟨inside, rest, hleaves⟩ := exists_leaves text
  have hsize : '"'.utf8Size = 1 := rfl
  have hpiece : pieceAt quoteByte (bytesOf text) = .code (1 + stringLength (bytesOf text)) := rfl
  have hbytes : bytesOf ('"' :: text) = quoteByte :: bytesOf text := rfl
  have hmode : Mode.plain.step '"' text = .quoted := rfl
  rw [walk_step rfl, hmode, hleaves.walked, hsize, hbytes, commentsFrom, hpiece]
  simp only [Nat.add_comm 1, List.drop_succ_cons, hleaves.bytes]
  have htext := hleaves.text_eq
  have hposition : byteLength left + (stringLength (bytesOf text) + 1) =
      byteLength (left ++ '"' :: inside) := by
    rw [hleaves.length, byteLength_append, byteLength_cons, hsize]
    omega
  have hfound := h (left ++ '"' :: inside) rest (by rw [hsource, htext]; simp) (by
    rw [htext, byteLength_append] at hfuel
    omega)
  rw [hposition, hfound, byteLength_append, byteLength_cons, hsize, Nat.add_assoc]

theorem commentsFrom_comment {comment rest : List Char} {b : UInt8} {bytes : List UInt8}
    {skip : Nat} (hsource : source = left ++ comment ++ rest)
    (hbytes : bytesOf (comment ++ rest) = b :: bytes)
    (hpiece : pieceAt b bytes = .comment (byteLength comment) skip) (fuel : Nat) :
    commentsFrom source (fuel + 1) (byteLength left) (bytesOf (comment ++ rest)) =
      (commentsFrom source fuel (byteLength (left ++ comment) + skip)
        ((bytesOf rest).drop skip)).map (⟨byteLength left, comment⟩ :: ·) := by
  obtain ⟨span, hspan, hslice⟩ := slice_comment hsource
  have hdrop : (b :: bytes).drop (byteLength comment + skip) = (bytesOf rest).drop skip := by
    have happend : bytesOf (comment ++ rest) = bytesOf comment ++ bytesOf rest :=
      List.flatMap_append
    rw [← hbytes, happend, ← length_bytesOf, List.drop_length_add_append]
  rw [hbytes, commentsFrom, hpiece]
  simp only [hspan, hslice, hdrop, bind, Except.bind, byteLength_append]
  cases commentsFrom source fuel (byteLength left + byteLength comment + skip)
      ((bytesOf rest).drop skip) <;> rfl

/-- The search skips the newline behind a line comment, where the walk sees nothing. -/
theorem Agrees.line (h : Agrees source fuel) (hsource : source = left ++ '/' :: '/' :: text)
    (hfuel : byteLength text ≤ fuel) :
    commentsFrom source (fuel + 1) (byteLength left) (bytesOf ('/' :: '/' :: text)) =
      .ok (walk .plain 0 (byteLength left) ('/' :: '/' :: text)) := by
  have hsize : '/'.utf8Size = 1 := rfl
  obtain ⟨line, rest, hline, hrest, htext⟩ : ∃ line rest, text.takeWhile (· ≠ '\n') = line ∧
      text.dropWhile (· ≠ '\n') = rest ∧ text = line ++ rest :=
    ⟨_, _, rfl, rfl, List.takeWhile_append_dropWhile.symm⟩
  have hpiece : pieceAt slashByte (slashByte :: bytesOf text) =
      .comment (byteLength ('/' :: '/' :: line)) 1 := by
    rw [byteLength_cons, byteLength_cons, ← hline, ← bytesOf_lineLength, hsize, ← Nat.add_assoc]
    rfl
  have hsplit : '/' :: '/' :: text = ('/' :: '/' :: line) ++ rest := by
    rw [htext]
    rfl
  have hat : commentAt? .plain (('/' :: '/' :: line) ++ rest) = some ('/' :: '/' :: line) := by
    rw [← hsplit, ← hline]
    rfl
  have hbytes : bytesOf (('/' :: '/' :: line) ++ rest) = slashByte :: slashByte :: bytesOf text := by
    rw [← hsplit]
    rfl
  rw [hsplit, ← List.append_assoc] at hsource
  rw [hsplit, walk_comment hat, commentsFrom_comment hsource hbytes hpiece]
  cases rest with
  | nil => simp [bytesOf, commentsFrom, walk, Except.map]
  | cons c rest =>
    have hc : c = '\n' := by
      have hhead := List.head?_dropWhile_not (fun c => decide (c ≠ '\n')) text
      rw [hrest] at hhead
      simpa using hhead
    subst hc
    have hfound := h (left ++ '/' :: '/' :: line ++ ['\n']) rest (by rw [hsource]; simp) (by
      rw [htext, byteLength_append, byteLength_cons] at hfuel
      omega)
    have hdrop : (bytesOf ('\n' :: rest)).drop 1 = bytesOf rest := rfl
    have hnewline : '\n'.utf8Size = 1 := rfl
    rw [byteLength_append, byteLength_cons, byteLength_nil, hnewline] at hfound
    rw [hdrop, hfound, walk_step rfl, hnewline, ← byteLength_append]
    rfl

theorem Agrees.block (h : Agrees source fuel) (hsource : source = left ++ '/' :: '*' :: text)
    (hfuel : byteLength text ≤ fuel) :
    commentsFrom source (fuel + 1) (byteLength left) (bytesOf ('/' :: '*' :: text)) =
      .ok (walk .plain 0 (byteLength left) ('/' :: '*' :: text)) := by
  have hslash : '/'.utf8Size = 1 := rfl
  have hstar : '*'.utf8Size = 1 := rfl
  have hbytes : bytesOf ('/' :: '*' :: text) = slashByte :: starByte :: bytesOf text := rfl
  have hpiece : pieceAt slashByte (starByte :: bytesOf text) =
      ((blockEnd? text).map byteLength).elim .unclosed fun n => .comment (2 + n) 0 := by
    rw [← blockLength?_bytesOf, pieceAt_block]
  have hat : commentAt? .plain ('/' :: '*' :: text) = (blockEnd? text).map ('/' :: '*' :: ·) := rfl
  cases hend : blockEnd? text with
  | none =>
    rw [hend] at hpiece hat
    have hmode : Mode.plain.step '/' ('*' :: text) = .stopped := rfl
    rw [walk_step hat, hmode, walk_stopped, hbytes, commentsFrom, hpiece]
    rfl
  | some body =>
    obtain ⟨rest, rfl⟩ := exists_of_blockEnd? hend
    have hlength : byteLength ('/' :: '*' :: body) = 2 + byteLength body := by
      rw [byteLength_cons, byteLength_cons, hslash, hstar]
      omega
    rw [hend] at hpiece hat
    have hcomment : source = left ++ '/' :: '*' :: body ++ rest := by simp [hsource]
    have hfound := h (left ++ '/' :: '*' :: body) rest hcomment (by
      rw [byteLength_append] at hfuel
      omega)
    change commentsFrom source (fuel + 1) _ (bytesOf (('/' :: '*' :: body) ++ rest)) =
      .ok (walk .plain 0 _ (('/' :: '*' :: body) ++ rest))
    rw [walk_comment hat, commentsFrom_comment hcomment hbytes (by rw [hpiece, hlength]; rfl),
      Nat.add_zero, List.drop_zero, hfound, byteLength_append]
    rfl

theorem Agrees.code {c : Char} (h : ∀ m ≤ fuel, Agrees source m) (hsource : source = left ++ c :: text)
    (hfuel : byteLength (c :: text) ≤ fuel + 1) (hat : commentAt? .plain (c :: text) = none)
    (hmode : Mode.plain.step c text = .plain)
    (hpiece : ∀ b bytes, bytesOf (c :: text) = b :: bytes → pieceAt b bytes = .code 1) :
    commentsFrom source (fuel + 1) (byteLength left) (bytesOf (c :: text)) =
      .ok (walk .plain 0 (byteLength left) (c :: text)) := by
  obtain ⟨first, bytes, hc⟩ := List.exists_cons_of_ne_nil (String.utf8EncodeChar_ne_nil (c := c))
  have hsize : c.utf8Size = bytes.length + 1 := by
    rw [← String.length_utf8EncodeChar, hc, List.length_cons]
  have hbytes : bytesOf (c :: text) = first :: (bytes ++ bytesOf text) := by
    rw [bytesOf_cons, hc]
    rfl
  rw [byteLength_cons, hsize] at hfuel
  obtain ⟨less, rfl⟩ := Nat.exists_eq_add_of_le (by omega : bytes.length ≤ fuel)
  have hfound := h less (by omega) (left ++ [c]) text (by simp [hsource]) (by omega)
  rw [walk_step hat, hmode, hbytes, commentsFrom, hpiece _ _ hbytes]
  simp only [List.drop_one, List.tail_cons]
  rw [commentsFrom_skip (fun b hb => ascii_not_mem_tail hc hb), Nat.add_assoc, Nat.add_comm 1,
    ← hsize]
  simpa using hfound

theorem agrees (source : List Char) (fuel : Nat) : Agrees source fuel := by
  induction fuel using Nat.strongRecOn with
  | ind fuel ih =>
    intro left text hsource hfuel
    cases text with
    | nil => simp [bytesOf, commentsFrom, walk]
    | cons c text =>
      have hc := c.utf8Size_pos
      have hpos : 1 ≤ fuel := by
        rw [byteLength_cons] at hfuel
        omega
      obtain ⟨fuel, rfl⟩ := Nat.exists_eq_add_of_le' hpos
      have hless : Agrees source fuel := ih fuel (by omega)
      have hall : ∀ m ≤ fuel, Agrees source m := fun m hm => ih m (by omega)
      by_cases hquote : c = '"'
      · subst hquote
        exact hless.string hsource (by rw [byteLength_cons] at hfuel; omega)
      · by_cases hslash : c = '/'
        · subst hslash
          by_cases hline : text.head? = some '/'
          · obtain ⟨text, rfl⟩ := List.head?_eq_some_iff.1 hline
            exact hless.line hsource (by simp only [byteLength_cons] at hfuel; omega)
          · by_cases hblock : text.head? = some '*'
            · obtain ⟨text, rfl⟩ := List.head?_eq_some_iff.1 hblock
              exact hless.block hsource (by simp only [byteLength_cons] at hfuel; omega)
            · refine Agrees.code hall hsource hfuel (commentAt?_slash hline hblock _)
                (by simp [Mode.step, hblock]) ?_
              intro b bytes hbytes
              have hcons : slashByte :: bytesOf text = b :: bytes := hbytes
              rw [List.cons.injEq] at hcons
              rw [← hcons.1, ← hcons.2]
              have hnoline := mt (head?_bytesOf (d := '/') rfl (by decide)).1 hline
              have hnoblock := mt (head?_bytesOf (d := '*') rfl (by decide)).1 hblock
              exact pieceAt_slash hnoline hnoblock
        · refine Agrees.code hall hsource hfuel (commentAt?_of_ne_slash hslash _ _)
            (by simp [Mode.step, hquote, hslash]) ?_
          intro b bytes hbytes
          obtain ⟨hnoquote, hnoslash⟩ : b ≠ quoteByte ∧ b ≠ slashByte := by
            have hhead := congrArg List.head? hbytes
            refine ⟨?_, ?_⟩ <;> rintro rfl
            · have hd := (head?_bytesOf (d := '"') rfl (by decide)).1 hhead
              exact hquote (Option.some.inj hd)
            · have hd := (head?_bytesOf (d := '/') rfl (by decide)).1 hhead
              exact hslash (Option.some.inj hd)
          simp [pieceAt, hnoquote, hnoslash]

theorem comments_eq_walk (source : List Char) : comments source = .ok (walk .plain 0 0 source) :=
  agrees source (bytesOf source).length [] source rfl (Nat.le_of_eq (length_bytesOf source).symm)

end Search

end IfCollapse.Suppression
