/-!
Requests that have no answer. Every operation that can be asked for something that does not exist
returns one of these causes.
-/

namespace IfCollapse

inductive Fault where
  /-- A byte count left the range from 0 to `2 ^ 32 - 1`. -/
  | sizeOutOfRange
  /-- A span would end before it starts. -/
  | reversedSpan
  /-- An offset lies past the end of the text or inside a character. -/
  | outsideText
  | unknownLine
  | unknownElement
  /-- An edit would put an empty text in place. -/
  | emptyContent
  deriving DecidableEq, Repr

theorem bind_eq_ok {ε α β : Type} {x : Except ε α} {f : α → Except ε β} {b : β} :
    x >>= f = .ok b ↔ ∃ a, x = .ok a ∧ f a = .ok b := by
  cases x with
  | error why => simp [bind, Except.bind]
  | ok a => simp [bind, Except.bind]

theorem toOption_eq_some {ε α : Type} {x : Except ε α} {a : α} :
    x.toOption = some a ↔ x = .ok a := by
  cases x with
  | error why => simp [Except.toOption]
  | ok b => simp [Except.toOption]

theorem mapM_eq_ok {ε α β : Type} {f : α → Except ε β} {xs : List α} {ys : List β} :
    xs.mapM f = .ok ys ↔ xs.map f = ys.map .ok := by
  induction xs generalizing ys with
  | nil => cases ys <;> simp [pure, Except.pure]
  | cons x xs ih =>
    rw [List.mapM_cons, bind_eq_ok]
    constructor
    · rintro ⟨y, hy, h⟩
      obtain ⟨more, hmore, heq⟩ := bind_eq_ok.1 h
      have hys : y :: more = ys := Except.ok.inj heq
      rw [← hys, List.map_cons, List.map_cons, hy, ih.1 hmore]
    · intro h
      cases ys with
      | nil => simp at h
      | cons y ys =>
        rw [List.map_cons, List.map_cons, List.cons.injEq] at h
        exact ⟨y, h.1, bind_eq_ok.2 ⟨ys, ih.2 h.2, rfl⟩⟩

end IfCollapse
