import IfCollapse.Log.Directive

/-!
The filter that selects log events.
-/

namespace IfCollapse

structure LogFilter where
  directives : List Directive
  deriving DecidableEq, Repr

namespace LogFilter

def upTo (level : Level) : LogFilter :=
  ⟨[{ detail := level.detail }]⟩

/-- Directives with commas between them; without any, only errors are shown. -/
def read? (text : List Char) : Option LogFilter := do
  let directives ← ((pieces ',' text).filter (· ≠ [])).mapM Directive.read?
  return if directives.isEmpty then upTo .error else ⟨directives.filterMap id⟩

def decisive? (filter : LogFilter) (e : Event) : Option Directive :=
  (filter.directives.filter (·.covers e)).foldl (fun best d =>
    match best with
    | some b => if b.yields d then some d else some b
    | none => some d) none

/-- Events that no directive is about are not shown. -/
def shows (filter : LogFilter) (e : Event) : Bool :=
  (filter.decisive? e).any (e.level.detail ≤ ·.detail)

end LogFilter

end IfCollapse
