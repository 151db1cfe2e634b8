import FormatPreview.Options

/-!
The formatting engine as the library sees it: it resolves the project's configuration for a path and
formats a text. Each step takes some time on a clock that starts with the check of a file, and ends
in a value, in a failure or in a panic.
-/
namespace FormatPreview

/-- An error and its causes, outermost first. -/
structure Failure where
  summary : String
  causes : List String
deriving DecidableEq

namespace Failure

def of (summary : String) : Failure := ⟨summary, []⟩

/-- The error within a context that is named before it. -/
def within (f : Failure) (context : String) : Failure := ⟨context, f.summary :: f.causes⟩

def chain (f : Failure) : String := ": ".intercalate (f.summary :: f.causes)

end Failure

inductive Ending (α : Type) where
  | done (value : α)
  | failed (failure : Failure)
  | panicked (payload : Option String)

/-- What a panic says. Its payload need not be a text. -/
def panicMessage (payload : Option String) : String := payload.getD "unknown panic payload"

/-- A piece of work that ends after `delay` milliseconds. -/
structure Step (α : Type) where
  delay : Nat
  ending : Ending α

structure Engine where
  configuration : (path : String) → Step (Option Options)
  format : (content : String) → Options → Step String

end FormatPreview
