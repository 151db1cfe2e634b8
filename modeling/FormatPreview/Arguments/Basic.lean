/-!
What a command line asks for.
-/
namespace FormatPreview

structure Arguments where
  targets : List String
  noColor : Bool
  parser : Option String
deriving DecidableEq

end FormatPreview
