/-!
The help texts of the command line.
-/
namespace FormatPreview.Arguments

def version : String := "prettier-diffcheck 0.1.0\n"

def page (lines : List String) : String := String.join (lines.map (· ++ "\n"))

def shortHelp : String := page [
  "prettier-diffcheck - Show Prettier formatting differences",
  "",
  "Usage: prettier-diffcheck [OPTIONS] [PATH_OR_GLOB]...",
  "",
  "Arguments:",
  "  [PATH_OR_GLOB]...  Files or glob patterns to check",
  "",
  "Options:",
  "      --no-color       Disable colored output",
  "      --parser <NAME>  Parser to use instead of the one inferred from the file name",
  "  -h, --help           Print help (see more with '--help')",
  "  -V, --version        Print version"]

def longHelp : String := page [
  "prettier-diffcheck - Show Prettier formatting differences",
  "",
  "Shows what changes Prettier would make to your files without actually modifying them. " ++
    "Exits with status 1 when any file needs formatting.",
  "",
  "Usage: prettier-diffcheck [OPTIONS] [PATH_OR_GLOB]...",
  "",
  "Arguments:",
  "  [PATH_OR_GLOB]...",
  "          Files or glob patterns to check",
  "",
  "Options:",
  "      --no-color",
  "          Disable colored output",
  "",
  "      --parser <NAME>",
  "          Parser to use instead of the one inferred from the file name",
  "",
  "  -h, --help",
  "          Print help (see a summary with '-h')",
  "",
  "  -V, --version",
  "          Print version"]

end FormatPreview.Arguments
