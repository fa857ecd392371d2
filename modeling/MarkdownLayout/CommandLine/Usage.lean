/-!
# Texts of the command line

The name of the program, its version, the names that it offers to other programs, and the texts
that it prints about itself.
-/

namespace MarkdownLayout.CommandLine

/-- The name of the program. -/
def programName : String := "mdreflow"

/-- The version of the program. -/
def programVersion : String := "1.0.0"

/-- The names that the program offers to other programs, in order. -/
def publicNames : List String :=
  ["CommonMarkRenderer", "CommonMarkRendererOptions", "DependencyError", "Document", "EventType",
    "MarkdownParser", "MarkdownParserOptions", "MdreflowError", "NodeIterator", "ParsingError",
    "PrefixImbalanceError", "RenderingError", "UnknownNodeKindError", "ValidationError",
    "__version__", "parse_markdown", "reformat", "render_commonmark", "to_ast"]

/-- Lines, each with its end. -/
def unlines (lines : List String) : String :=
  String.join (lines.map (· ++ "\n"))

/-- How the program is used. -/
def usageText : String :=
  unlines
    ["usage: mdreflow [-h] [--out OUT] [--width WIDTH]",
      "                [--ordered-markers \x7bfixed,sequential\x7d]",
      "                [--no-escape-fenced-code] [--no-preserve-html] [--check]",
      "                [--log-level \x7bDEBUG,INFO,WARNING,ERROR,CRITICAL\x7d]",
      "                [--log-file LOG_FILE] [--trace] [--version]",
      "                [input]"]

/-- How the program is used, and what every option does. -/
def helpText : String :=
  usageText ++
    unlines
      ["",
        "Reformat Markdown as canonical, width-wrapped CommonMark.",
        "",
        "positional arguments:",
        "  input                 Markdown file to reformat ('-' or omitted reads stdin)",
        "",
        "options:",
        "  -h, --help            show this help message and exit",
        "  --out OUT, -o OUT     Write output to this file instead of stdout",
        "  --width WIDTH         Soft wrap width in columns (0 disables wrapping)",
        "                        (default: 65)",
        "  --ordered-markers \x7bfixed,sequential\x7d",
        "                        Ordered list marker style: 'fixed' (always 1.) or",
        "                        'sequential' (true ordinal)",
        "  --no-escape-fenced-code",
        "                        Disable: Escape special characters inside fenced code",
        "                        blocks",
        "  --no-preserve-html    Disable: Keep raw HTML blocks and inline HTML",
        "  --check               Exit with status 1 if the input is not already",
        "                        formatted; print nothing",
        "  --log-level \x7bDEBUG,INFO,WARNING,ERROR,CRITICAL\x7d",
        "                        Logging level (default: WARNING)",
        "  --log-file LOG_FILE   Also write log messages to this file",
        "  --trace               Verbose log format with timestamps and logger names",
        "  --version             show program's version number and exit"]

end MarkdownLayout.CommandLine
