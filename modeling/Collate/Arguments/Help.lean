/-!
The texts that explain the command line.
-/
namespace Collate.Help

def version : String :=
  "concat 1.0.0\n"

def unlines (lines : List String) : String :=
  String.join (lines.map (· ++ "\n"))

def brief : String :=
  unlines [
    "Concatenate every file of one extension under a directory into a single file",
    "",
    "Usage: concat [OPTIONS] <EXTENSION>",
    "",
    "Arguments:",
    "  <EXTENSION>  File extension to collect, without the leading dot",
    "",
    "Options:",
    "  -r, --root <DIR>                     Root directory (defaults to the current directory)",
    "      --output-name <NAME>             Output file name (default: concat.txt)",
    "  -c, --config <CONFIG>                Path to TOML configuration file",
    "      --include-hidden                 Also search hidden files and directories",
    "      --follow-links                   Follow symbolic links while searching",
    "      --max-depth <N>                  Maximum directory depth to descend into",
    "      --output-format <OUTPUT_FORMAT>  Output format for results [default: human] [possible values: human, json, plain]",
    "  -v, --verbose...                     Verbose output level (-v, -vv, -vvv)",
    "  -q, --quiet                          Quiet mode (suppress non-essential output)",
    "      --dry-run                        List the files that would be concatenated without writing anything",
    "  -h, --help                           Print help (see more with '--help')",
    "  -V, --version                        Print version",
    "",
    "EXAMPLES:",
    "  concat rs",
    "  concat md --root docs",
    "  concat py --dry-run",
    "  concat toml --output-format json"]

def full : String :=
  unlines [
    "concat walks a directory tree, collects every file whose name ends with .<EXTENSION> and writes them into one output file (concat.txt by default), each preceded by a `# <relative path>` header line.",
    "",
    "Usage: concat [OPTIONS] <EXTENSION>",
    "",
    "Arguments:",
    "  <EXTENSION>",
    "          File extension to collect, without the leading dot",
    "",
    "Options:",
    "  -r, --root <DIR>",
    "          Root directory (defaults to the current directory)",
    "",
    "      --output-name <NAME>",
    "          Output file name (default: concat.txt)",
    "",
    "  -c, --config <CONFIG>",
    "          Path to TOML configuration file",
    "",
    "      --include-hidden",
    "          Also search hidden files and directories",
    "",
    "      --follow-links",
    "          Follow symbolic links while searching",
    "",
    "      --max-depth <N>",
    "          Maximum directory depth to descend into",
    "",
    "      --output-format <OUTPUT_FORMAT>",
    "          Output format for results",
    "",
    "          Possible values:",
    "          - human: Human-readable colored output",
    "          - json:  JSON formatted output",
    "          - plain: Plain text output",
    "          ",
    "          [default: human]",
    "",
    "  -v, --verbose...",
    "          Verbose output level (-v, -vv, -vvv)",
    "",
    "  -q, --quiet",
    "          Quiet mode (suppress non-essential output)",
    "",
    "      --dry-run",
    "          List the files that would be concatenated without writing anything",
    "",
    "  -h, --help",
    "          Print help (see a summary with '-h')",
    "",
    "  -V, --version",
    "          Print version",
    "",
    "EXAMPLES:",
    "  concat rs",
    "  concat md --root docs",
    "  concat py --dry-run",
    "  concat toml --output-format json"]

end Collate.Help
