/-!
# Texts of the command

The lines that say how the command is used, and the help that explains its
options.
-/

namespace LetFun.Command

/-- The command's name in its messages. -/
def program : String := "main.py"

def usage : String :=
  "usage: main.py [-h] [--file FILE | --expr EXPR | --interactive]\n" ++
  "               [--print-tokens] [--no-ast] [--json JSON_PATH] [--viz VIZ_PATH]\n" ++
  "               [--viz-format VIZ_FORMAT] [--verbose]\n"

def help : String :=
  usage ++ "\n" ++
  "Parse a let/fun expression from a file, the command line or stdin\n" ++
  "\n" ++
  "options:\n" ++
  "  -h, --help            show this help message and exit\n" ++
  "  --file FILE, -f FILE  Path to source file to process\n" ++
  "  --expr EXPR, -e EXPR  Source text to process\n" ++
  "  --interactive, -i     Start interactive REPL mode\n" ++
  "  --print-tokens        Print tokens\n" ++
  "  --no-ast              Do not print AST\n" ++
  "  --json JSON_PATH      Path to write the AST as JSON\n" ++
  "  --viz VIZ_PATH        Path (without extension) to write Graphviz\n" ++
  "                        visualization of the AST\n" ++
  "  --viz-format VIZ_FORMAT\n" ++
  "                        Format for Graphviz output (svg, png, pdf, etc)\n" ++
  "  --verbose, -v         Debug logging\n"

end LetFun.Command
