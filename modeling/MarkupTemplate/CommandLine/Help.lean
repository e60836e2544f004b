/-!
# Help

What the program tells about itself.

* `usage`: how it is called.
* `helpText`: how it is called and what its arguments mean.
-/

namespace MarkupTemplate.CommandLine

/-- The name of the program. -/
def program : String := "xfmt"

/-- The version of the program, on a line. -/
def versionText : String := program ++ " 0.1.0\n"

/-- How the program is called. -/
def usage : String :=
  "usage: " ++ program ++ " [-h] [--vars JSON_FILE] [--var NAME=VALUE] [-o OUTPUT] [--verbose]\n"
    ++ "            [--version]\n"
    ++ "            template\n"

/-- How the program is called and what its arguments mean. -/
def helpText : String :=
  usage
    ++ "\n"
    ++ "Render an " ++ program ++ " template.\n"
    ++ "\n"
    ++ "positional arguments:\n"
    ++ "  template              template file\n"
    ++ "\n"
    ++ "options:\n"
    ++ "  -h, --help            show this help message and exit\n"
    ++ "  --vars JSON_FILE      JSON object with template variables\n"
    ++ "  --var NAME=VALUE      set one variable; VALUE is parsed as JSON when\n"
    ++ "                        possible (repeatable)\n"
    ++ "  -o OUTPUT, --output OUTPUT\n"
    ++ "                        write output to this file instead of stdout\n"
    ++ "  --verbose             enable debug logging\n"
    ++ "  --version             show program's version number and exit\n"

end MarkupTemplate.CommandLine
