/-!
# Texts of the command line
-/

namespace FormatAudit.CommandLine

/-- The version of the program. -/
def versionText : String := "varfmt 0.1.0\n"

/-- How the program is called. -/
def usageText : String :=
  "usage: varfmt [-h] [--version] [-v] [--cli] [--format \x7bgcc,json,sexp\x7d]\n" ++
  "              [--config FILE] [--no-args] [--funcs NAME[:INDEX],...]\n" ++
  "              [--no-infer] [--suppress ID_OR_GLOB]\n" ++
  "              DUMP [DUMP ...]\n"

/-- The help text. -/
def helpText : String :=
  usageText ++
  "\n" ++
  "varfmt — report variables passed as format strings to\n" ++
  "printf-like functions, except pass-throughs in wrappers.\n" ++
  "\n" ++
  "positional arguments:\n" ++
  "  DUMP                  Cppcheck dump file(s) (cppcheck --dump)\n" ++
  "\n" ++
  "options:\n" ++
  "  -h, --help            show this help message and exit\n" ++
  "  --version             show program's version number and exit\n" ++
  "  -v, --verbose         Increase verbosity (-v info, -vv debug).\n" ++
  "  --cli                 cppcheck addon mode: one JSON object per line on\n" ++
  "                        stdout.\n" ++
  "  --format \x7bgcc,json,sexp\x7d\n" ++
  "                        Output format (default: gcc).\n" ++
  "  --config FILE         S-expression settings file.\n" ++
  "  --no-args             Do not report calls that pass nothing beyond the\n" ++
  "                        format.\n" ++
  "  --funcs NAME[:INDEX],...\n" ++
  "                        Extra printf-like functions; INDEX is the format\n" ++
  "                        argument.\n" ++
  "  --no-infer            Do not infer printf wrappers from their definitions.\n" ++
  "  --suppress ID_OR_GLOB\n" ++
  "                        Suppress an error id, or every finding in matching\n" ++
  "                        files.\n" ++
  "\n" ++
  "examples:\n" ++
  "  varfmt file.c.dump\n" ++
  "  varfmt --funcs log_msg,die:1 --no-args file.c.dump\n" ++
  "  varfmt --config varfmt.sexp --format json file.c.dump\n"

end FormatAudit.CommandLine
