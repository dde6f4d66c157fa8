import Patchbay.CommandLine.Arguments

/-!
# Help texts

What the program prints about itself and its errands.
-/

namespace Patchbay

/-- The name of the program with its version. -/
def versionText : String := "kumiko 0.1.0"

/-- The line on the settings file, with the options lined up at a column. -/
def settingsHelp (column : Nat) : String :=
  String.ofList (Text.padRight column "      --config <CONFIG>".toList) ++
    "Engine config file (defaults to the user config directory)"

/-- The line on help, with the options lined up at a column. -/
def helpHelp (column : Nat) : String :=
  String.ofList (Text.padRight column "  -h, --help".toList) ++ "Print help"

/-- The help on a part of the program. -/
def Topic.helpText : Topic → List String
  | program => [
    "kumiko patching runtime",
    "",
    "Usage: kumiko [OPTIONS] <COMMAND>",
    "",
    "Commands:",
    "  console  Edit a patch interactively, one command per line on stdin",
    "  render   Render a patch offline to a WAV file",
    "  run      Run a patch in real time until Ctrl+C",
    "  objects  List available objects",
    "  patches  List saved patches",
    "  help     Print this message or the help of the given subcommand(s)",
    "",
    "Options:",
    settingsHelp 25,
    helpHelp 25,
    "  -V, --version          Print version"]
  | console => [
    "Edit a patch interactively, one command per line on stdin",
    "",
    "Usage: kumiko console [OPTIONS] [PATCH]",
    "",
    "Arguments:",
    "  [PATCH]  Patch to open (path or saved patch name)",
    "",
    "Options:",
    settingsHelp 25,
    "  -q, --quiet            Suppress the prompt and banner (for piped input)",
    helpHelp 25]
  | render => [
    "Render a patch offline to a WAV file",
    "",
    "Usage: kumiko render [OPTIONS] --output <OUTPUT> <PATCH>",
    "",
    "Arguments:",
    "  <PATCH>  Patch to render (path or saved patch name)",
    "",
    "Options:",
    settingsHelp 35,
    "  -o, --output <OUTPUT>            Output WAV file",
    "  -s, --seconds <SECONDS>          Duration in seconds [default: 1.0]",
    "  -i, --input <INPUT>              WAV file fed to the patch's inputs",
    "      --sample-rate <SAMPLE_RATE>  Sample rate (defaults to the engine config)",
    "      --block-size <BLOCK_SIZE>    Block size (defaults to the engine config)",
    "      --bit-depth <BIT_DEPTH>      Output bit depth (16, 24 or 32 float) [default: 32]",
    "  -q, --quiet                      Hide the progress bar",
    helpHelp 35]
  | run => [
    "Run a patch in real time until Ctrl+C",
    "",
    "Usage: kumiko run [OPTIONS] <PATCH>",
    "",
    "Arguments:",
    "  <PATCH>  Patch to run (path or saved patch name)",
    "",
    "Options:",
    settingsHelp 35,
    "      --sample-rate <SAMPLE_RATE>  Sample rate (defaults to the engine config)",
    "      --block-size <BLOCK_SIZE>    Block size (defaults to the engine config)",
    "      --duration <DURATION>        Stop after this many seconds instead of waiting for Ctrl+C",
    helpHelp 35]
  | objects => [
    "List available objects",
    "",
    "Usage: kumiko objects [OPTIONS] [OBJECT]",
    "",
    "Arguments:",
    "  [OBJECT]  Show inlets, outlets and attributes of one object, e.g. \"osc~ 440\"",
    "",
    "Options:",
    settingsHelp 25,
    helpHelp 25]
  | patches => [
    "List saved patches",
    "",
    "Usage: kumiko patches [OPTIONS]",
    "",
    "Options:",
    settingsHelp 25,
    helpHelp 25]
  | help => [
    "Print this message or the help of the given subcommand(s)",
    "",
    "Usage: kumiko help [COMMAND]...",
    "",
    "Arguments:",
    "  [COMMAND]...  Print help for the subcommand(s)"]

end Patchbay
