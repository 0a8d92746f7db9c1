import BlockScope.CommandLine.Standard

open BlockScope

/-- Run the command with the filter of the log that the environment sets, if it sets one. -/
def main (arguments : List String) : IO UInt32 := do
  let display := CommandLine.Tools.standard.run arguments (← IO.getEnv "RUST_LOG")
  IO.eprint display.stderr
  IO.print display.stdout
  return display.exitCode.toUInt32
