/-
The program: reads the command line, generates, prints.
-/
import SceneGrammar.Command.Headless
import SceneGrammar.Command.Line
import SceneGrammar.LogLine

namespace SceneGrammar.Command

/-- rules inside one another, and appointments or ticks in a row, that the program puts up with -/
def nestingLimit : Nat := 5000

@[inherit_doc nestingLimit] def tickLimit : Nat := 1000000000

@[inherit_doc nestingLimit] def appointmentLimit : Nat := 100000

/-- a pool of keys spread from one random word -/
def freshEntropy : IO Entropy := do
  let bytes ← IO.getRandomBytes 8
  let word := bytes.toList.foldl (fun w b => w * 256 + UInt64.ofNat b.toNat) 0
  return ⟨fun n => Xxh64.digest word [UInt64.ofNat n], 0⟩

/-- generate without a server, with the tree on standard output and warnings on standard error -/
def runHeadless (h : Headless) : IO UInt32 := do
  let program := generate h.config h.builds h.depth tickLimit
  let entropy ← freshEntropy
  let result := program.run (Catalogue.cityGrammar nestingLimit appointmentLimit) (blank h.config entropy)
  let world := match result with
    | .ok _ world => world
    | .error _ world => world
  let setup := LogLine.setUp (some h.config.logLevel)
  for x in world.warnings do
    for line in setup.lines "generation" .warning x.message do IO.eprintln line
  match result with
  | .ok lines _ =>
    for line in lines do IO.println line
    return 0
  | .error fault _ =>
    IO.eprintln (fault.message.getD "generation failed")
    return 1

/-- say what a server would serve; the transport is up to the host -/
def runServe (s : Serve) : IO UInt32 := do
  IO.println ("serving grammar '" ++ s.config.grammar ++ "' at " ++ s.host ++ ":" ++ toString s.port)
  return 0

/-- do what a command line asks for -/
def run (words : List String) : IO UInt32 :=
  match Line.parse words with
  | .ok (.headless h) => runHeadless h
  | .ok (.serve s) => runServe s
  | .error .help => do
    IO.println "usage: (serve | cli) [options]"
    return 0
  | .error .usage => do
    IO.eprintln "usage: (serve | cli) [options]"
    return 2

end SceneGrammar.Command

/-- run the program -/
def main (words : List String) : IO UInt32 := SceneGrammar.Command.run words
