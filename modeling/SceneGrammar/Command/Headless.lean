/-
A generation without a server: request some builds, tick until everything pending has run, and print the tree.

The tick budget ends nothing. When it is spent and something is still pending, a warning is left and the ticks go on.
-/
import SceneGrammar.Catalogue
import SceneGrammar.Engine.Tick
import SceneGrammar.World.Report

namespace SceneGrammar.Command

variable {α : Type} [Scalar α]

/-- tick until no expansion is pending and no request waits, at most the given number of times -/
def settle (budget : Int) : Nat → Prog α (City.Kind α) Unit Unit
  | 0 => .fail .tooLong
  | ticks + 1 => do
    let more ← Engine.tick none
    let pending ← Prog.see fun w => w.agenda.pendingCount
    let l ← Engine.loop
    if pending = 0 ∧ l.requests.isEmpty then return
    if !more ∧ (l.tick : Int) = budget then Prog.act (.warn (.budgetSpent budget pending))
    settle budget ticks

/-- generate and answer the lines of the printed tree -/
def generate (config : Config α) (builds depth : Int) (patience : Nat) :
    Prog α (City.Kind α) Unit (List String) := do
  let root ← Catalogue.build id config 0
  let trigger ← Engine.makeTrigger root none false
  let desk ← Prog.see fun w => w.desk
  Prog.act (.setDesk { desk with loop := some (.fresh config trigger none) })
  Engine.start
  (List.replicate builds.toNat ()).forM fun _ => Engine.request ⟨config.regenerateDelay, none⟩
  let result : Except (Fault α) Unit ← Prog.attempt (settle (config.maxTicks.getD 0) patience) .done
  Engine.stop
  match result with
  | .error fault => Prog.fail fault
  | .ok _ => Prog.see fun w => w.outline (((w.shape? root).bind (·.node)).getD 0) depth

/-- the world that a generation starts from -/
def blank (config : Config α) (entropy : Entropy) : World α (City.Kind α) Unit :=
  { World.fresh entropy () with eager := config.eager }

end SceneGrammar.Command
