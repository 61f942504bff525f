/-
The grammars known by name, and how the root of one is set up.

`Catalogue.build` registers the grammar's templates, creates its root with a random source of the configured seed and,
if the configuration asks for one, attaches a height map.
-/
import SceneGrammar.City

namespace SceneGrammar.Catalogue

/-- the names of the bundled grammars -/
def known : List String := ["city"]

variable {α κ σ : Type} [Scalar α] [SymbolKind κ]

/-- attach a component to a shape, behind the others -/
def attachComponent (s : ShapeId) (c : Component α) : Prog α κ σ Unit := do
  let cs ← Prog.see fun w => w.componentsOf s
  Prog.act (.setComponents s (cs ++ [c]))

/-- the root of the configured grammar, not yet expanded; `number` tells its height map from others -/
def build (put : City.Kind α → κ) (config : Config α) (number : Nat) : Prog α κ σ ShapeId := do
  if !known.contains config.grammar then Prog.fail (.unknownGrammar config.grammar known)
  City.templates.entries.forM fun t => Prog.act (.register t)
  let source ← Prog.act (.newSource config.seed)
  let root ← Prog.act
    (.createRoot (.of (put (.city (.ofConfig config)))) "City" none .rest (some source))
  if config.useRelief then
    let m ← Prog.ofExcept ((Relief.noiseMap config.reliefPlan config.mapWidth config.mapHeight).mapError .relief)
    attachComponent root (.relief number m)
  return root

/-- the grammar of cities alone -/
def cityGrammar (nesting spare : Nat) : Grammar α (City.Kind α) σ :=
  { rule := City.rule id, nesting, spare }

end SceneGrammar.Catalogue
