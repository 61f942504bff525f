/-
The configuration of a generation run.
-/
import SceneGrammar.Relief.NoiseMap

namespace SceneGrammar

/-- everything a run can be told -/
structure Config (α : Type) where
  /-- the name of the grammar -/
  grammar : String
  /-- zero asks for a different result every time -/
  seed : Int
  /-- symbols expand as soon as they are created -/
  eager : Bool
  /-- a loop builds its root when it starts -/
  buildOnStart : Bool
  /-- seconds between deletion and expansion of the start-up build -/
  regenerateDelay : α
  /-- seconds between ticks -/
  tickRate : α
  /-- ticks until a loop reports its end -/
  maxTicks : Option Int
  blocksX : Int
  blocksY : Int
  blockSize : α
  maxFloors : Int
  emptyLotChance : α
  waterLevel : α
  /-- the root carries a height map -/
  useRelief : Bool
  mapWidth : Int
  mapHeight : Int
  noiseScale : α
  noiseOctaves : Int
  noisePersistence : α
  noiseLacunarity : α
  noiseOffsetX : α
  noiseOffsetY : α
  useFalloff : Bool
  logLevel : String

namespace Config

variable {α : Type}

/-- what holds unless something else is asked for -/
def standard [Scalar α] : Config α :=
  { grammar := "city", seed := 12345, eager := true
    buildOnStart := true, regenerateDelay := 0.0
    tickRate := 0.05, maxTicks := none
    blocksX := 4, blocksY := 4, blockSize := 12.0, maxFloors := 6, emptyLotChance := 0.15, waterLevel := 0.3
    useRelief := false, mapWidth := 64, mapHeight := 64, noiseScale := 50.0, noiseOctaves := 4
    noisePersistence := 0.5, noiseLacunarity := 2.0, noiseOffsetX := 0.0, noiseOffsetY := 0.0
    useFalloff := false, logLevel := "INFO" }

/-- what is asked for on a command line, for whichever command -/
def asked [Scalar α] (grammar : String) (seed : Int) (useRelief : Bool) (logLevel : String) : Config α :=
  { standard with grammar, seed, useRelief, logLevel }

/-- nothing is built unless it is requested, with a delay, and the loop reports its end after a number of ticks -/
def onRequest (c : Config α) (delay : α) (ticks : Int) : Config α :=
  { c with regenerateDelay := delay, buildOnStart := false, maxTicks := some ticks }

/-- the plan of the root's height map -/
def reliefPlan (c : Config α) : Relief.Plan α :=
  { scale := c.noiseScale, octaves := c.noiseOctaves, persistence := c.noisePersistence
    lacunarity := c.noiseLacunarity, seed := c.seed, offsetX := c.noiseOffsetX, offsetY := c.noiseOffsetY
    falloff := c.useFalloff }

end Config

end SceneGrammar
