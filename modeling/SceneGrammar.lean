import SceneGrammar.Main
import SceneGrammar.Script.Run
import SceneGrammar.Service.Http
import SceneGrammar.Proofs.Consistency
import SceneGrammar.Proofs.Ownership
import SceneGrammar.Proofs.Rebuild
import SceneGrammar.Proofs.Engine.Refinement
import SceneGrammar.Proofs.Extent
import SceneGrammar.Proofs.Engine.Pauses
import SceneGrammar.Proofs.Engine.Requests
import SceneGrammar.Proofs.Diary.Refinement
import SceneGrammar.Proofs.Teardown.Exposure
import SceneGrammar.Proofs.Teardown.Objections
import SceneGrammar.Proofs.Descent
import SceneGrammar.Proofs.Growth.Congruence
import SceneGrammar.Proofs.Engine.SingleRoot
import SceneGrammar.Proofs.Engine.Lockstep
import SceneGrammar.Proofs.Engine.Reset
import SceneGrammar.Proofs.Engine.Headless
import SceneGrammar.Proofs.Teardown.Overheard
import SceneGrammar.Proofs.Delay
import SceneGrammar.Proofs.Engine.Refusal
import SceneGrammar.Proofs.Timing.Rescheduling
import SceneGrammar.Proofs.Timing.Blocking
import SceneGrammar.Proofs.Teardown.Deaths
import SceneGrammar.Proofs.Teardown.Clearing
import SceneGrammar.Proofs.Preorder
import SceneGrammar.Proofs.Kinematics
import SceneGrammar.Proofs.Replicas
import SceneGrammar.Proofs.Creation
import SceneGrammar.Proofs.Cityscape.Accounts
import SceneGrammar.Proofs.Choice
import SceneGrammar.Proofs.Reseeding
import SceneGrammar.Proofs.Relief.Levels
import SceneGrammar.Proofs.Rotations
import SceneGrammar.Proofs.Relief.Interpolation
import SceneGrammar.Proofs.Relief.Cells
import SceneGrammar.Proofs.Engine.Feed
