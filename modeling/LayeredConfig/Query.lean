import LayeredConfig.Error
import LayeredConfig.Text.Blank
import LayeredConfig.Text.Pieces
/-!
# Queries

Which configuration is asked for: an application, its environments from the weakest to the
strongest, and optionally a datacenter and a zone within it.
-/
namespace LayeredConfig

/-- A query; made by `Query.of`, so names are trimmed, not empty, and no environment is repeated. -/
structure Query where
  app : String
  envs : List String
  datacenter : Option String
  zone : Option String
  deriving DecidableEq, Repr

namespace Query

/-- Environment names, trimmed, behind those in `done`: none may be empty or repeated. -/
def addEnvs (done : List String) : List String → Except ConfigError (List String)
  | [] => .ok done
  | env :: rest =>
    let name := Text.trim env
    if name.isEmpty then .error (.invalidQuery "environment names cannot be empty")
    else if done.contains name then
      .error (.invalidQuery ("environment '" ++ name ++ "' is listed more than once"))
    else addEnvs (done ++ [name]) rest

/-- A query from names as they were given. A blank datacenter or zone counts as absent. -/
def of (app : String) (envs : List String) (datacenter zone : Option String) :
    Except ConfigError Query :=
  let name := Text.trim app
  if name.isEmpty then .error (.invalidQuery "application name cannot be empty")
  else do
    let envs ← addEnvs [] envs
    pure ⟨name, envs, datacenter.bind Text.trimToOption, zone.bind Text.trimToOption⟩

def forApp (app : String) : Except ConfigError Query :=
  of app [] none none

/-- A query in words: only the parts that are present. -/
def describe (q : Query) : String :=
  "app=" ++ q.app ++
    (if q.envs.isEmpty then "" else " envs=" ++ String.intercalate "," q.envs) ++
    (match q.datacenter with | some d => " dc=" ++ d | none => "") ++
    (match q.zone with | some z => " zone=" ++ z | none => "")

end Query
end LayeredConfig
