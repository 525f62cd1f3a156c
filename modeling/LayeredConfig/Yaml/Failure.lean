/-!
# Failures

Why a YAML document could not be read. A document may break the rules, which is for the caller to
report; or it may be more than the reader can hold, at which the reader gives up altogether.
-/
namespace LayeredConfig.Yaml

/-- Why a document could not be read. -/
inductive Failure where
  | malformed
  | breakdown
  deriving DecidableEq, Repr

end LayeredConfig.Yaml
