/-!
# Errors

Everything that can go wrong, one constructor per cause, and the wording of each. An error that was
brought about by another one carries it, so the chain of causes can be followed to its end.
-/
namespace LayeredConfig

/-- Why the file system could not deliver the content of a file as text. -/
inductive FileFault where
  | notFound
  | notADirectory
  | isADirectory
  | nameTooLong
  | notUtf8
  | nulInName
  | reported (message : String)
  deriving DecidableEq, Repr

/-- The system's wording. -/
def FileFault.message : FileFault → String
  | .notFound => "No such file or directory (os error 2)"
  | .notADirectory => "Not a directory (os error 20)"
  | .isADirectory => "Is a directory (os error 21)"
  | .nameTooLong => "File name too long (os error 36)"
  | .notUtf8 => "stream did not contain valid UTF-8"
  | .nulInName => "file name contained an unexpected NUL byte"
  | .reported message => message

mutual

/-- The errors of the library. -/
inductive ConfigError where
  | invalidQuery (message : String)
  | fileNotFound (path : String)
  | parse (path : String) (cause : Cause)
  | unsupportedFormat (format : String)
  | file (path : String) (fault : FileFault)
  | sourceFetch (name query : String) (cause : Cause)
  | transform (name : String) (cause : Cause)
  | extract (path message : String)
  | placeholder (path message : String)
  | creation (kind implementation config : String) (cause : Cause)
  | batchCreation (kind : String) (index : Nat) (implementation : String) (cause : ConfigError)
  | timeout (micros : Nat)
  | refreshAborted
  | noValue
  | closed (what : String)
  | reentrant (what : String)
  | invalidSettings (message : String)

/-- What brought an error about: a plain message, a document that breaks the rules of its format, a
document at which the reader broke down, or another error. -/
inductive Cause where
  | text (message : String)
  | malformed
  | breakdown
  | error (e : ConfigError)

end

instance : Inhabited ConfigError := ⟨.noValue⟩

/-- The default wording for a document that breaks the rules of its format. -/
def malformedDocument : String := "the document is malformed"

/-- The wording for a document at which the reader broke down. -/
def readerBrokeDown : String := "the reader broke down"

mutual

/-- The wording of an error; `malformed` is what is said of a document that breaks the rules of its
format. -/
def ConfigError.messageWith (malformed : String) : ConfigError → String
  | .invalidQuery message => "Invalid config query: " ++ message
  | .fileNotFound path => "Config file not found: " ++ path
  | .parse path cause => "Config parse error in " ++ path ++ ":\n  " ++ cause.messageWith malformed
  | .unsupportedFormat format => "Unsupported config format: '" ++ format ++ "'"
  | .file path fault => "I/O error on " ++ path ++ ": " ++ fault.message
  | .sourceFetch name query cause =>
    "Config source '" ++ name ++ "' failed for " ++ query ++ ": " ++ cause.messageWith malformed
  | .transform name cause =>
    "Transformer '" ++ name ++ "' failed: " ++ cause.messageWith malformed
  | .extract path message => "Cannot extract value at '" ++ path ++ "': " ++ message
  | .placeholder path message => "Cannot resolve placeholder at '" ++ path ++ "': " ++ message
  | .creation kind implementation config cause =>
    "Cannot create " ++ kind ++ " '" ++ implementation ++ "' from " ++ config ++ ": " ++
      cause.messageWith malformed
  | .batchCreation kind index implementation cause =>
    "Cannot create " ++ kind ++ " #" ++ toString index ++ " ('" ++ implementation ++ "'): " ++
      cause.messageWith malformed
  | .timeout micros =>
    "Timed out after " ++ toString (micros / 1000) ++ "ms waiting for the first configuration"
  | .refreshAborted => "Refresh was abandoned before it completed"
  | .noValue => "No value present"
  | .closed what => what ++ " is closed"
  | .reentrant what => "Re-entrant " ++ what ++ " during update dispatch"
  | .invalidSettings message => "Invalid settings: " ++ message
termination_by structural e => e

def Cause.messageWith (malformed : String) : Cause → String
  | .text message => message
  | .malformed => malformed
  | .breakdown => readerBrokeDown
  | .error e => e.messageWith malformed
termination_by structural cause => cause

end

def ConfigError.message (e : ConfigError) : String :=
  e.messageWith malformedDocument

mutual

/-- The wordings of everything that brought an error about, the nearest first. -/
def ConfigError.causesWith (malformed : String) : ConfigError → List String
  | .parse _ cause | .sourceFetch _ _ cause | .transform _ cause | .creation _ _ _ cause =>
    cause.chainWith malformed
  | .batchCreation _ _ _ cause => cause.messageWith malformed :: cause.causesWith malformed
  | .file _ fault => [fault.message]
  | _ => []
termination_by structural e => e

/-- The wording of a cause followed by those of its own causes. -/
def Cause.chainWith (malformed : String) : Cause → List String
  | .text message => [message]
  | .malformed => [malformed]
  | .breakdown => [readerBrokeDown]
  | .error e => e.messageWith malformed :: e.causesWith malformed
termination_by structural cause => cause

end

mutual

/-- The error came about because a reader broke down. It is not for anybody to pass over or to
report: it breaks off whatever is under way. -/
def ConfigError.isBreakdown : ConfigError → Bool
  | .parse _ cause | .sourceFetch _ _ cause | .transform _ cause | .creation _ _ _ cause =>
    cause.isBreakdown
  | .batchCreation _ _ _ cause => cause.isBreakdown
  | _ => false
termination_by structural e => e

/-- The cause is that a reader broke down. -/
def Cause.isBreakdown : Cause → Bool
  | .breakdown => true
  | .error e => e.isBreakdown
  | _ => false
termination_by structural cause => cause

end

/-- The error says that waiting took too long, not that a fetch failed. -/
def ConfigError.isTimeout : ConfigError → Bool
  | .timeout _ => true
  | _ => false

def ConfigError.isClosed : ConfigError → Bool
  | .closed _ => true
  | _ => false

end LayeredConfig
