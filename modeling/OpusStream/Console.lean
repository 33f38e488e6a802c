import OpusStream.Printed

/-!
# The console

Options switch two things: whether diagnostics are wanted and whether the console is kept quiet. The
loggers that go by these flags come from a package outside, which is a parameter of all that is read:
`LineLogger.IsDocumented` is what that package is relied on for.
-/

namespace OpusStream

/-- A switch that was left out, was given without a value, or was set. -/
inductive Switch
  | omitted
  | cleared
  | set (on : Bool)
  deriving DecidableEq

-- A default stands in for a switch left out, not for one without a value.
def Switch.flag (default : Bool) : Switch → Option Bool
  | .omitted => some default
  | .cleared => none
  | .set on => some on

structure Options where
  debug : Switch := .omitted
  quiet : Switch := .omitted
  deriving DecidableEq

structure Flags where
  debug : Option Bool
  quiet : Option Bool
  deriving DecidableEq

def Options.flags (options : Options) : Flags where
  debug := options.debug.flag false
  quiet := options.quiet.flag true

/-- A logger, with the lines that a call of each of its methods prints. -/
structure Logger where
  isDebug : Bool
  isQuiet : Bool
  debug : String → List Line
  info : String → List Line
  warn : String → List Line
  error : String → List Line

namespace Logger

def silent : Logger where
  isDebug := false
  isQuiet := true
  debug _ := []
  info _ := []
  warn _ := []
  error _ := []

/-- Tell a logger that is there for diagnostics. -/
def note (logger : Logger) (text : String) : Printed Unit :=
  if logger.isDebug then ⟨(), logger.debug text⟩ else pure ()

end Logger

class LineLogger where
  console : Flags → Logger

def Options.console [LineLogger] (options : Options) : Logger := LineLogger.console options.flags

namespace LineLogger

/-- What the loggers on the console are documented to do with the calls that readings make. A flag
without a value is off. -/
structure IsDocumented [LineLogger] : Prop where
  isDebug : ∀ flags, (console flags).isDebug = flags.debug.getD false
  isQuiet : ∀ flags, (console flags).isQuiet = flags.quiet.getD false
  debug : ∀ flags text, (console flags).debug text =
    if (console flags).isDebug && !(console flags).isQuiet then [⟨.log, text⟩] else []

instance documented : LineLogger where
  console flags :=
    let isDebug := flags.debug.getD false
    let isQuiet := flags.quiet.getD false
    { isDebug := isDebug
      isQuiet := isQuiet
      debug := fun text => if isDebug && !isQuiet then [⟨.log, text⟩] else []
      info := fun text => if isQuiet then [] else [⟨.info, text⟩]
      warn := fun text => [⟨.warn, text⟩]
      error := fun text => [⟨.error, text⟩] }

theorem isDocumented_documented : IsDocumented where
  isDebug _ := rfl
  isQuiet _ := rfl
  debug _ _ := rfl

end LineLogger
end OpusStream
