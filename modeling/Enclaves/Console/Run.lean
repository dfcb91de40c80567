import Enclaves.Console.Demo
/-!
# Running a command line

From the words of a command line to what the caller of the program is told: that it is done, that a
command failed and why, or that the words made no sense. The configuration is read before any
command, whether the command needs it or not.
-/

namespace Enclaves.Console

/-- How a command line ended. -/
inductive Outcome where
  | done
  | failed (error : ActionError)
  | misused (fault : UsageFault)
  deriving DecidableEq, Repr

/-- The exit code. -/
def Outcome.code : Outcome → UInt8
  | .done => 0
  | .failed _ => 1
  | .misused _ => 2

def versionText : String := "encmon 0.1.0"

def helpText : String :=
  "Enclave monitor toolkit\n\n" ++
  "Usage: encmon [--config FILE] COMMAND\n\n" ++
  "Commands:\n" ++
  "  measure          Print the measurement of an image triple\n" ++
  "  platform-digest  Print the digest of a monitor image padded to the platform region\n" ++
  "  demo             Run two enclaves end to end on the simulated platform\n" ++
  "  inspect          Decode a binary report and print it as JSON\n" ++
  "  verify           Verify a binary report\n" ++
  "  help             Print this message"

variable {m : Type → Type} [Host m]

/-- A command under a configuration. -/
def Command.perform (config : Config) : Command → Action m Unit
  | .measure loader runtime app => Console.measure loader runtime app
  | .platformDigest image => Console.platformDigest config image
  | .demo out => Console.demo config out
  | .inspect report => Console.inspect report
  | .verify report publicKey nonce loader runtime subject root platform =>
    Console.verify report publicKey nonce loader runtime subject root platform

/-- What a request does. -/
def Request.perform : Request → Action m Unit
  | .help => line helpText
  | .version => line versionText
  | .run config command => do command.perform (← configuration config)

/-- Run a command line. -/
def run (words : List String) : m Outcome := do
  match parse words with
  | .error fault => return .misused fault
  | .ok request =>
    match ← (request.perform : Action m Unit).run with
    | .ok () => return .done
    | .error error => return .failed error

end Enclaves.Console
