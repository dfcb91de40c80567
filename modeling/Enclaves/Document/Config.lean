import Enclaves.Config
import Enclaves.Document.Value
import Enclaves.FileFault
import Enclaves.Utf8
/-!
# Configuration files

A configuration is a JSON record in which every field may be left out, in an object and at the end
of an array; the default stands in for it. `Config.ofFile` goes from the contents of a file to a
configuration that was accepted, with the first thing in the way as its fault.
-/

namespace Enclaves

open Json

/-- A field with a default. -/
def defaulted (name : String) (value : Nat) : Json.Field Nat :=
  { name, read := numberJson, absent := some value, beyond := some value }

namespace Config

def toJson (c : Config) : List Token :=
  object [("dram_base", [.natural c.dramBase]), ("total_pages", [.natural c.totalPages]),
    ("max_enclaves", [.natural c.maxEnclaves]), ("untrusted_pages", [.natural c.untrustedPages]),
    ("connector_pages", [.natural c.connectorPages]),
    ("connection_log_capacity", [.natural c.logCapacity]),
    ("mailbox_capacity", [.natural c.mailboxCapacity]),
    ("attest_data_max", [.natural c.attestDataMax]),
    ("platform_region_size", [.natural c.platformRegionSize])]

def json : Reader Config :=
  let base : Config := {}
  Reader.map
    (fun (dramBase, totalPages, maxEnclaves, untrustedPages, connectorPages, logCapacity,
        mailboxCapacity, attestDataMax, platformRegionSize, ()) =>
      ⟨dramBase, totalPages, maxEnclaves, untrustedPages, connectorPages, logCapacity,
        mailboxCapacity, attestDataMax, platformRegionSize⟩)
    (Fields.cons (defaulted "dram_base" base.dramBase)
      (.cons (defaulted "total_pages" base.totalPages)
        (.cons (defaulted "max_enclaves" base.maxEnclaves)
          (.cons (defaulted "untrusted_pages" base.untrustedPages)
            (.cons (defaulted "connector_pages" base.connectorPages)
              (.cons (defaulted "connection_log_capacity" base.logCapacity)
                (.cons (defaulted "mailbox_capacity" base.mailboxCapacity)
                  (.cons (defaulted "attest_data_max" base.attestDataMax)
                    (.cons (defaulted "platform_region_size" base.platformRegionSize)
                      .nil))))))))).record

/-- A configuration as the text of a file. -/
def toText (c : Config) : String := pretty c.toJson

end Config

/-- Why a file gives no configuration. -/
inductive ConfigError where
  | io (fault : FileFault)
  | parse
  | invalid (fault : ConfigFault)
  deriving DecidableEq, Repr

def ConfigError.message : ConfigError → String
  | .io fault => "Config I/O error: " ++ fault.message
  | .parse => "Config parse error"
  | .invalid fault => "Invalid config: " ++ fault.message

/-- The configuration in a file, from what reading the file gave. -/
def Config.ofFile (file : Except FileFault Bytes) : Except ConfigError Config :=
  match file with
  | .error fault => .error (.io fault)
  | .ok bytes =>
    match Utf8.decode bytes with
    | .error _ => .error (.io .notText)
    | .ok text =>
      match parse json text with
      | .error _ => .error .parse
      | .ok config =>
        match config.validate with
        | .error fault => .error (.invalid fault)
        | .ok () => .ok config

end Enclaves
