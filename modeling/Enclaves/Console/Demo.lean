import Enclaves.Console.Offline
/-!
# The demonstration

Two enclaves from launch to teardown on the simulated platform: measured, connected, passing
messages, attested and verified, once with the right nonce and once with another. On request it
leaves everything behind that a later verification needs.
-/

namespace Enclaves.Console

variable {m : Type → Type} [Host m] {α : Type}

/-- An action with a monitor at hand. -/
abbrev Supervised (m : Type → Type) [Host m] (α : Type) := StateT Monitor (ExceptT ActionError m) α

/-- An action beside the monitor. -/
def aside (action : Action m α) : Supervised m α := StateT.lift action

/-- Print a line. -/
def say (text : String) : Supervised m Unit := aside (line text)

/-- Call the monitor. -/
def call (operation : Monitor → Except MonitorError α × Monitor) : Supervised m α := do
  let (result, monitor) := operation (← get)
  set monitor
  aside (check ActionError.monitor result)

/-- Ask the monitor. -/
def ask (query : Monitor → Except MonitorError α) : Supervised m α := do
  aside (check ActionError.monitor (query (← get)))

/-- Bytes repeated up to a length. -/
def cycled (text : String) (length : Nat) : Bytes :=
  let bytes := Utf8.encode text
  (List.replicate (length / bytes.length + 1) bytes).flatten.take length

def repeated (text : String) (count : Nat) : Bytes :=
  (List.replicate count (Utf8.encode text)).flatten

def demoPlatformImage : Bytes := Utf8.encode "encmon simulated security monitor v1"
def demoLoader : Bytes := cycled "loader:" 6000
def demoRuntime : Bytes := cycled "runtime:" 9000

def demoSensor : Bundle :=
  ⟨"/apps/sensor.eapp", ⟨demoLoader, demoRuntime, repeated "sensor-app " 300⟩⟩

def demoActuator : Bundle :=
  ⟨"/apps/actuator.eapp", ⟨demoLoader, demoRuntime, repeated "actuator-app " 200⟩⟩

/-- The messages that pass from one enclave to the other. -/
def demoReadings : List String := ["temp=21.5", "temp=21.7", "temp=22.0"]

def demoBanner : String :=
  "\n╔══════════════════════════════════════════════════════════════╗\n" ++
  "║              encmon — Simulated Monitor Demo                 ║\n" ++
  "║       Measure + Connect + Mailbox + Attest + Verify          ║\n" ++
  "╚══════════════════════════════════════════════════════════════╝\n"

/-- A heading with the number of a step. -/
def heading (text : String) : Supervised m Unit := do
  say text
  say rule

/-- Bring an enclave up to where it runs. -/
def launch (bundle : Bundle) : Supervised m EnclaveId := do
  let id ← call (·.allocate (bundle.image.pages + 4))
  let layout ← call (·.load id bundle)
  let _ ← call (·.finalize id layout)
  let _ ← call (·.run id)
  let digest ← ask (·.measurement id)
  say s!"  {id.describe} {bundle.reference} digest={digest.short}"
  return id

/-- A received message without the zeros that fill it up. -/
def messageText (message : Bytes) : String :=
  match Utf8.decode (message.reverse.dropWhile (· = 0)).reverse with
  | .ok text => text
  | .error _ => ""

/-- Send a message and receive it on the other side. -/
def handOver (outbox inbox : MailboxId) (receiver : EnclaveId) (reading : String) :
    Supervised m Unit := do
  match (← get).send? outbox (Utf8.encode reading) with
  | none => pure ()
  | some (_, monitor) =>
    match monitor.receive? inbox monitor.config.mailboxCapacity with
    | none => set monitor
    | some (message, monitor) =>
      set monitor
      say s!"  {receiver.describe} received: {messageText message}"

/-- Leave what a later verification needs, and say how to make one. -/
def leaveBehind (directory : String) (report : Report) (key : DeviceKey) (nonce : Bytes)
    (platform : Digest) : Action m Unit := do
  let under (path : String) : String := joinPath directory path
  let place (bundle : Bundle) : String := under (withoutLeadingSlashes bundle.reference)
  onFile (Host.makeDirectories (under "apps") : m _)
  writeFile (under "loader.bin") demoLoader
  writeFile (under "runtime.bin") demoRuntime
  writeFile (place demoSensor) demoSensor.image.app
  writeFile (place demoActuator) demoActuator.image.app
  writeFile (under "report.bin") report.encode
  writeFile (under "device.pub") (Utf8.encode (Hex.encode key.publicKey.bytes.toBytes))
  writeFile (under "nonce.hex") (Utf8.encode (Hex.encode nonce))
  line ("\n  Wrote artifacts and report to " ++ directory)
  line ("  Check with: encmon verify " ++ directory ++ "/report.bin --public-key $(cat " ++
    directory ++ "/device.pub) --nonce $(cat " ++ directory ++ "/nonce.hex) \\")
  line ("    --loader " ++ directory ++ "/loader.bin --runtime " ++ directory ++
    "/runtime.bin --root " ++ directory ++ " --subject " ++ demoSensor.reference ++
    " --platform " ++ platform.toHex)

/-- How a verification ended, in a word. -/
def verdict (v : Verification) : String := if v.isTrusted then "TRUSTED" else "REJECTED"

/-- The demonstration once the monitor is there. -/
def demoSteps (key : DeviceKey) (platform : Digest) (out : Option String) :
    Supervised m Unit := do
  heading "\nStep 2: Launching enclaves..."
  let sensor ← launch demoSensor
  let actuator ← launch demoActuator
  heading s!"\nStep 3: Connecting {sensor.describe} -> {actuator.describe}..."
  call (·.connect sensor actuator)
  for id in [sensor, actuator] do
    let history ← ask (·.history id)
    say s!"  {id.describe} history={history.short}"
  heading "\nStep 4: Mailbox transfer..."
  let outbox ← ask (·.outbox sensor actuator)
  let inbox ← ask (·.inbox actuator)
  demoReadings.forM (handOver outbox inbox actuator)
  heading s!"\nStep 5: Attesting {sensor.describe}..."
  let nonce ← aside (Host.randomBytes 16 : m Bytes)
  let report ← ask (·.attest sensor nonce)
  say ("  Nonce:  " ++ Hex.encode nonce)
  say s!"  Report: {report.encode.length} bytes, {report.log.length} log entries"
  let artifacts := [demoSensor, demoActuator].map fun b => (b.reference, b.image.app)
  let verifier : Verifier :=
    ⟨key.publicKey, demoLoader, demoRuntime, fun r => artifacts.lookup r, some platform⟩
  say ("  Verified: " ++ verdict (verifier.verify report demoSensor.reference nonce))
  let wrong ← aside (Host.randomBytes 16 : m Bytes)
  say ("  Wrong nonce: " ++ verdict (verifier.verify report demoSensor.reference wrong))
  match out with
  | none => pure ()
  | some directory => aside (leaveBehind directory report key nonce platform)
  heading "\nStep 6: Teardown..."
  call (·.disconnect sensor actuator)
  for id in [sensor, actuator] do
    let (outcome, monitor) := (← get).destroy id
    set monitor
    say s!"  {id.describe} {outcome.name}"

/-- A device key from random bytes. -/
def randomKey : Action m DeviceKey := do
  let bytes ← (Host.randomBytes 32 : m Bytes)
  return ⟨⟨(bytes.padTo 32).take 32, by simp only [List.length_take, Bytes.length_padTo]; omega⟩⟩

/-- The whole demonstration. -/
def demo (config : Config) (out : Option String) : Action m Unit := do
  line demoBanner
  line "Step 1: Starting monitor..."
  line rule
  let key ← randomKey
  let identity := Identity.ofImage key demoPlatformImage config.platformRegionSize
  let monitor ←
    check (fun fault => .config (.invalid fault)) (Monitor.start config .initial identity)
  line ("  Device key: " ++ Hex.encode key.publicKey.bytes.toBytes)
  line ("  Platform:   " ++ identity.platform.short)
  let _ ← (demoSteps key identity.platform out).run monitor
  return ()

end Enclaves.Console
