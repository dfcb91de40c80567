import Enclaves.Monitor.Access
import Enclaves.Monitor.Connection
import Enclaves.Monitor.Lifecycle
/-!
# Calls as data

The monitor's calls as one type, their replies as another, and `Monitor.step` between them. A run of
the monitor is a list of acts: calls, and what happens around them, that is, what the platform will
do next, what the host writes to shared memory, and what passes through mailboxes.
-/

namespace Enclaves

/-- A call of the monitor. -/
inductive Call where
  | allocate (minPages : Nat)
  | setReference (id : EnclaveId) (text : String)
  | load (id : EnclaveId) (bundle : Bundle)
  | finalize (id : EnclaveId) (layout : Layout)
  | run (id : EnclaveId)
  | resume (id : EnclaveId)
  | destroy (id : EnclaveId)
  | release (id : EnclaveId)
  | setDestroyOnRelease (id : EnclaveId) (flag : Bool)
  | connect (a b : EnclaveId)
  | disconnect (a b : EnclaveId)
  | attest (id : EnclaveId) (data : Bytes)

/-- What a call answers. -/
inductive Reply where
  | done
  | allocated (id : EnclaveId)
  | loaded (layout : Layout)
  | finalized (digest : Digest)
  | entered (exit : DomainExit)
  | gone (outcome : Monitor.DestroyOutcome)
  | attested (report : Report)

/-- What happens around the calls. -/
inductive Happening where
  | scriptEntry (id : EnclaveId) (result : Except PlatformFault DomainExit)
  | refuseMaps (id : EnclaveId) (refuse : Bool)
  | failReleases (fail : Bool)
  | writeUntrusted (id : EnclaveId) (offset : Nat) (bytes : Bytes)
  | send (mailbox : MailboxId) (message : Bytes)
  | receive (mailbox : MailboxId) (room : Nat)

/-- A step of a run. -/
inductive Act where
  | call (call : Call)
  | happening (happening : Happening)

namespace Monitor

/-- What an operation answered, as a reply. -/
def answer {α : Type} (reply : α → Reply) (outcome : Except MonitorError α × Monitor) :
    Except MonitorError Reply × Monitor :=
  (outcome.1.map reply, outcome.2)

/-- One call, with its reply. -/
def step (m : Monitor) : Call → Except MonitorError Reply × Monitor
  | .allocate minPages => answer .allocated (m.allocate minPages)
  | .setReference id text => answer (fun _ => .done) (m.setReference id text)
  | .load id bundle => answer .loaded (m.load id bundle)
  | .finalize id layout => answer .finalized (m.finalize id layout)
  | .run id => answer .entered (m.run id)
  | .resume id => answer .entered (m.resume id)
  | .destroy id => (.ok (.gone (m.destroy id).1), (m.destroy id).2)
  | .release id => (.ok (.gone (m.release id).1), (m.release id).2)
  | .setDestroyOnRelease id flag => answer (fun _ => .done) (m.setDestroyOnRelease id flag)
  | .connect a b => answer (fun _ => .done) (m.connect a b)
  | .disconnect a b => answer (fun _ => .done) (m.disconnect a b)
  | .attest id data => ((m.attest id data).map .attested, m)

/-- The monitor after something happened around it. -/
def undergo (m : Monitor) : Happening → Monitor
  | .scriptEntry id result => { m with platform := m.platform.scriptEntry id result }
  | .refuseMaps id refuse => { m with platform := m.platform.refuseMaps id refuse }
  | .failReleases fail => { m with platform := m.platform.failReleases fail }
  | .writeUntrusted id offset bytes => (m.writeUntrusted id offset bytes).2
  | .send mailbox message =>
    match m.send? mailbox message with
    | some (_, m) => m
    | none => m
  | .receive mailbox room =>
    match m.receive? mailbox room with
    | some (_, m) => m
    | none => m

/-- The monitor after an act. -/
def act (m : Monitor) : Act → Monitor
  | .call call => (m.step call).2
  | .happening happening => m.undergo happening

/-- The monitor after a run. -/
def perform (m : Monitor) (acts : List Act) : Monitor := acts.foldl act m

@[simp] theorem perform_nil (m : Monitor) : m.perform [] = m := rfl

/-- Two runs in a row are one. -/
theorem perform_append (m : Monitor) (first rest : List Act) :
    m.perform (first ++ rest) = (m.perform first).perform rest := by
  simp [perform]

end Monitor

end Enclaves
