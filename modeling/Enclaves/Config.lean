import Enclaves.Mailbox
import Enclaves.Region
/-!
# Configuration

The sizes and capacities that a monitor enforces. `Config.validate` refuses with the first rule that
is broken; what it accepts keeps every address below 2⁶⁴ and the length of the data in a report in
its 32 bits.
-/

namespace Enclaves

structure Config where
  /-- The first address of the memory that is handed out. -/
  dramBase : Nat := 0x80000000
  /-- The pages of that memory. -/
  totalPages : Nat := 16 * 1024
  /-- How many enclaves may live at once. -/
  maxEnclaves : Nat := 16
  /-- The pages each enclave shares with the host; none if zero. -/
  untrustedPages : Nat := 64
  /-- The pages of each enclave's connector; it cannot be connected if zero. -/
  connectorPages : Nat := 2
  /-- Entries in each connection log. -/
  logCapacity : Nat := 5
  /-- Bytes of a message on a connector. -/
  mailboxCapacity : Nat := 256
  /-- Bytes of data that a report may echo. -/
  attestDataMax : Nat := 1024
  /-- Bytes of the region that the platform image is measured in. -/
  platformRegionSize : Nat := 0x1ff000
  deriving DecidableEq, Repr

/-- Why a configuration is refused. -/
inductive ConfigFault where
  | misaligned (dramBase : Nat)
  | nothingToManage
  | rangeOverflow
  | noLog
  | mailboxSize (capacity pages : Nat)
  | dataTooLong
  deriving DecidableEq, Repr

def ConfigFault.message : ConfigFault → String
  | .misaligned dramBase => "dram_base " ++ Hex.address dramBase ++ " is not page aligned"
  | .nothingToManage => "total_pages and max_enclaves must be non-zero"
  | .rangeOverflow => "allocator range overflows the address space"
  | .noLog => "connection_log_capacity must be non-zero"
  | .mailboxSize capacity pages =>
    s!"mailbox_capacity {capacity} does not fit a {pages}-page connector region"
  | .dataTooLong => "attest_data_max exceeds the report length field"

namespace Config

/-- Whether a mailbox of the configured capacity fits a connector, which must have a size. -/
def mailboxFits (c : Config) : Bool :=
  c.connectorPages * pageSize < addressLimit &&
    0 < c.mailboxCapacity && c.mailboxCapacity ≤ c.connectorPages * pageSize - mailboxHeader

def validate (c : Config) : Except ConfigFault Unit :=
  if c.dramBase % pageSize ≠ 0 then .error (.misaligned c.dramBase)
  else if c.totalPages = 0 ∨ c.maxEnclaves = 0 then .error .nothingToManage
  else if addressLimit ≤ c.dramBase + c.totalPages * pageSize then .error .rangeOverflow
  else if c.logCapacity = 0 then .error .noLog
  else if c.connectorPages ≠ 0 ∧ !c.mailboxFits then
    .error (.mailboxSize c.mailboxCapacity c.connectorPages)
  else if UInt32.size ≤ c.attestDataMax then .error .dataTooLong
  else .ok ()

/-- What every accepted configuration satisfies. -/
structure Valid (c : Config) : Prop where
  dram_aligned : c.dramBase % pageSize = 0
  pages_pos : 0 < c.totalPages
  enclaves_pos : 0 < c.maxEnclaves
  stop_lt : c.dramBase + c.totalPages * pageSize < addressLimit
  log_pos : 0 < c.logCapacity
  mailbox_fits : c.connectorPages ≠ 0 → c.mailboxFits = true
  data_lt : c.attestDataMax < UInt32.size

/-- The rules are the property. -/
theorem validate_eq_ok_iff {c : Config} : c.validate = .ok () ↔ c.Valid := by
  unfold validate
  constructor
  · intro h
    split at h
    · cases h
    split at h
    · cases h
    split at h
    · cases h
    split at h
    · cases h
    split at h
    · cases h
    split at h
    · cases h
    rename_i hdram hpages hstop hlog hmailbox hdata
    refine ⟨by omega, by omega, by omega, by omega, by omega, fun hconnector => ?_, by omega⟩
    simpa [hconnector] using hmailbox
  · intro h
    have hpages := h.pages_pos
    have henclaves := h.enclaves_pos
    have hstop := h.stop_lt
    have hlog := h.log_pos
    have hdata := h.data_lt
    rw [if_neg (by simp [h.dram_aligned]), if_neg (by omega), if_neg (by omega),
      if_neg (by omega), if_neg (by simpa using h.mailbox_fits), if_neg (by omega)]

end Config

end Enclaves
