import Freebird.Delegate.State

/-!
# The probe of old delegates

A rebuilt delegate is a new delegate with an empty store. On a page load without an account the UI
asks every old generation what it holds and stores the answers in the current one. While answers are
out, a gate holds the account screen; one counter of answers and one budget of acks are all that is
remembered of them.
-/

namespace Freebird

/-! ## The globals of the probe -/

structure LegacyProbe where
  probeDone : Bool
  probeOutstanding : Int
  /-- Empty responses that are the acks of a registration. -/
  legacyAckBudget : Int
  legacyProbePending : Bool
  legacyProbeFailed : Bool
  /-- Whether an account is open. -/
  account : Bool
  /-- Whether the current delegate has answered, and with which seed. -/
  postingKeyLoaded : Option (Option (List U8))
  deriving DecidableEq

/-- What a response makes the UI send. -/
inductive Spawned where
  | gets (keys : List String)
  | store (key : String) (value : List U8)
  deriving DecidableEq

/-- The keys that are asked for. -/
def Spawned.keys : Option Spawned → List String
  | some (.gets keys) => keys
  | _ => []

namespace LegacyProbe

variable (self : LegacyProbe)

/-- Claims the probe of this page load and raises the gate, if there are old generations. -/
def beginLegacyProbe (legacy : Nat) : Bool × LegacyProbe :=
  if self.probeDone then (false, self)
  else
    let self := { self with probeDone := true }
    if legacy = 0 then (false, self)
    else (true, { self with probeOutstanding := legacy, legacyProbePending := true })

/-- The gate drops when no answers are left. -/
def probeNote (delta : Int) : LegacyProbe :=
  let left := self.probeOutstanding + delta
  { self with
    probeOutstanding := left
    legacyProbePending := if left ≤ 0 then false else self.legacyProbePending }

def registerLegacy : LegacyProbe := { self with legacyAckBudget := self.legacyAckBudget + 1 }

/-- The loop of `run_legacy_probe` after a send that failed. -/
def sendFailed : LegacyProbe := { self with legacyProbeFailed := true }.probeNote (-1)

/-- The end of `run_legacy_probe`. -/
def timeOut : LegacyProbe :=
  if self.legacyProbePending then { self with legacyProbeFailed := true, legacyProbePending := false }
  else self

/-- An empty response beyond the acks is an error that the node swallowed. -/
def noteEmptyLegacyResponse : LegacyProbe :=
  let paid := { self with legacyAckBudget := self.legacyAckBudget - 1 }
  if 0 < self.legacyAckBudget then paid
  else { paid with legacyProbeFailed := true }.probeNote (-1)

/-- A response of an old generation, `none` if it cannot be read. -/
def dispatchLegacyKv : Option FreebirdDelegateResponse → LegacyProbe × Option Spawned
  | some (.keyList keys) => (self.probeNote (keys.length - 1), some (.gets keys))
  | some (.value key (some value)) =>
    let self := self.probeNote (-1)
    if key = "posting_key" then
      -- An identity that is already there wins.
      if self.account || self.postingKeyLoaded.any (·.isSome) then (self, none)
      else ({ self with postingKeyLoaded := some (some value) }, some (.store key value))
    else (self, some (.store key value))
  | some (.value _ none) => (self.probeNote (-1), none)
  | some (.error _) => (self.probeNote (-1), none)
  | some (.stored _) => (self, none)
  | some (.deleted _) => (self, none)
  | none => (self, none)

end LegacyProbe

/-! ## The probe and what is under way -/

/-- A request to a generation that owes an answer. -/
inductive Ask (G : Type) where
  | list (g : G)
  | get (g : G) (key : String)
  deriving DecidableEq

/-- Where `run_legacy_probe` stands. -/
inductive Phase (G : Type) where
  | idle
  | loop (todo : List G)
  | listing (g : G) (todo : List G)
  | ended
  deriving DecidableEq

inductive ProbeEvent (G : Type) where
  | begin
  | registerSent
  | registerFailed
  | listSent
  | listFailed
  | timeout
  | getSent (g : G) (key : String)
  | getFailed (g : G) (key : String)
  /-- The empty response to a registration. -/
  | acked (g : G)
  /-- The empty response to a request whose answer never comes. -/
  | swallowed (ask : Ask G)
  | answered (ask : Ask G) (response : Option FreebirdDelegateResponse)
  deriving DecidableEq

/-- The globals, the requests not yet sent, those sent and not yet answered, and the responses heard
so far. -/
structure CarryForward (G : Type) where
  probe : LegacyProbe
  phase : Phase G
  registers : Multiset G
  unsent : Multiset (G × String)
  sent : Multiset (Ask G)
  heard : List (G × Option FreebirdDelegateResponse)

variable {G : Type}

namespace Ask

def generation : Ask G → G
  | .list g => g
  | .get g _ => g

/-- The responses a request can have; any of them may be an error or be unreadable. -/
def admits : Ask G → Option FreebirdDelegateResponse → Bool
  | _, none => true
  | _, some (.error _) => true
  | .list _, some (.keyList _) => true
  | .get _ key, some (.value key' _) => key = key'
  | _, _ => false

end Ask

namespace CarryForward

/-- A page load before the probe. -/
def initial (account : Bool) (postingKeyLoaded : Option (Option (List U8))) : CarryForward G where
  probe := ⟨false, 0, 0, false, false, account, postingKeyLoaded⟩
  phase := .idle
  registers := 0
  unsent := 0
  sent := 0
  heard := []

variable [DecidableEq G] (legacy : List G)

/-- One step of the UI or of the node; `none` where the event cannot happen. -/
def step (s : CarryForward G) : ProbeEvent G → Option (CarryForward G)
  | .begin =>
    match s.probe.beginLegacyProbe legacy.length with
    | (true, probe) => some { s with probe, phase := .loop legacy }
    | (false, probe) => some { s with probe }
  | .registerSent =>
    match s.phase with
    | .loop (g :: todo) => some { s with
        probe := s.probe.registerLegacy, phase := .listing g todo, registers := g ::ₘ s.registers }
    | _ => none
  | .registerFailed =>
    match s.phase with
    | .loop (_ :: todo) => some { s with
        probe := s.probe.registerLegacy.sendFailed, phase := .loop todo }
    | _ => none
  | .listSent =>
    match s.phase with
    | .listing g todo => some { s with phase := .loop todo, sent := .list g ::ₘ s.sent }
    | _ => none
  | .listFailed =>
    match s.phase with
    | .listing _ todo => some { s with probe := s.probe.sendFailed, phase := .loop todo }
    | _ => none
  | .timeout =>
    match s.phase with
    | .loop [] => some { s with probe := s.probe.timeOut, phase := .ended }
    | _ => none
  | .getSent g key =>
    if (g, key) ∈ s.unsent then
      some { s with unsent := s.unsent.erase (g, key), sent := .get g key ::ₘ s.sent }
    else none
  | .getFailed g key =>
    if (g, key) ∈ s.unsent then
      some { s with probe := s.probe.probeNote (-1), unsent := s.unsent.erase (g, key) }
    else none
  | .acked g =>
    if g ∈ s.registers then
      some { s with probe := s.probe.noteEmptyLegacyResponse, registers := s.registers.erase g }
    else none
  | .swallowed ask =>
    if ask ∈ s.sent then
      some { s with probe := s.probe.noteEmptyLegacyResponse, sent := s.sent.erase ask }
    else none
  | .answered ask response =>
    if ask ∈ s.sent ∧ ask.admits response then
      let g := ask.generation
      let (probe, spawned) := s.probe.dispatchLegacyKv response
      let gets := (Spawned.keys spawned).map fun key => (g, key)
      some { s with
        probe, sent := s.sent.erase ask, unsent := s.unsent + gets
        heard := s.heard ++ [(g, response)] }
    else none

end CarryForward

end Freebird
