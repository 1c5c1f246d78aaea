import Estuary.Spec.Crew
import Estuary.Spec.Store

/-!
# Estuary — the daemon and the bucket

The workers of `Estuary.Spec.Crew` send their requests to one bucket, in the order in which they carry
them out.
-/

namespace Estuary

open Engine

/-- The daemon with its items, and what S3 has made of their requests. -/
structure Service where
  crew : Crew
  store : Store

/-- What worker `i` has carried out so far: nothing, before it is created. -/
def Crew.carried (s : Crew) (i : Nat) : List Event := s.logs[i]?.getD []

/-- The entry that a step carries out, if it is a worker's and not its end. -/
def nextEntry (cfg : Config) (lib : LibS3) (jobs : Nat → Job) (s : Crew) : CrewAct → Option Event
  | .work i => (s.logs[i]?).bind fun l => ((jobs i).process cfg lib).log[l.length]?
  | .other _ => none

/-- One step of the daemon, with what it does to the bucket. -/
def serviceStep (cfg : Config) (lib : LibS3) (jobs : Nat → Job) (maxRequests : Nat)
    (listed : List Char → List Nat) (s : Service) (a : CrewAct) : Option Service :=
  (crewStep cfg lib jobs maxRequests s.crew a).map fun crew =>
    ⟨crew, (nextEntry cfg lib jobs s.crew a).elim s.store (s.store.act listed)⟩

end Estuary
