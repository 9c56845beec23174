import CompanyBrain.Foundations.Interleaving
import CompanyBrain.Foundations.JsText
import CompanyBrain.Foundations.Ranking
import CompanyBrain.Foundations.Table

namespace CompanyBrain.Resolution

open Foundations

structure SoulRevision where
  content : String
  version : Nat
  updatedAt : Nat
  updatedBy : Option String
deriving DecidableEq

structure PersistedSoul where
  content : String
  version : Nat
  updatedAt : Option Nat
  updatedBy : Option String
  history : Option (List SoulRevision)
deriving DecidableEq

structure CachedSoul where
  content : String
  version : Nat

structure SoulCache where
  soul : Option CachedSoul
  history : Option (List SoulRevision)
  legacy : Option (List SoulRevision)

def SoulCache.version (cache : SoulCache) : Nat := (cache.soul.map CachedSoul.version).getD 0

section

variable (i : Nat) (expected : Nat) (content : String) (updatedBy : Option String)

section

variable (s : SoulStore) (soul : PersistedSoul) (r : SoulRevision)

def SoulRevision.persisted (history : List SoulRevision) : PersistedSoul :=
  ⟨r.content,r.version,some r.updatedAt,r.updatedBy,some history⟩

def PersistedSoul.cached : CachedSoul := ⟨soul.content,soul.version⟩

def PersistedSoul.revision : SoulRevision :=
  ⟨soul.content,soul.version,soul.updatedAt.getD 0,truthy soul.updatedBy⟩

def mergeSoulHistory (embedded : Option (List SoulRevision)) (legacy : List SoulRevision) : List SoulRevision :=
  ranked SoulRevision.version
    ((legacy ++ embedded.getD []).foldl Table.set (Table.empty : Table SoulRevision.version)).rows

def historyIncludingCurrent (current : PersistedSoul) (legacy : List SoulRevision) : List SoulRevision :=
  let history := mergeSoulHistory current.history legacy
  if history.any fun r => r.version = current.version then history
  else ranked SoulRevision.version (history ++ [current.revision])

def extendHistory (current : PersistedSoul) (legacy : List SoulRevision) (r : SoulRevision) : PersistedSoul :=
  r.persisted (r :: historyIncludingCurrent current (if current.history = none then legacy else []))

structure Accepted where
  revision : SoulRevision
  expected : Option Nat
deriving DecidableEq

structure SoulStore where
  clock : Nat
  durable : Option PersistedSoul
  caches : Nat → SoulCache
  log : List Accepted

def SoulStore.setCache (i : Nat) (cache : SoulCache) : SoulStore :=
  {s with caches := Function.update s.caches i cache}

def SoulStore.accept (expected : Option Nat) : SoulStore :=
  {s with durable := some soul, log := s.log ++ [⟨r,expected⟩]}

def putSoul (tail : List SoulRevision) (s : SoulStore) : SoulStore :=
  s.accept (r.persisted (r :: tail)) r none

def deleteSoul : SoulStore := {s with durable := none}

def appendSoul (legacy : List SoulRevision) (s : SoulStore) : SoulStore × Option PersistedSoul :=
  match s.durable with
  | none => (s,none)
  | some current =>
    let r : SoulRevision := ⟨content,current.version+1,s.clock,truthy updatedBy⟩
    (s.accept (extendHistory current legacy r) r none,some (extendHistory current legacy r))

-- `putIfAbsent`; the random mutation id tells the caller whether the insertion was its own.
def createSoul (expected : Option Nat) (r : SoulRevision) (s : SoulStore) : SoulStore × Bool :=
  match s.durable with
  | none => (s.accept (r.persisted [r]) r expected,true)
  | some _ => (s,false)

def compareSoul (legacy : List SoulRevision) (s : SoulStore) : SoulStore × Option PersistedSoul :=
  match s.durable with
  | none => (s,none)
  | some current =>
    if current.version = expected then
      (s.accept (extendHistory current legacy r) r (some expected),some (extendHistory current legacy r))
    else (s,none)

inductive SoulLabel where
  | silent
  | put (read : SoulCache) (r : SoulRevision)
  | delete
  | append (content : String) (updatedBy : Option String) (legacy : List SoulRevision)
  | create (expected : Option Nat) (r : SoulRevision)
  | compare (expected : Nat) (r : SoulRevision) (legacy : List SoulRevision)

abbrev SoulTask := Task SoulStore SoulLabel

def beginSetSoul : SoulStore × SoulCache × SoulRevision :=
  let read := s.caches i
  let r : SoulRevision := ⟨content,read.version+1,s.clock,truthy updatedBy⟩
  let history := r :: read.history.getD []
  (s.setCache i {read with soul := some ⟨content,r.version⟩, history := some history},read,r)

def setSoul : SoulTask :=
  .call .silent (beginSetSoul i content updatedBy) .done fun (read,r) =>
    .call (.put read r) (fun s => (putSoul r (read.history.getD []) s,())) .done fun _ => .done

def loadCache : SoulTask :=
  .call .silent (fun s => (s.setCache i ⟨some soul.cached,soul.history,none⟩,())) .done fun _ => .done

end

def setSoulLatest : SoulTask :=
  .read .silent (fun s => (s.caches i).legacy.getD []) .done fun legacy =>
    .call (.append content updatedBy legacy) (appendSoul content updatedBy legacy) .done fun
      | some saved => loadCache i saved
      | none =>
        .read .silent (fun s => (⟨content,(s.caches i).version+1,s.clock,truthy updatedBy⟩ : SoulRevision)) .done
          fun r =>
            .call (.create none r) (createSoul none r) .done fun
              | true => loadCache i (r.persisted [r])
              | false =>
                .call (.append content updatedBy legacy) (appendSoul content updatedBy legacy) .done fun
                  | some saved => loadCache i saved
                  | none => .done

def setSoulIfVersion : SoulTask :=
  .read .silent (fun s =>
      ((⟨content,expected+1,s.clock,truthy updatedBy⟩ : SoulRevision),(s.caches i).legacy.getD [])) .done
    fun (r,legacy) =>
      .read .silent SoulStore.durable .done fun
        | none =>
          .read .silent (fun s => (s.caches i).version) .done fun version =>
            if version ≠ expected then .done
            else
              .call (.create (some expected) r) (createSoul (some expected) r) .done fun
                | true => loadCache i (r.persisted [r])
                | false => .done
        | some _ =>
          .call (.compare expected r legacy) (compareSoul expected r legacy) .done fun
            | some saved => loadCache i saved
            | none => .done

end

def clearSoul (fallback : Option CachedSoul) (i : Nat) : SoulTask :=
  .call .silent (fun s => (s.setCache i ⟨fallback,none,none⟩,())) .done fun _ =>
    .call .delete (fun s => (deleteSoul s,())) .done fun _ => .done

inductive SoulRequest where
  | set (i : Nat) (content : String) (updatedBy : Option String)
  | latest (i : Nat) (content : String) (updatedBy : Option String)
  | ifVersion (i : Nat) (expected : Nat) (content : String) (updatedBy : Option String)
  | clear (i : Nat)

def SoulRequest.task (fallback : Option CachedSoul) : SoulRequest → SoulTask
  | .set i content updatedBy => setSoul i content updatedBy
  | .latest i content updatedBy => setSoulLatest i content updatedBy
  | .ifVersion i expected content updatedBy => setSoulIfVersion i expected content updatedBy
  | .clear i => clearSoul fallback i

inductive SoulEvent where
  | tick (ms : Nat)
  | reload (i : Nat) (cache : SoulCache)

def SoulEvent.apply : SoulEvent → SoulStore → SoulStore
  | .tick ms, s => {s with clock := s.clock + ms}
  | .reload i cache, s => s.setCache i cache

def soulSystem (fallback : Option CachedSoul) : System SoulStore SoulLabel SoulRequest SoulEvent :=
  ⟨SoulRequest.task fallback,SoulEvent.apply⟩

abbrev SoulPool := Pool SoulStore SoulLabel

abbrev SoulStep := PoolStep SoulRequest SoulEvent

end CompanyBrain.Resolution
